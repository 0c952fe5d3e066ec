import Bankie.Traces

/-!
Completed means applied.
A transaction, its outbox row and the log of its ledger are written by different workers in
separate commits. A tick marks a movement only after it has executed it, so the mark is never
ahead of the log, whatever calls fail and however ticks overlap.
-/
namespace Bankie

open Program Transition

def LedgerEvent.Settles (action : LedgerAction) (transactionId : Uuid) (amount : Money) :
    LedgerEvent → Prop
  | .ledgerInitiated .. => False
  | .ledgerUpdated amount' tx kind _ _ _ =>
    kind = (match action with
      | .deposit => "credit_release"
      | .withdraw => "debit_release") ∧ tx = transactionId.toString ∧ amount' = amount

/-- A transaction and its outbox row say the same, and completed means applied: the log of
the ledger in the row has the settlement that the row spells out. -/
structure Store.MovesTogether (s : Store) (t : Transaction) (row : Outbox) : Prop where
  status : t.status = "processing" ∨ t.status = "completed"
  processing : t.status = "processing" ↔ row.processed = false
  completed : t.status = "completed" ↔ row.processed = true
  applied : ∃ action ledger account amount, t.transactionType = .ok action ∧
    parseEvent row = .ok (ledger.toString, action.settlement ledger account t.id amount, t.id) ∧
    (t.status = "completed" →
      ∃ e ∈ s.ledgerEvents ledger.toString, e.Settles action t.id amount)

/-- Every transaction has exactly one row, and moves together with it. -/
def Store.CompletedApplied (s : Store) : Prop :=
  ∀ t ∈ s.transactions, ∃ row,
    s.outbox.filter (fun row => row.transactionId = t.id) = [row] ∧ s.MovesTogether t row

namespace Bank

variable {m m' : Bank}

/-- The settlement of the movement is in the book of its ledger. -/
def Applied (m : Bank) (mv : Movement) : Prop :=
  ∃ b now, m.books mv.ledger = some b ∧ mv.settlement now ∈ b.postings

/-- What is marked, or about to be marked, is applied. -/
structure MarksApplied (m : Bank) : Prop where
  completed : ∀ tx ∈ m.completed, ∃ mv ∈ m.movements, mv.tx = tx ∧ m.Applied mv
  executed : ∀ t ∈ m.ticks, ∀ mv ∈ t.executed, mv ∈ m.movements ∧ m.Applied mv

theorem marksApplied_init (houses : List HouseAccount) : (init houses).MarksApplied where
  completed _ htx := absurd htx List.not_mem_nil
  executed _ ht := absurd ht List.not_mem_nil

theorem Applied.step (hwf : m.WF) {mv : Movement} (hmv : m.Applied mv) {a : Action}
    (h : m.Step a m') : m'.Applied mv := by
  obtain ⟨b, now, hb, hin⟩ := hmv
  rcases h.book_kept hwf hb with hsame | ⟨p, hpost, -⟩
  · exact ⟨b, now, hsame, hin⟩
  · exact ⟨b.post p, now, hpost, List.mem_append_left _ hin⟩

/-- Only what a tick has executed is marked. -/
theorem Step.completed {a : Action} (h : m.Step a m') :
    ∀ tx ∈ m'.completed, tx ∈ m.completed ∨ ∃ t ∈ m.ticks, ∃ mv ∈ t.executed, mv.tx = tx := by
  intro tx htx
  cases h with
  | complete i o lockValue mv rest hi =>
    rcases List.mem_cons.mp htx with rfl | hold
    · exact Or.inr ⟨_, List.mem_of_getElem? hi, mv, rfl, rfl⟩
    · exact Or.inl hold
  | _ => exact Or.inl htx

theorem TickPoint.executed_loop (lockValue : String) (batch : List Movement) :
    (TickPoint.loop lockValue batch).executed = none := by cases batch <;> rfl

/-- A tick has executed nothing but what it just posted. -/
theorem Ticks.executed_next {t t' : TickPoint} (h : m.Ticks t t') : t'.executed = none := by
  cases h with
  | expire lockValue batch => exact TickPoint.executed_loop lockValue batch
  | _ => rfl

/-- What is executed and not yet marked was so before, or is posted by this step. -/
theorem Step.executed (hwf : m.WF) {a : Action} (h : m.Step a m') :
    ∀ t ∈ m'.ticks, ∀ mv ∈ t.executed,
      (∃ t ∈ m.ticks, mv ∈ t.executed) ∨ mv ∈ m.movements ∧ m'.Applied mv := by
  intro t ht mv hmv
  have hset : ∀ {i : ℕ} {t' : TickPoint}, t'.executed = none → t ∈ m.ticks.set i t' →
      ∃ t ∈ m.ticks, mv ∈ t.executed := by
    intro i t' hnone hmem
    rcases List.mem_or_eq_of_mem_set hmem with hold | rfl
    · exact ⟨t, hold, hmv⟩
    · rw [hnone] at hmv
      cases hmv
  cases h with
  | startTick lockValue hfresh =>
    rcases List.mem_append.mp ht with hold | hnew
    · exact Or.inl ⟨t, hold, hmv⟩
    · rw [List.mem_singleton.mp hnew] at hmv
      cases hmv
  | tick i o q q' hi hq => exact Or.inl (hset hq.executed_next ht)
  | execute i o lockValue mv' rest b hok hi hb =>
    rcases List.mem_or_eq_of_mem_set ht with hold | rfl
    · exact Or.inl ⟨t, hold, hmv⟩
    · obtain rfl := Option.some.inj hmv
      refine Or.inr ⟨hwf.rows _ (List.mem_of_getElem? hi) mv' List.mem_cons_self,
        b.post (mv'.settlement o.now), o.now, by simp, ?_⟩
      exact List.mem_append_right _ (List.mem_singleton_self _)
  | executeFails i o lockValue mv' rest hi hfail =>
    exact Or.inl (hset (TickPoint.executed_loop lockValue rest) ht)
  | complete i o lockValue mv' rest hi =>
    exact Or.inl (hset (TickPoint.executed_loop lockValue rest) ht)
  | completeFails i o lockValue mv' rest hi hfail =>
    exact Or.inl (hset (TickPoint.executed_loop lockValue rest) ht)
  | _ => exact Or.inl ⟨t, ht, hmv⟩

theorem MarksApplied.step (hm : m.MarksApplied) (hwf : m.WF) {a : Action} (h : m.Step a m') :
    m'.MarksApplied where
  completed tx htx := by
    rcases h.completed tx htx with hold | ⟨t, ht, mv, hmv, rfl⟩
    · obtain ⟨mv, hmv, rfl, happlied⟩ := hm.completed tx hold
      exact ⟨mv, h.movements_subset mv hmv, rfl, happlied.step hwf h⟩
    · obtain ⟨hin, happlied⟩ := hm.executed t ht mv hmv
      exact ⟨mv, h.movements_subset mv hin, rfl, happlied.step hwf h⟩
  executed t ht mv hmv := by
    rcases h.executed hwf t ht mv hmv with ⟨t', ht', hmv'⟩ | ⟨hin, happlied⟩
    · obtain ⟨hin, happlied⟩ := hm.executed t' ht' mv hmv'
      exact ⟨h.movements_subset mv hin, happlied.step hwf h⟩
    · exact ⟨h.movements_subset mv hin, happlied⟩

theorem marksApplied_invariant :
    machine.Invariant (fun m => (m.WF ∧ m.Numbered) ∧ m.MarksApplied) := by
  refine wf_invariant.strengthen ?_ (fun _ _ _ hm hc h => hc.step hm.1 h)
  rintro m ⟨houses, rfl⟩
  exact marksApplied_init houses

end Bank

/-- The events of a settlement end with the one that settles the transaction. -/
theorem Movement.settles (mv : Movement) (now : String) (owner : Uuid) :
    ∃ e ∈ (mv.settlement now).events mv.ledger owner mv.amount.currency,
      e.Settles mv.action mv.tx mv.amount := by
  obtain ⟨d, account, ledger, house, action, amount, n⟩ := mv
  cases action with
  | deposit => exact ⟨_, List.mem_cons_of_mem _ List.mem_cons_self, rfl, rfl, rfl⟩
  | withdraw => exact ⟨_, List.mem_cons_self, rfl, rfl, rfl⟩

namespace Represents

variable {s : Store} {m : Bank}

theorem settles (h : Represents s m) (hwf : m.WF) {mv : Movement} (hmv : mv ∈ m.movements)
    (happlied : m.Applied mv) :
    ∃ e ∈ s.ledgerEvents mv.ledger.toString, e.Settles mv.action mv.tx mv.amount := by
  obtain ⟨b, now, hb, hin⟩ := happlied
  obtain ⟨b', hb', -, -, hcurrency⟩ := hwf.movements mv hmv
  obtain rfl := Option.some.inj (hb.symm.trans hb')
  obtain ⟨e, he, hsettles⟩ := mv.settles now b.owner
  refine ⟨e, ?_, hsettles⟩
  rw [h.ledgerEvents_at, Bank.ledgerLog, hb]
  refine List.mem_append_right _ (List.mem_flatMap.mpr ⟨_, hin, ?_⟩)
  rw [hcurrency]
  exact he

theorem filter_outbox (h : Represents s m) (hnum : m.Numbered) {mv : Movement}
    (hmv : mv ∈ m.movements) :
    s.outbox.filter (fun row => row.transactionId = mv.tx) =
      [mv.row (decide (mv.tx ∈ m.completed))] := by
  have hfilter := filter_key Movement.tx hnum.tx_nodup hmv
  rw [h.outbox, List.filter_map]
  exact congrArg (List.map _) hfilter

end Represents

/-- One flag decides the status of the transaction and the mark of the row. -/
theorem Movement.status (completed : Bool) (mv : Movement) :
    ((mv.transaction completed).status = "processing" ∨
        (mv.transaction completed).status = "completed") ∧
      ((mv.transaction completed).status = "processing" ↔ (mv.row completed).processed = false) ∧
      ((mv.transaction completed).status = "completed" ↔ (mv.row completed).processed = true) := by
  cases completed <;> simp [transaction, row, settlementRow]

theorem Movement.movesTogether {s : Store} {m : Bank} (h : Represents s m) (hwf : m.WF)
    (hnum : m.Numbered) (hmarks : m.MarksApplied) {mv : Movement} (hmv : mv ∈ m.movements) :
    s.MovesTogether (mv.transaction (decide (mv.tx ∈ m.completed)))
      (mv.row (decide (mv.tx ∈ m.completed))) := by
  obtain ⟨hstatus, hprocessing, hcompleted⟩ := mv.status (decide (mv.tx ∈ m.completed))
  refine ⟨hstatus, hprocessing, hcompleted, mv.action, mv.ledger, mv.account, mv.amount,
    transactionType_transactionOf mv.draws mv.account mv.amount mv.action,
    parseEvent_settlementRow .., fun hdone => ?_⟩
  obtain ⟨mv', hmv', htx, hin⟩ := hmarks.completed mv.tx (of_decide_eq_true (hcompleted.mp hdone))
  obtain rfl := hnum.movement_eq hmv' hmv htx
  exact h.settles hwf hmv' hin

/-- In every reachable state a transaction has exactly one outbox row, the two are marked
together, and a completed transaction is applied. -/
theorem completed_applied {st : System} (h : System.machine.Reachable st) :
    st.store.CompletedApplied := by
  obtain ⟨m, hreach, hmodels, -⟩ := refinement.reachable h
  obtain ⟨⟨hwf, hnum⟩, hmarks⟩ := Bank.marksApplied_invariant.reachable hreach
  intro t ht
  rw [hmodels.store.transactions] at ht
  obtain ⟨mv, hmv, rfl⟩ := List.mem_map.mp ht
  exact ⟨_, hmodels.store.filter_outbox hnum hmv,
    mv.movesTogether hmodels.store hwf hnum hmarks hmv⟩

theorem completed_applied_funded : ∃ st : System,
    (st.store.transactions.map Transaction.status) = ["completed"] ∧
      st.store.CompletedApplied := by
  have hrun : (((System.init []).run Scenario.funded).map
      (fun st => st.store.transactions.map Transaction.status)) = some ["completed"] := by
    decide +kernel
  obtain ⟨st, hst, hstatus⟩ := Option.map_eq_some_iff.mp hrun
  exact ⟨st, hstatus, completed_applied (System.reachable_of_run hst)⟩

end Bankie
