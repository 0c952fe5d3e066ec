import Bankie.Overdraft

/-!
When an outbox row is applied at most once.
The rows are fetched before the lock is taken, and the execute and the mark are two
commits. So a row is applied twice where a tick executes a row that was marked after its
fetch, or where the mark failed. Runs that do neither apply every row at most once.
-/
namespace Bankie

open Program Transition

/-- The event that ends a credit or a debit of this transaction. -/
def LedgerEvent.Releases (kind transactionId : String) : LedgerEvent → Bool
  | .ledgerInitiated .. => false
  | .ledgerUpdated _ tx type _ _ _ => decide (type = kind ∧ tx = transactionId)

/-- No ledger log has two events that release the same transaction. -/
def Store.AppliedAtMostOnce (s : Store) : Prop :=
  ∀ ledgerId transactionId, ∀ kind ∈ ["credit_release", "debit_release"],
    (s.ledgerEvents ledgerId).countP (LedgerEvent.Releases kind transactionId) ≤ 1

def LedgerCommand.transactionId : LedgerCommand → Option Uuid
  | .init .. => none
  | .credit _ _ transactionId _ => some transactionId
  | .debitHold _ _ transactionId _ => some transactionId
  | .debitRelease _ _ transactionId _ => some transactionId

def executing (p : Code Unit) : Option Uuid :=
  match p.nextCall with
  | some (.executeLedger _ command) => command.transactionId
  | _ => none

def marking (p : Code Unit) : Option Uuid :=
  match p.nextCall with
  | some (.completeTransaction transactionId) => some transactionId
  | _ => none

namespace System

/-- A tick executes a row only while the row is unprocessed and no tick is about to mark it,
and no mark fails. -/
def SettlesOpenRow (st : System) : Action → Prop
  | .tick i o => ∀ p ∈ st.ticks[i]?,
      (o.fail = none → ∀ tx ∈ executing p,
        (∀ row ∈ st.store.outbox, row.transactionId = tx → row.processed = false) ∧
          ∀ q ∈ st.ticks, marking q ≠ some tx) ∧
      (o.fail ≠ none → marking p = none)
  | _ => True

instance (st : System) (a : Action) : Decidable (st.SettlesOpenRow a) :=
  match a with
  | .tick i _ => inferInstanceAs (Decidable (∀ p ∈ st.ticks[i]?, _))
  | .submit .. => .isTrue trivial
  | .receive _ => .isTrue trivial
  | .consumer _ => .isTrue trivial
  | .startTick _ => .isTrue trivial
  | .startRequest .. => .isTrue trivial
  | .request .. => .isTrue trivial
  | .expireKey _ => .isTrue trivial

end System

def Book.settled (b : Book) : List Uuid :=
  (b.postings.filter (fun p => p.kind ≠ .hold)).map Posting.transactionId

theorem Book.settled_post (p : Posting) (b : Book) :
    (b.post p).settled = b.settled ++ if p.kind = .hold then [] else [p.transactionId] := by
  by_cases hk : p.kind = .hold <;> simp [Book.settled, Book.post, hk]

namespace Bank

variable {m m' : Bank}

def SettlesOpenRow (m : Bank) : Action → Prop
  | .tick i o => ∀ t ∈ m.ticks[i]?,
      (∀ lockValue mv rest, t = .execute lockValue mv rest → o.fail = none →
        mv.tx ∉ m.completed ∧ ∀ t' ∈ m.ticks, ∀ mv' ∈ t'.executed, mv'.tx ≠ mv.tx) ∧
      (t.executed ≠ none → o.fail = none)
  | _ => True

/-- The movement is settled and marked, or a tick is about to mark it. -/
def Marked (m : Bank) (tx : Uuid) : Prop :=
  tx ∈ m.completed ∨ ∃ t ∈ m.ticks, ∃ mv ∈ t.executed, mv.tx = tx

theorem Ticks.executed {t t' : TickPoint} (h : m.Ticks t t') : t.executed = none := by
  cases h with
  | stop _ _ ht =>
    cases t with
    | complete => exact ht.elim
    | _ => rfl
  | _ => rfl

theorem Step.execute_inv {i : ℕ} {o : Oracle} {lockValue : String} {mv : Movement}
    {rest : List Movement} (h : m.Step (.tick i o) m') (hok : o.fail = none)
    (hi : m.ticks[i]? = some (.execute lockValue mv rest)) :
    m'.ticks = m.ticks.set i (.complete lockValue mv rest) := by
  cases h with
  | tick _ _ t t' hi' ht =>
    obtain rfl := Option.some.inj (hi.symm.trans hi')
    cases ht with
    | stop _ _ ht => exact ht.elim
  | execute _ _ lockValue' mv' rest' b hok' hi' hb =>
    obtain ⟨rfl, rfl, rfl⟩ := TickPoint.execute.inj (Option.some.inj (hi.symm.trans hi'))
    rfl
  | executeFails _ _ _ _ _ _ hfail => exact absurd hok hfail
  | complete _ _ _ _ _ hi' => cases hi.symm.trans hi'
  | completeFails _ _ _ _ _ hi' => cases hi.symm.trans hi'

structure Once (m : Bank) : Prop where
  nodup : ∀ ledger b, m.books ledger = some b → b.settled.Nodup
  marked : ∀ ledger b, m.books ledger = some b → ∀ tx ∈ b.settled, m.Marked tx

theorem once_init (houses : List HouseAccount) : (init houses).Once where
  nodup _ _ hb := by cases hb
  marked _ _ hb := by cases hb

theorem Marked.setTick {tx : Uuid} (h : m.Marked tx) {i : ℕ} {t t' : TickPoint}
    (hi : m.ticks[i]? = some t) (ht : ∀ mv ∈ t.executed, mv.tx = tx → tx ∈ m'.completed)
    (hcompleted : ∀ tx ∈ m.completed, tx ∈ m'.completed) (hticks : m'.ticks = m.ticks.set i t') :
    m'.Marked tx := by
  rcases h with hin | ⟨q, hq, mv, hmv, hmvtx⟩
  · exact Or.inl (hcompleted tx hin)
  · obtain ⟨as, bs, hl, hset⟩ := exists_split hi
    rw [hl] at hq
    rcases List.mem_append.mp hq with hqas | hqbs
    · refine Or.inr ⟨q, ?_, mv, hmv, hmvtx⟩
      rw [hticks, hset]
      exact List.mem_append_left _ hqas
    · rcases List.mem_cons.mp hqbs with rfl | hqbs
      · exact Or.inl (ht mv hmv hmvtx)
      · refine Or.inr ⟨q, ?_, mv, hmv, hmvtx⟩
        rw [hticks, hset]
        exact List.mem_append_right _ (List.mem_cons_of_mem _ hqbs)

/-- Whatever is marked stays marked, where no mark fails. -/
theorem Marked.step {tx : Uuid} (htx : m.Marked tx) {a : Action} (hguard : m.SettlesOpenRow a)
    (h : m.Step a m') : m'.Marked tx := by
  cases h with
  | startTick lockValue hfresh =>
    rcases htx with hin | ⟨t, ht, hmv⟩
    · exact Or.inl hin
    · exact Or.inr ⟨t, List.mem_append_left _ ht, hmv⟩
  | tick i o t t' hi ht =>
    exact htx.setTick hi (by simp [ht.executed]) (fun _ h => h) rfl
  | execute i o lockValue mv rest b hok hi hb =>
    exact htx.setTick hi (by simp [TickPoint.executed]) (fun _ h => h) rfl
  | executeFails i o lockValue mv rest hi hfail =>
    exact htx.setTick hi (by simp [TickPoint.executed]) (fun _ h => h) rfl
  | complete i o lockValue mv rest hi =>
    refine htx.setTick hi ?_ (fun _ h => List.mem_cons_of_mem _ h) rfl
    intro mv' hmv' hmvtx
    obtain rfl : mv = mv' := by simpa [TickPoint.executed] using hmv'
    exact hmvtx ▸ List.mem_cons_self
  | completeFails i o lockValue mv rest hi hfail =>
    exact absurd ((hguard _ hi).2 (by simp [TickPoint.executed])) hfail
  | _ => exact htx

/-- An open row is not settled yet. -/
theorem Once.not_settled (hm : m.Once) {i : ℕ} {o : Oracle} (hguard : m.SettlesOpenRow (.tick i o))
    {lockValue : String} {mv : Movement} {rest : List Movement} (hok : o.fail = none)
    (hi : m.ticks[i]? = some (.execute lockValue mv rest)) {ledger : Uuid} {b : Book}
    (hb : m.books ledger = some b) : mv.tx ∉ b.settled := by
  intro hin
  obtain ⟨hopen, hfree⟩ := (hguard _ hi).1 lockValue mv rest rfl hok
  rcases hm.marked ledger b hb mv.tx hin with hdone | ⟨t, ht, mv', hmv', htx⟩
  · exact hopen hdone
  · exact hfree t ht mv' hmv' htx

theorem Once.step (hm : m.Once) {a : Action} (hguard : m.SettlesOpenRow a)
    (h : m.Step a m') : m'.Once := by
  have hbook : ∀ ledger b', m'.books ledger = some b' →
      b'.settled.Nodup ∧ ∀ tx ∈ b'.settled, m'.Marked tx := by
    intro ledger b' hb'
    rcases h.book_cases hb' with hb | hempty | ⟨b, p, hb, rfl, hposts⟩
    · exact ⟨hm.nodup ledger b' hb, fun tx htx => (hm.marked ledger b' hb tx htx).step hguard h⟩
    · simp [Book.settled, hempty]
    · have hold := fun tx htx => (hm.marked ledger b hb tx htx).step hguard h
      rw [Book.settled_post]
      cases hposts with
      | hold => simpa [holdOf] using ⟨hm.nodup ledger b hb, hold⟩
      | settle i o lockValue mv rest hok hi =>
        have hnew := hm.not_settled hguard hok hi hb
        rw [if_neg (mv.settlement_kind o.now)]
        refine ⟨?_, fun tx htx => ?_⟩
        · rw [List.nodup_append]
          refine ⟨hm.nodup _ b hb, List.nodup_singleton _, ?_⟩
          rintro u hu v hv rfl
          rw [List.mem_singleton.mp hv] at hu
          exact hnew hu
        · rcases List.mem_append.mp htx with hin | hlast
          · exact hold tx hin
          · refine Or.inr ⟨.complete lockValue mv rest, ?_, mv, rfl,
              (List.mem_singleton.mp hlast).symm⟩
            rw [h.execute_inv hok hi]
            exact List.mem_set (List.getElem?_eq_some_iff.mp hi).1 _
  exact ⟨fun ledger b hb => (hbook ledger b hb).1, fun ledger b hb => (hbook ledger b hb).2⟩

theorem once_invariant :
    (machine.restrict SettlesOpenRow).Invariant (fun m => (m.WF ∧ m.Numbered) ∧ m.Once) := by
  refine (wf_invariant.restrict SettlesOpenRow).strengthen ?_
    (fun _ _ _ _ hm h => hm.step h.1 h.2)
  rintro m ⟨houses, rfl⟩
  exact once_init houses

end Bank

section Logs

theorem Posting.countP_releases (p : Posting) (ledger account : Uuid) (c : Currency)
    {kind : String} (hkind : kind ∈ ["credit_release", "debit_release"]) (tx : String) :
    (p.events ledger account c).countP (LedgerEvent.Releases kind tx) ≤
      ((if p.kind = .hold then [] else [p.transactionId]).countP
        (fun u => decide (u.toString = tx))) := by
  obtain ⟨k, u, amount, time⟩ := p
  rcases List.mem_pair.mp hkind with rfl | rfl <;> cases k <;>
    simp [events, command, LedgerCommand.events, LedgerEvent.Releases, List.countP_cons]

theorem Book.countP_releases (b : Book) (ledger : Uuid) {kind : String}
    (hkind : kind ∈ ["credit_release", "debit_release"]) (tx : String) :
    (b.events ledger).countP (LedgerEvent.Releases kind tx) ≤
      b.settled.countP (fun u => decide (u.toString = tx)) := by
  obtain ⟨holder, owner, c, w, postings⟩ := b
  induction postings using List.reverseRecOn with
  | nil => simp [events, opening, LedgerCommand.events, LedgerEvent.Releases]
  | append_singleton postings p ih =>
    change ((Book.mk holder owner c w postings).post p |>.events ledger).countP _ ≤
      ((Book.mk holder owner c w postings).post p).settled.countP _
    rw [events_post, settled_post, List.countP_append, List.countP_append]
    exact Nat.add_le_add ih (p.countP_releases ledger owner c hkind tx)

theorem countP_toString_le_one {us : List Uuid} (h : us.Nodup) (tx : String) :
    us.countP (fun u => decide (u.toString = tx)) ≤ 1 := by
  by_cases hex : ∃ u : Uuid, u.toString = tx
  · obtain ⟨u, rfl⟩ := hex
    have hcount := List.nodup_iff_count_le_one.mp h u
    simpa [List.count, Uuid.toString_inj, beq_eq_decide] using hcount
  · have hzero : us.countP (fun u => decide (u.toString = tx)) = 0 :=
      List.countP_eq_zero.mpr fun u _ => by simpa using fun hu => hex ⟨u, hu⟩
    omega

end Logs

section Guards

variable {st : System} {m : Bank}

theorem executing_prog {t : TickPoint} {mv : Movement} {lockValue : String}
    {rest : List Movement} (ht : t = .execute lockValue mv rest) :
    executing t.prog = some mv.tx := by
  subst ht
  rw [executing, (calls_execute lockValue mv rest).nextCall]
  cases mv.action <;> rfl

theorem marking_prog {t : TickPoint} {mv : Movement} (ht : t.executed = some mv) :
    marking t.prog = some mv.tx := by
  cases t with
  | complete lockValue mv' rest =>
    obtain rfl := Option.some.inj ht
    rw [marking, (calls_complete lockValue mv' rest).nextCall]
  | _ => cases ht

/-- The guard on the service is the guard on the bank that it models. -/
theorem Models.settlesOpenRow (h : Models st m) (hm : m.WF) {a : Action}
    (hguard : st.SettlesOpenRow a) : m.SettlesOpenRow a := by
  cases a with
  | tick i o =>
    intro t ht
    have hp : t.prog ∈ st.ticks[i]? := by
      rw [h.ticks, List.getElem?_map, Option.mem_def, Option.mem_def.mp ht]
      rfl
    obtain ⟨hopen, hmark⟩ := hguard t.prog hp
    refine ⟨fun lockValue mv rest heq hok => ?_, fun hne => ?_⟩
    · obtain ⟨hrows, hfree⟩ := hopen hok mv.tx (executing_prog heq)
      have hmv : mv ∈ m.movements :=
        hm.rows t (List.mem_of_getElem? ht) mv (heq ▸ List.mem_cons_self)
      refine ⟨fun hdone => ?_, fun t' ht' mv' hmv' htx => ?_⟩
      · have hrow := hrows (mv.row (decide (mv.tx ∈ m.completed))) (by
          rw [h.store.outbox]
          exact List.mem_map_of_mem hmv) rfl
        simp [Movement.row, settlementRow, hdone] at hrow
      · refine hfree t'.prog ?_ ?_
        · rw [h.ticks]
          exact List.mem_map_of_mem ht'
        · rw [marking_prog hmv', htx]
    · obtain ⟨mv, hmv⟩ := Option.ne_none_iff_exists'.mp hne
      by_contra hfail
      cases (marking_prog hmv).symm.trans (hmark hfail)
  | _ => trivial

end Guards

/-- In a run whose ticks execute only open rows and whose marks do not fail, every row is
applied at most once. -/
theorem appliedAtMostOnce {st : System}
    (h : (System.machine.restrict System.SettlesOpenRow).Reachable st) :
    st.store.AppliedAtMostOnce := by
  have hsim : Machine.Simulation (System.machine.restrict System.SettlesOpenRow)
      (Bank.machine.restrict Bank.SettlesOpenRow)
      (fun st m => Models st m ∧ m.WF ∧ m.Numbered) :=
    refinement.restrict fun _ _ _ hrel hguard => hrel.1.settlesOpenRow hrel.2.1 hguard
  obtain ⟨m, hreach, hmodels, -⟩ := hsim.reachable h
  obtain ⟨-, honce⟩ := Bank.once_invariant.reachable hreach
  intro ledgerId tx kind hkind
  by_cases hlog : st.store.ledgerEvents ledgerId = []
  · simp [hlog]
  · obtain ⟨ledger, b, -, hb, hevents⟩ := hmodels.store.exists_book hlog
    rw [hevents]
    exact (b.countP_releases ledger hkind tx).trans
      (countP_toString_le_one (honce.nodup ledger b hb) tx)

/-- Two ticks fetch the rows of two deposits. The first settles one of them, and the second
finds the lock taken. -/
def Scenario.halfSettled : List Action :=
  deposited ++ handle 13 50 5 (.deposit (uid 10) (usd 50)) ++
  [.startTick (uid 14), .startTick (uid 15), .tick 0 up, .tick 1 up] ++
  List.replicate 4 (.tick 0 up) ++ [.tick 1 up]

theorem appliedAtMostOnce_funded : ∃ st : System, st.ticks.length = 2 ∧
    (st.store.outbox.map Outbox.processed) = [true, false] ∧ st.store.AppliedAtMostOnce := by
  have hrun : (((System.init []).runWhile (fun st a => decide (st.SettlesOpenRow a))
      Scenario.halfSettled).map (fun st =>
        (st.ticks.length, st.store.outbox.map Outbox.processed))) =
      some (2, [true, false]) := by decide +kernel
  obtain ⟨st, hst, hfacts⟩ := Option.map_eq_some_iff.mp hrun
  obtain ⟨hticks, hrows⟩ := Prod.mk.inj hfacts
  exact ⟨st, hticks, hrows, appliedAtMostOnce
    (System.reachable_of_runWhile (fun _ _ hg => of_decide_eq_true hg) hst)⟩

/-- Two ticks fetch the row of a deposit before either of them takes the lock. The second
takes it after the first is done, and credits the deposit once more. -/
def Scenario.overlap : List Action :=
  Scenario.deposited ++
  [.startTick (Scenario.uid 13), .startTick (Scenario.uid 14), .tick 0 up, .tick 1 up] ++
  List.replicate 6 (.tick 0 up) ++ List.replicate 3 (.tick 1 up)

theorem not_appliedAtMostOnce :
    ¬ ∀ st : System, System.machine.Reachable st → st.store.AppliedAtMostOnce := by
  have hrun : (((System.init []).run Scenario.overlap).map fun st =>
      (st.store.ledgerEvents (Scenario.uid 11).toString).countP
        (LedgerEvent.Releases "credit_release" (Scenario.uid 40).toString)) = some 2 := by
    decide +kernel
  obtain ⟨st, hst, htwo⟩ := Option.map_eq_some_iff.mp hrun
  intro hall
  have hone := hall st (System.reachable_of_run hst) (Scenario.uid 11).toString
    (Scenario.uid 40).toString "credit_release" (by simp)
  omega

end Bankie
