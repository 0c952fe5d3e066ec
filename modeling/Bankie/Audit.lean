import Bankie.Growing
import Bankie.System

/-!
What a run leaves of what was recorded before it.
Logs and journals are only written at their end. Of a transaction nothing changes but its
status, which becomes completed, and of an outbox row nothing but its mark; no row is removed.
This holds between any two states of any run, reachable or not, whichever calls fail.
-/
namespace Bankie

open Program Transition Growing

/-- The transaction is as it was, or it has been completed. -/
def Transaction.Completes (t t' : Transaction) : Prop :=
  t' = t ∨ t' = { t with status := "completed" }

/-- The row is as it was, or it has been marked. -/
def Outbox.Completes (row row' : Outbox) : Prop :=
  row' = row ∨ row' = { row with processed := true }

theorem Transaction.Completes.refl (t : Transaction) : t.Completes t := Or.inl rfl

theorem Outbox.Completes.refl (row : Outbox) : row.Completes row := Or.inl rfl

theorem Transaction.Completes.trans (t t' t'' : Transaction) (h : t.Completes t')
    (h' : t'.Completes t'') : t.Completes t'' := by
  rcases h with rfl | rfl
  · exact h'
  · rcases h' with rfl | rfl
    · exact Or.inr rfl
    · exact Or.inr rfl

theorem Outbox.Completes.trans (row row' row'' : Outbox) (h : row.Completes row')
    (h' : row'.Completes row'') : row.Completes row'' := by
  rcases h with rfl | rfl
  · exact h'
  · rcases h' with rfl | rfl
    · exact Or.inr rfl
    · exact Or.inr rfl

/-- What is recorded in the earlier store is recorded in the later one. -/
structure Store.RecordedIn (s s' : Store) : Prop where
  accountEvents : ∀ id, s.accountEvents id <+: s'.accountEvents id
  accountViews : ∀ id ∈ s.accountViews, id ∈ s'.accountViews
  ledgerEvents : ∀ id, s.ledgerEvents id <+: s'.ledgerEvents id
  ledgerViews : ∀ id ∈ s.ledgerViews, id ∈ s'.ledgerViews
  journalEntries : s.journalEntries <+: s'.journalEntries
  journalLines : s.journalLines <+: s'.journalLines
  transactions : Kept Transaction.Completes s.transactions s'.transactions
  outbox : Kept Outbox.Completes s.outbox s'.outbox
  houseAccounts : s.houseAccounts <+: s'.houseAccounts

namespace Store

variable {s s' s'' : Store}

theorem RecordedIn.refl (s : Store) : s.RecordedIn s where
  accountEvents _ := List.prefix_rfl
  accountViews _ h := h
  ledgerEvents _ := List.prefix_rfl
  ledgerViews _ h := h
  journalEntries := List.prefix_rfl
  journalLines := List.prefix_rfl
  transactions := Kept.refl Transaction.Completes.refl _
  outbox := Kept.refl Outbox.Completes.refl _
  houseAccounts := List.prefix_rfl

theorem RecordedIn.trans (h : s.RecordedIn s') (h' : s'.RecordedIn s'') : s.RecordedIn s'' where
  accountEvents id := (h.accountEvents id).trans (h'.accountEvents id)
  accountViews id hid := h'.accountViews id (h.accountViews id hid)
  ledgerEvents id := (h.ledgerEvents id).trans (h'.ledgerEvents id)
  ledgerViews id hid := h'.ledgerViews id (h.ledgerViews id hid)
  journalEntries := h.journalEntries.trans h'.journalEntries
  journalLines := h.journalLines.trans h'.journalLines
  transactions := h.transactions.trans Transaction.Completes.trans h'.transactions
  outbox := h.outbox.trans Outbox.Completes.trans h'.outbox
  houseAccounts := h.houseAccounts.trans h'.houseAccounts

section Writes

/-! Each write, as far as it succeeds. -/

theorem prefix_update {β : Type} (f : String → List β) (id : String) (new : List β)
    (key : String) : f key <+: Function.update f id (f id ++ new) key := by
  by_cases hkey : key = id
  · subst hkey
    rw [Function.update_self]
    exact List.prefix_append _ _
  · rw [Function.update_of_ne hkey]

theorem recordedIn_commitAccount {id : String} {sequence : ℕ} {events : List BankAccountEvent}
    (h : s.commitAccount id sequence events = .ok s') : s.RecordedIn s' := by
  unfold commitAccount at h
  split at h
  · cases h
  · obtain rfl := Outcome.ok.inj h
    exact { RecordedIn.refl s with
      accountEvents := prefix_update s.accountEvents id events
      accountViews := fun _ hkey => (AList.mem_insert _).mpr (Or.inr hkey) }

theorem recordedIn_executeLedger {id now : String} {command : LedgerCommand}
    (h : s.executeLedger id command now = .ok s') : s.RecordedIn s' := by
  obtain ⟨ledger, view, -, -, rfl⟩ := executeLedger_eq_ok.mp h
  exact { RecordedIn.refl s with
    ledgerEvents := prefix_update s.ledgerEvents id (command.events now)
    ledgerViews := fun _ hkey => (AList.mem_insert _).mpr (Or.inr hkey) }

theorem recordedIn_insertJournalEntry {entry : JournalEntry}
    (h : s.insertJournalEntry entry = .ok s') : s.RecordedIn s' := by
  obtain ⟨-, h⟩ := Outcome.ite_err_eq_ok.mp h
  obtain rfl := Outcome.ok.inj h
  exact { RecordedIn.refl s with journalEntries := List.prefix_append _ _ }

theorem recordedIn_insertJournalLine {line : JournalLine}
    (h : s.insertJournalLine line = .ok s') : s.RecordedIn s' := by
  obtain ⟨-, h⟩ := Outcome.ite_err_eq_ok.mp h
  obtain ⟨-, h⟩ := Outcome.ite_err_eq_ok.mp h
  obtain ⟨-, h⟩ := Outcome.ite_err_eq_ok.mp h
  obtain ⟨-, h⟩ := Outcome.ite_err_eq_ok.mp h
  obtain rfl := Outcome.ok.inj h
  exact { RecordedIn.refl s with journalLines := List.prefix_append _ _ }

theorem recordedIn_insertJournalLines {entryId : Uuid} {lines : List JournalLine}
    (h : lines.foldlM (fun s line => s.insertJournalLine
      { line with journalEntryId := some entryId }) s = .ok s') : s.RecordedIn s' := by
  induction lines generalizing s with
  | nil =>
    obtain rfl := Outcome.ok.inj h
    exact RecordedIn.refl s
  | cons line lines ih =>
    rw [List.foldlM_cons] at h
    obtain ⟨s₁, hs₁, hrest⟩ := Outcome.bind_eq_ok.mp h
    exact (recordedIn_insertJournalLine hs₁).trans (ih hrest)

theorem recordedIn_insertTransaction {t : Transaction} (h : s.insertTransaction t = .ok s') :
    s.RecordedIn s' := by
  obtain ⟨-, h⟩ := Outcome.ite_err_eq_ok.mp h
  obtain ⟨-, h⟩ := Outcome.ite_err_eq_ok.mp h
  obtain ⟨-, h⟩ := Outcome.ite_err_eq_ok.mp h
  obtain ⟨-, h⟩ := Outcome.ite_err_eq_ok.mp h
  obtain rfl := Outcome.ok.inj h
  exact { RecordedIn.refl s with
    transactions := Kept.append Transaction.Completes.refl s.transactions [t] }

theorem recordedIn_createTransactionWithJournal {t : Transaction} {ledgerId : String}
    {entry : JournalEntry} {lines : List JournalLine} {id : Uuid}
    (h : s.createTransactionWithJournal t ledgerId entry lines = .ok (id, s')) :
    s.RecordedIn s' := by
  unfold createTransactionWithJournal at h
  obtain ⟨s₁, hs₁, h⟩ := Outcome.bind_eq_ok.mp h
  obtain ⟨s₂, hs₂, h⟩ := Outcome.bind_eq_ok.mp h
  obtain ⟨s₃, hs₃, h⟩ := Outcome.bind_eq_ok.mp h
  obtain ⟨transactionType, -, h⟩ := Outcome.bind_eq_ok.mp h
  obtain ⟨ledger, -, h⟩ := Outcome.bind_eq_ok.mp h
  obtain ⟨-, rfl⟩ := Prod.mk.inj (Outcome.ok.inj h)
  have hrows := ((recordedIn_insertJournalEntry hs₁).trans
    (recordedIn_insertJournalLines hs₂)).trans (recordedIn_insertTransaction hs₃)
  exact hrows.trans { RecordedIn.refl s₃ with
    outbox := Kept.append Outbox.Completes.refl s₃.outbox [_] }

theorem recordedIn_completeTransaction (tx : Uuid) (s : Store) :
    s.RecordedIn (s.completeTransaction tx) := by
  refine { RecordedIn.refl s with transactions := Kept.map ?_ _, outbox := Kept.map ?_ _ }
  · intro t
    by_cases ht : t.id = tx
    · exact Or.inr (if_pos ht)
    · exact Or.inl (if_neg ht)
  · intro row
    by_cases hrow : row.transactionId = tx
    · exact Or.inr (if_pos hrow)
    · exact Or.inl (if_neg hrow)

theorem recordedIn_createHouseAccount {account : HouseAccount}
    (h : s.createHouseAccount account = .ok s') : s.RecordedIn s' := by
  obtain ⟨-, h⟩ := Outcome.ite_err_eq_ok.mp h
  obtain rfl := Outcome.ok.inj h
  exact { RecordedIn.refl s with houseAccounts := List.prefix_append _ _ }

theorem recordedIn_cache (cache : String → Option CacheEntry) (s : Store) :
    s.RecordedIn { s with cache := cache } := { RecordedIn.refl s with }

theorem recordedIn_commitOrRollback {x : Outcome Store} (h : ∀ s', x = .ok s' → s.RecordedIn s') :
    s.RecordedIn (commitOrRollback x s).2 := by
  cases x with
  | ok s' => exact h s' rfl
  | err e => exact RecordedIn.refl s
  | panic e => exact RecordedIn.refl s

end Writes

theorem recordedIn_exec (c : Call) (o : Oracle) (s : Store) : s.RecordedIn (exec c o s).2 := by
  unfold exec
  split
  · exact RecordedIn.refl s
  · cases c with
    | commitAccount id sequence events =>
      exact recordedIn_commitOrRollback fun _ h => recordedIn_commitAccount h
    | executeLedger id command =>
      exact recordedIn_commitOrRollback fun _ h => recordedIn_executeLedger h
    | createTransactionWithJournal t ledgerId entry lines =>
      rw [execute]
      split
      · rename_i h
        exact recordedIn_createTransactionWithJournal h
      · exact RecordedIn.refl s
      · exact RecordedIn.refl s
    | createHouseAccount account =>
      exact recordedIn_commitOrRollback fun _ h => recordedIn_createHouseAccount h
    | completeTransaction tx => exact recordedIn_completeTransaction tx s
    | setNx key value =>
      rw [execute]
      split
      · exact RecordedIn.refl s
      · exact recordedIn_cache _ s
    | expire key seconds => exact recordedIn_cache _ s
    | del key => exact recordedIn_cache _ s
    | _ => exact RecordedIn.refl s

end Store

namespace System

variable {st st' : System}

/-- What a step does to the stores: one call, or the timeout of a key. -/
theorem step_store {a : Action} (h : st.step a = some st') :
    st'.store = st.store ∨ (∃ c o, st'.store = (exec c o st.store).2) ∨
      ∃ cache, st'.store = { st.store with cache := cache } := by
  have hcall : ∀ {α : Type} {p p' : Code α} {o : Oracle} {s' : Store},
      p.step exec o st.store = some (p', s') → ∃ c o, s' = (exec c o st.store).2 := by
    intro α p p' o s' hp
    cases p with
    | done r => cases hp
    | call c k => exact ⟨c, o, (Prod.mk.inj (Option.some.inj hp)).2.symm⟩
  have hat : ∀ {α : Type} {i : ℕ} {o : Oracle} {ps : List (Code α)}
      {r : List (Code α) × Store}, stepAt i o ps st.store = some r →
      ∃ c o, r.2 = (exec c o st.store).2 := by
    intro α i o ps r hr
    unfold stepAt at hr
    split at hr
    · cases hr
    · obtain ⟨⟨p', s'⟩, hp, rfl⟩ := Option.map_eq_some_iff.mp hr
      exact hcall hp
  cases a with
  | submit fresh body =>
    change st.submit fresh body = some st' at h
    unfold submit at h
    split at h
    · split at h <;> (obtain rfl := Option.some.inj h; exact Or.inl rfl)
    · cases h
  | receive d =>
    change st.receive d = some st' at h
    unfold receive at h
    split at h
    · split at h
      · obtain rfl := Option.some.inj h
        exact Or.inl rfl
      · cases h
    · cases h
  | consumer o =>
    obtain ⟨⟨p', s'⟩, hp, rfl⟩ := Option.map_eq_some_iff.mp h
    exact Or.inr (Or.inl (hcall hp))
  | startTick lockValue =>
    obtain ⟨-, h⟩ := Option.ite_none_right_eq_some.mp h
    obtain rfl := Option.some.inj h
    exact Or.inl rfl
  | tick i o =>
    obtain ⟨r, hr, rfl⟩ := Option.map_eq_some_iff.mp h
    exact Or.inr (Or.inl (hat hr))
  | startRequest id ledgerId accountNumber body =>
    obtain ⟨-, h⟩ := Option.ite_none_right_eq_some.mp h
    obtain rfl := Option.some.inj h
    exact Or.inl rfl
  | request i o =>
    obtain ⟨r, hr, rfl⟩ := Option.map_eq_some_iff.mp h
    exact Or.inr (Or.inl (hat hr))
  | expireKey key =>
    change st.expireKey key = some st' at h
    unfold expireKey at h
    split at h
    · obtain rfl := Option.some.inj h
      exact Or.inr (Or.inr ⟨_, rfl⟩)
    · cases h

theorem recordedIn_step {a : Action} (h : st.step a = some st') :
    st.store.RecordedIn st'.store := by
  rcases step_store h with hsame | ⟨c, o, hcall⟩ | ⟨cache, hcache⟩
  · rw [hsame]
    exact Store.RecordedIn.refl _
  · rw [hcall]
    exact Store.recordedIn_exec c o st.store
  · rw [hcache]
    exact Store.recordedIn_cache cache st.store

/-- No run removes or rewrites what was recorded before it. -/
theorem run_keeps_records {as : List Action} (h : machine.Steps st as st') :
    st.store.RecordedIn st'.store :=
  h.preserves (P := fun st₁ => st.store.RecordedIn st₁.store)
    (fun _ _ _ hrecorded hstep => hrecorded.trans (recordedIn_step hstep))
    (Store.RecordedIn.refl st.store)

theorem run_keeps_records_funded : ∃ st st' : System, st.store.transactions.length = 1 ∧
    machine.Steps st (Scenario.tick 0 13 1) st' ∧ st.store.RecordedIn st'.store := by
  have hrun : (((init []).run Scenario.deposited).bind fun st =>
      (st.run (Scenario.tick 0 13 1)).map fun _ => st.store.transactions.length) = some 1 := by
    decide +kernel
  obtain ⟨st, -, hrest⟩ := Option.bind_eq_some_iff.mp hrun
  obtain ⟨st', hst', hlength⟩ := Option.map_eq_some_iff.mp hrest
  exact ⟨st, st', hlength, steps_of_run hst', run_keeps_records (steps_of_run hst')⟩

end System

end Bankie
