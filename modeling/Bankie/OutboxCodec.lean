import Bankie.Job

/-!
The outbox row of a movement and its way back to a ledger command.
The kind of the movement is written four times: as the action, in the text of the
reference, as the event type and as the tag of the payload. The decoder of the job agrees
with the writer on all of them.
-/
namespace Bankie

open Program

namespace LedgerAction

/-- The ledger command that settles a movement. -/
def settlement (action : LedgerAction) (ledger account transaction : Uuid) (amount : Money) :
    LedgerCommand :=
  match action with
  | .deposit => .credit ledger account transaction amount
  | .withdraw => .debitRelease ledger account transaction amount

def eventType : LedgerAction → String
  | .deposit => "LedgerCommand::Credit"
  | .withdraw => "LedgerCommand::Debit"

end LedgerAction

/-- The outbox row of a movement. -/
def settlementRow (id : ℕ) (action : LedgerAction) (ledger account transaction : Uuid)
    (amount : Money) (processed : Bool) : Outbox where
  id := id
  transactionId := transaction
  eventType := action.eventType
  payload := (action.settlement ledger account transaction amount).toJson
  processed := processed

theorem mem_toString_int {n : ℤ} {c : Char} (h : c ∈ (toString n).toList) :
    c = '-' ∨ c.isDigit = true := by
  cases n with
  | ofNat n =>
    right
    have hc : c ∈ Nat.toDigits 10 n := by simpa [toString, Int.repr, Nat.toList_repr] using h
    exact Nat.isDigit_of_mem_toDigits (by decide) (by decide) hc
  | negSucc n =>
    have hc : c = '-' ∨ c ∈ Nat.toDigits 10 (n + 1) := by
      simpa [toString, Int.repr, Nat.toList_repr] using h
    rcases hc with rfl | hc
    · exact Or.inl rfl
    · exact Or.inr (Nat.isDigit_of_mem_toDigits (by decide) (by decide) hc)

theorem contains_deposit (n : ℤ) :
    contains (generateTransactionReference transDeposit n) transDeposit = true := by
  simp only [contains, generateTransactionReference, String.toList_append, decide_eq_true_eq]
  exact (List.prefix_append _ _).isInfix

/-- A withdrawal reference has no `D`, so the test for a deposit does not match it. -/
theorem not_contains_deposit (n : ℤ) :
    contains (generateTransactionReference transWithdrawal n) transDeposit = false := by
  rw [contains, decide_eq_false_iff_not]
  intro h
  have hD : 'D' ∈ (generateTransactionReference transWithdrawal n).toList :=
    h.subset (by decide)
  rw [generateTransactionReference, String.toList_append, List.mem_append] at hD
  rcases hD with hpre | hnum
  · revert hpre
    decide
  · rcases mem_toString_int hnum with h | h
    · revert h
      decide
    · revert h
      decide

theorem contains_withdrawal (n : ℤ) :
    contains (generateTransactionReference transWithdrawal n) transWithdrawal = true := by
  simp only [contains, generateTransactionReference, String.toList_append, decide_eq_true_eq]
  exact (List.prefix_append _ _).isInfix

/-- The kind read back from the reference is the action that chose its prefix. -/
theorem transactionType_transactionOf (d : Draws) (account : Uuid) (amount : Money)
    (action : LedgerAction) :
    (Helper.transactionOf d account amount action).transactionType = .ok action := by
  cases action with
  | deposit => simp [Helper.transactionOf, Transaction.transactionType, contains_deposit]
  | withdraw =>
    simp [Helper.transactionOf, Transaction.transactionType, not_contains_deposit,
      contains_withdrawal]

/-- The job reads from a row the very command that the row was written for. -/
theorem parseEvent_settlementRow (id : ℕ) (action : LedgerAction)
    (ledger account transaction : Uuid) (amount : Money) (processed : Bool) :
    parseEvent (settlementRow id action ledger account transaction amount processed) =
      .ok (ledger.toString, action.settlement ledger account transaction amount, transaction) := by
  have hserde : amount.currency.serde = amount.currency.toString := by
    cases amount.currency <;> rfl
  cases action with
  | deposit =>
    simp [parseEvent, settlementRow, LedgerAction.eventType, LedgerAction.settlement,
      LedgerCommand.toJson, LedgerCommand.tagged, Money.toJson, payloadKey, Json.get, Json.asStr,
      context, List.lookup_cons, Money.new, hserde]
  | withdraw =>
    simp [parseEvent, settlementRow, LedgerAction.eventType, LedgerAction.settlement,
      LedgerCommand.toJson, LedgerCommand.tagged, Money.toJson, payloadKey, Json.get, Json.asStr,
      context, List.lookup_cons, Money.new, hserde]

/-- What the job does with a row, call by call: one execute on the ledger of the row, and
then the transaction id or the error of the execute. -/
theorem processEvent_settlementRow (id : ℕ) (action : LedgerAction)
    (ledger account transaction : Uuid) (amount : Money) (processed : Bool) :
    processEvent (settlementRow id action ledger account transaction amount processed) =
      executeParsed
        (ledger.toString, action.settlement ledger account transaction amount, transaction) := by
  rw [processEvent, parseEvent_settlementRow]
  rfl

section Writer

namespace Store

theorem insertJournalEntry_ok {entry : JournalEntry} {s s' : Store}
    (h : s.insertJournalEntry entry = .ok s') :
    s' = { s with journalEntries := s.journalEntries ++ [entry] } := by
  unfold insertJournalEntry at h
  split at h
  · cases h
  · simpa using h.symm

/-- A line is inserted where its id is new, its entry and its ledger are there and its
amounts fit. -/
theorem insertJournalLine_iff {line : JournalLine} {s s' : Store} :
    s.insertJournalLine line = .ok s' ↔
      (∀ l ∈ s.journalLines, l.id ≠ line.id) ∧
      (∃ e ∈ s.journalEntries, some e.id = line.journalEntryId) ∧
      (s.ledgerViews.lookup line.ledgerId).isSome ∧
      (line.debitAmount.FitsNumeric 19 4 ∧ line.creditAmount.FitsNumeric 19 4) ∧
      { s with journalLines := s.journalLines ++ [line] } = s' := by
  unfold insertJournalLine
  rw [Outcome.ite_err_eq_ok, Outcome.ite_err_eq_ok, Outcome.ite_err_eq_ok,
    Outcome.ite_err_eq_ok, Outcome.ok.injEq]
  simp [Option.isSome_iff_ne_none]

theorem insertTransaction_iff {t : Transaction} {s s' : Store} :
    s.insertTransaction t = .ok s' ↔
      (∀ u ∈ s.transactions, u.id ≠ t.id) ∧
      (∀ u ∈ s.transactions, u.transactionReference ≠ t.transactionReference) ∧
      (∃ e ∈ s.journalEntries, some e.id = t.journalEntryId) ∧
      t.amount.FitsNumeric 19 2 ∧ { s with transactions := s.transactions ++ [t] } = s' := by
  unfold insertTransaction
  rw [Outcome.ite_err_eq_ok, Outcome.ite_err_eq_ok, Outcome.ite_err_eq_ok,
    Outcome.ite_err_eq_ok, Outcome.ok.injEq]
  simp

theorem insertJournalLine_ok {line : JournalLine} {s s' : Store}
    (h : s.insertJournalLine line = .ok s') :
    s' = { s with journalLines := s.journalLines ++ [line] } :=
  (insertJournalLine_iff.mp h).2.2.2.2.symm

theorem insertTransaction_ok {t : Transaction} {s s' : Store}
    (h : s.insertTransaction t = .ok s') :
    s' = { s with transactions := s.transactions ++ [t] } :=
  (insertTransaction_iff.mp h).2.2.2.2.symm

theorem insertJournalLines_ok (entryId : Uuid) {lines : List JournalLine} {s s' : Store}
    (h : lines.foldlM
      (fun s line => s.insertJournalLine { line with journalEntryId := some entryId }) s = .ok s') :
    s' = { s with
      journalLines := s.journalLines ++
        lines.map (fun line => { line with journalEntryId := some entryId }) } := by
  induction lines generalizing s with
  | nil =>
    have hs : s = s' := by simpa using h
    simp [hs]
  | cons line lines ih =>
    rw [List.foldlM_cons, Outcome.bind_eq_ok] at h
    obtain ⟨mid, hmid, hrest⟩ := h
    rw [ih hrest, insertJournalLine_ok hmid]
    simp

theorem createTransactionWithJournal_inserts {transaction : Transaction} {ledgerId : String}
    {entry : JournalEntry} {lines : List JournalLine} {written : Uuid × Store} {s : Store}
    (h : s.createTransactionWithJournal transaction ledgerId entry lines = .ok written) :
    ∃ s₁ s₂ s₃, s.insertJournalEntry entry = .ok s₁ ∧
      lines.foldlM (fun (s : Store) line =>
        s.insertJournalLine { line with journalEntryId := some entry.id }) s₁ = .ok s₂ ∧
      s₂.insertTransaction { transaction with journalEntryId := some entry.id } = .ok s₃ := by
  rw [createTransactionWithJournal, Outcome.bind_eq_ok] at h
  obtain ⟨s₁, h₁, h⟩ := h
  rw [Outcome.bind_eq_ok] at h
  obtain ⟨s₂, h₂, h⟩ := h
  rw [Outcome.bind_eq_ok] at h
  obtain ⟨s₃, h₃, -⟩ := h
  exact ⟨s₁, s₂, s₃, h₁, h₂, h₃⟩

theorem createTransactionWithJournal_frame {transaction : Transaction} {ledgerId : String}
    {entry : JournalEntry} {lines : List JournalLine} {id : Uuid} {s s' : Store}
    (h : s.createTransactionWithJournal transaction ledgerId entry lines = .ok (id, s')) :
    s' = { s with
      journalEntries := s'.journalEntries
      journalLines := s'.journalLines
      transactions := s'.transactions
      outbox := s'.outbox } := by
  obtain ⟨s₁, s₂, s₃, h₁, h₂, h₃⟩ := createTransactionWithJournal_inserts h
  rw [createTransactionWithJournal, h₁, Outcome.ok_bind, h₂, Outcome.ok_bind, h₃, Outcome.ok_bind]
    at h
  obtain ⟨transactionType, -, h⟩ := Outcome.bind_eq_ok.mp h
  obtain ⟨ledger, -, h⟩ := Outcome.bind_eq_ok.mp h
  obtain ⟨-, rfl⟩ := Prod.mk.inj (Outcome.ok.inj h)
  rw [insertTransaction_ok h₃, insertJournalLines_ok entry.id h₂, insertJournalEntry_ok h₁]
  rfl

/-- A write of a movement that commits appends to the four tables and to nothing else. -/
theorem createTransactionWithJournal_ok {d : Draws} {account ledger : Uuid} {amount : Money}
    {action : LedgerAction} {entry : JournalEntry} {lines : List JournalLine} {id : Uuid}
    {s s' : Store}
    (h : s.createTransactionWithJournal (Helper.transactionOf d account amount action)
      ledger.toString entry lines = .ok (id, s')) :
    id = d.transactionId ∧ s' = { s with
      journalEntries := s.journalEntries ++ [entry]
      journalLines := s.journalLines ++
        lines.map (fun line => { line with journalEntryId := some entry.id })
      transactions := s.transactions ++
        [{ Helper.transactionOf d account amount action with journalEntryId := some entry.id }]
      outbox := s.outbox ++
        [settlementRow (s.outbox.length + 1) action ledger account d.transactionId amount
          false] } := by
  obtain ⟨s₁, s₂, s₃, h₁, h₂, h₃⟩ := createTransactionWithJournal_inserts h
  rw [createTransactionWithJournal, h₁, Outcome.ok_bind, h₂, Outcome.ok_bind, h₃, Outcome.ok_bind]
    at h
  rw [transactionType_transactionOf, Outcome.ok_bind, Outcome.bind_eq_ok] at h
  obtain ⟨parsed, hparsed, h⟩ := h
  have hledger : parsed = ledger := by
    simpa [parseUnwrap, Outcome.unwrap] using hparsed.symm
  subst hledger
  have hs := insertTransaction_ok h₃
  rw [insertJournalLines_ok entry.id h₂, insertJournalEntry_ok h₁] at hs
  simp only [Outcome.pure_eq, Outcome.ok.injEq, Prod.mk.injEq] at h
  obtain ⟨hid, hs'⟩ := h
  refine ⟨hid.symm, ?_⟩
  rw [← hs', hs]
  cases action <;> simp [insertOutbox, settlementRow, LedgerAction.eventType,
    LedgerAction.settlement, Helper.transactionOf, Money.new]

theorem insertJournalEntry_not_panic (entry : JournalEntry) (s : Store) :
    ¬ (s.insertJournalEntry entry).IsPanic :=
  Outcome.not_isPanic_ite id id

theorem insertJournalLine_not_panic (s : Store) (line : JournalLine) :
    ¬ (s.insertJournalLine line).IsPanic :=
  Outcome.not_isPanic_ite id (Outcome.not_isPanic_ite id
    (Outcome.not_isPanic_ite id (Outcome.not_isPanic_ite id id)))

theorem insertTransaction_not_panic (t : Transaction) (s : Store) :
    ¬ (s.insertTransaction t).IsPanic :=
  Outcome.not_isPanic_ite id (Outcome.not_isPanic_ite id
    (Outcome.not_isPanic_ite id (Outcome.not_isPanic_ite id id)))

theorem insertJournalLines_not_panic (entryId : Uuid) (lines : List JournalLine) (s : Store) :
    ¬ (lines.foldlM (fun (s : Store) line =>
      s.insertJournalLine { line with journalEntryId := some entryId }) s).IsPanic := by
  induction lines generalizing s with
  | nil => exact id
  | cons line lines ih =>
    rw [List.foldlM_cons]
    exact Outcome.not_isPanic_bind (insertJournalLine_not_panic _ _) ih

/-- On a printed ledger id and a generated reference the unwraps of the write succeed. -/
theorem createTransactionWithJournal_not_panic (d : Draws) (account ledger : Uuid)
    (amount : Money) (action : LedgerAction) (entry : JournalEntry) (lines : List JournalLine)
    (s : Store) :
    ¬ (s.createTransactionWithJournal (Helper.transactionOf d account amount action)
      ledger.toString entry lines).IsPanic := by
  refine Outcome.not_isPanic_bind (insertJournalEntry_not_panic _ _) fun s₁ => ?_
  refine Outcome.not_isPanic_bind (insertJournalLines_not_panic _ _ _) fun s₂ => ?_
  refine Outcome.not_isPanic_bind (insertTransaction_not_panic _ _) fun s₃ => ?_
  rw [transactionType_transactionOf, Outcome.ok_bind]
  refine Outcome.not_isPanic_bind ?_ fun _ => id
  simp [parseUnwrap, Outcome.unwrap, Outcome.IsPanic]

end Store

end Writer

/-- The outbox decoder undoes the outbox encoder: a row that the writer stores makes the
job execute, on the ledger of the movement, the command that settles the movement, and
complete the transaction of the movement. -/
theorem processEvent_of_written {d : Draws} {account ledger : Uuid} {amount : Money}
    {action : LedgerAction} {entry : JournalEntry} {lines : List JournalLine} {id : Uuid}
    {s s' : Store}
    (h : s.createTransactionWithJournal (Helper.transactionOf d account amount action)
      ledger.toString entry lines = .ok (id, s')) :
    ∃ row, s'.outbox = s.outbox ++ [row] ∧
      (processEvent row).Calls
        (.executeLedger ledger.toString
          (action.settlement ledger account d.transactionId amount))
        (fun _ => .done (.ok d.transactionId))
        (fun e => .done (.err ("Failed to write ledger: " ++ e))) := by
  obtain ⟨-, hs'⟩ := Store.createTransactionWithJournal_ok h
  refine ⟨_, by rw [hs'], ?_⟩
  rw [processEvent_settlementRow]
  exact ⟨_, rfl, fun _ => rfl, fun _ => rfl⟩

theorem processEvent_of_written_deposit : ∃ row : Outbox,
    (processEvent row).Calls
      (.executeLedger (Uuid.ofNat 7).toString
        (.credit (Uuid.ofNat 7) (Uuid.ofNat 6) (Uuid.ofNat 1) ⟨⟨-1050, 2⟩, .twd⟩))
      (fun _ => .done (.ok (Uuid.ofNat 1)))
      (fun e => .done (.err ("Failed to write ledger: " ++ e))) := by
  let d : Draws := ⟨Uuid.ofNat 1, Uuid.ofNat 2, Uuid.ofNat 3, Uuid.ofNat 4, 5, 0, ""⟩
  let amount : Money := ⟨⟨-1050, 2⟩, .twd⟩
  let s : Store := { Store.init [] with
    ledgerViews := ((∅ : AList (fun _ : String => LedgerView)).insert "house" default).insert
      (Uuid.ofNat 7).toString default }
  have hwrite : ((s.createTransactionWithJournal
      (Helper.transactionOf d (Uuid.ofNat 6) amount .deposit) (Uuid.ofNat 7).toString
      (Helper.journalEntryOf d)
      (Helper.journalLinesOf d "house" (Uuid.ofNat 7).toString amount
        .deposit)).toOption).isSome = true := by decide +kernel
  obtain ⟨⟨id, s'⟩, hs'⟩ := Option.isSome_iff_exists.mp hwrite
  obtain ⟨row, -, hrow⟩ := processEvent_of_written (Outcome.toOption_eq_some hs')
  exact ⟨row, hrow⟩

end Bankie
