import Bankie.BankAccount
import Bankie.Ledger
import Mathlib.Data.List.AList

/-!
The stores behind the service, and the calls that reach them.
The database holds two event logs, the view rows projected from them, the double-entry
books and the outbox; Redis holds the lock. Each call is one atomic step. A statement that
breaks a constraint fails the whole database transaction it belongs to, and an oracle may
fail any call, which then changes nothing.
-/
namespace Bankie

open Program

/-- A Redis key: its value, and the timeout once one is set. -/
structure CacheEntry where
  value : String
  timeout : Option ℕ
  deriving DecidableEq

/-- Rows of the double-entry tables keep the values as bound to the INSERT statements. -/
structure Store where
  accountEvents : String → List BankAccountEvent
  accountViews : AList (fun _ : String => BankAccountView)
  ledgerEvents : String → List LedgerEvent
  ledgerViews : AList (fun _ : String => LedgerView)
  journalEntries : List JournalEntry
  journalLines : List JournalLine
  transactions : List Transaction
  outbox : List Outbox
  houseAccounts : List HouseAccount
  cache : String → Option CacheEntry

def Store.init (houseAccounts : List HouseAccount) : Store where
  accountEvents _ := []
  accountViews := ∅
  ledgerEvents _ := []
  ledgerViews := ∅
  journalEntries := []
  journalLines := []
  transactions := []
  outbox := []
  houseAccounts := houseAccounts
  cache _ := none

def Money.toJson (m : Money) : Json :=
  .object [("amount", .string m.amount.toString), ("currency", .string m.currency.serde)]

namespace LedgerCommand

/-- The externally tagged layout of a derived serializer. -/
def tagged (tag : String) (id accountId transactionId : Uuid) (amount : Money) : Json :=
  .object [(tag, .object
    [("id", .string id.toString), ("account_id", .string accountId.toString),
     ("transaction_id", .string transactionId.toString), ("amount", amount.toJson)])]

def toJson : LedgerCommand → Json
  | .init id accountId amount =>
    .object [("Init", .object
      [("id", .string id.toString), ("account_id", .string accountId.toString),
       ("amount", amount.toJson)])]
  | .credit id accountId transactionId amount =>
    tagged "Credit" id accountId transactionId amount
  | .debitHold id accountId transactionId amount =>
    tagged "DebitHold" id accountId transactionId amount
  | .debitRelease id accountId transactionId amount =>
    tagged "DebitRelease" id accountId transactionId amount

end LedgerCommand

namespace Store

section Database

def insertJournalEntry (entry : JournalEntry) (s : Store) : Outcome Store :=
  if s.journalEntries.any (fun e => e.id = entry.id) then .err "duplicate journal entry"
  else .ok { s with journalEntries := s.journalEntries ++ [entry] }

/-- The columns `debit_amount` and `credit_amount` are `decimal(19,4)`; the ledger and the
entry of a line are foreign keys. -/
def insertJournalLine (s : Store) (line : JournalLine) : Outcome Store :=
  if s.journalLines.any (fun l => l.id = line.id) then .err "duplicate journal line"
  else if ¬ s.journalEntries.any (fun e => some e.id = line.journalEntryId) then
    .err "journal entry is not present"
  else if (s.ledgerViews.lookup line.ledgerId).isNone then .err "ledger is not present"
  else if ¬ (line.debitAmount.FitsNumeric 19 4 ∧ line.creditAmount.FitsNumeric 19 4) then
    .err "numeric field overflow"
  else .ok { s with journalLines := s.journalLines ++ [line] }

/-- The column `amount` is `decimal(19,2)`, and references are unique. -/
def insertTransaction (t : Transaction) (s : Store) : Outcome Store :=
  if s.transactions.any (fun u => u.id = t.id) then .err "duplicate transaction"
  else if s.transactions.any (fun u => u.transactionReference = t.transactionReference) then
    .err "duplicate transaction reference"
  else if ¬ s.journalEntries.any (fun e => some e.id = t.journalEntryId) then
    .err "journal entry is not present"
  else if ¬ t.amount.FitsNumeric 19 2 then .err "numeric field overflow"
  else .ok { s with transactions := s.transactions ++ [t] }

/-- The column `id` is serial and `processed` is false by default. -/
def insertOutbox (transactionId : Uuid) (eventType : String) (payload : Json) (s : Store) :
    Store :=
  let row : Outbox :=
    { id := s.outbox.length + 1
      transactionId := transactionId
      eventType := eventType
      payload := payload
      processed := false }
  { s with outbox := s.outbox ++ [row] }

def parseUnwrap (s : String) : Outcome Uuid :=
  Outcome.unwrap "called Result::unwrap() on an Err value" (Uuid.parseStr s)

/-- One database transaction: the journal entry, its lines, the transaction and the outbox. -/
def createTransactionWithJournal (transaction : Transaction) (ledgerId : String)
    (journalEntry : JournalEntry) (journalLines : List JournalLine) (s : Store) :
    Outcome (Uuid × Store) := do
  let journalEntryId := journalEntry.id
  let s ← s.insertJournalEntry journalEntry
  let s ← journalLines.foldlM
    (fun s line => s.insertJournalLine { line with journalEntryId := some journalEntryId }) s
  let s ← s.insertTransaction { transaction with journalEntryId := some journalEntryId }
  let transactionId := transaction.id
  let transactionType ← transaction.transactionType
  let eventType :=
    if transactionType = .deposit then "LedgerCommand::Credit" else "LedgerCommand::Debit"
  let id ← parseUnwrap ledgerId
  let amount := Money.new transaction.amount (Currency.ofString transaction.currency)
  let cmd :=
    if transactionType = .deposit then
      LedgerCommand.credit id transaction.bankAccountId transactionId amount
    else LedgerCommand.debitRelease id transaction.bankAccountId transactionId amount
  return (transactionId, s.insertOutbox transactionId eventType cmd.toJson)

def completeTransaction (transactionId : Uuid) (s : Store) : Store :=
  { s with
    transactions := s.transactions.map fun t =>
      if t.id = transactionId then { t with status := "completed" } else t
    outbox := s.outbox.map fun row =>
      if row.transactionId = transactionId then { row with processed := true } else row }

/-- At most 100 rows, oldest first: the table is kept in the order of `created_at`. -/
def getUnprocessedOutbox (s : Store) : List Outbox :=
  (s.outbox.filter (fun row => row.processed = false)).take 100

def getHouseAccount (currency : Currency) (s : Store) : Outcome HouseAccount :=
  match s.houseAccounts.find? (fun h => h.currency.toString = currency.toString ∧
      h.status = "active" ∧ h.accountType = "House") with
  | some h => .ok h
  | none => .err "no rows returned by a query that expected to return at least one row"

/-- Unique are the id, the account number, and the type, currency and status together. -/
def createHouseAccount (account : HouseAccount) (s : Store) : Outcome Store :=
  if s.houseAccounts.any (fun h => h.id = account.id ∨ h.accountNumber = account.accountNumber ∨
      (h.accountType = account.accountType ∧ h.currency = account.currency ∧
        h.status = account.status)) then .err "duplicate house account"
  else .ok { s with houseAccounts := s.houseAccounts ++ [account] }

def liveStatus : List String := ["Pending", "Approved", "Freeze"]

/-- True when no row counts: the query compares the stored text of each field. -/
def validateBankAccountExists (userId : String) (currency : Currency) (kind : BankAccountKind)
    (s : Store) : Bool :=
  (s.accountViews.entries.filter (fun row => row.2.userId = userId ∧
    row.2.currency.serde = currency.toString ∧ row.2.kind.serde = kind.toString ∧
    row.2.status.serde ∈ liveStatus)).length = 0

end Database

section EventStores

/-- The commit of an account execute: events guarded by the sequence that was loaded, and
the view row with them. -/
def commitAccount (id : String) (sequence : ℕ) (events : List BankAccountEvent) (s : Store) :
    Outcome Store :=
  if (s.accountEvents id).length ≠ sequence then .err "optimistic lock error"
  else
    let view := events.foldl BankAccountView.update ((s.accountViews.lookup id).getD default)
    .ok { s with
      accountEvents := Function.update s.accountEvents id (s.accountEvents id ++ events)
      accountViews := s.accountViews.insert id view }

/-- A ledger execute: load, handle, append and project, all of it or nothing. The row is written
with the events; a row that is written after them, or never, is another matter. -/
def executeLedger (id : String) (command : LedgerCommand) (now : String) (s : Store) :
    Outcome Store := do
  let ledger ← Ledger.replay (s.ledgerEvents id)
  match ledger.handle now command with
  | .error e => .err e
  | .ok events =>
    let view ← events.foldlM LedgerView.update ((s.ledgerViews.lookup id).getD default)
    return { s with
      ledgerEvents := Function.update s.ledgerEvents id (s.ledgerEvents id ++ events)
      ledgerViews := s.ledgerViews.insert id view }

/-- An execute succeeds where the log replays and the view takes the events of the command,
and then stores both. -/
theorem executeLedger_eq_ok {s s' : Store} {id now : String} {command : LedgerCommand} :
    s.executeLedger id command now = .ok s' ↔
      ∃ ledger view, Ledger.replay (s.ledgerEvents id) = .ok ledger ∧
        (command.events now).foldlM LedgerView.update
          ((s.ledgerViews.lookup id).getD default) = .ok view ∧
        s' = { s with
          ledgerEvents := Function.update s.ledgerEvents id
            (s.ledgerEvents id ++ command.events now)
          ledgerViews := s.ledgerViews.insert id view } := by
  rw [executeLedger, Outcome.bind_eq_ok]
  constructor
  · rintro ⟨ledger, hledger, h⟩
    simp only [Ledger.handle] at h
    rw [Outcome.bind_eq_ok] at h
    obtain ⟨view, hview, h⟩ := h
    exact ⟨ledger, view, hledger, hview, (Outcome.ok.inj h).symm⟩
  · rintro ⟨ledger, view, hledger, hview, rfl⟩
    refine ⟨ledger, hledger, ?_⟩
    simp only [Ledger.handle]
    rw [hview]
    rfl

end EventStores

end Store

/-- The calls of the service on its stores. -/
inductive Call where
  | loadAccount (id : String)
  | commitAccount (id : String) (sequence : ℕ) (events : List BankAccountEvent)
  | queryAccount (viewId : String)
  | queryLedger (viewId : String)
  | executeLedger (id : String) (command : LedgerCommand)
  | validateBankAccountExists (userId : String) (currency : Currency) (kind : BankAccountKind)
  | getHouseAccount (currency : Currency)
  | createTransactionWithJournal (transaction : Transaction) (ledgerId : String)
      (journalEntry : JournalEntry) (journalLines : List JournalLine)
  | createHouseAccount (account : HouseAccount)
  | getUnprocessedOutbox
  | completeTransaction (transactionId : Uuid)
  | setNx (key value : String)
  | expire (key : String) (seconds : ℕ)
  | get (key : String)
  | del (key : String)

abbrev Reply : Call → Type
  | .loadAccount _ => BankAccount × ℕ
  | .commitAccount .. => Unit
  | .queryAccount _ => Option BankAccountView
  | .queryLedger _ => Option LedgerView
  | .executeLedger .. => Unit
  | .validateBankAccountExists .. => Bool
  | .getHouseAccount _ => HouseAccount
  | .createTransactionWithJournal .. => Uuid
  | .createHouseAccount _ => Unit
  | .getUnprocessedOutbox => List Outbox
  | .completeTransaction _ => Unit
  | .setNx .. => Bool
  | .expire .. => Unit
  | .get _ => Option String
  | .del _ => Unit

/-- What a call does not find in the store: an error of the store, and the clock. -/
structure Oracle where
  fail : Option String
  now : String

def Oracle.Succeeds (o : Oracle) : Prop := o.fail = none

def commitOrRollback (x : Outcome Store) (s : Store) : Outcome Unit × Store :=
  match x with
  | .ok s' => (.ok (), s')
  | .err e => (.err e, s)
  | .panic e => (.panic e, s)

def execute (c : Call) (now : String) (s : Store) : Outcome (Reply c) × Store :=
  match c with
  | .loadAccount id =>
    (.ok (BankAccount.replay (s.accountEvents id), (s.accountEvents id).length), s)
  | .commitAccount id sequence events => commitOrRollback (s.commitAccount id sequence events) s
  | .queryAccount viewId => (.ok (s.accountViews.lookup viewId), s)
  | .queryLedger viewId => (.ok (s.ledgerViews.lookup viewId), s)
  | .executeLedger id command => commitOrRollback (s.executeLedger id command now) s
  | .validateBankAccountExists userId currency kind =>
    (.ok (s.validateBankAccountExists userId currency kind), s)
  | .getHouseAccount currency => (s.getHouseAccount currency, s)
  | .createTransactionWithJournal transaction ledgerId journalEntry journalLines =>
    match s.createTransactionWithJournal transaction ledgerId journalEntry journalLines with
    | .ok (transactionId, s') => (.ok transactionId, s')
    | .err e => (.err e, s)
    | .panic e => (.panic e, s)
  | .createHouseAccount account => commitOrRollback (s.createHouseAccount account) s
  | .getUnprocessedOutbox => (.ok s.getUnprocessedOutbox, s)
  | .completeTransaction transactionId => (.ok (), s.completeTransaction transactionId)
  | .setNx key value =>
    if (s.cache key).isSome then (.ok false, s)
    else (.ok true, { s with cache := Function.update s.cache key (some ⟨value, none⟩) })
  | .expire key seconds =>
    let entry := (s.cache key).map (fun entry => { entry with timeout := some seconds })
    (.ok (), { s with cache := Function.update s.cache key entry })
  | .get key => (.ok ((s.cache key).map CacheEntry.value), s)
  | .del key => (.ok (), { s with cache := Function.update s.cache key none })

def exec (c : Call) (o : Oracle) (s : Store) : Outcome (Reply c) × Store :=
  match o.fail with
  | some e => (.err e, s)
  | none => execute c o.now s

theorem exec_of_fail {c : Call} {o : Oracle} {e : String} (h : o.fail = some e) (s : Store) :
    exec c o s = (.err e, s) := by
  rw [exec, h]

theorem exec_of_succeeds {c : Call} {o : Oracle} (h : o.fail = none) (s : Store) :
    exec c o s = execute c o.now s := by
  rw [exec, h]

/-- A call fails by the oracle, or the store answers it. -/
theorem exec_cases {c : Call} {o : Oracle} {s s' : Store} {r : Outcome (Reply c)}
    (h : exec c o s = (r, s')) :
    (o.fail ≠ none ∧ (∃ e, r = .err e) ∧ s' = s) ∨
      o.fail = none ∧ execute c o.now s = (r, s') := by
  unfold exec at h
  split at h
  · rename_i e hfail
    obtain ⟨rfl, rfl⟩ := Prod.mk.inj h
    exact Or.inl ⟨by simp [hfail], ⟨e, rfl⟩, rfl⟩
  · rename_i hok
    exact Or.inr ⟨hok, h⟩

theorem exec_ok {c : Call} {o : Oracle} {s s' : Store} {a : Reply c}
    (h : exec c o s = (.ok a, s')) : o.fail = none ∧ execute c o.now s = (.ok a, s') := by
  rcases exec_cases h with ⟨-, ⟨e, he⟩, -⟩ | hexec
  · cases he
  · exact hexec

theorem exec_panic {c : Call} {o : Oracle} {s s' : Store} {e : String}
    (h : exec c o s = (.panic e, s')) : o.fail = none ∧ execute c o.now s = (.panic e, s') := by
  rcases exec_cases h with ⟨-, ⟨e', he⟩, -⟩ | hexec
  · cases he
  · exact hexec

/-- The code of the service: programs over the calls. -/
abbrev Code := Prog Call Reply

def call (c : Call) : Code (Reply c) := Prog.perform c

def callUnwrap (c : Call) : Code (Reply c) := Prog.performUnwrap c

end Bankie
