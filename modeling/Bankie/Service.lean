import Bankie.Store

/-!
The command side of the service, as programs over the stores.
A bank account command is loaded, handled and committed by the framework; the handler
calls the checks, the double-entry writer and the ledger on the way. What the code draws
from the outside (new identifiers, the reference number, the date and the time) is
handed to it as a record.
-/
namespace Bankie

open Program

/-- What the handling of one command draws from generators and clocks. -/
structure Draws where
  transactionId : Uuid
  journalEntryId : Uuid
  houseLineId : Uuid
  userLineId : Uuid
  uniqueId : ℤ
  today : ℕ
  now : String

def Draws.ids (d : Draws) : List Uuid :=
  [d.transactionId, d.journalEntryId, d.houseLineId, d.userLineId]

section Calls

/-! The calls, at the types of their replies. -/

def loadAccountView (id : String) : Code (Option BankAccountView) :=
  call (.queryAccount id)

def loadLedgerView (id : String) : Code (Option LedgerView) := call (.queryLedger id)

def executeLedger (id : String) (command : LedgerCommand) : Code Unit :=
  call (.executeLedger id command)

def findHouseAccount (currency : Currency) : Code HouseAccount :=
  call (.getHouseAccount currency)

end Calls

namespace BankAccountLogic

def noteLedger (id : String) (command : LedgerCommand) : Code Unit :=
  (executeLedger id command).mapErr (fun e => "Failed to write ledger: " ++ e)

def createTransactionWithJournal (transaction : Transaction) (ledgerId : String)
    (journalEntry : JournalEntry) (journalLines : List JournalLine) : Code Uuid :=
  Prog.mapErr (fun e => "Failed to write transaction: " ++ e)
    (call (.createTransactionWithJournal transaction ledgerId journalEntry journalLines))

/-- The check of a withdrawal against the ledger view; a missing row is only logged. -/
def validateLedger (action : LedgerAction) (amount : Money) : Option LedgerView → Code Unit
  | none => pure ()
  | some ledgerView =>
    if action = .withdraw ∧ ledgerView.available.Lt amount then Prog.fail "Insufficient funds"
    else pure ()

theorem validateLedger_cases (action : LedgerAction) (amount : Money) (view : Option LedgerView) :
    (validateLedger action amount view = pure () ∧
        (action = .withdraw → ∀ v ∈ view, ¬ v.available.Lt amount)) ∨
      validateLedger action amount view = Prog.fail "Insufficient funds" := by
  cases view with
  | none => exact Or.inl ⟨rfl, fun _ v hv => by cases hv⟩
  | some v =>
    by_cases hshort : action = .withdraw ∧ v.available.Lt amount
    · exact Or.inr (if_pos hshort)
    · refine Or.inl ⟨if_neg hshort, fun haction v' hv' hlt => hshort ⟨haction, ?_⟩⟩
      rwa [Option.some.inj hv']

/-- The checks of an account view; a missing row is only logged. -/
def validateAccount (action : LedgerAction) (amount : Money) :
    Option BankAccountView → Code Unit
  | none => pure ()
  | some accountView =>
    if accountView.status ≠ .approved then Prog.fail "Account is not active"
    else if accountView.currency ≠ amount.currency then Prog.fail "Currency invalid"
    else do
      let view ← loadLedgerView accountView.ledgerId
      validateLedger action amount view

def validate (accountId : Uuid) (action : LedgerAction) (amount : Money) : Code Unit := do
  let view ← loadAccountView accountId.toString
  validateAccount action amount view

def getHouseAccount (currency : Currency) : Code HouseAccount :=
  (findHouseAccount currency).mapErr (fun e => "Failed to get house account: " ++ e)

def validateAccountCreation (accountId : Uuid) (userId : String) (currency : Currency)
    (kind : BankAccountKind) : Code Bool := do
  let view ← loadAccountView accountId.toString
  match view with
  | some _ => Prog.fail "Account duplicated"
  | none =>
    let valid : Bool ← call (.validateBankAccountExists userId currency kind)
    if valid = false then Prog.fail "Account duplicated" else pure true

def getBankAccount (accountId : Uuid) : Code BankAccountView := do
  let view ← loadAccountView accountId.toString
  match view with
  | none => Prog.fail "Account not found"
  | some accountView => pure accountView

def debitHold (accountId ledgerId transactionId : Uuid) (amount : Money) : Code Unit :=
  (executeLedger ledgerId.toString (.debitHold ledgerId accountId transactionId amount)).mapErr
    (fun e => "Failed to debit hold: " ++ e)

end BankAccountLogic

namespace Helper

def validateAccountCreation (id : Uuid) (userId : String) (currency : Currency)
    (kind : BankAccountKind) : Code Unit := do
  let valid ← BankAccountLogic.validateAccountCreation id userId currency kind
  if valid = false then Prog.fail "validation failed" else pure ()

def createBaseEvent (now : String) (id : Uuid) : BaseEvent where
  createdAt := now
  aggregateId := id.toString
  parentId := ""

def initLedger (ledgerId accountId : Uuid) (currency : Currency) : Code Unit :=
  (BankAccountLogic.noteLedger ledgerId.toString
    (.init ledgerId accountId (Money.new .zero currency))).mapErr
    (fun _ => "ledger write failed")

def transactionOf (d : Draws) (accountId : Uuid) (amount : Money) (action : LedgerAction) :
    Transaction where
  id := d.transactionId
  bankAccountId := accountId
  transactionReference := generateTransactionReference
    (match action with
      | .deposit => transDeposit
      | .withdraw => transWithdrawal) d.uniqueId
  transactionDate := d.today
  amount := amount.amount
  currency := amount.currency.toString
  description := none
  metadata := .null
  journalEntryId := none
  status := "processing"

def journalEntryOf (d : Draws) : JournalEntry where
  id := d.journalEntryId
  entryDate := d.today
  description := none
  status := "posted"

/-- A deposit debits the house and credits the user, a withdrawal the other way round. -/
def journalLinesOf (d : Draws) (houseLedger userLedger : String) (amount : Money)
    (action : LedgerAction) : List JournalLine :=
  let house : JournalLine :=
    { id := d.houseLineId
      journalEntryId := none
      ledgerId := houseLedger
      creditAmount := .zero
      debitAmount := .zero
      currency := amount.currency.toString
      description := none }
  let user : JournalLine :=
    { id := d.userLineId
      journalEntryId := none
      ledgerId := userLedger
      debitAmount := .zero
      creditAmount := .zero
      currency := amount.currency.toString
      description := none }
  if action = .deposit then
    [{ house with debitAmount := amount.amount }, { user with creditAmount := amount.amount }]
  else
    [{ house with creditAmount := amount.amount }, { user with debitAmount := amount.amount }]

/-- The account id is parsed for the check and once more for the transaction. -/
def createTransactionWithJournal (d : Draws) (bankAccount : BankAccount) (amount : Money)
    (houseAccountLedger : String) (action : LedgerAction) : Code Uuid := do
  let checkedId ← Prog.lift (Store.parseUnwrap bankAccount.id)
  BankAccountLogic.validate checkedId action amount
  let accountId ← Prog.lift (Store.parseUnwrap bankAccount.id)
  (BankAccountLogic.createTransactionWithJournal (transactionOf d accountId amount action)
    bankAccount.ledgerId (journalEntryOf d)
    (journalLinesOf d houseAccountLedger bankAccount.ledgerId amount action)).mapErr
    (fun _ => "transaction update failed")

end Helper

namespace BankAccount

/-- The house account of the currency, or an error of the command. -/
def houseOf (currency : Currency) : Code HouseAccount :=
  (BankAccountLogic.getHouseAccount currency).mapErr (fun _ => "house account not found")

def handle (d : Draws) (self : BankAccount) : BankAccountCommand → Code (List BankAccountEvent)
  | .openAccount id _ accountType kind userId currency => do
    Helper.validateAccountCreation id userId currency kind
    return [.accountOpened accountType kind currency userId (Helper.createBaseEvent d.now id)]
  | .approveAccount id ledgerId => do
    let bankAccount ← (BankAccountLogic.getBankAccount id).mapErr (fun _ => "account not found")
    Helper.initLedger ledgerId id bankAccount.currency
    return [.accountKycApproved ledgerId.toString (Helper.createBaseEvent d.now id)]
  | .deposit _ amount => do
    let houseAccount ← houseOf amount.currency
    let _ ← Helper.createTransactionWithJournal d self amount houseAccount.ledgerId .deposit
    return []
  | .withdrawal id amount => do
    let houseAccount ← houseOf amount.currency
    let transactionId ←
      Helper.createTransactionWithJournal d self amount houseAccount.ledgerId .withdraw
    let ledgerId ← Prog.lift (Store.parseUnwrap self.ledgerId)
    BankAccountLogic.debitHold id ledgerId transactionId amount
    return []

end BankAccount

/-- The end of an execute: without events there is nothing to commit. -/
def commitEvents (id : String) (sequence : ℕ) : List BankAccountEvent → Code Unit
  | [] => pure ()
  | events => call (.commitAccount id sequence events)

/-- The framework's execute on the bank account with this id. -/
def executeBankAccount (d : Draws) (id : String) (command : BankAccountCommand) : Code Unit := do
  let loaded : BankAccount × ℕ ← call (.loadAccount id)
  let events ← BankAccount.handle d loaded.1 command
  commitEvents id loaded.2 events

/-- One round of the loop in `process_commands`: an error is logged, a panic is not caught. -/
def processCommand (d : Draws) (command : BankAccountCommand) : Code Unit :=
  (executeBankAccount d command.id.toString command).rescue (fun _ => pure ())

/-- The extractor replaces the ids that a client must not choose by the new id `fresh`. -/
def extractCommand (fresh : Uuid) : BankAccountCommand → BankAccountCommand
  | .openAccount _ _ accountType kind userId currency =>
    .openAccount fresh none accountType kind userId currency
  | .approveAccount id _ => .approveAccount id fresh
  | command => command

end Bankie
