import Bankie.Money
import Bankie.Uuid

/-!
The records of the bank: accounts, ledgers, their events and commands, and the rows
that a movement of money writes. An identifier held in a text field is the printed
identifier, or the empty text that `Default` leaves. A time is its RFC 3339 text.
-/
namespace Bankie

open Program

/-- `serde_json::Value`. -/
inductive Json where
  | null
  | bool (b : Bool)
  | number (n : ℤ)
  | string (s : String)
  | array (items : List Json)
  | object (fields : List (String × Json))

namespace Json

/-- The index operator: a missing key, or a value that is no object, yields null. -/
def get (j : Json) (key : String) : Json :=
  match j with
  | .object fields => (fields.lookup key).getD .null
  | _ => .null

def asStr : Json → Option String
  | .string s => some s
  | _ => none

end Json

inductive BankAccountStatus where
  | pending
  | approved
  | freeze
  | customerClosed
  | terminated
  deriving DecidableEq

inductive BankAccountType where
  | retail
  | institution
  | tax
  deriving DecidableEq

inductive BankAccountKind where
  | checking
  | interest
  | yield
  deriving DecidableEq

inductive LedgerAction where
  | deposit
  | withdraw
  deriving DecidableEq

instance : Inhabited BankAccountStatus := ⟨.pending⟩
instance : Inhabited BankAccountType := ⟨.retail⟩
instance : Inhabited BankAccountKind := ⟨.checking⟩
instance : Inhabited LedgerAction := ⟨.deposit⟩

structure BankAccount where
  id : String
  status : BankAccountStatus
  accountType : BankAccountType
  kind : BankAccountKind
  currency : Currency
  ledgerId : String
  userId : String
  timestamp : String
  deriving DecidableEq, Inhabited

structure HouseAccount where
  id : Uuid
  status : String
  accountNumber : String
  accountName : String
  accountType : String
  ledgerId : String
  currency : Currency
  deriving DecidableEq

structure BankAccountView where
  id : String
  ledgerId : String
  userId : String
  parentId : String
  status : BankAccountStatus
  accountType : BankAccountType
  kind : BankAccountKind
  currency : Currency
  createdAt : String
  updatedAt : String
  deriving DecidableEq, Inhabited

structure Ledger where
  id : String
  accountId : String
  available : Money
  pending : Money
  amount : Money
  timestamp : String
  deriving DecidableEq, Inhabited

structure LedgerView where
  id : String
  accountId : String
  available : Money
  pending : Money
  current : Money
  createdAt : String
  updatedAt : String
  deriving DecidableEq, Inhabited

structure BaseEvent where
  createdAt : String
  aggregateId : String
  parentId : String
  deriving DecidableEq, Inhabited

inductive BankAccountEvent where
  | accountOpened (accountType : BankAccountType) (kind : BankAccountKind)
      (currency : Currency) (userId : String) (baseEvent : BaseEvent)
  | accountKycApproved (ledgerId : String) (baseEvent : BaseEvent)
  | customerDepositedCash (amount : Money) (ledgerId : String) (baseEvent : BaseEvent)
  | customerWithdrewCash (amount : Money) (ledgerId : String) (baseEvent : BaseEvent)
  deriving DecidableEq

inductive LedgerEvent where
  | ledgerInitiated (amount : Money) (baseEvent : BaseEvent)
  | ledgerUpdated (amount : Money) (transactionId transactionType : String)
      (availableDelta pendingDelta : Money) (baseEvent : BaseEvent)
  deriving DecidableEq

inductive BankAccountCommand where
  | openAccount (id : Uuid) (parentId : Option Uuid) (accountType : BankAccountType)
      (kind : BankAccountKind) (userId : String) (currency : Currency)
  | approveAccount (id ledgerId : Uuid)
  | deposit (id : Uuid) (amount : Money)
  | withdrawal (id : Uuid) (amount : Money)
  deriving DecidableEq

namespace BankAccountCommand

def id : BankAccountCommand → Uuid
  | .openAccount id .. => id
  | .approveAccount id _ => id
  | .deposit id _ => id
  | .withdrawal id _ => id

end BankAccountCommand

inductive LedgerCommand where
  | init (id accountId : Uuid) (amount : Money)
  | credit (id accountId transactionId : Uuid) (amount : Money)
  | debitHold (id accountId transactionId : Uuid) (amount : Money)
  | debitRelease (id accountId transactionId : Uuid) (amount : Money)
  deriving DecidableEq

structure Transaction where
  id : Uuid
  bankAccountId : Uuid
  transactionReference : String
  transactionDate : ℕ
  amount : Decimal
  currency : String
  description : Option String
  metadata : Json
  status : String
  journalEntryId : Option Uuid

structure JournalEntry where
  id : Uuid
  entryDate : ℕ
  description : Option String
  status : String
  deriving DecidableEq

structure JournalLine where
  id : Uuid
  journalEntryId : Option Uuid
  ledgerId : String
  debitAmount : Decimal
  creditAmount : Decimal
  currency : String
  description : Option String
  deriving DecidableEq

structure Outbox where
  id : ℕ
  transactionId : Uuid
  eventType : String
  payload : Json
  processed : Bool

def transDeposit : String := "DE"

def transWithdrawal : String := "WI"

/-- `str::contains` with a text as the pattern. -/
def contains (s pattern : String) : Bool := decide (pattern.toList <:+: s.toList)

namespace Transaction

def transactionType (t : Transaction) : Outcome LedgerAction :=
  if contains t.transactionReference transDeposit then .ok .deposit
  else if contains t.transactionReference transWithdrawal then .ok .withdraw
  else .panic "Invalid transaction type"

end Transaction

/-- `snowflake::generate_transaction_reference`, for the integer that the generator yields. -/
def generateTransactionReference (pref : String) (uniqueId : ℤ) : String :=
  pref ++ toString uniqueId

end Bankie
