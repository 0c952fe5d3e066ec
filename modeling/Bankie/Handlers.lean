import Bankie.Columns
import Bankie.Display
import Bankie.Growing
import Bankie.System

/-!
The routes that read, and the route that sends a command.
A query is one statement against the database. Its rows are answered with status 200 and an
error of the database with 500; a command is answered as soon as the channel has taken it.
-/
namespace Bankie

open Program Transition Growing

inductive AppError where
  | badRequest (message : String)
  | notFound (message : String)
  | internalServerError (message : String)
  deriving DecidableEq

namespace AppError

def code : AppError → ℕ
  | .badRequest _ => 400
  | .notFound _ => 404
  | .internalServerError _ => 500

def message : AppError → String
  | .badRequest message => message
  | .notFound message => message
  | .internalServerError message => message

def intoResponse (e : AppError) : Response where
  status := e.code
  body := .object [("code", .number e.code), ("message", .string e.message)]

end AppError

/-- What a query handler answers: a body with status 200, or an error. -/
abbrev Answer (α : Type) := Outcome (Except AppError α)

/-- A query of the pool, unless the database fails. -/
def fetch {α : Type} (o : Oracle) (rows : Outcome α) : Outcome α :=
  match o.fail with
  | some e => .err e
  | none => rows

/-- `Ok` is answered with the rows, and `Err` with status 500. -/
def respond {α : Type} : Outcome α → Answer α
  | .ok rows => .ok (.ok rows)
  | .err e => .ok (.error (.internalServerError e))
  | .panic e => .panic e

/-- The view that a repository has loaded, or status 404. -/
def found {α : Type} : Except AppError (Option α) → Except AppError α
  | .ok (some view) => .ok view
  | .ok none => .error (.notFound "Resource Not Found")
  | .error e => .error e

section Transactions

structure TransactionWithMoney where
  id : Uuid
  bankAccountId : Uuid
  transactionReference : String
  transactionDate : ℕ
  amount : String
  currency : String
  description : Option String
  metadata : Json
  status : String

def Transaction.intoTransactionWithMoney (self : Transaction) : TransactionWithMoney where
  id := self.id
  bankAccountId := self.bankAccountId
  transactionReference := self.transactionReference
  transactionDate := self.transactionDate
  amount := (Money.new self.amount (Currency.ofString self.currency)).toString
  currency := self.currency
  description := self.description
  metadata := self.metadata
  status := self.status

/-- A row as a query returns it: the column `amount` is a `decimal(19,2)`. -/
def Transaction.fetched (t : Transaction) : Transaction := { t with amount := t.amount.round 2 }

/-- The table is kept in the order of `created_at`. The id is parsed before the query is made,
and the database takes no negative offset or limit. -/
def Store.getTransactions (bankAccountId : String) (offset limit : ℤ) (o : Oracle) (s : Store) :
    Outcome (List Transaction) := do
  let id ← parseUnwrap bankAccountId
  fetch o <|
    if offset < 0 then .err "OFFSET must not be negative"
    else if limit < 0 then .err "LIMIT must not be negative"
    else .ok ((page offset.toNat limit.toNat
      (s.transactions.filter fun t => t.bankAccountId = id)).map Transaction.fetched)

def transactionQueryHandler (bankAccountId : String) (offset limit : ℤ) (o : Oracle) (s : Store) :
    Answer (List TransactionWithMoney) :=
  respond do
    let transactions ← s.getTransactions bankAccountId offset limit o
    return transactions.map Transaction.intoTransactionWithMoney

end Transactions

section Accounts

def BankAccountType.serde : BankAccountType → String
  | .retail => "Retail"
  | .institution => "Institution"
  | .tax => "Tax"

structure BankAccountWithLedger where
  id : Option String
  status : Option String
  accountType : Option String
  kind : Option String
  currency : Option String
  available : Option Decimal
  pending : Option Decimal
  current : Option Decimal
  createdAt : Option String
  updatedAt : Option String
  deriving DecidableEq

/-- An account view joined with the ledger view that it names; without one the balances
are NULL. -/
def BankAccountView.withLedger (b : BankAccountView) (l : Option LedgerView) :
    BankAccountWithLedger where
  id := some b.id
  status := some b.status.serde
  accountType := some b.accountType.serde
  kind := some b.kind.serde
  currency := some b.currency.serde
  available := l.map fun l => l.available.amount
  pending := l.map fun l => l.pending.amount
  current := l.map fun l => l.current.amount
  createdAt := some b.createdAt
  updatedAt := some b.updatedAt

def Store.getUserBankAccounts (userId : String) (s : Store) : List BankAccountWithLedger :=
  (s.accountViews.entries.filter fun row => row.2.userId = userId).map fun row =>
    row.2.withLedger (s.ledgerViews.lookup row.2.ledgerId)

def userQueryHandler (id : String) (o : Oracle) (s : Store) :
    Answer (List BankAccountWithLedger) :=
  respond (fetch o (.ok (s.getUserBankAccounts id)))

def bankAccountQueryHandler (id : String) (o : Oracle) (s : Store) :
    Outcome (Except AppError BankAccountView) := do
  let view ← respond (fetch o (.ok (s.accountViews.lookup id)))
  return found view

def ledgerQueryHandler (id : String) (o : Oracle) (s : Store) :
    Outcome (Except AppError LedgerView) := do
  let view ← respond (fetch o (.ok (s.ledgerViews.lookup id)))
  return found view

/-- All active house accounts of the currency, of every type. -/
def Store.getHouseAccounts (currency : Currency) (s : Store) : List HouseAccount :=
  s.houseAccounts.filter fun h =>
    h.currency.toString = currency.toString ∧ h.status = "active"

/-- The currency of the query is converted as a text from the database is. -/
def houseAccountQueryHandler (currency : String) (o : Oracle) (s : Store) :
    Answer (List HouseAccount) :=
  respond (fetch o (.ok (s.getHouseAccounts (Currency.ofString currency))))

end Accounts

section Commands

def accepted (command : BankAccountCommand) : Response where
  status :=
    match command with
    | .openAccount .. => 201
    | _ => 200
  body := .object [("id", .string command.id.toString)]

/-- Sending fails once the consumer is gone and the channel is closed with it. -/
def System.send (command : BankAccountCommand) (st : System) : Outcome Unit × System :=
  match st.consumer with
  | .done (.panic _) => (.err "channel closed", st)
  | _ => (.ok (), { st with
      submitted := st.submitted ++ [command]
      channel := st.channel ++ [command] })

def bankAccountCommandHandler (command : BankAccountCommand) (st : System) : Response × System :=
  match st.send command with
  | (.err e, st') => ((AppError.badRequest e).intoResponse, st')
  | (_, st') => (accepted command, st')

end Commands

end Bankie
