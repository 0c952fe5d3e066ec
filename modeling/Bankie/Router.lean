import Bankie.Issuing
import Bankie.Requests

/-!
The routes of the server.
A request is matched by its path and its method and handled once it has passed the gate. What
the libraries make of its bytes is a parameter.
-/
namespace Bankie

open Program

section Inbound

inductive Method where
  | get
  | head
  | post
  | other

/-- A request as it arrives. The segments of its path, its query and its body are still
encoded. -/
structure Inbound where
  method : Method
  path : List String
  query : String
  headers : List (String × List UInt8)
  body : List UInt8

/-- What the server takes from its libraries and its environment; a token is decoded at a
second. -/
structure Libraries where
  encode : Encode
  decode : ℕ → Decode
  jwtSecret : Option String
  percentDecode : String → Option String
  queryPairs : String → List (String × String)
  parseJson : List UInt8 → Option Json
  formatDate : ℕ → String

/-- The request at the gate, which finds the database among its extensions. -/
def Inbound.received (request : Inbound) (database : Database) : Request where
  headers := request.headers
  state := some database
  tenantId := none

/-- What is sent of an answer: no body, where the method is `HEAD`. -/
def Inbound.sent (request : Inbound) (response : Response) : Response :=
  match request.method with
  | .head => { response with body := .string "" }
  | _ => response

theorem Inbound.sent_get {request : Inbound} (h : request.method = .get) (response : Response) :
    request.sent response = response := by
  rw [sent, h]

def refused (status : StatusCode) : Response where
  status := status
  body := .string ""

end Inbound

section Routes

/-- The routes that only read. -/
inductive Query where
  | user (id : String)
  | bankAccount (id : String)
  | ledger (id : String)
  | houseAccounts
  | transactions

inductive Route where
  | query (q : Query)
  | bankAccountCommand
  | houseAccountCreate

/-- The routes of a path, by their methods. -/
structure MethodRouter where
  get : Option Route
  post : Option Route

/-- A parameter of a path matches any segment that is not empty. -/
def matchId (id : String) (q : String → Query) : Option MethodRouter :=
  if id = "" then none else some ⟨some (.query (q id)), none⟩

def matchPath : List String → Option MethodRouter
  | ["v1", "bank_account", id] => matchId id .bankAccount
  | ["v1", "bank_account"] => some ⟨none, some .bankAccountCommand⟩
  | ["v1", "ledger", id] => matchId id .ledger
  | ["v1", "house_account"] => some ⟨some (.query .houseAccounts), some .houseAccountCreate⟩
  | ["v1", "user", id] => matchId id .user
  | ["v1", "transaction"] => some ⟨some (.query .transactions), none⟩
  | _ => none

/-- The route of a request, or the status that answers one without. A route for `GET` also serves
`HEAD`. -/
def Inbound.route (request : Inbound) : Except StatusCode Route :=
  match matchPath request.path with
  | none => .error 404
  | some router =>
    let route := match request.method with
      | .get => router.get
      | .head => router.get
      | .post => router.post
      | .other => none
    match route with
    | none => .error 405
    | some route => .ok route

end Routes

section Params

def queryParam (name : String) (pairs : List (String × String)) : Option String :=
  match pairs.filter fun pair => pair.1 = name with
  | [pair] => some pair.2
  | _ => none

def parseDigits (cs : List Char) : Option ℕ :=
  if cs ≠ [] ∧ cs.all Char.isDigit then some (Nat.ofDigitChars 10 cs 0) else none

/-- `i64::from_str`. -/
def parseI64 (s : String) : Option ℤ :=
  let n : Option ℤ := match s.toList with
    | '-' :: cs => (parseDigits cs).map fun n => -(n : ℤ)
    | '+' :: cs => (parseDigits cs).map fun n => (n : ℤ)
    | cs => (parseDigits cs).map fun n => (n : ℤ)
  n.filter fun n => -2 ^ 63 ≤ n ∧ n < 2 ^ 63

structure HouseAccountParams where
  currency : String

def HouseAccountParams.fromPairs (pairs : List (String × String)) : Option HouseAccountParams := do
  let currency ← queryParam "currency" pairs
  return { currency }

structure TransactionParams where
  bankAccountId : String
  offset : ℤ
  limit : ℤ

def TransactionParams.fromPairs (pairs : List (String × String)) : Option TransactionParams := do
  let bankAccountId ← queryParam "bank_account_id" pairs
  let offset ← (queryParam "offset" pairs).bind parseI64
  let limit ← (queryParam "limit" pairs).bind parseI64
  return { bankAccountId, offset, limit }

end Params

section Bodies

def optionalMember (name : String) (j : Option Json) : List (String × Json) :=
  j.toList.map fun j => (name, j)

def BankAccountWithLedger.toJson (self : BankAccountWithLedger) : Json :=
  .object <| optionalMember "id" (self.id.map .string) ++
    optionalMember "status" (self.status.map .string) ++
    optionalMember "account_type" (self.accountType.map .string) ++
    optionalMember "kind" (self.kind.map .string) ++
    optionalMember "currency" (self.currency.map .string) ++
    optionalMember "available" (self.available.map Decimal.codec.encode) ++
    optionalMember "pending" (self.pending.map Decimal.codec.encode) ++
    optionalMember "current" (self.current.map Decimal.codec.encode) ++
    optionalMember "created_at" (self.createdAt.map .string) ++
    optionalMember "updated_at" (self.updatedAt.map .string)

def TransactionWithMoney.toJson (formatDate : ℕ → String) (self : TransactionWithMoney) : Json :=
  .object
    [("id", Uuid.codec.encode self.id), ("bank_account_id", Uuid.codec.encode self.bankAccountId),
      ("transaction_reference", .string self.transactionReference),
      ("transaction_date", .string (formatDate self.transactionDate)),
      ("amount", .string self.amount), ("currency", .string self.currency),
      ("description", (self.description.map Json.string).getD .null),
      ("metadata", self.metadata), ("status", .string self.status)]

def entries {α : Type} (toJson : α → Json) (rows : List α) : Json :=
  .object [("entries", .array (rows.map toJson))]

/-- The response of a query handler; where it panics, there is none. -/
def reply {α : Type} (toJson : α → Json) : Answer α → Option Response
  | .ok (.ok a) => some ⟨200, toJson a⟩
  | .ok (.error e) => some e.intoResponse
  | _ => none

end Bodies

section Queries

variable (lib : Libraries)

def Libraries.withPath (id : String) (handler : String → Option Response) : Option Response :=
  match lib.percentDecode id with
  | none => some (refused 400)
  | some id => handler id

/-- A route that reads, on the store as it finds it. -/
def Libraries.query (request : Inbound) (o : Oracle) (s : Store) : Query → Option Response
  | .user id =>
    lib.withPath id fun id => reply (entries BankAccountWithLedger.toJson) (userQueryHandler id o s)
  | .bankAccount id =>
    lib.withPath id fun id => reply BankAccountView.codec.encode (bankAccountQueryHandler id o s)
  | .ledger id =>
    lib.withPath id fun id => reply LedgerView.codec.encode (ledgerQueryHandler id o s)
  | .houseAccounts =>
    match HouseAccountParams.fromPairs (lib.queryPairs request.query) with
    | none => some (refused 400)
    | some params =>
      reply (entries HouseAccount.toJson) (houseAccountQueryHandler params.currency o s)
  | .transactions =>
    match TransactionParams.fromPairs (lib.queryPairs request.query) with
    | none => some (refused 400)
    | some params =>
      reply (entries (TransactionWithMoney.toJson lib.formatDate))
        (transactionQueryHandler params.bankAccountId params.offset params.limit o s)

end Queries

end Bankie
