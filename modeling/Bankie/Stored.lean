import Bankie.Documents
import Bankie.Handlers
import Bankie.Lists

/-!
The documents in the tables.
Events and views are stored as JSON, and so is the payload of an outbox row, which a
`jsonb` column keeps in an order of its own. Two queries read the view tables without decoding
them. What is stored is read back, whatever the order.
-/
namespace Bankie

open Program

section Codecs

/-! Each codec has the names of the derived serializer. -/

def Currency.codec : Codec Currency :=
  Codec.units [.usd, .twd] serde (by intro c; cases c <;> decide)
    (by intro c c'; cases c <;> cases c' <;> decide)

def BankAccountStatus.codec : Codec BankAccountStatus :=
  Codec.units [.pending, .approved, .freeze, .customerClosed, .terminated] serde
    (by intro s; cases s <;> decide) (by intro s s'; cases s <;> cases s' <;> decide)

def BankAccountType.codec : Codec BankAccountType :=
  Codec.units [.retail, .institution, .tax] serde (by intro t; cases t <;> decide)
    (by intro t t'; cases t <;> cases t' <;> decide)

def BankAccountKind.codec : Codec BankAccountKind :=
  Codec.units [.checking, .interest, .yield] serde (by intro k; cases k <;> decide)
    (by intro k k'; cases k <;> cases k' <;> decide)

/-- A decimal is written as a text, and read from a text or from a whole number. -/
def Decimal.codec : Codec Decimal :=
  Codec.scalar (fun d => .string d.toString)
    (fun
      | .string s => fromStr s
      | .number n => some (ofInt n)
      | _ => none)
    fromStr_toString (fun _ => rfl) (fun _ => rfl)

def Money.codec : Codec Money :=
  Codec.record (.cons "amount" Decimal.codec (.cons "currency" Currency.codec .nil)) (by decide)
    (fun m => (m.amount, m.currency, ())) (fun p => ⟨p.1, p.2.1⟩) (fun _ => rfl)

def BaseEvent.codec : Codec BaseEvent :=
  Codec.record
    (.cons "created_at" .string (.cons "aggregate_id" .string (.cons "parent_id" .string .nil)))
    (by decide) (fun e => (e.createdAt, e.aggregateId, e.parentId, ()))
    (fun p => ⟨p.1, p.2.1, p.2.2.1⟩) (fun _ => rfl)

namespace BankAccountEvent

def accountOpenedCodec :
    Codec (BankAccountType × BankAccountKind × Currency × String × BaseEvent × Unit) :=
  Codec.tuple
    (.cons "account_type" BankAccountType.codec <| .cons "kind" BankAccountKind.codec <|
      .cons "currency" Currency.codec <| .cons "user_id" .string <|
      .cons "base_event" BaseEvent.codec .nil)
    (by decide)

def accountKycApprovedCodec : Codec (String × BaseEvent × Unit) :=
  Codec.tuple (.cons "ledger_id" .string <| .cons "base_event" BaseEvent.codec .nil) (by decide)

def customerCashCodec : Codec (Money × String × BaseEvent × Unit) :=
  Codec.tuple
    (.cons "amount" Money.codec <| .cons "ledger_id" .string <|
      .cons "base_event" BaseEvent.codec .nil)
    (by decide)

def tag : BankAccountEvent → String
  | .accountOpened .. => "AccountOpened"
  | .accountKycApproved .. => "AccountKycApproved"
  | .customerDepositedCash .. => "CustomerDepositedCash"
  | .customerWithdrewCash .. => "CustomerWithdrewCash"

def body : BankAccountEvent → Json
  | .accountOpened accountType kind currency userId baseEvent =>
    accountOpenedCodec.encode (accountType, kind, currency, userId, baseEvent, ())
  | .accountKycApproved ledgerId baseEvent =>
    accountKycApprovedCodec.encode (ledgerId, baseEvent, ())
  | .customerDepositedCash amount ledgerId baseEvent =>
    customerCashCodec.encode (amount, ledgerId, baseEvent, ())
  | .customerWithdrewCash amount ledgerId baseEvent =>
    customerCashCodec.encode (amount, ledgerId, baseEvent, ())

def read (tag : String) (body : Json) : Option BankAccountEvent :=
  if tag = "AccountOpened" then
    (accountOpenedCodec.decode body).map fun p =>
      .accountOpened p.1 p.2.1 p.2.2.1 p.2.2.2.1 p.2.2.2.2.1
  else if tag = "AccountKycApproved" then
    (accountKycApprovedCodec.decode body).map fun p => .accountKycApproved p.1 p.2.1
  else if tag = "CustomerDepositedCash" then
    (customerCashCodec.decode body).map fun p => .customerDepositedCash p.1 p.2.1 p.2.2.1
  else if tag = "CustomerWithdrewCash" then
    (customerCashCodec.decode body).map fun p => .customerWithdrewCash p.1 p.2.1 p.2.2.1
  else none

theorem read_body (e : BankAccountEvent) : read e.tag e.body = some e := by
  cases e <;> simp [read, tag, body, Codec.decode_encode]

theorem read_reorders (tag : String) (j j' : Json) (h : j.Reorders j') :
    read tag j = read tag j' := by
  rw [read, read, accountOpenedCodec.decode_reorders _ _ h,
    accountKycApprovedCodec.decode_reorders _ _ h, customerCashCodec.decode_reorders _ _ h]

def codec : Codec BankAccountEvent := Codec.variants tag body read read_body read_reorders

end BankAccountEvent

namespace LedgerEvent

def ledgerInitiatedCodec : Codec (Money × BaseEvent × Unit) :=
  Codec.tuple (.cons "amount" Money.codec <| .cons "base_event" BaseEvent.codec .nil) (by decide)

def ledgerUpdatedCodec : Codec (Money × String × String × Money × Money × BaseEvent × Unit) :=
  Codec.tuple
    (.cons "amount" Money.codec <| .cons "transaction_id" .string <|
      .cons "transaction_type" .string <| .cons "available_delta" Money.codec <|
      .cons "pending_delta" Money.codec <| .cons "base_event" BaseEvent.codec .nil)
    (by decide)

def tag : LedgerEvent → String
  | .ledgerInitiated .. => "LedgerInitiated"
  | .ledgerUpdated .. => "LedgerUpdated"

def body : LedgerEvent → Json
  | .ledgerInitiated amount baseEvent => ledgerInitiatedCodec.encode (amount, baseEvent, ())
  | .ledgerUpdated amount transactionId transactionType availableDelta pendingDelta baseEvent =>
    ledgerUpdatedCodec.encode
      (amount, transactionId, transactionType, availableDelta, pendingDelta, baseEvent, ())

def read (tag : String) (body : Json) : Option LedgerEvent :=
  if tag = "LedgerInitiated" then
    (ledgerInitiatedCodec.decode body).map fun p => .ledgerInitiated p.1 p.2.1
  else if tag = "LedgerUpdated" then
    (ledgerUpdatedCodec.decode body).map fun p =>
      .ledgerUpdated p.1 p.2.1 p.2.2.1 p.2.2.2.1 p.2.2.2.2.1 p.2.2.2.2.2.1
  else none

theorem read_body (e : LedgerEvent) : read e.tag e.body = some e := by
  cases e <;> simp [read, tag, body, Codec.decode_encode]

theorem read_reorders (tag : String) (j j' : Json) (h : j.Reorders j') :
    read tag j = read tag j' := by
  rw [read, read, ledgerInitiatedCodec.decode_reorders _ _ h,
    ledgerUpdatedCodec.decode_reorders _ _ h]

def codec : Codec LedgerEvent := Codec.variants tag body read read_body read_reorders

end LedgerEvent

def BankAccountView.codec : Codec BankAccountView :=
  Codec.record
    (.cons "id" .string <| .cons "ledger_id" .string <| .cons "user_id" .string <|
      .cons "parent_id" .string <| .cons "status" BankAccountStatus.codec <|
      .cons "account_type" BankAccountType.codec <| .cons "kind" BankAccountKind.codec <|
      .cons "currency" Currency.codec <| .cons "created_at" .string <|
      .cons "updated_at" .string .nil)
    (by decide)
    (fun v => (v.id, v.ledgerId, v.userId, v.parentId, v.status, v.accountType, v.kind,
      v.currency, v.createdAt, v.updatedAt, ()))
    (fun p => ⟨p.1, p.2.1, p.2.2.1, p.2.2.2.1, p.2.2.2.2.1, p.2.2.2.2.2.1, p.2.2.2.2.2.2.1,
      p.2.2.2.2.2.2.2.1, p.2.2.2.2.2.2.2.2.1, p.2.2.2.2.2.2.2.2.2.1⟩)
    (fun _ => rfl)

def LedgerView.codec : Codec LedgerView :=
  Codec.record
    (.cons "id" .string <| .cons "account_id" .string <| .cons "available" Money.codec <|
      .cons "pending" Money.codec <| .cons "current" Money.codec <|
      .cons "created_at" .string <| .cons "updated_at" .string .nil)
    (by decide)
    (fun v => (v.id, v.accountId, v.available, v.pending, v.current, v.createdAt, v.updatedAt, ()))
    (fun p => ⟨p.1, p.2.1, p.2.2.1, p.2.2.2.1, p.2.2.2.2.1, p.2.2.2.2.2.1, p.2.2.2.2.2.2.1⟩)
    (fun _ => rfl)

end Codecs

/-- The two view tables, with documents for rows. -/
structure ViewTables where
  bankAccountViews : AList fun _ : String => Json
  ledgerViews : AList fun _ : String => Json

namespace ViewTables

/-- The documents store the views of the store. -/
structure Stores (t : ViewTables) (s : Store) : Prop where
  bankAccountViews : BankAccountView.codec.StoresTable t.bankAccountViews s.accountViews
  ledgerViews : LedgerView.codec.StoresTable t.ledgerViews s.ledgerViews

section Queries

/-- The cast of a text to `numeric`. -/
def numeric : Option String → Outcome (Option Decimal)
  | none => .ok none
  | some s =>
    match Decimal.fromStr s with
    | some d => .ok (some d)
    | none => .err "invalid input syntax for type numeric"

def columns (b : Json) (l : Option Json) : Outcome BankAccountWithLedger := do
  let available ← numeric ((l.bind (·.member "available")).bind (·.memberText "amount"))
  let pending ← numeric ((l.bind (·.member "pending")).bind (·.memberText "amount"))
  let current ← numeric ((l.bind (·.member "current")).bind (·.memberText "amount"))
  return {
    id := b.memberText "id"
    status := b.memberText "status"
    accountType := b.memberText "account_type"
    kind := b.memberText "kind"
    currency := b.memberText "currency"
    available := available
    pending := pending
    current := current
    createdAt := b.memberText "created_at"
    updatedAt := b.memberText "updated_at" }

def leftJoin (t : ViewTables) (b : Json) : Outcome (List BankAccountWithLedger) :=
  match t.ledgerViews.entries.filter fun l => b.memberText "ledger_id" = some l.1 with
  | [] => do
    let row ← columns b none
    return [row]
  | ls => ls.mapM fun l => columns b (some l.2)

/-- `get_user_bank_accounts`, as the statement reads the documents. -/
def getUserBankAccounts (userId : String) (t : ViewTables) :
    Outcome (List BankAccountWithLedger) := do
  let owned := t.bankAccountViews.entries.filter fun b => b.2.memberText "user_id" = some userId
  let rows ← owned.mapM fun b => t.leftJoin b.2
  return rows.flatten

/-- `validate_bank_account_exists`, as the statement reads the documents. -/
def validateBankAccountExists (userId : String) (currency : Currency) (kind : BankAccountKind)
    (t : ViewTables) : Bool :=
  (t.bankAccountViews.entries.filter fun b => b.2.memberText "user_id" = some userId ∧
    b.2.memberText "currency" = some currency.toString ∧
    b.2.memberText "kind" = some kind.toString ∧
    b.2.memberText "status" ∈ Store.liveStatus.map some).length = 0

end Queries

section Members

/-! The members of a stored view. -/

variable {b l : Json} {v : BankAccountView} {w : LedgerView}

theorem bankAccount_members (h : BankAccountView.codec.Stores v b) :
    b.memberText "id" = some v.id ∧ b.memberText "ledger_id" = some v.ledgerId ∧
      b.memberText "user_id" = some v.userId ∧ b.memberText "status" = some v.status.serde ∧
      b.memberText "account_type" = some v.accountType.serde ∧
      b.memberText "kind" = some v.kind.serde ∧ b.memberText "currency" = some v.currency.serde ∧
      b.memberText "created_at" = some v.createdAt ∧
      b.memberText "updated_at" = some v.updatedAt :=
  ⟨(h.memberText _).symm, (h.memberText _).symm, (h.memberText _).symm, (h.memberText _).symm,
    (h.memberText _).symm, (h.memberText _).symm, (h.memberText _).symm, (h.memberText _).symm,
    (h.memberText _).symm⟩

theorem numeric_toString (d : Decimal) : numeric (some d.toString) = .ok (some d) := by
  rw [numeric, Decimal.fromStr_toString]

theorem ledger_members (h : LedgerView.codec.Stores w l) :
    (l.member "available").bind (·.memberText "amount") = some w.available.amount.toString ∧
      (l.member "pending").bind (·.memberText "amount") = some w.pending.amount.toString ∧
      (l.member "current").bind (·.memberText "amount") = some w.current.amount.toString :=
  ⟨(h.memberText_of_member _ _).symm, (h.memberText_of_member _ _).symm,
    (h.memberText_of_member _ _).symm⟩

theorem columns_stored (hb : BankAccountView.codec.Stores v b) {l : Option Json}
    {w : Option LedgerView} (hl : Option.Rel LedgerView.codec.Stores w l) :
    columns b l = .ok (v.withLedger w) := by
  obtain ⟨hid, -, -, hstatus, htype, hkind, hcurrency, hcreated, hupdated⟩ :=
    bankAccount_members hb
  cases hl with
  | none =>
    rw [columns, hid, hstatus, htype, hkind, hcurrency, hcreated, hupdated]
    rfl
  | some hl =>
    obtain ⟨havailable, hpending, hcurrent⟩ := ledger_members hl
    rw [columns, Option.bind_some, Option.bind_some, Option.bind_some, havailable, hpending,
      hcurrent, numeric_toString, numeric_toString, numeric_toString, hid, hstatus, htype, hkind,
      hcurrency, hcreated, hupdated]
    rfl

end Members

section Joins

variable {s : Store} {t : ViewTables}

/-- A stored account is joined with the ledger that it names, or with none. -/
theorem leftJoin_stored (h : t.Stores s) {b : Json} {v : BankAccountView}
    (hb : BankAccountView.codec.Stores v b) :
    t.leftJoin b = .ok [v.withLedger (s.ledgerViews.lookup v.ledgerId)] := by
  have hledger : (t.ledgerViews.entries.filter fun l => b.memberText "ledger_id" = some l.1) =
      t.ledgerViews.entries.filter fun l => l.1 = v.ledgerId := by
    rw [(bankAccount_members hb).2.1]
    refine List.filter_congr fun l _ => decide_eq_decide.mpr ?_
    rw [Option.some.injEq]
    exact eq_comm
  rw [leftJoin, hledger]
  rcases h.ledgerViews.filter_eq v.ledgerId with ⟨hnone, hrows⟩ | ⟨w, l, hw, hl, hrows⟩
  · rw [hrows, hnone]
    change (columns b none >>= _) = _
    rw [columns_stored hb Option.Rel.none]
    rfl
  · rw [hrows, hw]
    change (([⟨v.ledgerId, l⟩] : List (Sigma fun _ : String => Json)).mapM fun l =>
      columns b (some l.2)) = _
    rw [List.mapM_cons, columns_stored hb (Option.Rel.some hl)]
    rfl

/-- Read as documents or as views, the tables give the same answers. -/
theorem getUserBankAccounts_stored (h : t.Stores s) (userId : String) :
    t.getUserBankAccounts userId = .ok (s.getUserBankAccounts userId) := by
  have hrows := Codec.StoresRows.filter h.bankAccountViews
    (p := fun b => b.memberText "user_id" = some userId) (q := fun v => v.userId = userId)
    fun v b hb => by simp [(bankAccount_members hb).2.2.1]
  have hjoined : ∀ {rows : List (Sigma fun _ : String => Json)}
      {entries : List (Sigma fun _ : String => BankAccountView)},
      BankAccountView.codec.StoresRows rows entries →
        (rows.mapM fun b => t.leftJoin b.2) = .ok (entries.map fun entry =>
          [entry.2.withLedger (s.ledgerViews.lookup entry.2.ledgerId)]) := by
    intro rows entries hstored
    induction hstored with
    | nil => rfl
    | cons hrow _ ih =>
      rw [List.mapM_cons, leftJoin_stored h hrow.2, Outcome.ok_bind, ih, Outcome.ok_bind]
      rfl
  rw [getUserBankAccounts, hjoined hrows, Outcome.ok_bind, Store.getUserBankAccounts,
    ← List.flatMap_def, ← List.map_eq_flatMap]
  rfl

theorem validateBankAccountExists_stored (h : t.Stores s) (userId : String) (c : Currency)
    (kind : BankAccountKind) :
    t.validateBankAccountExists userId c kind = s.validateBankAccountExists userId c kind := by
  have hrows := Codec.StoresRows.filter h.bankAccountViews
    (p := fun b => b.memberText "user_id" = some userId ∧
      b.memberText "currency" = some c.toString ∧ b.memberText "kind" = some kind.toString ∧
      b.memberText "status" ∈ Store.liveStatus.map some)
    (q := fun v => v.userId = userId ∧ v.currency.serde = c.toString ∧
      v.kind.serde = kind.toString ∧ v.status.serde ∈ Store.liveStatus)
    fun v b hb => by
      obtain ⟨-, -, huser, hstatus, -, hkind, hcurrency, -⟩ := bankAccount_members hb
      rw [huser, hstatus, hkind, hcurrency]
      simp
  rw [validateBankAccountExists, Store.validateBankAccountExists, hrows.length_eq]

end Joins

end ViewTables

section Outbox

/-- The job reads the same from a payload in any order of its members. -/
theorem parseEvent_reorders (row : Outbox) {payload : Json} (h : row.payload.Reorders payload) :
    parseEvent { row with payload := payload } = parseEvent row := by
  have hmember : ∀ key key', ((payload.get key).get key').asStr =
      ((row.payload.get key).get key').asStr := fun key key' => ((h.get key).get key').asStr.symm
  have hamount : ∀ key key', (((payload.get key).get "amount").get key').asStr =
      (((row.payload.get key).get "amount").get key').asStr :=
    fun key key' => (((h.get key).get "amount").get key').asStr.symm
  simp only [parseEvent, hmember, hamount]

end Outbox

end Bankie
