import Bankie.Program
import Bankie.Words
import Mathlib.Data.Int.Notation
import Mathlib.Data.List.Nodup

/-!
The gate in front of every route.
A request passes when its bearer token names an active tenant, and then carries the id of that
tenant. The gate takes the second word of the header, whatever the first one is and however
many follow; it panics where there is none, and on a tenant without a scope.
-/
namespace Bankie

open Program

section Headers

/-- Visible ASCII, the space, and the tab. -/
def isVisibleAscii (b : UInt8) : Bool := (32 ≤ b && b < 127) || b = 9

/-- `HeaderValue::to_str`. -/
def headerToStr (value : List UInt8) : Option String :=
  if value.all isVisibleAscii then
    some (String.ofList (value.map fun b => Char.ofNat b.toNat))
  else none

/-- The characters with the Unicode property `White_Space`. -/
def isWhitespace (c : Char) : Bool :=
  let n := c.toNat
  (9 ≤ n && n ≤ 13) || n = 0x20 || n = 0x85 || n = 0xA0 || n = 0x1680 ||
    (0x2000 ≤ n && n ≤ 0x200A) || n = 0x2028 || n = 0x2029 || n = 0x202F || n = 0x205F ||
    n = 0x3000

/-- `str::split_whitespace`. -/
def splitWhitespace (text : String) : List String :=
  (words isWhitespace text.toList).map String.ofList

end Headers

abbrev StatusCode := ℕ

namespace StatusCode

def unauthorized : StatusCode := 401
def forbidden : StatusCode := 403
def internalServerError : StatusCode := 500

end StatusCode

section Tokens

structure Claims where
  iss : String
  sub : String
  aud : String
  exp : ℕ
  iat : ℕ
  scopes : List String
  tenantId : ℤ

structure TokenData where
  claims : Claims

/-- What the decoder is told to check. -/
structure Validation where
  leeway : ℕ
  validateExp : Bool
  validateAud : Bool
  aud : Option (List String)

namespace Validation

def default : Validation where
  leeway := 60
  validateExp := true
  validateAud := true
  aud := none

def setAudience (items : List String) (v : Validation) : Validation := { v with aud := some items }

end Validation

/-- The decoder of the library: token, secret, and what to check. -/
abbrev Decode := String → String → Validation → Except String TokenData

/-- `jwtSecret` is the environment variable `JWT_SECRET`. -/
def decodeJwt (decode : Decode) (jwtSecret : Option String) (jwtToken : String) :
    Except StatusCode TokenData :=
  match jwtSecret with
  | some secretKey =>
    let validation := Validation.default.setAudience ["service"]
    match decode jwtToken secretKey validation with
    | .ok data => .ok data
    | .error _ => .error StatusCode.internalServerError
  | none => .error StatusCode.internalServerError

end Tokens

section Tenants

/-- A row of the table `tenants`, whose columns `status` and `scope` may be NULL. -/
structure TenantRow where
  id : ℤ
  name : String
  jwt : String
  status : Option String
  scope : Option String

structure Tenant where
  id : ℤ
  name : String
  jwt : String
  status : String
  scope : Option String

/-- The table, by its primary key. -/
structure Tenants where
  rows : List TenantRow
  key : (rows.map TenantRow.id).Nodup

/-- The table behind a connection, and the error of a connection that is down. -/
structure Database where
  tenants : Tenants
  fail : Option String

def TenantRow.toTenant (row : TenantRow) : Outcome Tenant := do
  let status ← Outcome.unwrap "no status" row.status
  let scope ← Outcome.unwrap "no scope" row.scope
  return { id := row.id, name := row.name, jwt := row.jwt, status, scope := some scope }

def Database.getTenantProfile (database : Database) (tenantId : ℤ) : Outcome Tenant :=
  match database.fail with
  | some e => .err e
  | none =>
    match database.tenants.rows.find?
      (fun row => row.id = tenantId ∧ row.status = some "active") with
    | some row => row.toTenant
    | none => .err "no rows returned by a query that expected to return at least one row"

end Tenants

/-- A request, with its extensions: the state of the application and the id of the tenant. -/
structure Request where
  headers : List (String × List UInt8)
  state : Option Database
  tenantId : Option ℤ

def Request.header (name : String) (req : Request) : Option (List UInt8) := req.headers.lookup name

/-- What is left of the gate once there is a token. -/
def authorizeToken (decode : Decode) (jwtSecret : Option String) (req : Request)
    (token : String) : Outcome (Except StatusCode Request) :=
  match decodeJwt decode jwtSecret token with
  | .error _ => return .error StatusCode.unauthorized
  | .ok tokenData =>
    match req.state with
    | none => return .error StatusCode.internalServerError
    | some database =>
      match database.getTenantProfile tokenData.claims.tenantId with
      | .ok tenant => return .ok { req with tenantId := some tenant.id }
      | .err _ => return .error StatusCode.unauthorized
      | .panic e => .panic e

/-- The gate: a status to answer with, or the request that the next service runs on. -/
def authorize (decode : Decode) (jwtSecret : Option String) (req : Request) :
    Outcome (Except StatusCode Request) :=
  match req.header "authorization" with
  | none => return .error StatusCode.forbidden
  | some value =>
    match headerToStr value with
    | none => return .error StatusCode.forbidden
    | some authHeader => do
      let token ← Outcome.unwrap "called Option::unwrap() on a None value"
        (splitWhitespace authHeader)[1]?
      authorizeToken decode jwtSecret req token

section Credentials

/-- `Bearer` and the token, with whitespace between and around them. -/
def Bearer (text token : String) : Prop :=
  IsWord isWhitespace token.toList ∧ ∃ before gap after : List Char,
    (∀ c ∈ before ++ (gap ++ after), isWhitespace c = true) ∧ gap ≠ [] ∧
      text.toList = before ++ ("Bearer".toList ++ (gap ++ (token.toList ++ after)))

/-- The query is answered, and this active row has the id. -/
structure Database.Names (database : Database) (tenantId : ℤ) (row : TenantRow) : Prop where
  answers : database.fail = none
  mem : row ∈ database.tenants.rows
  id : row.id = tenantId
  active : row.status = some "active"

/-- A check of the expiry, and of the audience `service`. -/
def serviceValidation : Validation := ⟨60, true, true, some ["service"]⟩

/-- The token decodes, and names this row. -/
def Accepts (decode : Decode) (jwtSecret : Option String) (req : Request) (token : String)
    (row : TenantRow) : Prop :=
  ∃ secretKey data database, jwtSecret = some secretKey ∧
    decode token secretKey serviceValidation = .ok data ∧ req.state = some database ∧
      database.Names data.claims.tenantId row

def Request.Reads (req : Request) (text : String) : Prop :=
  ∃ value, req.header "authorization" = some value ∧ headerToStr value = some text

/-- The request has the bearer token of this active tenant. -/
def Admits (decode : Decode) (jwtSecret : Option String) (req : Request) (row : TenantRow) :
    Prop :=
  ∃ text token, req.Reads text ∧ Bearer text token ∧ Accepts decode jwtSecret req token row

/-- The gate is exact and total: what it admits passes, with the id of the tenant, and all
else is answered with an error status. -/
structure Exact (decode : Decode) (jwtSecret : Option String) (req : Request) : Prop where
  passes : ∀ req', authorize decode jwtSecret req = .ok (.ok req') ↔
    ∃ row, Admits decode jwtSecret req row ∧ req' = { req with tenantId := some row.id }
  answers : (∃ req', authorize decode jwtSecret req = .ok (.ok req')) ∨
    ∃ status ∈ [401, 403, 500], authorize decode jwtSecret req = .ok (.error status)

/-- A header that can be read has a second word. Where this is the token of an active tenant,
the header is `Bearer` and the token, and the tenant has a scope. -/
def Regular (decode : Decode) (jwtSecret : Option String) (req : Request) : Prop :=
  ∀ text, req.Reads text → ∃ token, (splitWhitespace text)[1]? = some token ∧
    ∀ row, Accepts decode jwtSecret req token row → Bearer text token ∧ row.scope ≠ none

end Credentials

section Gate

variable {decode : Decode} {jwtSecret : Option String} {req : Request} {text token : String}
  {row row' : TenantRow} {database : Database} {tenantId : ℤ}

/-- The splitter finds the two words. -/
theorem Bearer.splitWhitespace_eq (h : Bearer text token) :
    splitWhitespace text = ["Bearer", token] := by
  obtain ⟨htoken, before, gap, after, hgaps, hne, htext⟩ := h
  have hletters : ("Bearer".toList.all fun c => !isWhitespace c) = true := by decide
  have hscheme : IsWord isWhitespace "Bearer".toList :=
    ⟨by decide, fun c hc => by simpa using List.all_eq_true.mp hletters c hc⟩
  have hwords := words_pair hscheme htoken
    (fun c hc => hgaps c (List.mem_append_left _ hc))
    (fun c hc => hgaps c (List.mem_append_right _ (List.mem_append_left _ hc))) hne
    (fun c hc => hgaps c (List.mem_append_right _ (List.mem_append_right _ hc)))
  rw [splitWhitespace, htext, hwords]
  simp

theorem Database.Names.unique (h : database.Names tenantId row)
    (h' : database.Names tenantId row') : row = row' :=
  List.inj_on_of_nodup_map database.tenants.key h.mem h'.mem (h.id.trans h'.id.symm)

theorem Database.names_of_find? (hanswers : database.fail = none)
    (hfind : database.tenants.rows.find?
      (fun row => row.id = tenantId ∧ row.status = some "active") = some row) :
    database.Names tenantId row := by
  have hfound := List.find?_some hfind
  rw [decide_eq_true_eq] at hfound
  exact ⟨hanswers, List.mem_of_find?_eq_some hfind, hfound.1, hfound.2⟩

theorem Database.Names.getTenantProfile (h : database.Names tenantId row) :
    database.getTenantProfile tenantId = row.toTenant := by
  rw [Database.getTenantProfile, h.answers]
  cases hfind : database.tenants.rows.find?
      (fun row => row.id = tenantId ∧ row.status = some "active") with
  | none =>
    have hmiss := List.find?_eq_none.mp hfind row h.mem
    exact absurd (decide_eq_true ⟨h.id, h.active⟩) hmiss
  | some row' => rw [h.unique (names_of_find? h.answers hfind)]

theorem Database.getTenantProfile_err (h : ∀ row, ¬ database.Names tenantId row) :
    ∃ e, database.getTenantProfile tenantId = .err e := by
  rw [Database.getTenantProfile]
  cases hfail : database.fail with
  | some e => exact ⟨e, rfl⟩
  | none =>
    cases hfind : database.tenants.rows.find?
        (fun row => row.id = tenantId ∧ row.status = some "active") with
    | none => exact ⟨_, rfl⟩
    | some row => exact absurd (names_of_find? hfail hfind) (h row)

theorem decodeJwt_eq_ok {data : TokenData} : decodeJwt decode jwtSecret token = .ok data ↔
    ∃ secretKey, jwtSecret = some secretKey ∧
      decode token secretKey serviceValidation = .ok data := by
  cases jwtSecret with
  | none => simp [decodeJwt]
  | some secretKey =>
    have hservice : Validation.default.setAudience ["service"] = serviceValidation := rfl
    rw [decodeJwt, hservice]
    cases hchecked : decode token secretKey serviceValidation <;> simp [hchecked]

/-- An accepted token passes where its tenant has a scope, and panics where it has none. -/
theorem Accepts.authorizeToken (h : Accepts decode jwtSecret req token row) :
    authorizeToken decode jwtSecret req token = match row.scope with
      | some _ => .ok (.ok { req with tenantId := some row.id })
      | none => .panic "no scope" := by
  obtain ⟨secretKey, data, database, hsecret, hdecode, hstate, hnames⟩ := h
  have hdata : decodeJwt decode jwtSecret token = .ok data :=
    decodeJwt_eq_ok.mpr ⟨secretKey, hsecret, hdecode⟩
  simp only [Bankie.authorizeToken, hdata, hstate]
  rw [hnames.getTenantProfile, TenantRow.toTenant, hnames.active]
  cases row.scope <;> rfl

/-- Any other token is answered with an error status. -/
theorem authorizeToken_refuses (h : ∀ row, ¬ Accepts decode jwtSecret req token row) :
    ∃ status ∈ [401, 403, 500], authorizeToken decode jwtSecret req token =
      .ok (.error status) := by
  unfold authorizeToken
  cases hdecode : decodeJwt decode jwtSecret token with
  | error status => exact ⟨401, by decide, rfl⟩
  | ok data =>
    cases hstate : req.state with
    | none => exact ⟨500, by decide, rfl⟩
    | some database =>
      have hnone : ∀ row, ¬ database.Names data.claims.tenantId row := by
        intro row hnames
        obtain ⟨secretKey, hsecret, hchecked⟩ := decodeJwt_eq_ok.mp hdecode
        exact h row ⟨secretKey, data, database, hsecret, hchecked, hstate, hnames⟩
      obtain ⟨e, he⟩ := Database.getTenantProfile_err hnone
      simp only [he]
      exact ⟨401, by decide, rfl⟩

theorem authorize_unread (decode : Decode) (jwtSecret : Option String)
    (h : ∀ text, ¬ req.Reads text) : authorize decode jwtSecret req = .ok (.error 403) := by
  unfold authorize
  cases hheader : req.header "authorization" with
  | none => rfl
  | some value =>
    cases hvalue : headerToStr value with
    | none =>
      simp only [hvalue]
      rfl
    | some text => exact absurd ⟨value, hheader, hvalue⟩ (h text)

theorem Request.Reads.authorize (h : req.Reads text) :
    authorize decode jwtSecret req =
      (Outcome.unwrap "called Option::unwrap() on a None value" (splitWhitespace text)[1]? >>=
        authorizeToken decode jwtSecret req) := by
  obtain ⟨value, hheader, hvalue⟩ := h
  simp only [Bankie.authorize, hheader, hvalue]

theorem Request.Reads.unique {text' : String} (h : req.Reads text) (h' : req.Reads text') :
    text = text' := by
  obtain ⟨value, hheader, hvalue⟩ := h
  obtain ⟨value', hheader', hvalue'⟩ := h'
  obtain rfl := Option.some.inj (hheader.symm.trans hheader')
  exact Option.some.inj (hvalue.symm.trans hvalue')

theorem Admits.accepts (h : Admits decode jwtSecret req row) (htext : req.Reads text)
    (htoken : (splitWhitespace text)[1]? = some token) :
    Bearer text token ∧ Accepts decode jwtSecret req token row := by
  obtain ⟨text', token', htext', hbearer, haccepts⟩ := h
  obtain rfl := htext.unique htext'
  rw [hbearer.splitWhitespace_eq] at htoken
  obtain rfl := Option.some.inj htoken
  exact ⟨hbearer, haccepts⟩

theorem Accepts.unique (h : Accepts decode jwtSecret req token row)
    (h' : Accepts decode jwtSecret req token row') : row = row' := by
  obtain ⟨secretKey, data, database, hsecret, hdecode, hstate, hnames⟩ := h
  obtain ⟨secretKey', data', database', hsecret', hdecode', hstate', hnames'⟩ := h'
  obtain rfl := Option.some.inj (hsecret.symm.trans hsecret')
  obtain rfl := Except.ok.inj (hdecode.symm.trans hdecode')
  obtain rfl := Option.some.inj (hstate.symm.trans hstate')
  exact hnames.unique hnames'

theorem Admits.unique (h : Admits decode jwtSecret req row)
    (h' : Admits decode jwtSecret req row') : row = row' := by
  obtain ⟨text, token, htext, hbearer, haccepts⟩ := h
  have htoken : (splitWhitespace text)[1]? = some token := by
    rw [hbearer.splitWhitespace_eq]
    rfl
  exact haccepts.unique (h'.accepts htext htoken).2

theorem Exact.of_passed (hadmits : Admits decode jwtSecret req row)
    (hpass : authorize decode jwtSecret req = .ok (.ok { req with tenantId := some row.id })) :
    Exact decode jwtSecret req := by
  refine ⟨fun req' => ⟨fun heq => ⟨row, hadmits, ?_⟩, ?_⟩, Or.inl ⟨_, hpass⟩⟩
  · exact (Except.ok.inj (Outcome.ok.inj (hpass.symm.trans heq))).symm
  · rintro ⟨row', hadmits', rfl⟩
    rw [hpass, hadmits.unique hadmits']

theorem Exact.of_refused (hnone : ∀ row, ¬ Admits decode jwtSecret req row) {status : StatusCode}
    (hstatus : status ∈ [401, 403, 500])
    (hrefused : authorize decode jwtSecret req = .ok (.error status)) :
    Exact decode jwtSecret req := by
  refine ⟨fun req' => ⟨fun heq => ?_, ?_⟩, Or.inr ⟨status, hstatus, hrefused⟩⟩
  · cases hrefused.symm.trans heq
  · rintro ⟨row, hadmits, -⟩
    exact absurd hadmits (hnone row)

theorem Regular.exact (h : Regular decode jwtSecret req) : Exact decode jwtSecret req := by
  by_cases hread : ∃ text, req.Reads text
  · obtain ⟨text, htext⟩ := hread
    obtain ⟨token, htoken, hregular⟩ := h text htext
    have hgate : authorize decode jwtSecret req = authorizeToken decode jwtSecret req token := by
      rw [htext.authorize, htoken]
      rfl
    by_cases haccepts : ∃ row, Accepts decode jwtSecret req token row
    · obtain ⟨row, haccepts⟩ := haccepts
      obtain ⟨hbearer, hscope⟩ := hregular row haccepts
      obtain ⟨scope, hscope⟩ := Option.ne_none_iff_exists'.mp hscope
      refine Exact.of_passed ⟨text, token, htext, hbearer, haccepts⟩ ?_
      rw [hgate, haccepts.authorizeToken, hscope]
    · have hnone : ∀ row, ¬ Accepts decode jwtSecret req token row := fun row hrow =>
        haccepts ⟨row, hrow⟩
      obtain ⟨status, hstatus, hrefused⟩ := authorizeToken_refuses hnone
      exact Exact.of_refused (fun row hadmits => hnone row (hadmits.accepts htext htoken).2)
        hstatus (hgate.trans hrefused)
  · refine Exact.of_refused (fun row hadmits => ?_) (by decide)
      (authorize_unread decode jwtSecret fun text htext => hread ⟨text, htext⟩)
    obtain ⟨text, token, htext, -⟩ := hadmits
    exact hread ⟨text, htext⟩

theorem Exact.not_panic (h : Exact decode jwtSecret req) (message : String) :
    authorize decode jwtSecret req ≠ .panic message := by
  intro hpanic
  rcases h.answers with ⟨req', hpass⟩ | ⟨status, -, hrefused⟩
  · cases hpanic.symm.trans hpass
  · cases hpanic.symm.trans hrefused

theorem Exact.regular (h : Exact decode jwtSecret req) : Regular decode jwtSecret req := by
  intro text htext
  have hgate : authorize decode jwtSecret req =
      (Outcome.unwrap "called Option::unwrap() on a None value" (splitWhitespace text)[1]? >>=
        authorizeToken decode jwtSecret req) := htext.authorize
  cases htoken : (splitWhitespace text)[1]? with
  | none =>
    rw [htoken] at hgate
    exact absurd hgate (h.not_panic _)
  | some token =>
    have hgate' : authorize decode jwtSecret req = authorizeToken decode jwtSecret req token := by
      rw [hgate, htoken]
      rfl
    refine ⟨token, rfl, fun row haccepts => ?_⟩
    rw [haccepts.authorizeToken] at hgate'
    cases hscope : row.scope with
    | none =>
      rw [hscope] at hgate'
      exact absurd hgate' (h.not_panic _)
    | some scope =>
      rw [hscope] at hgate'
      obtain ⟨row', hadmits, -⟩ := (h.passes _).mp hgate'
      exact ⟨(hadmits.accepts htext htoken).1, Option.some_ne_none _⟩

end Gate

/-- The gate is exact and total exactly on the regular requests. -/
theorem authorize_exact_iff (decode : Decode) (jwtSecret : Option String) (req : Request) :
    Exact decode jwtSecret req ↔ Regular decode jwtSecret req :=
  ⟨Exact.regular, Regular.exact⟩

/-- A request with the one word `Bearer` in its header. -/
def Scenario.bare : Request where
  headers := [("authorization", [66, 101, 97, 114, 101, 114])]
  state := some ⟨⟨[], List.nodup_nil⟩, none⟩
  tenantId := none

theorem not_authorize_exact : ∃ decode jwtSecret req, ¬ Exact decode jwtSecret req := by
  refine ⟨fun _ _ _ => .error "InvalidToken", some "secret", Scenario.bare, fun h => ?_⟩
  have hread : Scenario.bare.Reads "Bearer" := ⟨_, rfl, by decide +kernel⟩
  have hone : (splitWhitespace "Bearer")[1]? = none := by decide +kernel
  refine h.not_panic "called Option::unwrap() on a None value" ?_
  rw [hread.authorize, hone]
  rfl

end Bankie
