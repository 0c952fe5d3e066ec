import Bankie.Authorization
import Bankie.Lists
import Bankie.Transition

/-!
Issuing the tokens that the gate checks.
`generate_jwt` writes an inactive tenant, signs a token that names it, and stores the token with
the tenant, which activates it. Any number of these processes run at the same time, each of
their statements may fail, and a process may stop between them. The tenants that they leave
behind are either inactive and without a token, or active with a token that names them.
-/
namespace Bankie

open Program Transition

inductive TenantCall where
  | createTenantProfile (name scope : String)
  | updateTenantProfile (id : ℤ) (jwt : String)

/-- The error of a statement that fails, and the next value of the sequence behind the ids. -/
structure TenantOracle where
  fail : Option String
  nextId : ℤ

/-- The code over the table of tenants; both statements return an id. -/
abbrev TenantCode (α : Type) := Prog TenantCall (fun _ => ℤ) α

namespace Tenants

/-- A text as a column `varchar(255)` stores it: blanks in excess are cut, other characters are
refused. -/
def varchar (text : String) : Option String :=
  if (text.toList.drop 255).all (· = ' ') then some (String.ofList (text.toList.take 255))
  else none

def createTenantProfile (nextId : ℤ) (name scope : String) (t : Tenants) : Outcome Tenants :=
  match varchar name, varchar scope with
  | some name, some scope =>
    if hkey : nextId ∈ t.rows.map TenantRow.id then
      .err "duplicate key value violates unique constraint"
    else
      .ok
        { rows := t.rows ++ [⟨nextId, name, "", some "inactive", some scope⟩]
          key := by
            rw [List.map_append, List.nodup_append]
            refine ⟨t.key, List.nodup_singleton _, fun a ha b hb heq => hkey ?_⟩
            have hid : b = nextId := List.mem_singleton.mp hb
            rwa [← hid, ← heq] }
  | _, _ => .err "value too long for type character varying(255)"

theorem createTenantProfile_ok {nextId : ℤ} {name scope : String} {t t' : Tenants}
    (h : t.createTenantProfile nextId name scope = .ok t') : ∃ name' scope',
      varchar name = some name' ∧ varchar scope = some scope' ∧
        nextId ∉ t.rows.map TenantRow.id ∧
        t'.rows = t.rows ++ [⟨nextId, name', "", some "inactive", some scope'⟩] := by
  unfold createTenantProfile at h
  split at h
  · rename_i name' scope' hname hscope
    split at h
    · cases h
    · rename_i hkey
      obtain rfl := Outcome.ok.inj h
      exact ⟨name', scope', hname, hscope, hkey, rfl⟩
  · cases h

/-- A row with the token stored in it. -/
def activate (id : ℤ) (jwt : String) (row : TenantRow) : TenantRow :=
  if row.id = id then { row with jwt := jwt, status := some "active" } else row

theorem activate_id (id : ℤ) (jwt : String) (row : TenantRow) :
    (activate id jwt row).id = row.id := by
  unfold activate
  split <;> rfl

theorem activate_of_ne {id : ℤ} {jwt : String} {row : TenantRow} (h : row.id ≠ id) :
    activate id jwt row = row := if_neg h

def updateTenantProfile (id : ℤ) (jwt : String) (t : Tenants) : Outcome Tenants :=
  if id ∈ t.rows.map TenantRow.id then
    .ok
      { rows := t.rows.map (activate id jwt)
        key := by
          have hids : (t.rows.map (activate id jwt)).map TenantRow.id =
              t.rows.map TenantRow.id := by
            rw [List.map_map]
            exact List.map_congr_left fun row _ => activate_id id jwt row
          rw [hids]
          exact t.key }
  else .err "no rows returned by a query that expected to return at least one row"

end Tenants

/-- The effect of a statement: its id, and the table after it. -/
def returning (id : ℤ) (t : Tenants) : Outcome Tenants → Outcome ℤ × Tenants
  | .ok t' => (.ok id, t')
  | .err e => (.err e, t)
  | .panic e => (.panic e, t)

def execTenant (c : TenantCall) (o : TenantOracle) (t : Tenants) : Outcome ℤ × Tenants :=
  match o.fail with
  | some e => (.err e, t)
  | none =>
    match c with
    | .createTenantProfile name scope =>
      returning o.nextId t (t.createTenantProfile o.nextId name scope)
    | .updateTenantProfile id jwt => returning id t (t.updateTenantProfile id jwt)

/-- The encoder of the library: claims and secret. -/
abbrev Encode := Claims → String → Except String String

/-- The seconds at which the expiry is computed and the token is signed. -/
structure Clock where
  started : ℕ
  signed : ℕ

def tenantScope : String := "bank-account:read bank-account:write ledger:read"

theorem varchar_tenantScope : Tenants.varchar tenantScope = some tenantScope := by decide +kernel

section Code

variable (encode : Encode) (serviceId secretKey : String) (clock : Clock)

/-- The claims expire after 365 days. -/
def issuedClaims (tenantId : ℤ) : Claims where
  iss := "bankie"
  sub := serviceId
  aud := "service"
  exp := clock.started + 365 * 24 * 60 * 60
  iat := clock.signed
  scopes := ["bank-account:read", "bank-account:write", "ledger:read"]
  tenantId := tenantId

/-- Store the token, and return it. -/
def storeJwt (tenantId : ℤ) (jwtToken : String) : TenantCode String := do
  let _ ← Prog.perform (.updateTenantProfile tenantId jwtToken)
  return jwtToken

def signJwt (tenantId : ℤ) : TenantCode String := do
  let jwtToken ← Prog.lift (Outcome.unwrap "called Result::unwrap() on an Err value"
    (encode (issuedClaims serviceId clock tenantId) secretKey).toOption)
  storeJwt tenantId jwtToken

def generateJwt : TenantCode String := do
  let tenantId ← Prog.perform (.createTenantProfile serviceId tenantScope)
  signJwt encode serviceId secretKey clock tenantId

end Code

/-- A process that runs `generate_jwt`, with its arguments and where it stands. -/
structure Issuing where
  serviceId : String
  secretKey : String
  clock : Clock
  code : TenantCode String

/-- The table of tenants, and the processes that work on it. -/
structure Registry where
  tenants : Tenants
  issuing : List Issuing

namespace Registry

inductive Action where
  | start (serviceId secretKey : String) (clock : Clock)
  | step (i : ℕ) (o : TenantOracle)

def init (tenants : Tenants) : Registry := ⟨tenants, []⟩

variable (encode : Encode)

def next (r : Registry) : Action → Option Registry
  | .start serviceId secretKey clock =>
    some { r with issuing := r.issuing ++
      [⟨serviceId, secretKey, clock, generateJwt encode serviceId secretKey clock⟩] }
  | .step i o =>
    match r.issuing[i]? with
    | none => none
    | some p =>
      (p.code.step execTenant o r.tenants).map fun x =>
        { tenants := x.2, issuing := r.issuing.set i { p with code := x.1 } }

def machine : Machine Registry Action where
  Init r := ∃ tenants, r = init tenants
  Step r a r' := r.next encode a = some r'

end Registry

section Points

variable {encode : Encode} {serviceId secretKey : String} {clock : Clock}

theorem calls_create : (generateJwt encode serviceId secretKey clock).Calls
    (.createTenantProfile serviceId tenantScope)
    (fun tenantId => signJwt encode serviceId secretKey clock tenantId)
    (fun e => .done (.err e)) :=
  ⟨_, rfl, fun _ => rfl, fun _ => rfl⟩

theorem calls_update (tenantId : ℤ) (jwtToken : String) : (storeJwt tenantId jwtToken).Calls
    (.updateTenantProfile tenantId jwtToken) (fun _ => .done (.ok jwtToken))
    (fun e => .done (.err e)) :=
  ⟨_, rfl, fun _ => rfl, fun _ => rfl⟩

theorem signJwt_eq (tenantId : ℤ) : signJwt encode serviceId secretKey clock tenantId =
    match encode (issuedClaims serviceId clock tenantId) secretKey with
    | .ok jwtToken => storeJwt tenantId jwtToken
    | .error _ => .done (.panic "called Result::unwrap() on an Err value") := by
  rw [signJwt]
  cases encode (issuedClaims serviceId clock tenantId) secretKey <;> rfl

end Points

section Statements

variable {o : TenantOracle} {t t' : Tenants}

theorem execTenant_create {name scope : String} {id : ℤ}
    (h : execTenant (.createTenantProfile name scope) o t = (.ok id, t')) :
    id = o.nextId ∧ t.createTenantProfile o.nextId name scope = .ok t' := by
  unfold execTenant at h
  split at h
  · cases h
  · cases hwrite : t.createTenantProfile o.nextId name scope <;> simp_all [returning]

theorem execTenant_update {id id' : ℤ} {jwt : String}
    (h : execTenant (.updateTenantProfile id jwt) o t = (.ok id', t')) :
    t.updateTenantProfile id jwt = .ok t' := by
  unfold execTenant at h
  split at h
  · cases h
  · cases hwrite : t.updateTenantProfile id jwt <;> simp_all [returning]

theorem returning_not_ok {id : ℤ} {x : Outcome Tenants} {y : Outcome ℤ}
    (h : returning id t x = (y, t')) (hy : ∀ a, y ≠ .ok a) : t' = t := by
  cases x with
  | ok t'' => exact absurd (Prod.mk.inj h).1.symm (hy id)
  | err e => exact (Prod.mk.inj h).2.symm
  | panic e => exact (Prod.mk.inj h).2.symm

theorem execTenant_not_ok {c : TenantCall} {y : Outcome ℤ} (h : execTenant c o t = (y, t'))
    (hy : ∀ a, y ≠ .ok a) : t' = t := by
  unfold execTenant at h
  split at h
  · exact (Prod.mk.inj h).2.symm
  · cases c with
    | createTenantProfile name scope => exact returning_not_ok h hy
    | updateTenantProfile id jwt => exact returning_not_ok h hy

end Statements

/-- The token that a process has returned. -/
def Issuing.token (p : Issuing) : Option String :=
  match p.code with
  | .done (.ok token) => some token
  | _ => none

theorem Issuing.code_of_token {p : Issuing} {token : String} (h : p.token = some token) :
    p.code = .done (.ok token) := by
  unfold Issuing.token at h
  split at h
  · rename_i hcode
    rw [hcode, Option.some.inj h]
  · cases h

section Invariant

variable {encode : Encode}

/-- A tenant that a process has written: inactive and without a token, or active with a token
that was signed for it and for the service that its name stores. -/
def TenantRow.Issued (encode : Encode) (row : TenantRow) : Prop :=
  row.scope = some tenantScope ∧
    ((row.status = some "inactive" ∧ row.jwt = "") ∨
      (row.status = some "active" ∧ ∃ serviceId clock secretKey,
        Tenants.varchar serviceId = some row.name ∧
          encode (issuedClaims serviceId clock row.id) secretKey = .ok row.jwt))

/-- Where a process stands, with the rows that all of them have written. -/
inductive Issuing.At (encode : Encode) (rows : List TenantRow) (p : Issuing) : Prop where
  | start (hcode : p.code = generateJwt encode p.serviceId p.secretKey p.clock)
  | pending (id : ℤ) (name token : String) (hcode : p.code = storeJwt id token)
      (hname : Tenants.varchar p.serviceId = some name)
      (hrow : ⟨id, name, "", some "inactive", some tenantScope⟩ ∈ rows)
      (hsigned : encode (issuedClaims p.serviceId p.clock id) p.secretKey = .ok token)
  | issued (id : ℤ) (name token : String) (hcode : p.code = .done (.ok token))
      (hname : Tenants.varchar p.serviceId = some name)
      (hrow : ⟨id, name, token, some "active", some tenantScope⟩ ∈ rows)
      (hsigned : encode (issuedClaims p.serviceId p.clock id) p.secretKey = .ok token)
  | failed (e : String) (hcode : p.code = .done (.err e))
  | panicked (e : String) (hcode : p.code = .done (.panic e))

/-- The tenant that a process is about to activate. -/
def Issuing.pendingId (p : Issuing) : Option ℤ :=
  match p.code.nextCall with
  | some (.updateTenantProfile id _) => some id
  | _ => none

/-- The table is the one at the start and the rows that the processes have written. -/
structure Registry.Sound (encode : Encode) (tenants : Tenants) (rows : List TenantRow)
    (r : Registry) : Prop where
  table : r.tenants.rows = tenants.rows ++ rows
  issued : ∀ row ∈ rows, row.Issued encode
  points : ∀ p ∈ r.issuing, p.At encode rows
  pending : (r.issuing.filterMap Issuing.pendingId).Nodup

theorem Issuing.At.mono {rows rows' : List TenantRow} {p : Issuing} (h : p.At encode rows)
    (hrows : ∀ row ∈ rows, row ∈ rows') : p.At encode rows' := by
  cases h with
  | start hcode => exact Issuing.At.start hcode
  | pending id name token hcode hname hrow hsigned =>
    exact Issuing.At.pending id name token hcode hname (hrows _ hrow) hsigned
  | issued id name token hcode hname hrow hsigned =>
    exact Issuing.At.issued id name token hcode hname (hrows _ hrow) hsigned
  | failed e hcode => exact Issuing.At.failed e hcode
  | panicked e hcode => exact Issuing.At.panicked e hcode

/-- Another process that is activated leaves a process where it stands. -/
theorem Issuing.At.activate {rows : List TenantRow} {p : Issuing} (h : p.At encode rows)
    {id : ℤ} (token : String) (hpending : id ∉ p.pendingId)
    (hinactive : ∀ row ∈ rows, row.id = id → row.status = some "inactive") :
    p.At encode (rows.map (Tenants.activate id token)) := by
  have hkept : ∀ row ∈ rows, row.id ≠ id → row ∈ rows.map (Tenants.activate id token) :=
    fun row hrow hne => List.mem_map.mpr ⟨row, hrow, Tenants.activate_of_ne hne⟩
  cases h with
  | start hcode => exact Issuing.At.start hcode
  | pending id' name token' hcode hname hrow hsigned =>
    refine Issuing.At.pending id' name token' hcode hname (hkept _ hrow ?_) hsigned
    rintro rfl
    refine hpending ?_
    rw [Issuing.pendingId, hcode]
    rfl
  | issued id' name token' hcode hname hrow hsigned =>
    refine Issuing.At.issued id' name token' hcode hname (hkept _ hrow fun heq => ?_) hsigned
    have hstatus : some "active" = some "inactive" := hinactive _ hrow heq
    exact absurd hstatus (by decide)
  | failed e hcode => exact Issuing.At.failed e hcode
  | panicked e hcode => exact Issuing.At.panicked e hcode

theorem Issuing.At.pending_row {rows : List TenantRow} {p : Issuing} (hp : p.At encode rows)
    {id : ℤ} (hid : id ∈ p.pendingId) : id ∈ rows.map TenantRow.id := by
  cases hp with
  | start hcode =>
    rw [Issuing.pendingId, hcode, calls_create.nextCall] at hid
    cases hid
  | pending id' name token hcode hname hrow hsigned =>
    rw [Issuing.pendingId, hcode, (calls_update id' token).nextCall] at hid
    obtain rfl := Option.some.inj hid
    exact List.mem_map.mpr ⟨_, hrow, rfl⟩
  | issued id' name token hcode hname hrow hsigned =>
    rw [Issuing.pendingId, hcode] at hid
    cases hid
  | failed e hcode =>
    rw [Issuing.pendingId, hcode] at hid
    cases hid
  | panicked e hcode =>
    rw [Issuing.pendingId, hcode] at hid
    cases hid

namespace Registry.Sound

variable {tenants : Tenants} {rows : List TenantRow} {r r' : Registry}

/-- The process at `i` apart from the others, and what it takes to put another in its place. -/
theorem replace (h : r.Sound encode tenants rows) {i : ℕ} {p : Issuing}
    (hi : r.issuing[i]? = some p) : ∃ others : List Issuing,
      (∀ q ∈ others, q.At encode rows) ∧
      (∀ id ∈ p.pendingId, ∀ q ∈ others, id ∉ q.pendingId) ∧
      ∀ (t' : Tenants) (rows' : List TenantRow) (p' : Issuing),
        t'.rows = tenants.rows ++ rows' → (∀ row ∈ rows', row.Issued encode) →
        (∀ q ∈ others, q.At encode rows') → p'.At encode rows' →
        (∀ id ∈ p'.pendingId, ∀ q ∈ others, id ∉ q.pendingId) →
        Registry.Sound encode tenants rows' ⟨t', r.issuing.set i p'⟩ := by
  obtain ⟨others, hperm, hset⟩ := exists_perm_filterMap some hi
  simp only [List.filterMap_some, Option.toList_some, List.singleton_append] at hperm hset
  have hnodup := (hperm.filterMap Issuing.pendingId).nodup_iff.mp h.pending
  have happart : ∀ q : Issuing, (List.filterMap Issuing.pendingId (q :: others)).Nodup ↔
      (∀ id ∈ q.pendingId, ∀ q' ∈ others, id ∉ q'.pendingId) ∧
        (others.filterMap Issuing.pendingId).Nodup := by
    intro q
    cases hq : q.pendingId with
    | none => simp [hq]
    | some id => simp [hq, List.nodup_cons, List.mem_filterMap]
  obtain ⟨hp, hothers⟩ := (happart p).mp hnodup
  refine ⟨others, fun q hq => h.points q (hperm.mem_iff.mpr (List.mem_cons_of_mem _ hq)), hp, ?_⟩
  intro t' rows' p' htable hissued hat hp' hpending
  refine ⟨htable, hissued, fun q hq => ?_, ?_⟩
  · rcases List.mem_cons.mp ((hset p').mem_iff.mp hq) with rfl | hother
    · exact hp'
    · exact hat q hother
  · exact ((hset p').filterMap Issuing.pendingId).nodup_iff.mpr
      ((happart p').mpr ⟨hpending, hothers⟩)

theorem row_eq (h : r.Sound encode tenants rows) {row row' : TenantRow} (hrow : row ∈ rows)
    (hrow' : row' ∈ rows) (hid : row.id = row'.id) : row = row' := by
  have hkey := r.tenants.key
  rw [h.table] at hkey
  exact List.inj_on_of_nodup_map hkey (List.mem_append_right _ hrow)
    (List.mem_append_right _ hrow') hid

theorem start_ne (h : r.Sound encode tenants rows) {row row' : TenantRow}
    (hrow : row ∈ tenants.rows) (hrow' : row' ∈ rows) : row.id ≠ row'.id := by
  have hkey := r.tenants.key
  rw [h.table, List.map_append] at hkey
  exact (List.nodup_append.mp hkey).2.2 _ (List.mem_map_of_mem hrow) _ (List.mem_map_of_mem hrow')

theorem finish (h : r.Sound encode tenants rows) {i : ℕ} {p : Issuing}
    (hi : r.issuing[i]? = some p) {t' : Tenants} (ht : t' = r.tenants) {code : TenantCode String}
    (hcode : (∃ e, code = .done (.err e)) ∨ ∃ e, code = .done (.panic e)) :
    Registry.Sound encode tenants rows ⟨t', r.issuing.set i { p with code := code }⟩ := by
  obtain ⟨others, hothers, -, hreplace⟩ := h.replace hi
  refine hreplace t' rows _ (ht ▸ h.table) h.issued hothers ?_ ?_
  · rcases hcode with ⟨e, rfl⟩ | ⟨e, rfl⟩
    · exact Issuing.At.failed e rfl
    · exact Issuing.At.panicked e rfl
  · intro id hid
    rcases hcode with ⟨e, rfl⟩ | ⟨e, rfl⟩ <;> cases hid

/-- A tenant is written, and its process goes on to sign a token for it. -/
theorem create (h : r.Sound encode tenants rows) {i : ℕ} {p : Issuing}
    (hi : r.issuing[i]? = some p) {nextId : ℤ} {t' : Tenants}
    (ht : r.tenants.createTenantProfile nextId p.serviceId tenantScope = .ok t') :
    ∃ rows', Registry.Sound encode tenants rows' ⟨t', r.issuing.set i { p with
      code := signJwt encode p.serviceId p.secretKey p.clock nextId }⟩ := by
  obtain ⟨name, scope, hname, hscope, hkey, htable⟩ := Tenants.createTenantProfile_ok ht
  obtain rfl := Option.some.inj (varchar_tenantScope.symm.trans hscope)
  obtain ⟨others, hothers, -, hreplace⟩ := h.replace hi
  refine ⟨rows ++ [⟨nextId, name, "", some "inactive", some tenantScope⟩],
    hreplace t' _ _ (by rw [htable, h.table, List.append_assoc]) ?_ ?_ ?_ ?_⟩
  · intro row hrow
    rcases List.mem_append.mp hrow with hold | hnew
    · exact h.issued row hold
    · rw [List.mem_singleton.mp hnew]
      exact ⟨rfl, Or.inl ⟨rfl, rfl⟩⟩
  · exact fun q hq => (hothers q hq).mono fun row hrow => List.mem_append_left _ hrow
  · cases hsigned : encode (issuedClaims p.serviceId p.clock nextId) p.secretKey with
    | ok token =>
      refine Issuing.At.pending nextId name token ?_ hname ?_ hsigned
      · rw [signJwt_eq, hsigned]
      · exact List.mem_append_right _ (List.mem_singleton_self _)
    | error e =>
      refine Issuing.At.panicked "called Result::unwrap() on an Err value" ?_
      rw [signJwt_eq, hsigned]
  · intro id hid q hq hid'
    have hnew : id = nextId := by
      rw [Issuing.pendingId, signJwt_eq] at hid
      cases hsigned : encode (issuedClaims p.serviceId p.clock nextId) p.secretKey with
      | ok token =>
        rw [hsigned, (calls_update nextId token).nextCall] at hid
        exact (Option.some.inj hid).symm
      | error e =>
        rw [hsigned] at hid
        cases hid
    refine hkey ?_
    rw [← hnew, h.table, List.map_append]
    exact List.mem_append_right _ ((hothers q hq).pending_row hid')

/-- A token is stored, and its tenant is active from then on. -/
theorem activate (h : r.Sound encode tenants rows) {i : ℕ} {p : Issuing}
    (hi : r.issuing[i]? = some p) {id : ℤ} {token : String} {t' : Tenants}
    (hcode : p.code = storeJwt id token) {name : String}
    (hname : Tenants.varchar p.serviceId = some name)
    (hrow : ⟨id, name, "", some "inactive", some tenantScope⟩ ∈ rows)
    (hsigned : encode (issuedClaims p.serviceId p.clock id) p.secretKey = .ok token)
    (ht : r.tenants.updateTenantProfile id token = .ok t') :
    ∃ rows', Registry.Sound encode tenants rows' ⟨t', r.issuing.set i { p with
      code := .done (.ok token) }⟩ := by
  have htable : t'.rows = r.tenants.rows.map (Tenants.activate id token) := by
    unfold Tenants.updateTenantProfile at ht
    split at ht
    · rw [← Outcome.ok.inj ht]
    · cases ht
  have hown : ∀ row ∈ rows, row.id = id →
      row = ⟨id, name, "", some "inactive", some tenantScope⟩ :=
    fun row hin hid => h.row_eq hin hrow hid
  have hstart : tenants.rows.map (Tenants.activate id token) = tenants.rows := by
    refine (List.map_congr_left fun row hin => ?_).trans (List.map_id _)
    exact Tenants.activate_of_ne (h.start_ne hin hrow)
  obtain ⟨others, hothers, hapart, hreplace⟩ := h.replace hi
  have hpending : id ∈ p.pendingId := by
    rw [Issuing.pendingId, hcode, (calls_update id token).nextCall]
    rfl
  refine ⟨rows.map (Tenants.activate id token), hreplace t' _ _ ?_ ?_ ?_ ?_ ?_⟩
  · rw [htable, h.table, List.map_append, hstart]
  · intro row hin
    obtain ⟨row', hrow', rfl⟩ := List.mem_map.mp hin
    by_cases hid : row'.id = id
    · rw [hown row' hrow' hid, Tenants.activate, if_pos rfl]
      exact ⟨rfl, Or.inr ⟨rfl, p.serviceId, p.clock, p.secretKey, hname, hsigned⟩⟩
    · rw [Tenants.activate_of_ne hid]
      exact h.issued row' hrow'
  · intro q hq
    refine (hothers q hq).activate token (hapart id hpending q hq) fun row hin hid => ?_
    rw [hown row hin hid]
  · refine Issuing.At.issued id name token rfl hname (List.mem_map.mpr ⟨_, hrow, ?_⟩) hsigned
    exact if_pos rfl
  · intro id' hid'
    cases hid'

theorem step (h : r.Sound encode tenants rows) {a : Registry.Action}
    (hstep : r.next encode a = some r') : ∃ rows', r'.Sound encode tenants rows' := by
  cases a with
  | start serviceId secretKey clock =>
    obtain rfl := Option.some.inj hstep
    refine ⟨rows, h.table, h.issued, fun p hp => ?_, ?_⟩
    · rcases List.mem_append.mp hp with hold | hnew
      · exact h.points p hold
      · rw [List.mem_singleton.mp hnew]
        exact Issuing.At.start rfl
    · have hnone : Issuing.pendingId ⟨serviceId, secretKey, clock,
          generateJwt encode serviceId secretKey clock⟩ = none := rfl
      rw [List.filterMap_append, List.filterMap_cons_none hnone, List.filterMap_nil,
        List.append_nil]
      exact h.pending
  | step i o =>
    simp only [next] at hstep
    split at hstep
    · cases hstep
    · rename_i p hi
      obtain ⟨⟨code', t'⟩, hcall, rfl⟩ := Option.map_eq_some_iff.mp hstep
      cases h.points p (List.mem_of_getElem? hi) with
      | start hcode =>
        rw [hcode] at hcall
        rcases calls_create.step hcall with ⟨id, hexec, rfl⟩ | ⟨e, hexec, rfl⟩ | ⟨e, hexec, rfl⟩
        · obtain ⟨rfl, ht⟩ := execTenant_create hexec
          exact h.create hi ht
        · exact ⟨rows, h.finish hi (execTenant_not_ok hexec fun _ heq => by cases heq)
            (Or.inl ⟨e, rfl⟩)⟩
        · exact ⟨rows, h.finish hi (execTenant_not_ok hexec fun _ heq => by cases heq)
            (Or.inr ⟨e, rfl⟩)⟩
      | pending id name token hcode hname hrow hsigned =>
        rw [hcode] at hcall
        rcases (calls_update id token).step hcall with ⟨id', hexec, rfl⟩ | ⟨e, hexec, rfl⟩ |
          ⟨e, hexec, rfl⟩
        · exact h.activate hi hcode hname hrow hsigned (execTenant_update hexec)
        · exact ⟨rows, h.finish hi (execTenant_not_ok hexec fun _ heq => by cases heq)
            (Or.inl ⟨e, rfl⟩)⟩
        · exact ⟨rows, h.finish hi (execTenant_not_ok hexec fun _ heq => by cases heq)
            (Or.inr ⟨e, rfl⟩)⟩
      | issued id name token hcode =>
        rw [hcode] at hcall
        cases hcall
      | failed e hcode =>
        rw [hcode] at hcall
        cases hcall
      | panicked e hcode =>
        rw [hcode] at hcall
        cases hcall

end Registry.Sound

end Invariant

section Results

variable {encode : Encode} {decode : Decode} {tenants : Tenants} {r r' : Registry}
  {as : List Registry.Action}

theorem Registry.run_sound (h : (Registry.machine encode).Steps (Registry.init tenants) as r) :
    ∃ rows, r.Sound encode tenants rows := by
  refine h.preserves (P := fun r => ∃ rows, r.Sound encode tenants rows) ?_ ⟨[], ?_⟩
  · rintro r a r' ⟨rows, hr⟩ hstep
    exact hr.step hstep
  · exact ⟨(List.append_nil _).symm, fun row hrow => absurd hrow List.not_mem_nil,
      fun p hp => absurd hp List.not_mem_nil, List.nodup_nil⟩

theorem Registry.run_ended (h : (Registry.machine encode).Steps r as r') {p : Issuing}
    (hp : p ∈ r.issuing) {result : Outcome String} (hcode : p.code = .done result) :
    p ∈ r'.issuing := by
  refine h.preserves (P := fun r => p ∈ r.issuing) ?_ hp
  intro r a r' hp hstep
  cases a with
  | start serviceId secretKey clock =>
    obtain rfl := Option.some.inj hstep
    exact List.mem_append_left _ hp
  | step i o =>
    change r.next encode (.step i o) = some r' at hstep
    simp only [next] at hstep
    split at hstep
    · cases hstep
    · rename_i q hi
      obtain ⟨⟨code', t'⟩, hcall, rfl⟩ := Option.map_eq_some_iff.mp hstep
      obtain ⟨j, hj⟩ := List.mem_iff_getElem?.mp hp
      refine List.mem_iff_getElem?.mpr ⟨j, ?_⟩
      have hne : i ≠ j := by
        rintro rfl
        obtain rfl := Option.some.inj (hi.symm.trans hj)
        rw [hcode] at hcall
        cases hcall
      exact (List.getElem?_set_ne hne).trans hj

deriving instance DecidableEq for Claims

/-- An encoder that knows one token, for the service `billing` and tenant 1. -/
def Scenario.signs : Encode := fun claims secretKey =>
  if claims = issuedClaims "billing" ⟨100, 101⟩ 1 ∧ secretKey = "secret" then .ok "token"
  else .error "unknown claims"

def Scenario.checks : Decode := fun _ _ _ => .ok ⟨issuedClaims "billing" ⟨100, 101⟩ 1⟩

/-- Two processes for the service, of which the first one's statement fails. -/
def Scenario.issuing : List Registry.Action :=
  [.start "billing" "secret" ⟨90, 91⟩, .start "billing" "secret" ⟨100, 101⟩,
    .step 0 ⟨some "connection closed", 0⟩, .step 1 ⟨none, 1⟩, .step 1 ⟨none, 2⟩]

/-- The registry after these actions. -/
def Registry.run (encode : Encode) (r : Registry) : List Registry.Action → Option Registry
  | [] => some r
  | a :: as => (r.next encode a).bind fun r' => r'.run encode as

theorem Registry.steps_of_run (h : r.run encode as = some r') :
    (Registry.machine encode).Steps r as r' := by
  induction as generalizing r with
  | nil =>
    obtain rfl := Option.some.inj h
    exact Machine.Steps.nil r
  | cons a as ih =>
    obtain ⟨mid, hmid, hrest⟩ := Option.bind_eq_some_iff.mp h
    exact Machine.Steps.cons hmid (ih hrest)

/-- In every run the processes leave the tenants of the start alone, and every tenant that they
write is inactive without a token or active with a token signed for it; where the active
tenants of the start have a scope, the gate panics on no token. -/
theorem tenants_issued (h : (Registry.machine encode).Steps (Registry.init tenants) as r) :
    (∃ rows, r.tenants.rows = tenants.rows ++ rows ∧ ∀ row ∈ rows, row.Issued encode) ∧
      ((∀ row ∈ tenants.rows, row.status = some "active" → row.scope ≠ none) →
        ∀ (decode : Decode) jwtSecret req fail token message, req.state = some ⟨r.tenants, fail⟩ →
          authorizeToken decode jwtSecret req token ≠ .panic message) := by
  obtain ⟨rows, hsound⟩ := Registry.run_sound h
  refine ⟨⟨rows, hsound.table, hsound.issued⟩, ?_⟩
  intro hscoped decode jwtSecret req fail token message hstate hpanic
  by_cases haccepts : ∃ row, Accepts decode jwtSecret req token row
  · obtain ⟨row, haccepts⟩ := haccepts
    rw [haccepts.authorizeToken] at hpanic
    obtain ⟨secretKey, data, database, -, -, hstate', hnames⟩ := haccepts
    obtain rfl := Option.some.inj (hstate.symm.trans hstate')
    have hscope : row.scope ≠ none := by
      have hmem := hnames.mem
      rw [hsound.table] at hmem
      rcases List.mem_append.mp hmem with hold | hnew
      · exact hscoped row hold hnames.active
      · rw [(hsound.issued row hnew).1]
        exact Option.some_ne_none _
    obtain ⟨scope, hscope⟩ := Option.ne_none_iff_exists'.mp hscope
    rw [hscope] at hpanic
    cases hpanic
  · obtain ⟨status, -, hrefused⟩ :=
      authorizeToken_refuses fun row hrow => haccepts ⟨row, hrow⟩
    cases hrefused.symm.trans hpanic

theorem tenants_issued_billing : ∃ r : Registry, r.tenants.rows.length = 1 ∧
    ∃ rows, r.tenants.rows = rows ∧ ∀ row ∈ rows, row.Issued Scenario.signs := by
  have hrun : ((Registry.init ⟨[], List.nodup_nil⟩).run Scenario.signs Scenario.issuing).map
      (fun r => r.tenants.rows.length) = some 1 := by decide +kernel
  obtain ⟨r, hr, hlength⟩ := Option.map_eq_some_iff.mp hrun
  obtain ⟨⟨rows, htable, hissued⟩, -⟩ := tenants_issued (Registry.steps_of_run hr)
  exact ⟨r, hlength, rows, htable, hissued⟩

/-- The decoder gives back what the encoder has signed for the service, with the same secret and
until a minute after the expiry. -/
def RoundTrips (encode : Encode) (decode : Decode) (now : ℕ) : Prop :=
  ∀ claims secretKey token, encode claims secretKey = .ok token → claims.aud = "service" →
    now ≤ claims.exp + 60 → decode token secretKey serviceValidation = .ok ⟨claims⟩

/-- A token that `generate_jwt` has returned passes the gate for a year, as the tenant that was
written for its service, whatever is issued or fails after it. -/
theorem issued_token_passes {now : ℕ} (hlibrary : RoundTrips encode decode now)
    (h : (Registry.machine encode).Steps (Registry.init tenants) as r) {p : Issuing}
    (hp : p ∈ r.issuing) {token : String} (htoken : p.token = some token)
    (hnow : now ≤ p.clock.started + 365 * 24 * 60 * 60) :
    ∃ row : TenantRow, Tenants.varchar p.serviceId = some row.name ∧ row.jwt = token ∧
      ∀ bs r', (Registry.machine encode).Steps r bs r' → row ∈ r'.tenants.rows ∧
        ∀ req text, req.state = some ⟨r'.tenants, none⟩ → req.Reads text → Bearer text token →
          authorize decode (some p.secretKey) req =
            .ok (.ok { req with tenantId := some row.id }) := by
  have hcode := Issuing.code_of_token htoken
  have hissued : ∀ {bs r'}, (Registry.machine encode).Steps (Registry.init tenants) bs r' →
      p ∈ r'.issuing → ∃ id name, Tenants.varchar p.serviceId = some name ∧
        ⟨id, name, token, some "active", some tenantScope⟩ ∈ r'.tenants.rows ∧
          decode token p.secretKey serviceValidation =
            .ok ⟨issuedClaims p.serviceId p.clock id⟩ := by
    intro bs r' hrun hp
    obtain ⟨rows, hsound⟩ := Registry.run_sound hrun
    cases hsound.points p hp with
    | issued id name token' hcode' hname hrow hsigned =>
      obtain rfl := Outcome.ok.inj (Prog.done.inj (hcode.symm.trans hcode'))
      refine ⟨id, name, hname, ?_, hlibrary _ _ _ hsigned rfl (Nat.le_add_right_of_le hnow)⟩
      rw [hsound.table]
      exact List.mem_append_right _ hrow
    | start hstart => exact absurd (hcode.symm.trans hstart).symm (calls_create.ne_done _)
    | pending id name token' hpending =>
      exact absurd (hcode.symm.trans hpending).symm ((calls_update id token').ne_done _)
    | failed e hfailed => cases hcode.symm.trans hfailed
    | panicked e hpanicked => cases hcode.symm.trans hpanicked
  obtain ⟨id, name, hname, -, hdecode⟩ := hissued h hp
  refine ⟨⟨id, name, token, some "active", some tenantScope⟩, hname, rfl, fun bs r' hlater => ?_⟩
  obtain ⟨id', name', hname', hrow, hdecode'⟩ :=
    hissued (h.trans hlater) (Registry.run_ended hlater hp hcode)
  have hclaims := TokenData.mk.inj (Except.ok.inj (hdecode.symm.trans hdecode'))
  obtain rfl : id = id' := congrArg Claims.tenantId hclaims
  obtain rfl := Option.some.inj (hname.symm.trans hname')
  refine ⟨hrow, fun req text hstate htext hbearer => ?_⟩
  have haccepts : Accepts decode (some p.secretKey) req token
      ⟨id, name, token, some "active", some tenantScope⟩ :=
    ⟨_, _, _, rfl, hdecode, hstate, rfl, hrow, rfl, rfl⟩
  rw [htext.authorize, hbearer.splitWhitespace_eq]
  exact haccepts.authorizeToken

theorem issued_token_passes_billing : ∃ (tenants : Tenants) (row : TenantRow),
    row ∈ tenants.rows ∧ some row.name = Tenants.varchar "billing" ∧ row.jwt = "token" ∧
      ∀ req text, req.state = some ⟨tenants, none⟩ → req.Reads text →
        Bearer text "token" → authorize Scenario.checks (some "secret") req =
          .ok (.ok { req with tenantId := some row.id }) := by
  have hlibrary : RoundTrips Scenario.signs Scenario.checks 1000 := by
    intro claims secretKey token hsigned haud hexp
    unfold Scenario.signs at hsigned
    split at hsigned
    · rename_i hknown
      rw [hknown.1]
      rfl
    · cases hsigned
  have hrun : ((Registry.init ⟨[], List.nodup_nil⟩).run Scenario.signs Scenario.issuing).bind
      (fun r => r.issuing[1]?.map fun p =>
        (p.serviceId, p.secretKey, p.clock.started, p.token)) =
      some ("billing", "secret", 100, some "token") := by decide +kernel
  obtain ⟨r, hr, hissued⟩ := Option.bind_eq_some_iff.mp hrun
  obtain ⟨p, hp, hfacts⟩ := Option.map_eq_some_iff.mp hissued
  simp only [Prod.mk.injEq] at hfacts
  obtain ⟨hservice, hsecret, hstarted, htoken⟩ := hfacts
  have hsteps := Registry.steps_of_run hr
  obtain ⟨row, hname, hjwt, hpasses⟩ := issued_token_passes hlibrary hsteps
    (List.mem_of_getElem? hp) htoken (by rw [hstarted]; decide)
  rw [hservice] at hname
  rw [hsecret] at hpasses
  obtain ⟨hrow, hpasses⟩ := hpasses [] r (Machine.Steps.nil r)
  exact ⟨r.tenants, row, hrow, hname.symm, hjwt, hpasses⟩

end Results

end Bankie
