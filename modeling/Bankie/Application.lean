import Bankie.Channel
import Bankie.Router

/-!
The server as its clients reach it.
A request comes to the gate, which asks the table of tenants; one that passes waits for its
handler, while the consumer, the ticks, other requests and the processes that issue tokens go
on. What the service does for a request it does for a tenant that is active from then on.
-/
namespace Bankie

open Program Transition

/-- A request, with the second at which the gate looked at it and the tenant that it found. -/
structure Visit where
  request : Inbound
  now : ℕ
  tenantId : Option ℤ

/-- The steps of the service that a request makes. -/
def Action.fromClient : Action → Bool
  | .submit .. => true
  | .startRequest .. => true
  | _ => false

/-- What the handlers of a request draw. -/
structure Drawn where
  id : Uuid
  ledgerId : Uuid
  accountNumber : String

/-- The state of the server. The requests for house accounts stand in the order of their
programs; the answers given so far are kept as history. -/
structure Application where
  service : System
  registry : Registry
  admitted : List Visit
  creating : List Visit
  answers : List (Visit × Response)

namespace Application

inductive Action where
  | arrive (request : Inbound) (now : ℕ) (fail : Option String)
  | serve (i : ℕ) (drawn : Drawn) (o : Oracle)
  | work (a : Bankie.Action)
  | issue (a : Registry.Action)

def init (houseAccounts : List HouseAccount) (tenants : Tenants) : Application where
  service := .init houseAccounts
  registry := .init tenants
  admitted := []
  creating := []
  answers := []

def answer (v : Visit) (response : Response) (app : Application) : Application :=
  { app with answers := app.answers ++ [(v, response)] }

variable (lib : Libraries)

/-- The gate. Where it panics, the connection is closed without an answer. -/
def arrive (request : Inbound) (now : ℕ) (fail : Option String) (app : Application) :
    Application :=
  let database : Database := ⟨app.registry.tenants, fail⟩
  match authorize (lib.decode now) lib.jwtSecret (request.received database) with
  | .ok (.ok passed) =>
    { app with admitted := app.admitted ++ [⟨request, now, passed.tenantId⟩] }
  | .ok (.error status) => app.answer ⟨request, now, none⟩ (refused status)
  | _ => app

/-- The command route. An id is drawn for the command that is extracted. -/
def serveCommand (v : Visit) (drawn : Drawn) (app : Application) : Option Application :=
  match commandExtractor drawn.id (lib.parseJson v.request.body) with
  | .error response => some (app.answer v response)
  | .ok command =>
    if app.service.Fresh [drawn.id] then
      let sent := bankAccountCommandHandler command app.service
      let service := { sent.2 with used := drawn.id :: sent.2.used }
      some ({ app with service := service }.answer v sent.1)
    else none

/-- The route that creates a house account, which is answered by its program. -/
def serveHouseAccount (v : Visit) (drawn : Drawn) (app : Application) : Option Application :=
  match houseAccountExtractor drawn.id drawn.accountNumber (lib.parseJson v.request.body) with
  | .error response => some (app.answer v response)
  | .ok houseAccount =>
    if app.service.Fresh [drawn.id, drawn.ledgerId] then
      let service := { app.service with
        used := [drawn.id, drawn.ledgerId] ++ app.service.used
        requests := app.service.requests ++
          [houseAccountCreateHandler drawn.ledgerId houseAccount] }
      some { app with service := service, creating := app.creating ++ [v] }
    else none

/-- The handler of a request that has passed. Each of them takes the tenant from the extensions
first. -/
def handle (v : Visit) (drawn : Drawn) (o : Oracle) (app : Application) : Option Application :=
  match v.request.route with
  | .error status => some (app.answer v (refused status))
  | .ok route =>
    match v.tenantId with
    | none => some (app.answer v (refused StatusCode.internalServerError))
    | some _ =>
      match route with
      | .bankAccountCommand => app.serveCommand lib v drawn
      | .houseAccountCreate => app.serveHouseAccount lib v drawn
      | .query q =>
        match lib.query v.request o app.service.store q with
        | some response => some (app.answer v (v.request.sent response))
        | none => some app

def serve (i : ℕ) (drawn : Drawn) (o : Oracle) (app : Application) : Option Application :=
  match app.admitted[i]? with
  | none => none
  | some v => { app with admitted := app.admitted.eraseIdx i }.handle lib v drawn o

/-- Requests reach the service through their routes only. -/
def work (a : Bankie.Action) (app : Application) : Option Application :=
  if a.fromClient then none
  else (app.service.step a).map fun service => { app with service := service }

def step (app : Application) : Action → Option Application
  | .arrive request now fail => some (app.arrive lib request now fail)
  | .serve i drawn o => app.serve lib i drawn o
  | .work a => app.work a
  | .issue a =>
    (app.registry.next lib.encode a).map fun registry => { app with registry := registry }

/-- All runs from empty event stores, any house accounts and any tenants. -/
def machine : Machine Application Action where
  Init app := ∃ houseAccounts tenants, app = init houseAccounts tenants
  Step app a app' := app.step lib a = some app'

def run (app : Application) (as : List Action) : Option Application :=
  Machine.runWhile (step lib) (fun _ _ => true) app as

theorem steps_of_run {lib : Libraries} {app app' : Application} {as : List Action}
    (h : app.run lib as = some app') : (machine lib).Steps app as app' :=
  Machine.steps_of_run (M := machine lib) (fun _ _ _ hstep => hstep) h

end Application

section Gate

variable {lib : Libraries}

/-- The request has a token for this active tenant, and was let in as this tenant. -/
def Visit.AdmittedFor (lib : Libraries) (tenants : Tenants) (v : Visit) (row : TenantRow) : Prop :=
  ∃ text token, (v.request.received ⟨tenants, none⟩).Reads text ∧
    (splitWhitespace text)[1]? = some token ∧
    Accepts (lib.decode v.now) lib.jwtSecret (v.request.received ⟨tenants, none⟩) token row ∧
    v.tenantId = some row.id

/-- The gate refuses with one of its statuses, and lets nothing through but what it accepts. -/
theorem authorize_cases {decode : Decode} {jwtSecret : Option String} {req : Request}
    {result : Except StatusCode Request} (h : authorize decode jwtSecret req = .ok result) :
    (∃ status ∈ [401, 403, 500], result = .error status) ∨
      ∃ text token row, req.Reads text ∧ (splitWhitespace text)[1]? = some token ∧
        Accepts decode jwtSecret req token row ∧
        result = .ok { req with tenantId := some row.id } := by
  by_cases hread : ∃ text, req.Reads text
  · obtain ⟨text, htext⟩ := hread
    rw [htext.authorize] at h
    cases htoken : (splitWhitespace text)[1]? with
    | none =>
      rw [htoken] at h
      cases h
    | some token =>
      rw [htoken] at h
      change authorizeToken decode jwtSecret req token = _ at h
      by_cases haccepts : ∃ row, Accepts decode jwtSecret req token row
      · obtain ⟨row, haccepts⟩ := haccepts
        rw [haccepts.authorizeToken] at h
        cases hscope : row.scope with
        | none =>
          rw [hscope] at h
          cases h
        | some scope =>
          rw [hscope] at h
          exact Or.inr ⟨text, token, row, htext, htoken, haccepts, (Outcome.ok.inj h).symm⟩
      · obtain ⟨status, hstatus, hrefused⟩ :=
          authorizeToken_refuses fun row hrow => haccepts ⟨row, hrow⟩
        exact Or.inl ⟨status, hstatus, Outcome.ok.inj (h.symm.trans hrefused)⟩
  · rw [authorize_unread decode jwtSecret fun text htext => hread ⟨text, htext⟩] at h
    exact Or.inl ⟨403, by decide, (Outcome.ok.inj h).symm⟩

theorem admittedFor_of_authorize {request : Inbound} {now : ℕ} {tenants : Tenants}
    {fail : Option String} {passed : Request}
    (h : authorize (lib.decode now) lib.jwtSecret (request.received ⟨tenants, fail⟩) =
      .ok (.ok passed)) :
    ∃ row, Visit.AdmittedFor lib tenants ⟨request, now, passed.tenantId⟩ row := by
  rcases authorize_cases h with ⟨status, -, hrefused⟩ |
    ⟨text, token, row, htext, htoken, haccepts, hpassed⟩
  · cases hrefused
  obtain rfl := Except.ok.inj hpassed
  obtain ⟨secretKey, data, database, hsecret, hdecode, hstate, hnames⟩ := haccepts
  obtain rfl := Option.some.inj hstate
  exact ⟨row, text, token, htext, htoken,
    ⟨secretKey, data, _, hsecret, hdecode, rfl, rfl, hnames.mem, hnames.id, hnames.active⟩, rfl⟩

theorem execTenant_active {c : TenantCall} {o : TenantOracle} {t : Tenants} {row : TenantRow}
    (hrow : row ∈ t.rows) (hactive : row.status = some "active") :
    ∃ row' ∈ (execTenant c o t).2.rows, row'.id = row.id ∧ row'.status = some "active" := by
  have hsame : ∃ row' ∈ t.rows, row'.id = row.id ∧ row'.status = some "active" :=
    ⟨row, hrow, rfl, hactive⟩
  unfold execTenant
  split
  · exact hsame
  · cases c with
    | createTenantProfile name scope =>
      dsimp only
      cases hwrite : t.createTenantProfile o.nextId name scope with
      | ok t' =>
        obtain ⟨name', scope', -, -, -, hrows⟩ := Tenants.createTenantProfile_ok hwrite
        exact ⟨row, hrows ▸ List.mem_append_left _ hrow, rfl, hactive⟩
      | err e => exact hsame
      | panic e => exact hsame
    | updateTenantProfile id jwt =>
      dsimp only
      cases hwrite : t.updateTenantProfile id jwt with
      | ok t' =>
        unfold Tenants.updateTenantProfile at hwrite
        split at hwrite
        · obtain rfl := Outcome.ok.inj hwrite
          refine ⟨_, List.mem_map_of_mem hrow, Tenants.activate_id id jwt row, ?_⟩
          unfold Tenants.activate
          split
          · rfl
          · exact hactive
        · cases hwrite
      | err e => exact hsame
      | panic e => exact hsame

theorem Registry.next_active {r r' : Registry} {a : Registry.Action}
    (h : r.next lib.encode a = some r') {row : TenantRow} (hrow : row ∈ r.tenants.rows)
    (hactive : row.status = some "active") :
    ∃ row' ∈ r'.tenants.rows, row'.id = row.id ∧ row'.status = some "active" := by
  cases a with
  | start serviceId secretKey clock =>
    obtain rfl := Option.some.inj h
    exact ⟨row, hrow, rfl, hactive⟩
  | step i o =>
    simp only [next] at h
    split at h
    · cases h
    · rename_i p hi
      obtain ⟨⟨code, t⟩, hcall, rfl⟩ := Option.map_eq_some_iff.mp h
      cases hcode : p.code with
      | done r =>
        rw [hcode] at hcall
        cases hcall
      | call c k =>
        rw [hcode] at hcall
        obtain ⟨-, rfl⟩ := Prod.mk.inj (Option.some.inj hcall)
        exact execTenant_active hrow hactive

/-- A visit stays admitted, whatever the processes that issue tokens do. -/
theorem Visit.AdmittedFor.next {r r' : Registry} {a : Registry.Action}
    (h : r.next lib.encode a = some r') {v : Visit} {row : TenantRow}
    (hv : v.AdmittedFor lib r.tenants row) : ∃ row', v.AdmittedFor lib r'.tenants row' := by
  obtain ⟨text, token, htext, htoken, haccepts, hid⟩ := hv
  obtain ⟨secretKey, data, database, hsecret, hdecode, hstate, hnames⟩ := haccepts
  obtain rfl := Option.some.inj hstate
  obtain ⟨row', hrow', hsame, hactive⟩ := Registry.next_active h hnames.mem hnames.active
  exact ⟨row', text, token, htext, htoken, ⟨secretKey, data, _, hsecret, hdecode, rfl, rfl, hrow',
    hsame.trans hnames.id, hactive⟩, by rw [hid, hsame]⟩

end Gate

section Handlers

variable {st st' : System}

theorem commandExtractor_ok {fresh : Uuid} {body : Option Json} {c : BankAccountCommand}
    (h : commandExtractor fresh body = .ok c) : ∃ b, c = extractCommand fresh b := by
  unfold commandExtractor at h
  split at h
  · cases h
  · exact ⟨_, (Except.ok.inj h).symm⟩

theorem houseAccountExtractor_ok {id : Uuid} {number : String} {body : Option Json}
    {a : HouseAccount} (h : houseAccountExtractor id number body = .ok a) :
    ∃ b, a = extractHouseAccount id number b := by
  unfold houseAccountExtractor at h
  split at h
  · cases h
  · exact ⟨_, (Except.ok.inj h).symm⟩

theorem commandExtractor_error {fresh : Uuid} {body : Option Json} {response : Response}
    (h : commandExtractor fresh body = .error response) : response.status = 400 := by
  unfold commandExtractor at h
  split at h
  · rw [← Except.error.inj h]
    rfl
  · cases h

theorem System.submit_handler {fresh : Uuid} (hfresh : st.Fresh [fresh])
    (body : BankAccountCommand) :
    st.submit fresh body = some
      { (bankAccountCommandHandler (extractCommand fresh body) st).2 with
        used := fresh :: (bankAccountCommandHandler (extractCommand fresh body) st).2.used } := by
  rw [submit, if_pos hfresh, bankAccountCommandHandler, send]
  obtain ⟨store, used, submitted, channel, consumer, ticks, requests⟩ := st
  rcases consumer with (x | e | e) | ⟨c, k⟩ <;> rfl

theorem System.handler_answers (c : BankAccountCommand) (st : System) :
    ((bankAccountCommandHandler c st).1 = accepted c ∧
        (bankAccountCommandHandler c st).2.submitted = st.submitted ++ [c]) ∨
      ((bankAccountCommandHandler c st).1.status = 400 ∧
        (bankAccountCommandHandler c st).2.submitted = st.submitted) := by
  rw [bankAccountCommandHandler]
  rcases st.send_cases c with hclosed | hsent
  · rw [hclosed]
    exact Or.inr ⟨rfl, rfl⟩
  · rw [hsent]
    exact Or.inl ⟨rfl, rfl⟩

theorem System.submitted_work {a : Action} (h : st.step a = some st')
    (ha : a.fromClient = false) : st'.submitted = st.submitted := by
  cases a with
  | submit fresh body => cases ha
  | startRequest id ledgerId number body => cases ha
  | receive d => exact (receive_eq h).choose_spec.2.2
  | startTick lockValue =>
    obtain ⟨-, heq⟩ := Option.ite_none_right_eq_some.mp h
    rw [← Option.some.inj heq]
  | consumer o =>
    obtain ⟨r, -, rfl⟩ := Option.map_eq_some_iff.mp h
    rfl
  | tick i o =>
    obtain ⟨r, -, rfl⟩ := Option.map_eq_some_iff.mp h
    rfl
  | request i o =>
    obtain ⟨r, -, rfl⟩ := Option.map_eq_some_iff.mp h
    rfl
  | expireKey key =>
    simp only [step, expireKey] at h
    split at h
    · rw [← Option.some.inj h]
    · cases h

end Handlers

namespace Application

variable {lib : Libraries} {app app' : Application}

/-- The answers with which a command was accepted. -/
def takes (a : Visit × Response) : Bool :=
  match a.1.request.route with
  | .ok .bankAccountCommand => a.2.status = 200 || a.2.status = 201
  | _ => false

/-- An answer that accepts no command. One to a `GET` that tells what a query found, or that it
found nothing, is that of the query. -/
def Replies (lib : Libraries) (s : Store) (v : Visit) (response : Response) : Prop :=
  takes (v, response) = false ∧ ∀ q, v.request.method = .get → v.request.route = .ok (.query q) →
    (response.status = 200 ∨ response.status = 404) → ∃ o, lib.query v.request o s q = some response

/-- All that a step may do. -/
inductive Moves (lib : Libraries) (app : Application) : Application → Prop where
  | letIn (v : Visit) (row : TenantRow) (hv : v.AdmittedFor lib app.registry.tenants row) :
      Moves lib app { app with admitted := app.admitted ++ [v] }
  | leave (rest : List Visit) (hrest : rest.Sublist app.admitted) :
      Moves lib app { app with admitted := rest }
  | reply (rest : List Visit) (v : Visit) (response : Response)
      (hrest : rest.Sublist app.admitted)
      (hresponse : Replies lib app.service.store v response) :
      Moves lib app ({ app with admitted := rest }.answer v response)
  | send (rest : List Visit) (v : Visit) (fresh : Uuid) (body : BankAccountCommand)
      (response : Response) (service : System) (hrest : rest.Sublist app.admitted)
      (hv : v ∈ app.admitted) (hroute : v.request.route = .ok .bankAccountCommand)
      (hread : commandExtractor fresh (lib.parseJson v.request.body) =
        .ok (extractCommand fresh body))
      (hstep : app.service.step (.submit fresh body) = some service)
      (hsent : (response = accepted (extractCommand fresh body) ∧
          service.submitted = app.service.submitted ++ [extractCommand fresh body]) ∨
        (response.status = 400 ∧ service.submitted = app.service.submitted)) :
      Moves lib app ({ app with service := service, admitted := rest }.answer v response)
  | create (rest : List Visit) (v : Visit) (id ledgerId : Uuid) (number : String)
      (body : HouseAccount) (service : System) (hrest : rest.Sublist app.admitted)
      (hv : v ∈ app.admitted) (hroute : v.request.route = .ok .houseAccountCreate)
      (hread : houseAccountExtractor id number (lib.parseJson v.request.body) =
        .ok (extractHouseAccount id number body))
      (hstep : app.service.step (.startRequest id ledgerId number body) = some service)
      (hsame : service.submitted = app.service.submitted) :
      Moves lib app
        { app with service := service, admitted := rest, creating := app.creating ++ [v] }
  | work (a : Bankie.Action) (service : System) (hstep : app.service.step a = some service)
      (ha : a.fromClient = false) : Moves lib app { app with service := service }
  | issue (a : Registry.Action) (registry : Registry)
      (hstep : app.registry.next lib.encode a = some registry) :
      Moves lib app { app with registry := registry }

theorem replies_of_status {s : Store} {v : Visit} {response : Response}
    (h : response.status ∉ [200, 201, 404]) : Replies lib s v response := by
  simp only [List.mem_cons, List.not_mem_nil, or_false, not_or] at h
  refine ⟨?_, fun q _ _ hstatus => ?_⟩
  · unfold takes
    split
    · simp [h]
    · rfl
  · rcases hstatus with hfound | hmissing
    · exact absurd hfound h.1
    · exact absurd hmissing h.2.2

theorem Moves.of_arrive (request : Inbound) (now : ℕ) (fail : Option String) :
    Moves lib app (app.arrive lib request now fail) := by
  unfold arrive
  dsimp only
  split
  · rename_i passed hpassed
    obtain ⟨row, hrow⟩ := admittedFor_of_authorize hpassed
    exact Moves.letIn _ row hrow
  · rename_i status hrefused
    refine Moves.reply app.admitted _ _ (List.Sublist.refl _) (replies_of_status ?_)
    rcases authorize_cases hrefused with ⟨status', hstatus, heq⟩ |
      ⟨text, token, row, -, -, -, heq⟩
    · obtain rfl := Except.error.inj heq
      simp only [List.mem_cons, List.not_mem_nil, or_false] at hstatus
      rcases hstatus with rfl | rfl | rfl <;> decide
    · cases heq
  · exact Moves.leave app.admitted (List.Sublist.refl _)

theorem Moves.of_handle {rest : List Visit} (hrest : rest.Sublist app.admitted) {v : Visit}
    (hv : v ∈ app.admitted) {drawn : Drawn} {o : Oracle}
    (h : { app with admitted := rest }.handle lib v drawn o = some app') : Moves lib app app' := by
  unfold handle at h
  split at h
  · rename_i status hroute
    obtain rfl := Option.some.inj h
    refine Moves.reply rest v _ hrest ⟨?_, fun q _ hq => ?_⟩
    · simp only [takes, hroute]
    · cases hroute.symm.trans hq
  · rename_i route hroute
    split at h
    · obtain rfl := Option.some.inj h
      exact Moves.reply rest v _ hrest (replies_of_status (by decide))
    · cases route with
      | bankAccountCommand =>
        simp only [serveCommand] at h
        split at h
        · rename_i response hread
          obtain rfl := Option.some.inj h
          have hstatus := commandExtractor_error hread
          exact Moves.reply rest v _ hrest (replies_of_status (by rw [hstatus]; decide))
        · rename_i c hread
          obtain ⟨hfresh, h⟩ := Option.ite_none_right_eq_some.mp h
          obtain rfl := Option.some.inj h
          obtain ⟨body, rfl⟩ := commandExtractor_ok hread
          exact Moves.send rest v drawn.id body _ _ hrest hv hroute hread
            (System.submit_handler hfresh body) (System.handler_answers _ _)
      | houseAccountCreate =>
        simp only [serveHouseAccount] at h
        split at h
        · rename_i response hread
          obtain rfl := Option.some.inj h
          refine Moves.reply rest v _ hrest ⟨?_, fun q _ hq => ?_⟩
          · simp only [takes, hroute]
          · cases hroute.symm.trans hq
        · rename_i account hread
          obtain ⟨hfresh, h⟩ := Option.ite_none_right_eq_some.mp h
          obtain rfl := Option.some.inj h
          obtain ⟨body, rfl⟩ := houseAccountExtractor_ok hread
          refine Moves.create rest v drawn.id drawn.ledgerId drawn.accountNumber body _ hrest hv
            hroute hread ?_ rfl
          exact if_pos hfresh
      | query q =>
        dsimp only at h
        split at h
        · rename_i response hresponse
          obtain rfl := Option.some.inj h
          refine Moves.reply rest v _ hrest ⟨?_, fun q' hget hq' _ => ?_⟩
          · simp only [takes, hroute]
          · cases hroute.symm.trans hq'
            exact ⟨o, by rw [hresponse, Inbound.sent_get hget]⟩
        · obtain rfl := Option.some.inj h
          exact Moves.leave rest hrest

theorem moves {a : Action} (h : app.step lib a = some app') : Moves lib app app' := by
  cases a with
  | arrive request now fail =>
    obtain rfl := Option.some.inj h
    exact Moves.of_arrive request now fail
  | serve i drawn o =>
    simp only [step, serve] at h
    split at h
    · cases h
    · rename_i v hv
      exact Moves.of_handle (List.eraseIdx_sublist _ i) (List.mem_of_getElem? hv) h
  | work a =>
    obtain ⟨ha, h⟩ := Option.ite_none_left_eq_some.mp h
    obtain ⟨service, hstep, rfl⟩ := Option.map_eq_some_iff.mp h
    exact Moves.work a service hstep (Bool.eq_false_iff.mpr ha)
  | issue a =>
    obtain ⟨registry, hstep, rfl⟩ := Option.map_eq_some_iff.mp h
    exact Moves.issue a registry hstep

theorem Moves.service (h : Moves lib app app') :
    app'.service = app.service ∨ ∃ a, app.service.step a = some app'.service := by
  cases h with
  | send rest v fresh body response service hrest hv hroute hread hstep =>
    exact Or.inr ⟨_, hstep⟩
  | create rest v id ledgerId number body service hrest hv hroute hread hstep =>
    exact Or.inr ⟨_, hstep⟩
  | work a service hstep => exact Or.inr ⟨_, hstep⟩
  | _ => exact Or.inl rfl

theorem Moves.registry (h : Moves lib app app') :
    app'.registry = app.registry ∨ ∃ a, app.registry.next lib.encode a = some app'.registry := by
  cases h with
  | issue a registry hstep => exact Or.inr ⟨a, hstep⟩
  | _ => exact Or.inl rfl

end Application

/-! The day at the bank again, as its clients see it. -/
namespace Scenario

def bytes (text : String) : List UInt8 := text.toUTF8.data.toList

def houseBody : String :=
  "\x7b\"status\":\"active\",\"account_name\":\"Master\",\"account_type\":\"House\"," ++
    "\"currency\":\"USD\"\x7d"

def openBody : String :=
  "\x7b\"OpenAccount\":\x7b\"account_type\":\"Retail\",\"kind\":\"Checking\"," ++
    "\"user_id\":\"alice\",\"currency\":\"USD\"\x7d\x7d"

def approveBody : String :=
  "\x7b\"ApproveAccount\":\x7b\"id\":\"00000000-0000-0000-0000-00000000000a\"\x7d\x7d"

def depositBody : String :=
  "\x7b\"Deposit\":\x7b\"id\":\"00000000-0000-0000-0000-00000000000a\"," ++
    "\"amount\":\x7b\"amount\":\"100\",\"currency\":\"USD\"\x7d\x7d\x7d"

def bodies : List (String × Json) :=
  [(houseBody, .object [("status", .string "active"), ("account_name", .string "Master"),
      ("account_type", .string "House"), ("currency", .string "USD")]),
    (openBody, .object [("OpenAccount", .object [("account_type", .string "Retail"),
      ("kind", .string "Checking"), ("user_id", .string "alice"),
      ("currency", .string "USD")])]),
    (approveBody, .object [("ApproveAccount", .object [("id", Uuid.codec.encode (uid 10))])]),
    (depositBody, .object [("Deposit", .object [("id", Uuid.codec.encode (uid 10)),
      ("amount", Money.codec.encode (usd 100))])])]

def library : Libraries where
  encode := signs
  decode _ := checks
  jwtSecret := some "secret"
  percentDecode := some
  queryPairs query := if query = "currency=USD" then [("currency", "USD")] else []
  parseJson body := (bodies.find? fun b => bytes b.1 = body).map Prod.snd
  formatDate _ := "2024-01-01"

def post (path body : String) : Inbound :=
  ⟨.post, ["v1", path], "", [("authorization", bytes "Bearer token")], bytes body⟩

def getAccount : Inbound :=
  ⟨.get, ["v1", "bank_account", (uid 10).toString], "", [("authorization", bytes "Bearer token")],
    []⟩

def getHouses : Inbound :=
  ⟨.get, ["v1", "house_account"], "currency=USD", [("authorization", bytes "Bearer token")], []⟩

def visit (request : Inbound) (id ledgerId : ℕ) : List Application.Action :=
  [.arrive request 1000 none, .serve 0 ⟨uid id, uid ledgerId, "0123456789"⟩ up]

def consume (n calls : ℕ) : List Application.Action :=
  .work (.receive (draws n)) :: List.replicate calls (.work (.consumer up))

/-- A tenant is issued its token, and its requests are served: the account is queried before it
is opened, before it is approved and after. -/
def served : List Application.Action :=
  [.issue (.start "billing" "secret" ⟨100, 101⟩), .issue (.step 0 ⟨none, 1⟩),
    .issue (.step 0 ⟨none, 2⟩)] ++
  visit (post "house_account" houseBody) 1 2 ++ List.replicate 2 (.work (.request 0 up)) ++
  visit (post "bank_account" openBody) 10 0 ++ visit getAccount 0 0 ++ consume 20 4 ++
  visit getAccount 0 0 ++ visit (post "bank_account" approveBody) 11 0 ++ consume 30 4 ++
  visit getAccount 0 0 ++ visit (post "bank_account" depositBody) 12 0 ++ consume 40 5

theorem served_run : ∃ app : Application,
    (Application.init [] ⟨[], List.nodup_nil⟩).run library served = some app ∧
      app.answers.map (fun a => a.2.status) = [201, 404, 200, 200, 200, 200] ∧
      app.service.submitted.length = 3 ∧ app.service.store.transactions.length = 1 ∧
      app.service.store.houseAccounts.length = 1 := by
  have hrun : ((Application.init [] ⟨[], List.nodup_nil⟩).run library served).map (fun app =>
      (app.answers.map (fun a => a.2.status), app.service.submitted.length,
        app.service.store.transactions.length, app.service.store.houseAccounts.length)) =
      some ([201, 404, 200, 200, 200, 200], 3, 1, 1) := by decide +kernel
  obtain ⟨app, happ, hfacts⟩ := Option.map_eq_some_iff.mp hrun
  simp only [Prod.mk.injEq] at hfacts
  exact ⟨app, happ, hfacts⟩

end Scenario

end Bankie
