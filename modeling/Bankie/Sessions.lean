import Bankie.DocumentStore
import Bankie.HouseAccounts
import Bankie.Provenance

/-!
What a client reads, again and again.
Where the views are written with their events, the answers to a query tell longer and longer
beginnings of a log, whatever happens between them: no answer is older than one before it, and
what was found once is not missing later. A house account, which has no view, is listed from the
moment on at which its request is answered.
-/
namespace Bankie

open Program Transition Growing

/-- What is queried by a key of its own, with the log that it tells. -/
structure Resource where
  Event : Type
  names : Libraries → Inbound → Query → Option String
  log : Store → String → List Event
  Stored : Store → String → Prop
  Tells : Response → List Event → Prop
  grows : ∀ {s s' key}, s.RecordedIn s' → log s key <+: log s' key
  stays : ∀ {s s' key}, s.RecordedIn s' → Stored s key → Stored s' key
  finds : ∀ {lib request o s q key response}, s.Current → names lib request q = some key →
    lib.query request o s q = some response → response.status = 200 →
    Stored s key ∧ Tells response (log s key)
  misses : ∀ {lib request o s q key response}, names lib request q = some key →
    lib.query request o s q = some response → response.status = 404 → ¬ Stored s key

section Views

variable {α : Type} {toJson : α → Json} {o : Oracle} {view : Option α} {response : Response}

/-- The answer to a query for a view is the view, or that there is none, or an error. -/
theorem reply_found (h : reply toJson (show Outcome (Except AppError α) from do
    let view ← respond (fetch o (.ok view))
    return found view) = some response) :
    (response.status = 200 → ∃ v, view = some v ∧ response.body = toJson v) ∧
      (response.status = 404 → view = none) := by
  unfold fetch at h
  split at h
  · obtain rfl := Option.some.inj h
    exact ⟨fun h => absurd h (show ¬ 500 = 200 by decide),
      fun h => absurd h (show ¬ 500 = 404 by decide)⟩
  · cases view with
    | none =>
      obtain rfl := Option.some.inj h
      exact ⟨fun h => absurd h (show ¬ 404 = 200 by decide), fun _ => rfl⟩
    | some v =>
      obtain rfl := Option.some.inj h
      exact ⟨fun _ => ⟨v, rfl, rfl⟩, fun h => absurd h (show ¬ 200 = 404 by decide)⟩

theorem reply_rows {rows : α} (h : reply toJson (respond (fetch o (.ok rows))) = some response) :
    (response.status = 200 ∧ response.body = toJson rows) ∨ response.status = 500 := by
  unfold fetch at h
  split at h
  · obtain rfl := Option.some.inj h
    exact Or.inr rfl
  · obtain rfl := Option.some.inj h
    exact Or.inl ⟨rfl, rfl⟩

end Views

theorem withPath_found {lib : Libraries} {id key : String} (hkey : lib.percentDecode id = some key)
    {handler : String → Option Response} {response : Response}
    (h : lib.withPath id handler = some response) : handler key = some response := by
  unfold Libraries.withPath at h
  rwa [hkey] at h

namespace Resource

def account : Resource where
  Event := BankAccountEvent
  names
    | lib, _, .bankAccount id => lib.percentDecode id
    | _, _, _ => none
  log s key := s.accountEvents key
  Stored s key := key ∈ s.accountViews
  Tells response log := ∃ view, BankAccountView.codec.decode response.body = some view ∧
    (BankAccount.replay log).Agrees view
  grows h := h.accountEvents _
  stays h := h.accountViews _
  finds {lib request o s q key response} hcurrent hkey h hstatus := by
    cases q with
    | bankAccount id =>
      obtain ⟨view, hview, hbody⟩ := (reply_found (withPath_found hkey h)).1 hstatus
      have hagrees := hcurrent.accounts key
      rw [hview] at hagrees
      exact ⟨AList.lookup_isSome.mp (hview ▸ rfl), view, hbody ▸ Codec.decode_encode _ _, hagrees⟩
    | _ => cases hkey
  misses {lib request o s q key response} hkey h hstatus hstored := by
    cases q with
    | bankAccount id =>
      have hview := (reply_found (withPath_found hkey h)).2 hstatus
      exact AList.lookup_eq_none.mp hview hstored
    | _ => cases hkey

def ledger : Resource where
  Event := LedgerEvent
  names
    | lib, _, .ledger id => lib.percentDecode id
    | _, _, _ => none
  log s key := s.ledgerEvents key
  Stored s key := key ∈ s.ledgerViews
  Tells response log := ∃ l view, LedgerView.codec.decode response.body = some view ∧
    Ledger.replay log = .ok l ∧ l.Agrees view
  grows h := h.ledgerEvents _
  stays h := h.ledgerViews _
  finds {lib request o s q key response} hcurrent hkey h hstatus := by
    cases q with
    | ledger id =>
      obtain ⟨view, hview, hbody⟩ := (reply_found (withPath_found hkey h)).1 hstatus
      obtain ⟨l, hl, hagrees⟩ := hcurrent.ledgers key
      rw [hview] at hagrees
      exact ⟨AList.lookup_isSome.mp (hview ▸ rfl), l, view, hbody ▸ Codec.decode_encode _ _, hl,
        hagrees⟩
    | _ => cases hkey
  misses {lib request o s q key response} hkey h hstatus hstored := by
    cases q with
    | ledger id =>
      have hview := (reply_found (withPath_found hkey h)).2 hstatus
      exact AList.lookup_eq_none.mp hview hstored
    | _ => cases hkey

/-- The house accounts of a currency, in any order; the list is there also where it is empty. -/
def houseAccounts : Resource where
  Event := HouseAccount
  names
    | lib, request, .houseAccounts =>
      (HouseAccountParams.fromPairs (lib.queryPairs request.query)).map fun params =>
        params.currency
    | _, _, _ => none
  log s key := s.getHouseAccounts (Currency.ofString key)
  Stored _ _ := True
  Tells response log := ∃ rows, rows.Perm log ∧ response.body = entries HouseAccount.toJson rows
  grows h := h.houseAccounts.filter _
  stays _ _ := trivial
  finds {lib request o s q key response} _ hkey h hstatus := by
    cases q with
    | houseAccounts =>
      obtain ⟨params, hparams, rfl⟩ := Option.map_eq_some_iff.mp hkey
      rw [Libraries.query, hparams] at h
      rcases reply_rows h with ⟨-, hbody⟩ | herror
      · exact ⟨trivial, _, List.Perm.refl _, hbody⟩
      · exact absurd (hstatus.symm.trans herror) (show ¬ 200 = 500 by decide)
    | _ => cases hkey
  misses {lib request o s q key response} hkey h hstatus := by
    cases q with
    | houseAccounts =>
      obtain ⟨params, hparams, rfl⟩ := Option.map_eq_some_iff.mp hkey
      rw [Libraries.query, hparams] at h
      rcases reply_rows h with ⟨hfound, -⟩ | herror
      · exact absurd (hstatus.symm.trans hfound) (show ¬ 404 = 200 by decide)
      · exact absurd (hstatus.symm.trans herror) (show ¬ 404 = 500 by decide)
    | _ => cases hkey

variable (r : Resource) (lib : Libraries) (key : String)

/-- The request asks for this, with its body. -/
def asks (a : Visit × Response) : Bool :=
  match a.1.request.method, a.1.request.route with
  | .get, .ok (.query q) => r.names lib a.1.request q = some key
  | _, _ => false

def shows (a : Visit × Response) : Bool := r.asks lib key a && a.2.status = 200

def hides (a : Visit × Response) : Bool := r.asks lib key a && a.2.status = 404

/-- The answers that show it tell longer and longer beginnings of its log, and after the first of
them none says that there is none. -/
structure Consistent (app : Application) : Prop where
  inOrder : ReadInOrder r.Tells (r.log app.service.store key)
    ((app.answers.filter (r.shows lib key)).map Prod.snd)
  found : ∀ a ∈ app.answers, r.shows lib key a = true → r.Stored app.service.store key
  kept : app.answers.Pairwise fun a b => r.shows lib key a = true → r.hides lib key b = false

/-- The answer tells at least what was recorded in a state before it, and does not say that there
is none of what was stored then. -/
structure Recent (app app' : Application) (a : Visit × Response) : Prop where
  told : r.shows lib key a = true → ∃ log, r.log app.service.store key <+: log ∧
    log <+: r.log app'.service.store key ∧ r.Tells a.2 log
  found : r.Stored app.service.store key → r.hides lib key a = false

/-- No answer that was given between two states is stale. -/
def UpToDate (app app' : Application) : Prop :=
  ∃ later, app'.answers = app.answers ++ later ∧ ∀ key, ∀ a ∈ later, r.Recent lib key app app' a

end Resource

namespace Application

variable {lib : Libraries} {app app' : Application}

/-- A step gives at most one answer; one to a `GET` is what the query finds in the store. -/
theorem Moves.answers (h : Moves lib app app') :
    app'.answers = app.answers ∨ ∃ v response,
      app'.answers = app.answers ++ [(v, response)] ∧
        ∀ q, v.request.method = .get → v.request.route = .ok (.query q) →
          (response.status = 200 ∨ response.status = 404) → app'.service = app.service ∧
            ∃ o, lib.query v.request o app.service.store q = some response := by
  cases h with
  | reply rest v response hrest hresponse =>
    exact Or.inr ⟨v, response, rfl, fun q hget hq hstatus =>
      ⟨rfl, hresponse.2 q hget hq hstatus⟩⟩
  | send rest v fresh body response service hrest hv hroute hread hstep hsent =>
    exact Or.inr ⟨v, response, rfl, fun q _ hq => by cases hroute.symm.trans hq⟩
  | _ => exact Or.inl rfl

theorem Moves.recordedIn (h : Moves lib app app') :
    app.service.store.RecordedIn app'.service.store := by
  rcases h.service with hsame | ⟨a, hstep⟩
  · rw [hsame]
    exact Store.RecordedIn.refl _
  · exact System.recordedIn_step hstep

end Application

theorem Represents.current {s : Store} {m : Bank} (h : Represents s m) : s.Current where
  accounts key := by
    have hview := congrFun h.accountViews key
    rcases byKey_cases key with ⟨u, rfl⟩ | hother
    · rw [h.accountEvents_at, h.accountViews_at, Bank.accountLog, Bank.accountView]
      cases m.accounts u with
      | none => exact BankAccount.replay_agrees []
      | some a => exact BankAccount.replay_agrees (a.events u)
    · rw [h.accountEvents, hother, hview, hother]
      exact BankAccount.replay_agrees []
  ledgers key := by
    have hview := congrFun h.ledgerViews key
    rcases byKey_cases key with ⟨u, rfl⟩ | hother
    · rw [h.ledgerEvents_at, h.ledgerViews_at, Bank.ledgerLog, Bank.ledgerView]
      cases m.books u with
      | none => exact ⟨default, rfl, Ledger.agrees_default⟩
      | some b => exact Ledger.replay_agrees (b.project_view u)
    · rw [h.ledgerEvents, hother, hview, hother]
      exact ⟨default, rfl, Ledger.agrees_default⟩

/-- In every reachable state the views are current. -/
theorem Application.current (h : (machine lib).Reachable app) : app.service.store.Current := by
  obtain ⟨app₀, as, ⟨houseAccounts, tenants, rfl⟩, hrun⟩ := h
  obtain ⟨-, ⟨bs, hservice⟩, -⟩ := run_accounted hrun
  obtain ⟨m, -, hmodels, -⟩ := refinement.reachable ⟨_, bs, ⟨houseAccounts, rfl⟩, hservice⟩
  exact hmodels.store.current

namespace Resource

variable {r : Resource} {lib : Libraries} {key : String} {app app' : Application}

theorem asks_eq_true {a : Visit × Response} (h : r.asks lib key a = true) :
    ∃ q, a.1.request.method = .get ∧ a.1.request.route = .ok (.query q) ∧
      r.names lib a.1.request q = some key := by
  unfold asks at h
  split at h
  · rename_i q hget hroute
    exact ⟨q, hget, hroute, of_decide_eq_true h⟩
  · cases h

/-- A step gives at most one answer. One that shows this tells all of its log, and one that says
that there is none is right. -/
theorem answers (hm : Application.Moves lib app app') (hcurrent : app.service.store.Current)
    (r : Resource) :
    app'.answers = app.answers ∨ ∃ a, app'.answers = app.answers ++ [a] ∧ ∀ key,
      (r.shows lib key a = true →
        r.Stored app'.service.store key ∧ r.Tells a.2 (r.log app'.service.store key)) ∧
      (r.hides lib key a = true → ¬ r.Stored app'.service.store key) := by
  rcases hm.answers with hsame | ⟨v, response, hanswers, hquery⟩
  · exact Or.inl hsame
  refine Or.inr ⟨(v, response), hanswers, fun key => ⟨fun hshows => ?_, fun hhides => ?_⟩⟩
  · obtain ⟨hasks, hstatus⟩ := Bool.and_eq_true_iff.mp hshows
    have hstatus := of_decide_eq_true hstatus
    obtain ⟨q, hget, hroute, hkey⟩ := asks_eq_true hasks
    obtain ⟨hservice, o, hresponse⟩ := hquery q hget hroute (Or.inl hstatus)
    rw [hservice]
    exact r.finds hcurrent hkey hresponse hstatus
  · obtain ⟨hasks, hstatus⟩ := Bool.and_eq_true_iff.mp hhides
    have hstatus := of_decide_eq_true hstatus
    obtain ⟨q, hget, hroute, hkey⟩ := asks_eq_true hasks
    obtain ⟨hservice, o, hresponse⟩ := hquery q hget hroute (Or.inr hstatus)
    rw [hservice]
    exact r.misses hkey hresponse hstatus

theorem Consistent.moves (h : r.Consistent lib key app) (hcurrent : app.service.store.Current)
    (hm : Application.Moves lib app app') : r.Consistent lib key app' := by
  have hrecorded := hm.recordedIn
  have hgrown := h.inOrder.grow (r.grows hrecorded)
  have hfound : ∀ a ∈ app.answers, r.shows lib key a = true → r.Stored app'.service.store key :=
    fun a ha hshows => r.stays hrecorded (h.found a ha hshows)
  rcases answers hm hcurrent r with hsame | ⟨a, hanswers, hreads⟩
  · exact ⟨hsame ▸ hgrown, hsame ▸ hfound, hsame ▸ h.kept⟩
  obtain ⟨htells, hnone⟩ := hreads key
  refine ⟨?_, fun b hb hshows => ?_, ?_⟩
  · rw [hanswers, List.filter_append, List.filter_singleton, List.map_append]
    cases hshows : r.shows lib key a with
    | true => exact hgrown.read (htells hshows).2
    | false => simpa using hgrown
  · rw [hanswers] at hb
    rcases List.mem_append.mp hb with hold | hnew
    · exact hfound b hold hshows
    · rw [List.mem_singleton.mp hnew] at hshows
      exact (htells hshows).1
  · rw [hanswers]
    refine List.pairwise_append.mpr
      ⟨h.kept, List.pairwise_singleton _ _, fun b hb c hc hshows => ?_⟩
    rw [List.mem_singleton.mp hc]
    exact Bool.eq_false_iff.mpr fun hhides => hnone hhides (hfound b hb hshows)

theorem run_consistent (h : (Application.machine lib).Reachable app) :
    r.Consistent lib key app := by
  have hinvariant := (Machine.reachable_invariant (Application.machine lib)).strengthen
    (Q := fun app => r.Consistent lib key app) ?_ fun _ _ _ hreach hconsistent hstep =>
      hconsistent.moves (Application.current hreach) (Application.moves hstep)
  · exact (hinvariant.reachable h).2
  · rintro app ⟨houseAccounts, tenants, rfl⟩
    exact ⟨readInOrder_nil _ _, fun _ ha => absurd ha List.not_mem_nil, List.Pairwise.nil⟩

theorem read_since (h : (Application.machine lib).Reachable app)
    {as : List Application.Action} (hrun : (Application.machine lib).Steps app as app')
    (r : Resource) : r.UpToDate lib app app' := by
  have hkept := hrun.preserves
    (P := fun app' => (Application.machine lib).Reachable app' ∧
      app.service.store.RecordedIn app'.service.store ∧ r.UpToDate lib app app') ?_
    ⟨h, Store.RecordedIn.refl _, [], (List.append_nil _).symm,
      fun _ _ ha => absurd ha List.not_mem_nil⟩
  · exact hkept.2.2
  rintro mid a next ⟨hreach, hrecorded, later, hlater, hsince⟩ hstep
  have hm := Application.moves hstep
  have hnext := hrecorded.trans hm.recordedIn
  refine ⟨(Machine.reachable_invariant _).step _ _ _ hreach hstep, hnext, ?_⟩
  have hgrown : ∀ key, ∀ a ∈ later, r.Recent lib key app next a := fun key a ha =>
    ⟨fun hshows => by
      obtain ⟨log, hbefore, hafter, htells⟩ := (hsince key a ha).told hshows
      exact ⟨log, hbefore, hafter.trans (r.grows hm.recordedIn), htells⟩,
    (hsince key a ha).found⟩
  rcases answers hm (Application.current hreach) r with hsame | ⟨b, hanswers, hreads⟩
  · exact ⟨later, hsame.trans hlater, hgrown⟩
  refine ⟨later ++ [b], by rw [hanswers, hlater, List.append_assoc], fun key a ha => ?_⟩
  rcases List.mem_append.mp ha with hold | hnew
  · exact hgrown key a hold
  rw [List.mem_singleton.mp hnew]
  obtain ⟨htells, hnone⟩ := hreads key
  exact {
    told := fun hshows => ⟨_, r.grows hnext, List.prefix_refl _, (htells hshows).2⟩
    found := fun hstored =>
      Bool.eq_false_iff.mpr fun hhides => hnone hhides (r.stays hnext hstored) }

end Resource

/-- In every run the answers that show an account tell longer and longer beginnings of its log,
its view being written with its events, and once it was shown no answer says that there is none;
the same holds of a ledger, and of the house accounts of a currency. -/
theorem reads_in_order {lib : Libraries} {app : Application}
    (h : (Application.machine lib).Reachable app) (key : String) :
    Resource.account.Consistent lib key app ∧ Resource.ledger.Consistent lib key app ∧
      Resource.houseAccounts.Consistent lib key app :=
  ⟨Resource.run_consistent h, Resource.run_consistent h, Resource.run_consistent h⟩

/-- The account is missing before it is opened, and shown before its approval and after. -/
theorem reads_in_order_served : ∃ app : Application,
    app.answers.map (fun a => a.2.status) = [201, 404, 200, 200, 200, 200] ∧
      Resource.account.Consistent Scenario.library (Scenario.uid 10).toString app := by
  obtain ⟨app, happ, hstatus, -⟩ := Scenario.served_run
  exact ⟨app, hstatus,
    (reads_in_order ⟨_, _, ⟨[], _, rfl⟩, Application.steps_of_run happ⟩ _).1⟩

section Later

variable {lib : Libraries} {app app' : Application}

/-- The account and the house accounts are queried once more after the day, at a bank that starts
with a house account of another type. -/
theorem Scenario.queried_run : ∃ app app' : Application,
    (Application.init [fees] ⟨[], List.nodup_nil⟩).run library served = some app ∧
      app.run library (visit getAccount 0 0 ++ visit getHouses 0 0) = some app' ∧
      app.service.answers.map Response.status = [201] ∧
      app.service.store.houseAccounts.all (fun h => h.currency = .usd ∧ h.status = "active") ∧
      (app.service.store.accountEvents (uid 10).toString).length = 2 ∧
      (app'.answers.drop app.answers.length).any
        (Resource.account.shows library (uid 10).toString) ∧
      (app'.answers.drop app.answers.length).any (Resource.houseAccounts.shows library "USD") := by
  have hrun : ((Application.init [fees] ⟨[], List.nodup_nil⟩).run library served).bind (fun app =>
      (app.run library (visit getAccount 0 0 ++ visit getHouses 0 0)).map fun app' =>
        (app.service.answers.map Response.status,
          app.service.store.houseAccounts.all (fun h => h.currency = .usd ∧ h.status = "active"),
          (app.service.store.accountEvents (uid 10).toString).length,
          (app'.answers.drop app.answers.length).any
            (Resource.account.shows library (uid 10).toString),
          (app'.answers.drop app.answers.length).any
            (Resource.houseAccounts.shows library "USD"))) =
      some ([201], true, 2, true, true) := by decide +kernel
  obtain ⟨app, happ, hrest⟩ := Option.bind_eq_some_iff.mp hrun
  obtain ⟨app', happ', hfacts⟩ := Option.map_eq_some_iff.mp hrest
  simp only [Prod.mk.injEq] at hfacts
  exact ⟨app, app', happ, happ', hfacts⟩

/-- In every continuation of a run the answers that show an account, or a ledger, tell at least
what was recorded when it began, where the views are written with their events. -/
theorem reads_up_to_date (h : (Application.machine lib).Reachable app)
    {as : List Application.Action} (hrun : (Application.machine lib).Steps app as app') :
    Resource.account.UpToDate lib app app' ∧ Resource.ledger.UpToDate lib app app' :=
  ⟨Resource.read_since h hrun _, Resource.read_since h hrun _⟩

/-- The account was opened and approved, and is shown as that after the day. -/
theorem reads_up_to_date_queried : ∃ app app' : Application,
    (app.service.store.accountEvents (Scenario.uid 10).toString).length = 2 ∧
      (∃ a ∈ app'.answers.drop app.answers.length,
        Resource.account.shows Scenario.library (Scenario.uid 10).toString a = true) ∧
      Resource.account.UpToDate Scenario.library app app' := by
  obtain ⟨app, app', happ, happ', -, -, hlength, hshows, -⟩ := Scenario.queried_run
  exact ⟨app, app', hlength, List.any_eq_true.mp hshows,
    (reads_up_to_date ⟨_, _, ⟨[Scenario.fees], _, rfl⟩, Application.steps_of_run happ⟩
      (Application.steps_of_run happ')).1⟩

theorem Store.getHouseAccounts_types {s : Store} (hunique : HousesUnique s.houseAccounts)
    (c : Currency) :
    (s.getHouseAccounts c).Pairwise fun a b => a.accountType ≠ b.accountType := by
  unfold getHouseAccounts
  refine (List.Pairwise.filter _ hunique).imp_of_mem fun {a b} ha hb hapart htype => ?_
  rw [List.mem_filter, decide_eq_true_eq] at ha hb
  obtain ⟨-, hcurrency, hactive⟩ := ha
  obtain ⟨-, hcurrency', hactive'⟩ := hb
  exact hapart (Or.inr (Or.inr ⟨htype, Currency.toString_inj (hcurrency.trans hcurrency'.symm),
    hactive.trans hactive'.symm⟩))

/-- Once the request that creates a house account is answered with status 201, every answer that
lists the house accounts of its currency has it, while it is active; no two of those that are
listed are of one type. -/
theorem created_house_listed {houses : List HouseAccount} {tenants : Tenants}
    (hunique : HousesUnique houses) {as bs : List Application.Action}
    (h : (Application.machine lib).Steps (Application.init houses tenants) as app)
    (hlater : (Application.machine lib).Steps app bs app') {response : Response}
    (hr : response ∈ app.service.answers) (hstatus : response.status = 201) :
    ∃ account ∈ app.service.store.houseAccounts,
      response.body = .object [("id", .string account.id.toString)] ∧
      ∃ later, app'.answers = app.answers ++ later ∧ ∀ currency, ∀ a ∈ later,
        Resource.houseAccounts.shows lib currency a = true → ∃ rows,
          a.2.body = entries HouseAccount.toJson rows ∧
          (rows.Pairwise fun x y => x.accountType ≠ y.accountType) ∧
          (account.currency = Currency.ofString currency → account.status = "active" →
            account ∈ rows) := by
  obtain ⟨-, ⟨cs, hservice⟩, -⟩ := Application.run_accounted h
  obtain ⟨-, ⟨ds, hservice'⟩, -⟩ := Application.run_accounted (h.trans hlater)
  have hcreated := (System.houseRequests ⟨_, cs, ⟨houses, rfl⟩, hservice⟩ _
    (System.mem_answers hr)).of_done
  rcases hcreated with ⟨-, account, ⟨hstored, -⟩, hbody⟩ | hrefused
  · refine ⟨account, hstored, hbody, ?_⟩
    obtain ⟨later, hanswers, hsince⟩ :=
      Resource.read_since ⟨_, as, ⟨houses, tenants, rfl⟩, h⟩ hlater Resource.houseAccounts
    refine ⟨later, hanswers, fun currency a ha hshows => ?_⟩
    obtain ⟨log, hbefore, hafter, rows, hperm, hbody⟩ := (hsince currency a ha).told hshows
    refine ⟨rows, hbody, ?_, fun hcurrency hactive => hperm.symm.subset (hbefore.subset ?_)⟩
    · have htypes := Store.getHouseAccounts_types (System.run_housesUnique hservice' hunique)
        (Currency.ofString currency)
      exact (hperm.symm.pairwise_iff fun hne => hne.symm).mp (htypes.sublist hafter.sublist)
    · exact List.mem_filter.mpr
        ⟨hstored, decide_eq_true ⟨congrArg Currency.toString hcurrency, hactive⟩⟩
  · exact absurd (hstatus.symm.trans hrefused) (show ¬ 201 = 400 by decide)

/-- The house account that was created is listed after the day, once under its type. -/
theorem created_house_listed_queried : ∃ (app : Application) (account : HouseAccount)
    (rows : List HouseAccount), account.currency = .usd ∧ account ∈ rows ∧
      (rows.Pairwise fun x y => x.accountType ≠ y.accountType) ∧
      ∃ a ∈ app.answers, a.2.body = entries HouseAccount.toJson rows := by
  obtain ⟨app, app', happ, happ', hstatus, hactive, -, -, hshows⟩ := Scenario.queried_run
  have hcreated : 201 ∈ app.service.answers.map Response.status := hstatus ▸ List.mem_cons_self
  obtain ⟨response, hr, hr201⟩ := List.mem_map.mp hcreated
  obtain ⟨account, hstored, -, later, hanswers, hlisted⟩ := created_house_listed
    (List.pairwise_singleton _ Scenario.fees) (Application.steps_of_run happ)
    (Application.steps_of_run happ') hr hr201
  obtain ⟨a, ha, hshown⟩ := List.any_eq_true.mp hshows
  rw [hanswers, List.drop_left] at ha
  obtain ⟨rows, hbody, htypes, hrow⟩ := hlisted "USD" a ha hshown
  obtain ⟨hcurrency, hstatus⟩ := of_decide_eq_true (List.all_eq_true.mp hactive account hstored)
  exact ⟨app', account, rows, hcurrency, hrow hcurrency hstatus, htypes, a,
    hanswers ▸ List.mem_append_right _ ha, hbody⟩

end Later

end Bankie
