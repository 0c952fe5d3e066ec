import Bankie.Application

/-!
What is recorded was asked for.
Every command that the channel takes is that of one accepted answer, in the order of the
answers; with the order of the records it follows that every transaction goes back to a request
of its own, which the gate let in for an active tenant. So does every house account that was not
there at the start.
-/
namespace Bankie

open Program Transition

namespace Application

variable {lib : Libraries} {app app' : Application}

/-- The answer accepts this command, which was read from the body of its request. -/
def Asks (lib : Libraries) (a : Visit × Response) (c : BankAccountCommand) : Prop :=
  a.1.request.route = .ok .bankAccountCommand ∧
    (∃ fresh, commandExtractor fresh (lib.parseJson a.1.request.body) = .ok c) ∧
    a.2 = accepted c

/-- The visit was let in for a tenant that is active now. -/
def Known (lib : Libraries) (app : Application) (v : Visit) : Prop :=
  ∃ row, v.AdmittedFor lib app.registry.tenants row

theorem Known.moves {v : Visit} (hv : Known lib app v) (h : Moves lib app app') :
    Known lib app' v := by
  obtain ⟨row, hrow⟩ := hv
  rcases h.registry with hsame | ⟨a, hstep⟩
  · exact ⟨row, hsame ▸ hrow⟩
  · exact hrow.next hstep

/-- All that waits or was accepted was let in, and the accepted commands are those submitted. -/
structure Accounted (lib : Libraries) (app : Application) : Prop where
  admitted : ∀ v ∈ app.admitted, Known lib app v
  creating : ∀ v ∈ app.creating, Known lib app v
  answered : ∀ a ∈ app.answers, takes a = true → Known lib app a.1
  taken : List.Forall₂ (Asks lib) (app.answers.filter takes) app.service.submitted

theorem accounted_init (houseAccounts : List HouseAccount) (tenants : Tenants) :
    Accounted lib (init houseAccounts tenants) where
  admitted _ h := absurd h List.not_mem_nil
  creating _ h := absurd h List.not_mem_nil
  answered _ h := absurd h List.not_mem_nil
  taken := List.Forall₂.nil

theorem takes_accepted {v : Visit} (hroute : v.request.route = .ok .bankAccountCommand)
    (c : BankAccountCommand) : takes (v, accepted c) = true := by
  simp only [takes, hroute]
  cases c <;> rfl

theorem Accounted.moves (h : Accounted lib app) (hm : Moves lib app app') :
    Accounted lib app' := by
  have hadmitted : ∀ v ∈ app.admitted, Known lib app' v := fun v hv => (h.admitted v hv).moves hm
  have hcreating : ∀ v ∈ app.creating, Known lib app' v := fun v hv => (h.creating v hv).moves hm
  have hanswered : ∀ a ∈ app.answers, takes a = true → Known lib app' a.1 :=
    fun a ha htakes => (h.answered a ha htakes).moves hm
  cases hm with
  | letIn v row hv =>
    refine ⟨fun w hw => ?_, hcreating, hanswered, h.taken⟩
    rcases List.mem_append.mp hw with hold | hnew
    · exact hadmitted w hold
    · rw [List.mem_singleton.mp hnew]
      exact ⟨row, hv⟩
  | leave rest hrest =>
    exact ⟨fun v hv => hadmitted v (hrest.subset hv), hcreating, hanswered, h.taken⟩
  | reply rest v response hrest hresponse =>
    refine ⟨fun w hw => hadmitted w (hrest.subset hw), hcreating, fun a ha htakes => ?_, ?_⟩
    · rcases List.mem_append.mp ha with hold | hnew
      · exact hanswered a hold htakes
      · rw [List.mem_singleton.mp hnew, hresponse.1] at htakes
        cases htakes
    · change List.Forall₂ (Asks lib) ((app.answers ++ [(v, response)]).filter takes)
        app.service.submitted
      rw [List.filter_append, List.filter_singleton, hresponse.1]
      simpa using h.taken
  | send rest v fresh body response service hrest hv hroute hread hstep hsent =>
    refine ⟨fun w hw => hadmitted w (hrest.subset hw), hcreating, fun a ha htakes => ?_, ?_⟩
    · rcases List.mem_append.mp ha with hold | hnew
      · exact hanswered a hold htakes
      · rw [List.mem_singleton.mp hnew]
        exact hadmitted v hv
    · change List.Forall₂ (Asks lib) ((app.answers ++ [(v, response)]).filter takes)
        service.submitted
      rw [List.filter_append, List.filter_singleton]
      rcases hsent with ⟨rfl, hsubmitted⟩ | ⟨hstatus, hsubmitted⟩
      · rw [takes_accepted hroute, hsubmitted]
        exact List.rel_append h.taken
          (List.Forall₂.cons ⟨hroute, ⟨fresh, hread⟩, rfl⟩ List.Forall₂.nil)
      · have hrefused : takes (v, response) = false := by
          simp only [takes, hroute, hstatus]
          decide
        rw [hrefused, hsubmitted]
        simpa using h.taken
  | create rest v id ledgerId number body service hrest hv hroute hread hstep hsame =>
    refine ⟨fun w hw => hadmitted w (hrest.subset hw), fun w hw => ?_, hanswered, hsame ▸ h.taken⟩
    rcases List.mem_append.mp hw with hold | hnew
    · exact hcreating w hold
    · rw [List.mem_singleton.mp hnew]
      exact hadmitted v hv
  | work a service hstep ha =>
    exact ⟨hadmitted, hcreating, hanswered, System.submitted_work hstep ha ▸ h.taken⟩
  | issue a registry hstep => exact ⟨hadmitted, hcreating, hanswered, h.taken⟩

/-- The parts of a run: what was let in, a run of the service, and one of the registry. -/
theorem run_accounted {houseAccounts : List HouseAccount} {tenants : Tenants}
    {as : List Action} (h : (machine lib).Steps (init houseAccounts tenants) as app) :
    Accounted lib app ∧
      (∃ bs, System.machine.Steps (System.init houseAccounts) bs app.service) ∧
      ∃ bs, (Registry.machine lib.encode).Steps (Registry.init tenants) bs app.registry :=
  ⟨h.preserves (fun _ _ _ haccounted hstep => haccounted.moves (moves hstep))
      (accounted_init houseAccounts tenants),
    Machine.Steps.project service (A := System.machine)
      (fun _ _ _ hstep => (moves hstep).service) h,
    Machine.Steps.project registry (A := Registry.machine lib.encode)
      (fun _ _ _ hstep => (moves hstep).registry) h⟩

/-- Every answer that accepts a command was given to a visit that was let in, and the channel has
taken the commands of these answers, one for one and in their order. -/
theorem commands_taken (h : (machine lib).Reachable app) :
    (∀ a ∈ app.answers, takes a = true → Known lib app a.1) ∧
      List.Forall₂ (Asks lib) (app.answers.filter takes) app.service.submitted := by
  obtain ⟨app₀, as, ⟨houseAccounts, tenants, rfl⟩, hrun⟩ := h
  obtain ⟨haccounted, -, -⟩ := run_accounted hrun
  exact ⟨haccounted.answered, haccounted.taken⟩

theorem commands_taken_served : ∃ app : Application, app.service.submitted.length = 3 ∧
    List.Forall₂ (Asks Scenario.library) (app.answers.filter takes) app.service.submitted := by
  obtain ⟨app, happ, -, hlength, -⟩ := Scenario.served_run
  exact ⟨app, hlength, (commands_taken ⟨_, _, ⟨[], _, rfl⟩, steps_of_run happ⟩).2⟩

section Houses

/-- The request asked for this house account, but for its ledger, which was drawn. -/
def AsksHouse (lib : Libraries) (v : Visit) (account : HouseAccount) : Prop :=
  v.request.route = .ok .houseAccountCreate ∧ ∃ (id ledger : Uuid) (number : String)
    (body : HouseAccount),
    houseAccountExtractor id number (lib.parseJson v.request.body) = .ok body ∧
      account = { body with ledgerId := ledger.toString }

/-- What a request stores, if it comes to that. -/
def Creates (account : HouseAccount) : RequestPoint → Prop
  | .init ledger body => account = { body with ledgerId := ledger.toString }
  | .insert body => account = body
  | .stopped _ => True

/-- The visit of a request that has not come to its end. -/
def live : Visit × RequestPoint → Option Visit
  | (_, .stopped _) => none
  | (v, _) => some v

/-- The visits stand beside their requests, and those that have stored an account have come to
their end. -/
structure Founded (lib : Libraries) (houses : List HouseAccount) (creating : List Visit)
    (requests : List RequestPoint) (stored : List HouseAccount)
    (pairs : List (Visit × RequestPoint)) (new : List HouseAccount) (origins : List Visit) :
    Prop where
  visits : pairs.map Prod.fst = creating
  points : pairs.map Prod.snd = requests
  creates : ∀ p ∈ pairs, ∃ account, AsksHouse lib p.1 account ∧ Creates account p.2
  table : stored = houses ++ new
  asked : List.Forall₂ (AsksHouse lib) origins new
  own : (origins ++ pairs.filterMap live).Subperm creating

variable {houses : List HouseAccount} {creating : List Visit} {requests : List RequestPoint}
  {stored new : List HouseAccount} {pairs : List (Visit × RequestPoint)} {origins : List Visit}

theorem Founded.set (h : Founded lib houses creating requests stored pairs new origins) {i : ℕ}
    {r : RequestPoint} (hi : requests[i]? = some r) :
    ∃ v account, AsksHouse lib v account ∧ Creates account r ∧
      ∀ (r' : RequestPoint) (added : List HouseAccount) (visits : List Visit),
        Creates account r' → List.Forall₂ (AsksHouse lib) visits added →
        (visits ++ (live (v, r')).toList).Subperm (live (v, r)).toList →
        Founded lib houses creating (requests.set i r') (stored ++ added)
          (pairs.set i (v, r')) (new ++ added) (origins ++ visits) := by
  have hpair : ∃ v, pairs[i]? = some (v, r) := by
    rw [← h.points, List.getElem?_map] at hi
    obtain ⟨⟨v, r'⟩, hp, rfl⟩ := Option.map_eq_some_iff.mp hi
    exact ⟨v, hp⟩
  obtain ⟨v, hv⟩ := hpair
  obtain ⟨account, hasks, hcreates⟩ := h.creates _ (List.mem_of_getElem? hv)
  refine ⟨v, account, hasks, hcreates, fun r' added visits hr' hadded hlive => ?_⟩
  obtain ⟨others, hperm, hset⟩ := exists_perm_filterMap live hv
  exact {
    visits := (map_fst_set hv).trans h.visits
    points := by rw [List.map_set, h.points]
    creates := fun p hp => by
      rcases List.mem_or_eq_of_mem_set hp with hold | rfl
      · exact h.creates p hold
      · exact ⟨account, hasks, hr'⟩
    table := by rw [h.table, List.append_assoc]
    asked := List.rel_append h.asked hadded
    own := by
      have hbefore := (hperm.append_left origins).symm.subperm.trans h.own
      refine List.Subperm.trans ?_ hbefore
      refine ((hset (v, r')).append_left _).subperm.trans ?_
      rw [List.append_assoc, List.subperm_append_left, ← List.append_assoc,
        List.subperm_append_right]
      exact hlive }

theorem Founded.start (h : Founded lib houses creating requests stored pairs new origins)
    {v : Visit} {id ledger : Uuid} {number : String} {body : HouseAccount}
    (hroute : v.request.route = .ok .houseAccountCreate)
    (hread : houseAccountExtractor id number (lib.parseJson v.request.body) = .ok body) :
    Founded lib houses (creating ++ [v]) (requests ++ [.init ledger body]) stored
      (pairs ++ [(v, .init ledger body)]) new origins where
  visits := by rw [List.map_append, h.visits, List.map_singleton]
  points := by rw [List.map_append, h.points, List.map_singleton]
  creates p hp := by
    rcases List.mem_append.mp hp with hold | hnew
    · exact h.creates p hold
    · rw [List.mem_singleton.mp hnew]
      exact ⟨_, ⟨hroute, id, ledger, number, body, hread, rfl⟩, rfl⟩
  table := h.table
  asked := h.asked
  own := by
    rw [List.filterMap_append, ← List.append_assoc]
    exact (List.subperm_append_right _).mpr h.own

/-- The house accounts of a bank go back to the visits. -/
def Rooted (lib : Libraries) (houses : List HouseAccount) (creating : List Visit) (m : Bank) :
    Prop :=
  ∃ pairs new origins, Founded lib houses creating m.requests m.houses pairs new origins

variable {m m' : Bank}

theorem Rooted.step (h : Rooted lib houses creating m) {a : Bankie.Action} (hstep : m.Step a m')
    (ha : ∀ id ledger number body, a ≠ .startRequest id ledger number body) :
    Rooted lib houses creating m' := by
  obtain ⟨pairs, new, origins, hfounded⟩ := h
  cases hstep with
  | startRequest id ledger number body hfresh => exact absurd rfl (ha _ _ _ _)
  | initHouse i o ledger account hi =>
    obtain ⟨v, account', hasks, hcreates, hset⟩ := hfounded.set hi
    have hnext := hset (.insert { account with ledgerId := ledger.toString }) [] [] hcreates
      List.Forall₂.nil (List.Subperm.refl _)
    rw [List.append_nil] at hnext
    exact ⟨_, _, _, hnext⟩
  | insertHouse i o account result hi =>
    obtain ⟨v, account', hasks, rfl, hset⟩ := hfounded.set hi
    exact ⟨_, _, _, hset (.stopped result) [account'] [v] trivial
      (List.Forall₂.cons hasks List.Forall₂.nil) (List.Subperm.refl _)⟩
  | endRequest i o r result hi =>
    obtain ⟨v, account', hasks, hcreates, hset⟩ := hfounded.set hi
    have hnext := hset (.stopped result) [] [] trivial List.Forall₂.nil List.nil_subperm
    rw [List.append_nil] at hnext
    exact ⟨_, _, _, hnext⟩
  | _ => exact ⟨pairs, new, origins, hfounded⟩

/-- The bank behind the service, with its house accounts rooted in the visits. -/
def Backed (lib : Libraries) (houses : List HouseAccount) (app : Application) : Prop :=
  ∃ m, (Models app.service m ∧ m.WF ∧ m.Numbered) ∧ Rooted lib houses app.creating m

theorem Backed.moves (h : Backed lib houses app) (hm : Moves lib app app') :
    Backed lib houses app' := by
  obtain ⟨m, hmodels, hrooted⟩ := h
  cases hm with
  | send rest v fresh body response service hrest hv hroute hread hstep hsent =>
    obtain ⟨m', hstep', hmodels'⟩ := refinement.step _ _ _ _ hmodels hstep
    exact ⟨m', hmodels', hrooted.step hstep' (by simp)⟩
  | create rest v id ledgerId number body service hrest hv hroute hread hstep hsame =>
    obtain ⟨m', hstep', hmodels'⟩ := refinement.step _ _ _ _ hmodels hstep
    refine ⟨m', hmodels', ?_⟩
    obtain ⟨pairs, new, origins, hfounded⟩ := hrooted
    cases hstep' with
    | startRequest => exact ⟨_, _, _, hfounded.start hroute hread⟩
  | work a service hstep ha =>
    obtain ⟨m', hstep', hmodels'⟩ := refinement.step _ _ _ _ hmodels hstep
    refine ⟨m', hmodels', hrooted.step hstep' ?_⟩
    rintro id ledger number body rfl
    cases ha
  | _ => exact ⟨m, hmodels, hrooted⟩

/-- Every house account that was not there at the start goes back to a visit of its own that
asked for it and was let in for a tenant that is active. -/
theorem houses_asked {tenants : Tenants} {as : List Action}
    (h : (machine lib).Steps (init houses tenants) as app) :
    ∃ new origins, app.service.store.houseAccounts = houses ++ new ∧
      List.Subperm origins app.creating ∧
      List.Forall₂ (fun v account => Known lib app v ∧ AsksHouse lib v account) origins new := by
  obtain ⟨haccounted, -, -⟩ := run_accounted h
  have hbacked : Backed lib houses app := by
    refine h.preserves (P := Backed lib houses)
      (fun _ _ _ hbacked hstep => hbacked.moves (moves hstep)) ?_
    obtain ⟨m, ⟨houses', rfl⟩, hmodels⟩ := refinement.init _ ⟨houses, rfl⟩
    have hhouses : houses = houses' := hmodels.1.store.houses
    exact ⟨_, hmodels, [], [], [], rfl, rfl, fun p hp => absurd hp List.not_mem_nil,
      by rw [List.append_nil, hhouses]; rfl, List.Forall₂.nil, List.nil_subperm⟩
  obtain ⟨m, hmodels, pairs, new, origins, hfounded⟩ := hbacked
  have hown : List.Subperm origins app.creating :=
    (List.sublist_append_left _ _).subperm.trans hfounded.own
  refine ⟨new, origins, hmodels.1.store.houses.trans hfounded.table, hown, ?_⟩
  exact (List.forall₂_and_left _ _).mpr
    ⟨fun v hv => haccounted.creating v (hown.subset hv), hfounded.asked⟩

theorem houses_asked_served : ∃ (app : Application) (new : List HouseAccount)
    (origins : List Visit), app.service.store.houseAccounts.length = 1 ∧
      app.service.store.houseAccounts = new ∧ List.Subperm origins app.creating ∧
      List.Forall₂ (fun v account => Known Scenario.library app v ∧
        AsksHouse Scenario.library v account) origins new := by
  obtain ⟨app, happ, -, -, -, hlength⟩ := Scenario.served_run
  obtain ⟨new, origins, hasked⟩ := houses_asked (steps_of_run happ)
  exact ⟨app, new, origins, hlength, hasked⟩

end Houses

end Application

end Bankie
