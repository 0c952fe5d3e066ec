import Bankie.Refinement

/-!
The queue of commands, worked off one by one.
A panic ends the consumer, so whether all commands of a queue are handled is whether none of
them panics. Only an order on an account without events can: it takes the unwrap of the
aggregate's empty id, and a house account in its currency leads it there.
-/
namespace Bankie

open Program Transition

/-- One command on its way to the consumer: the body that was sent, the identifier that the
extractor draws for it, and what its handling draws and meets. -/
structure Delivery where
  fresh : Uuid
  body : BankAccountCommand
  draws : Draws
  replies : ℕ → Oracle

namespace Delivery

def ids (q : Delivery) : List Uuid := q.fresh :: q.draws.ids

def handle (q : Delivery) (s : Store) : Outcome Unit × Store :=
  (processCommand q.draws (extractCommand q.fresh q.body)).run exec q.replies s

/-- The command is an order on an account without events, its load and its query for a house
account succeed, and there is such a house account. -/
def OnUnopened (q : Delivery) (s : Store) : Prop :=
  ∃ order : Order, q.body = order.command ∧ s.accountEvents order.account.toString = [] ∧
    (q.replies 0).fail = none ∧ (q.replies 1).fail = none ∧
      ∃ h, s.getHouseAccount order.amount.currency = .ok h

end Delivery

/-- The loop of the consumer. It ends early only where a command does not come back. -/
def processCommands : List Delivery → Store → Outcome Unit × Store
  | [], s => (.ok (), s)
  | q :: qs, s =>
    match q.handle s with
    | (.ok _, s') => processCommands qs s'
    | (r, s') => (r, s')

section Unopened

variable {q : Delivery} {s : Store} {order : Order}

theorem Order.command_inj {order order' : Order} (h : order.command = order'.command) :
    order = order' := by
  obtain ⟨account, action, amount⟩ := order
  obtain ⟨account', action', amount'⟩ := order'
  cases action <;> cases action' <;> simp_all [Order.command]

theorem extractCommand_eq_order (fresh : Uuid) (body : BankAccountCommand) (order : Order) :
    extractCommand fresh body = order.command ↔ body = order.command := by
  obtain ⟨account, action, amount⟩ := order
  cases action <;> cases body <;> simp [extractCommand, Order.command]

/-- An order on an account without events goes to the query for the house account, unless
its load fails. -/
theorem Delivery.handle_load (hbody : q.body = order.command)
    (hlog : s.accountEvents order.account.toString = []) :
    q.handle s =
      match (q.replies 0).fail with
      | some _ => (.ok (), s)
      | none => (ConsumerPoint.house q.draws order none 0).prog.run exec
          (fun n => q.replies (n + 1)) s := by
  have hid : order.command.id = order.account := by
    obtain ⟨account, action, amount⟩ := order
    cases action <;> rfl
  have hload : q.handle s =
      (ConsumerPoint.load q.draws order.command).prog.run exec q.replies s := by
    rw [Delivery.handle, (extractCommand_eq_order q.fresh q.body order).mpr hbody]
    rfl
  rw [hload, (calls_load q.draws order.command).run, hid]
  cases hfail : (q.replies 0).fail with
  | some e =>
    rw [exec_of_fail hfail]
    rfl
  | none =>
    rw [exec_of_succeeds hfail, execute, hlog]
    simp only [handle_order]
    rfl

/-- How an order on an account without events ends: the store stays, and it is a panic if the
query for the house account finds one. -/
theorem Delivery.handle_unopened (hbody : q.body = order.command)
    (hlog : s.accountEvents order.account.toString = []) :
    q.handle s = (.ok (), s) ∧ ¬ q.OnUnopened s ∨
      (∃ message, q.handle s = (.panic message, s)) ∧ q.OnUnopened s := by
  have honly : q.OnUnopened s ↔ (q.replies 0).fail = none ∧ (q.replies 1).fail = none ∧
      ∃ h, s.getHouseAccount order.amount.currency = .ok h := by
    constructor
    · rintro ⟨order', hbody', -, hcalls⟩
      obtain rfl := Order.command_inj (hbody.symm.trans hbody')
      exact hcalls
    · exact fun hcalls => ⟨order, hbody, hlog, hcalls⟩
  rw [honly, handle_load hbody hlog]
  cases hload : (q.replies 0).fail with
  | some e => exact Or.inl ⟨rfl, by simp⟩
  | none =>
    simp only [(calls_house_none q.draws order 0).run]
    cases hhouse : (q.replies 1).fail with
    | some e =>
      rw [exec_of_fail hhouse]
      exact Or.inl ⟨rfl, by simp⟩
    | none =>
      rw [exec_of_succeeds hhouse, execute]
      cases hfound : s.getHouseAccount order.amount.currency with
      | ok h => exact Or.inr ⟨⟨_, rfl⟩, by simp⟩
      | err e => exact Or.inl ⟨rfl, by simp⟩
      | panic e =>
        have hpanic : execute (.getHouseAccount order.amount.currency) "" s = (.panic e, s) :=
          Prod.ext hfound rfl
        exact absurd hpanic (Models.execute_getHouseAccount_ne_panic _ _ e s)

end Unopened

section Opened

namespace ConsumerPoint

/-- The consumer is past the load of its command, on an account that is opened. -/
def Clear : ConsumerPoint → Prop
  | .dead _ => False
  | .load .. => False
  | .house _ _ none _ => False
  | _ => True

end ConsumerPoint

namespace Bank

variable {m m' : Bank}

theorem Advances.clear {p p' : ConsumerPoint} (h : m.Advances p p') (hp : p.Clear) :
    p'.Clear := by
  cases h with
  | loadOpen => exact hp.elim
  | loadApprove => exact hp.elim
  | loadOrder => exact hp.elim
  | houseUnopened => exact hp.elim
  | _ => trivial

theorem clear_step {o : Oracle} (hm : m.consumer.Clear) (h : m.Step (.consumer o) m') :
    m'.consumer.Clear := by
  cases h with
  | advance _ p hp => exact hp.clear hm
  | record _ d order ledger sequence house hp =>
    rw [setConsumer_consumer, afterRecord]
    cases order.action <;> trivial
  | _ => trivial

/-- The consumer handles this command, and has loaded the account if it is for an order. -/
def Handles (m : Bank) (c : BankAccountCommand) : Prop :=
  (∃ d, m.consumer = .load d c) ∧
      (∀ order : Order, c = order.command → m.accounts order.account ≠ none) ∨
    m.consumer.Clear

theorem handles_step {c : BankAccountCommand} {o : Oracle} (hm : m.Handles c)
    (h : m.Step (.consumer o) m') : m'.Handles c := by
  rcases hm with ⟨⟨d, hload⟩, hopened⟩ | hclear
  · refine Or.inr ?_
    cases h with
    | advance _ p hp =>
      rw [hload] at hp
      cases hp with
      | loadOrder _ order sequence =>
        cases ha : m.accounts order.account with
        | none => exact absurd ha (hopened order rfl)
        | some a => trivial
      | _ => trivial
    | record _ d' order ledger sequence house hp => cases hload.symm.trans hp
    | _ => trivial
  · exact Or.inr (clear_step hclear h)

end Bank

end Opened

section Queue

def Alone {σ : Type} (_ : σ) (a : Action) : Prop := ∃ o, a = .consumer o

theorem System.steps_of_prog {p : Code Unit} (st : System) (hp : st.consumer = p)
    (os : ℕ → Oracle) : ∃ as, (System.machine.restrict Alone).Steps st as
      { st with
        consumer := .done (p.run exec os st.store).1
        store := (p.run exec os st.store).2 } := by
  induction p generalizing st os with
  | done r =>
    obtain ⟨store, used, submitted, channel, consumer, ticks, requests⟩ := st
    obtain rfl : consumer = .done r := hp
    exact ⟨[], Machine.Steps.nil _⟩
  | call c k ih =>
    have hstep : st.step (.consumer (os 0)) = some { st with
        consumer := Prog.resume k (exec c (os 0) st.store).1
        store := (exec c (os 0) st.store).2 } := by
      rw [System.step, hp, Prog.step]
      rfl
    generalize hr : exec c (os 0) st.store = r at hstep
    obtain ⟨r, s'⟩ := r
    simp only [Prog.run, hr]
    cases r with
    | ok a =>
      obtain ⟨as, hrun⟩ := ih (.ok a) { st with consumer := k (.ok a), store := s' } rfl
        (fun n => os (n + 1))
      exact ⟨_, Machine.Steps.cons ⟨⟨os 0, rfl⟩, hstep⟩ hrun⟩
    | err e =>
      obtain ⟨as, hrun⟩ := ih (.error e) { st with consumer := k (.error e), store := s' } rfl
        (fun n => os (n + 1))
      exact ⟨_, Machine.Steps.cons ⟨⟨os 0, rfl⟩, hstep⟩ hrun⟩
    | panic e =>
      exact ⟨_, Machine.Steps.cons ⟨⟨os 0, rfl⟩, hstep⟩ (Machine.Steps.nil _)⟩

/-- The service between two commands: its consumer is idle and its channel is empty. -/
structure Waiting (st : System) (s : Store) : Prop where
  reachable : System.machine.Reachable st
  consumer : st.consumer = .done (.ok ())
  channel : st.channel = []
  store : st.store = s

section Waiting

variable {st : System} {s : Store} {q : Delivery}

theorem Waiting.receive (h : Waiting st s) (hfresh : st.Fresh q.ids) :
    System.machine.Steps st [.submit q.fresh q.body, .receive q.draws]
      { st with
        used := q.draws.ids ++ q.fresh :: st.used
        submitted := st.submitted ++ [extractCommand q.fresh q.body]
        consumer := processCommand q.draws (extractCommand q.fresh q.body) } := by
  obtain ⟨hnodup, hunused⟩ := hfresh
  obtain ⟨hnotin, hnodup⟩ := List.nodup_cons.mp hnodup
  have hsubmit : st.step (.submit q.fresh q.body) = some { st with
      used := q.fresh :: st.used
      submitted := st.submitted ++ [extractCommand q.fresh q.body]
      channel := [extractCommand q.fresh q.body] } := by
    have hnew : st.Fresh [q.fresh] := by
      refine ⟨List.nodup_singleton _, fun u hu => ?_⟩
      rw [List.mem_singleton.mp hu]
      exact hunused _ List.mem_cons_self
    rw [System.step, System.submit, if_pos hnew, h.consumer, h.channel]
    rfl
  refine Machine.Steps.cons hsubmit (Machine.Steps.cons ?_ (Machine.Steps.nil _))
  have hnew : ∀ u ∈ q.draws.ids, u ∉ q.fresh :: st.used := by
    intro u hu hin
    rcases List.mem_cons.mp hin with rfl | hold
    · exact hnotin hu
    · exact hunused u (List.mem_cons_of_mem _ hu) hold
  change System.receive _ _ = _
  rw [System.receive, h.consumer]
  refine (if_pos ⟨hnodup, hnew⟩).trans ?_
  rw [h.channel]

theorem Bank.load_of_receive {m m₁ : Bank} (hchannel : m.channel = [])
    (h : Bank.machine.Steps m [.submit q.fresh q.body, .receive q.draws] m₁) :
    m₁.consumer = .load q.draws (extractCommand q.fresh q.body) ∧ m₁.accounts = m.accounts := by
  cases h with
  | cons first rest =>
    cases rest with
    | cons second rest =>
      cases rest
      cases first with
      | submit =>
        cases second with
        | receive _ command rest' _ hsent =>
          rw [hchannel, List.nil_append] at hsent
          obtain ⟨rfl, -⟩ := List.cons_eq_cons.mp hsent
          exact ⟨rfl, rfl⟩
      | refuse =>
        cases second with
        | receive _ command rest' _ hsent => cases hchannel.symm.trans hsent

theorem Waiting.handle_opened (h : Waiting st s) (hfresh : st.Fresh q.ids)
    (hopened : ∀ order : Order, q.body = order.command →
      s.accountEvents order.account.toString ≠ []) : (q.handle s).1 = .ok () := by
  obtain ⟨m, -, hrel⟩ := refinement.reachable h.reachable
  have hchannel : m.channel = [] := hrel.1.channel.symm.trans h.channel
  obtain ⟨m₁, hreceived, hrel₁⟩ := refinement.steps (h.receive hfresh) hrel
  obtain ⟨hload, haccounts⟩ := Bank.load_of_receive hchannel hreceived
  have hhandles : m₁.Handles (extractCommand q.fresh q.body) := by
    refine Or.inl ⟨⟨_, hload⟩, fun order hcommand hnone => ?_⟩
    refine hopened order ((extractCommand_eq_order _ _ _).mp hcommand) ?_
    rw [← h.store, hrel.1.store.accountEvents_at, Bank.accountLog, ← haccounts, hnone]
    rfl
  obtain ⟨as, hrun⟩ := System.steps_of_prog { st with
    used := q.draws.ids ++ q.fresh :: st.used
    submitted := st.submitted ++ [extractCommand q.fresh q.body]
    consumer := processCommand q.draws (extractCommand q.fresh q.body) } rfl q.replies
  have hsim : Machine.Simulation (System.machine.restrict Alone) (Bank.machine.restrict Alone)
      (fun st m => Models st m ∧ m.WF ∧ m.Numbered) :=
    refinement.restrict fun _ _ _ _ hguard => hguard
  obtain ⟨m₂, hrun₂, hmodels₂, -⟩ := hsim.steps hrun hrel₁
  have hend : m₂.Handles (extractCommand q.fresh q.body) := by
    refine hrun₂.preserves (P := fun m => m.Handles (extractCommand q.fresh q.body))
      (fun _ a _ hm hstep => ?_) hhandles
    obtain ⟨⟨o, rfl⟩, hstep⟩ := hstep
    exact Bank.handles_step hm hstep
  have hdone : m₂.consumer.prog = .done (q.handle s).1 := by
    rw [← hmodels₂.consumer, ← h.store]
    rfl
  rcases Models.idle_or_dead_of_done hdone with ⟨-, hok⟩ | ⟨message, hdead, -⟩
  · exact hok
  · rcases hend with ⟨⟨d, hload₂⟩, -⟩ | hclear
    · cases hdead.symm.trans hload₂
    · rw [hdead] at hclear
      exact hclear.elim

theorem Waiting.next (h : Waiting st s) (hfresh : st.Fresh q.ids)
    (hok : (q.handle s).1 = .ok ()) :
    ∃ st', Waiting st' (q.handle s).2 ∧ st'.used = q.draws.ids ++ q.fresh :: st.used := by
  obtain ⟨as, hrun⟩ := System.steps_of_prog { st with
    used := q.draws.ids ++ q.fresh :: st.used
    submitted := st.submitted ++ [extractCommand q.fresh q.body]
    consumer := processCommand q.draws (extractCommand q.fresh q.body) } rfl q.replies
  refine ⟨_, ⟨(h.reachable.steps (h.receive hfresh)).steps hrun.unrestrict, ?_, h.channel, ?_⟩,
    rfl⟩
  · rw [← hok, ← h.store]
    rfl
  · rw [← h.store]
    rfl

theorem Waiting.handle_ok_iff (h : Waiting st s) (hfresh : st.Fresh q.ids) :
    (q.handle s).1 = .ok () ↔ ¬ q.OnUnopened s := by
  by_cases hunopened : ∃ order : Order, q.body = order.command ∧
      s.accountEvents order.account.toString = []
  · obtain ⟨order, hbody, hlog⟩ := hunopened
    rcases Delivery.handle_unopened hbody hlog with ⟨hok, hno⟩ | ⟨⟨message, hpanic⟩, hyes⟩
    · simp [hok, hno]
    · simp [hpanic, hyes]
  · refine iff_of_true (h.handle_opened hfresh fun order hbody hlog => ?_) ?_
    · exact hunopened ⟨order, hbody, hlog⟩
    · rintro ⟨order, hbody, hlog, -⟩
      exact hunopened ⟨order, hbody, hlog⟩

end Waiting

theorem processCommands_cons_ok {q : Delivery} {s : Store} (h : (q.handle s).1 = .ok ())
    (qs : List Delivery) : processCommands (q :: qs) s = processCommands qs (q.handle s).2 := by
  rw [processCommands]
  generalize q.handle s = r at h
  obtain ⟨r, s'⟩ := r
  cases h
  rfl

theorem processCommands_cons_ne {q : Delivery} {s : Store} (h : (q.handle s).1 ≠ .ok ())
    (qs : List Delivery) : processCommands (q :: qs) s = q.handle s := by
  rw [processCommands]
  generalize q.handle s = r at h
  obtain ⟨r, s'⟩ := r
  cases r with
  | ok a => exact absurd rfl h
  | err e => rfl
  | panic e => rfl

/-- From a service that waits, all commands are handled exactly where none of them is an
order on an account without events that finds a house account. -/
theorem Waiting.all_handled_iff {qs : List Delivery} {st : System} {s : Store}
    (h : Waiting st s) (hfresh : st.Fresh (qs.flatMap Delivery.ids)) :
    (processCommands qs s).1 = .ok () ↔ ∀ before q after, qs = before ++ q :: after →
      ¬ q.OnUnopened (processCommands before s).2 := by
  induction qs generalizing st s with
  | nil => simp [processCommands]
  | cons q qs ih =>
    obtain ⟨hnodup, hunused⟩ := hfresh
    rw [List.flatMap_cons] at hnodup hunused
    obtain ⟨hq, hqs, hapart⟩ := List.nodup_append'.mp hnodup
    have hfreshq : st.Fresh q.ids := ⟨hq, fun u hu => hunused u (List.mem_append_left _ hu)⟩
    have hiff := h.handle_ok_iff hfreshq
    by_cases hok : (q.handle s).1 = .ok ()
    · obtain ⟨st', hwaiting, hused⟩ := h.next hfreshq hok
      rw [processCommands_cons_ok hok, ih hwaiting ?_]
      · constructor
        · rintro hrest (_ | ⟨q', before⟩) q'' after heq
          · obtain ⟨rfl, -⟩ := List.cons_eq_cons.mp heq
            exact hiff.mp hok
          · obtain ⟨rfl, rfl⟩ := List.cons_eq_cons.mp heq
            rw [processCommands_cons_ok hok]
            exact hrest before q'' after rfl
        · rintro hall before q' after rfl
          have hno := hall (q :: before) q' after rfl
          rwa [processCommands_cons_ok hok] at hno
      · refine ⟨hqs, fun u hu hin => ?_⟩
        rw [hused, List.mem_append, List.mem_cons] at hin
        rcases hin with hdrawn | rfl | hold
        · exact hapart (List.mem_cons_of_mem _ hdrawn) hu
        · exact hapart List.mem_cons_self hu
        · exact hunused u (List.mem_append_right _ hu) hold
    · refine iff_of_false ?_ fun hall => hok (hiff.mpr (hall [] q qs rfl))
      rw [processCommands_cons_ne hok]
      exact hok

/-- From any state in which the consumer waits, with empty event stores and any house accounts
or later, every command of the queue is handled, and the next one after it, exactly where none of
them is an order on an account that has no events, in the state before it, with an active house
account in its currency, whose first two calls succeed. -/
theorem processCommands_ok_iff {st : System} (h : System.machine.Reachable st)
    (hconsumer : st.consumer = .done (.ok ())) (hchannel : st.channel = [])
    (qs : List Delivery) (hfresh : st.Fresh (qs.flatMap Delivery.ids)) :
    (processCommands qs st.store).1 = .ok () ↔
      ∀ before q after, qs = before ++ q :: after →
        ¬ q.OnUnopened (processCommands before st.store).2 := by
  have hwaiting : Waiting st st.store := ⟨h, hconsumer, hchannel, rfl⟩
  exact hwaiting.all_handled_iff hfresh

def Scenario.delivery (fresh n : ℕ) (body : BankAccountCommand) : Delivery :=
  ⟨uid fresh, body, draws n, fun _ => up⟩

/-- A deposit and a withdrawal on the funded account, and an account for another customer. -/
def Scenario.orders : List Delivery :=
  [delivery 14 50 (.deposit (uid 10) (usd 50)), delivery 15 60 (.withdrawal (uid 10) (usd 30)),
    delivery 16 70 (.openAccount (uid 0) none .retail .checking "bob" .usd)]

theorem processCommands_ok_iff_funded : ∃ st : System,
    ((processCommands Scenario.orders st.store).2.outbox.map Outbox.eventType,
      ((processCommands Scenario.orders st.store).2.ledgerEvents
        (Scenario.uid 11).toString).length) =
      (["LedgerCommand::Credit", "LedgerCommand::Credit", "LedgerCommand::Debit"], 4) ∧
    (processCommands Scenario.orders st.store).1 = .ok () ∧
      ∀ before q after, Scenario.orders = before ++ q :: after →
        ¬ q.OnUnopened (processCommands before st.store).2 := by
  have hrun : (((System.init []).run Scenario.funded).map fun st => decide
      (st.Fresh (Scenario.orders.flatMap Delivery.ids) ∧ st.channel = [] ∧
        st.consumer.result = some (.ok ()) ∧
        (processCommands Scenario.orders st.store).1 = .ok () ∧
        ((processCommands Scenario.orders st.store).2.outbox.map Outbox.eventType,
          ((processCommands Scenario.orders st.store).2.ledgerEvents
            (Scenario.uid 11).toString).length) =
          (["LedgerCommand::Credit", "LedgerCommand::Credit", "LedgerCommand::Debit"], 4))) =
      some true := by decide +kernel
  obtain ⟨st, hst, hfacts⟩ := Option.map_eq_some_iff.mp hrun
  obtain ⟨hfresh, hchannel, hconsumer, hok, hwritten⟩ := of_decide_eq_true hfacts
  exact ⟨st, hwritten, hok, (processCommands_ok_iff (System.reachable_of_run hst)
    (Prog.result_eq_some hconsumer) hchannel Scenario.orders hfresh).mp hok⟩

def Scenario.house : HouseAccount :=
  ⟨uid 0, "active", "0123456789", "Master", "House", "", .usd⟩

/-- A deposit on an account that was never opened stops the consumer, and the command after
it is not handled. -/
theorem not_processCommands_ok : ∃ houses qs,
    (System.init houses).Fresh (qs.flatMap Delivery.ids) ∧
      (processCommands qs (Store.init houses)).1 ≠ .ok () := by
  refine ⟨[Scenario.house], [Scenario.delivery 10 20 (.deposit (Scenario.uid 5) (Scenario.usd 100)),
    Scenario.delivery 11 30 (.openAccount (Scenario.uid 0) none .retail .checking "alice" .usd)],
    by decide +kernel, ?_⟩
  decide +kernel

end Queue

end Bankie
