import Bankie.AccountLedger
import Bankie.Listing

/-!
Other customers' traffic leaves an account alone.
An account for which nothing is under way stays as it is through every run in which no command
is sent for it: its events and its view, the ledgers attached to it, its transactions and
their outbox rows. Who else is served meanwhile, which calls fail and how the ticks of the
job overlap makes no difference to it.
-/
namespace Bankie

open Program Transition

/-- A client sends a command for this account. -/
def Action.Addresses (account : Uuid) : Action → Prop
  | .submit fresh body => (extractCommand fresh body).id = account
  | _ => False

instance (account : Uuid) : (a : Action) → Decidable (a.Addresses account)
  | .submit fresh body => inferInstanceAs (Decidable ((extractCommand fresh body).id = account))
  | .receive _ | .consumer _ | .startTick _ | .tick _ _ | .startRequest _ _ _ _ | .request _ _
  | .expireKey _ => .isFalse id

/-- The account is opened and all its transactions are settled, nobody is served and no tick
is running, and no command for the account is waiting. -/
structure System.AtRest (st : System) (account : Uuid) : Prop where
  opened : st.store.accountEvents account.toString ≠ []
  settled : ∀ t ∈ st.store.transactionsOf account, t.status = "completed"
  consumer : st.consumer.Stopped
  channel : ∀ command ∈ st.channel, command.id ≠ account
  ticks : ∀ p ∈ st.ticks, p.Stopped

theorem System.atRest_iff (st : System) (account : Uuid) : st.AtRest account ↔
    st.store.accountEvents account.toString ≠ [] ∧
      (∀ t ∈ st.store.transactionsOf account, t.status = "completed") ∧ st.consumer.Stopped ∧
      (∀ command ∈ st.channel, command.id ≠ account) ∧ ∀ p ∈ st.ticks, p.Stopped :=
  ⟨fun h => ⟨h.opened, h.settled, h.consumer, h.channel, h.ticks⟩,
    fun ⟨hopened, hsettled, hconsumer, hchannel, hticks⟩ =>
      ⟨hopened, hsettled, hconsumer, hchannel, hticks⟩⟩

instance (st : System) (account : Uuid) : Decidable (st.AtRest account) :=
  decidable_of_iff' _ (st.atRest_iff account)

/-- The outbox rows of the transactions of an account. -/
def Store.outboxOf (s : Store) (account : Uuid) : List Outbox :=
  s.outbox.filter fun row => row.transactionId ∈ (s.transactionsOf account).map Transaction.id

/-- All that the stores hold of an account is the same in both. -/
structure Store.SameFor (account : Uuid) (s s' : Store) : Prop where
  events : s'.accountEvents account.toString = s.accountEvents account.toString
  view : s'.accountViews.lookup account.toString = s.accountViews.lookup account.toString
  ledgerEvents : ∀ ledgerId ∈ s.attached account.toString,
    s'.ledgerEvents ledgerId = s.ledgerEvents ledgerId
  ledgerView : ∀ ledgerId ∈ s.attached account.toString,
    s'.ledgerViews.lookup ledgerId = s.ledgerViews.lookup ledgerId
  transactions : s'.transactionsOf account = s.transactionsOf account
  outbox : s'.outboxOf account = s.outboxOf account

/-- The account that the consumer is busy with. -/
def ConsumerPoint.subject : ConsumerPoint → Option Uuid
  | .idle => none
  | .dead _ => none
  | .load _ command => some command.id
  | .openQuery _ opening => some opening.id
  | .openExists _ opening => some opening.id
  | .openCommit _ opening => some opening.id
  | .approveQuery _ account _ _ => some account
  | .approveInit _ account _ _ _ => some account
  | .approveCommit _ account _ _ => some account
  | .house _ order _ _ => some order.account
  | .checkAccount _ order _ _ _ => some order.account
  | .checkLedger _ order _ _ _ => some order.account
  | .record _ order _ _ _ => some order.account
  | .hold _ order _ _ => some order.account

namespace Bank

variable {m₀ m m' : Bank} {u : Uuid}

/-- The movements of an account. -/
def movementsOf (m : Bank) (u : Uuid) : List Movement :=
  m.movements.filter fun mv => mv.account = u

/-- The account is as it was in `m₀`, and nobody is about to touch it. -/
structure Aside (m₀ : Bank) (u : Uuid) (m : Bank) : Prop where
  account : m.accounts u = m₀.accounts u
  books : ∀ ledger b, m₀.books ledger = some b → b.owner = u → m.books ledger = some b
  movements : m.movementsOf u = m₀.movementsOf u
  completed : ∀ mv ∈ m.movements, mv.account = u → mv.tx ∈ m.completed
  consumer : u ∉ m.consumer.subject
  channel : ∀ command ∈ m.channel, command.id ≠ u
  ticks : ∀ t ∈ m.ticks, ∀ mv ∈ t.rows, mv.account ≠ u

theorem Advances.subject {p q : ConsumerPoint} (h : m.Advances p q) :
    ∀ v ∈ q.subject, v ∈ p.subject := by
  intro v hv
  cases h with
  | loadOrder d order sequence =>
    obtain ⟨account, action, amount⟩ := order
    cases action <;> exact hv
  | houseUnopened => cases hv
  | _ => exact hv

theorem afterRecord_subject (d : Draws) (order : Order) (ledger : Uuid) (sequence : ℕ) :
    ∀ v ∈ (afterRecord d order ledger sequence).subject, v = order.account := by
  intro v hv
  unfold afterRecord at hv
  split at hv
  · cases hv
  · exact (Option.some.inj hv).symm

theorem Aside.of_same (hm : Aside m₀ u m) (haccounts : m'.accounts = m.accounts)
    (hbooks : m'.books = m.books) (hmovements : m'.movements = m.movements)
    (hcompleted : ∀ tx ∈ m.completed, tx ∈ m'.completed) (hconsumer : u ∉ m'.consumer.subject)
    (hchannel : ∀ command ∈ m'.channel, command.id ≠ u)
    (hticks : ∀ t ∈ m'.ticks, ∀ mv ∈ t.rows, mv.account ≠ u) : Aside m₀ u m' where
  account := by rw [haccounts, hm.account]
  books ledger b hb howner := by
    rw [hbooks]
    exact hm.books ledger b hb howner
  movements := by rw [movementsOf, hmovements, ← hm.movements, movementsOf]
  completed mv hmv hu := hcompleted _ (hm.completed mv (hmovements ▸ hmv) hu)
  consumer := hconsumer
  channel := hchannel
  ticks := hticks

theorem Aside.setConsumer (hm : Aside m₀ u m) {p : ConsumerPoint} (hp : u ∉ p.subject) :
    Aside m₀ u (m.setConsumer p) :=
  hm.of_same rfl rfl rfl (fun _ h => h) hp hm.channel hm.ticks

theorem Aside.setTick (hm : Aside m₀ u m) (i : ℕ) {t : TickPoint}
    (ht : ∀ mv ∈ t.rows, mv.account ≠ u) : Aside m₀ u (m.setTick i t) := by
  refine hm.of_same rfl rfl rfl (fun _ h => h) hm.consumer hm.channel ?_
  intro t' ht'
  rcases List.mem_or_eq_of_mem_set ht' with hold | rfl
  · exact hm.ticks t' hold
  · exact ht

theorem Aside.setRequest (hm : Aside m₀ u m) (i : ℕ) (r : RequestPoint) :
    Aside m₀ u (m.setRequest i r) :=
  hm.of_same rfl rfl rfl (fun _ h => h) hm.consumer hm.channel hm.ticks

theorem Aside.setBook (hm : Aside m₀ u m) {ledger : Uuid}
    (hother : ∀ b, m.books ledger = some b → b.owner ≠ u) (b' : Book) :
    Aside m₀ u (m.setBook ledger b') := by
  refine ⟨hm.account, ?_, hm.movements, hm.completed, hm.consumer, hm.channel, hm.ticks⟩
  intro ledger' b hb howner
  have hbook := hm.books ledger' b hb howner
  have hne : ledger' ≠ ledger := by
    rintro rfl
    exact hother b hbook howner
  simpa [Function.update_of_ne hne] using hbook

theorem Aside.setAccount (hm : Aside m₀ u m) {id : Uuid} (hid : id ≠ u) (a : Account) :
    Aside m₀ u (m.setAccount id a) := by
  refine ⟨?_, hm.books, hm.movements, hm.completed, hm.consumer, hm.channel, hm.ticks⟩
  rw [setAccount_accounts, Function.update_of_ne hid.symm, hm.account]

theorem Aside.addMovement (hm : Aside m₀ u m) {mv : Movement} (hmv : mv.account ≠ u) :
    Aside m₀ u (m.addMovement mv) := by
  refine ⟨hm.account, hm.books, ?_, ?_, hm.consumer, hm.channel, hm.ticks⟩
  · rw [movementsOf, addMovement_movements, List.filter_append,
      List.filter_cons_of_neg (by simpa using hmv), List.filter_nil, List.append_nil]
    exact hm.movements
  · intro mv' hmv' hu
    rcases List.mem_append.mp hmv' with hold | hnew
    · exact hm.completed mv' hold hu
    · rw [List.mem_singleton.mp hnew] at hu
      exact absurd hu hmv

theorem Serves.owner_ne {ledger account : Uuid} {c : Currency} (h : m.Serves ledger account c)
    (haccount : account ≠ u) : ∀ b, m.books ledger = some b → b.owner ≠ u := by
  obtain ⟨b, hb, -, howner, -⟩ := h
  intro b' hb'
  obtain rfl := Option.some.inj (hb.symm.trans hb')
  rwa [howner]

theorem Aside.step (hm : Aside m₀ u m) (hwf : m.WF) {a : Action} (hother : ¬ a.Addresses u)
    (h : m.Step a m') : Aside m₀ u m' := by
  have hnobook : ∀ ledger ∈ m.claimed, ∀ b, m.books ledger = some b → b.owner ≠ u := by
    intro ledger hledger b hb
    cases hb.symm.trans (hwf.claimed_new ledger hledger).2.2
  cases h with
  | submit fresh body hfresh =>
    refine hm.of_same rfl rfl rfl (fun _ h => h) hm.consumer
      ?_ hm.ticks
    intro command hcommand
    rcases List.mem_append.mp hcommand with hold | hnew
    · exact hm.channel command hold
    · rw [List.mem_singleton.mp hnew]
      exact hother
  | refuse fresh body hfresh =>
    exact hm.of_same rfl rfl rfl (fun _ h => h) hm.consumer
      hm.channel hm.ticks
  | receive d command rest hidle hchannel hfresh =>
    refine hm.of_same rfl rfl rfl (fun _ h => h) ?_ ?_
      hm.ticks
    · intro hu
      exact hm.channel command (by simp [hchannel]) (Option.some.inj hu)
    · intro command' hcommand
      exact hm.channel command' (by simp [hchannel, hcommand])
  | advance o p hp => exact hm.setConsumer fun hu => hm.consumer (hp.subject u hu)
  | giveUp => exact hm.setConsumer fun hu => by cases hu
  | openAccount o d opening hp =>
    have hid : opening.id ≠ u := fun hu => hm.consumer (by simp [hp, ConsumerPoint.subject, hu])
    exact (hm.setAccount hid _).setConsumer fun hu => by cases hu
  | initLedger o d account ledger c sequence hp =>
    have haccount : account ≠ u := fun hu => hm.consumer (by simp [hp, ConsumerPoint.subject, hu])
    refine (hm.setBook (hnobook ledger ?_) _).setConsumer fun hu => haccount (Option.some.inj hu)
    simp [claimed, hp, ConsumerPoint.claims]
  | approve o d account ledger sequence a hok hp ha =>
    have haccount : account ≠ u := fun hu => hm.consumer (by simp [hp, ConsumerPoint.subject, hu])
    exact (hm.setAccount haccount _).setConsumer fun hu => by cases hu
  | record o d order ledger sequence house hp =>
    have haccount : order.account ≠ u :=
      fun hu => hm.consumer (by simp [hp, ConsumerPoint.subject, hu])
    exact (hm.addMovement haccount).setConsumer
      fun hu => haccount (afterRecord_subject d order ledger sequence u hu).symm
  | hold o d order ledger sequence b hp hb =>
    have haccount : order.account ≠ u :=
      fun hu => hm.consumer (by simp [hp, ConsumerPoint.subject, hu])
    have hserves : m.Serves ledger order.account order.amount.currency := by
      have hknows := hwf.consumer
      rw [hp] at hknows
      exact hknows.2
    exact (hm.setBook (hserves.owner_ne haccount) _).setConsumer fun hu => by cases hu
  | startTick lockValue hfresh =>
    refine hm.of_same rfl rfl rfl (fun _ h => h) hm.consumer
      hm.channel ?_
    intro t ht mv hmv
    rcases List.mem_append.mp ht with hold | hnew
    · exact hm.ticks t hold mv hmv
    · rw [List.mem_singleton.mp hnew] at hmv
      cases hmv
  | tick i o t t' hi ht =>
    refine hm.setTick i fun mv hmv => ?_
    rcases ht.rows mv hmv with hold | hnew
    · exact hm.ticks t (List.mem_of_getElem? hi) mv hold
    · intro hu
      have hopen := (List.mem_filter.mp (List.mem_of_mem_take hnew)).2
      exact of_decide_eq_true hopen (hm.completed mv (mem_of_mem_unprocessed hnew) hu)
  | execute i o lockValue mv rest b hok hi hb =>
    have hrows := hm.ticks _ (List.mem_of_getElem? hi)
    have hserves := hwf.movements mv
      (hwf.rows _ (List.mem_of_getElem? hi) mv List.mem_cons_self)
    exact (hm.setBook (hserves.owner_ne (hrows mv List.mem_cons_self)) _).setTick i hrows
  | executeFails i o lockValue mv rest hi hfail =>
    refine hm.setTick i fun mv' hmv' => ?_
    rw [TickPoint.rows_loop] at hmv'
    exact hm.ticks _ (List.mem_of_getElem? hi) mv' (List.mem_cons_of_mem _ hmv')
  | complete i o lockValue mv rest hi =>
    have hmarked : Aside m₀ u { m with completed := mv.tx :: m.completed } :=
      hm.of_same rfl rfl rfl (fun _ h => List.mem_cons_of_mem _ h) hm.consumer
        hm.channel hm.ticks
    refine hmarked.setTick i fun mv' hmv' => ?_
    rw [TickPoint.rows_loop] at hmv'
    exact hm.ticks _ (List.mem_of_getElem? hi) mv' (List.mem_cons_of_mem _ hmv')
  | completeFails i o lockValue mv rest hi hfail =>
    refine hm.setTick i fun mv' hmv' => ?_
    rw [TickPoint.rows_loop] at hmv'
    exact hm.ticks _ (List.mem_of_getElem? hi) mv' (List.mem_cons_of_mem _ hmv')
  | startRequest id ledger accountNumber body hfresh =>
    exact hm.of_same rfl rfl rfl (fun _ h => h) hm.consumer
      hm.channel hm.ticks
  | initHouse i o ledger account hi =>
    refine (hm.setBook (hnobook ledger ?_) _).setRequest i _
    exact List.mem_append_right _ (List.mem_flatMap.mpr
      ⟨_, List.mem_of_getElem? hi, List.mem_singleton_self ledger⟩)
  | insertHouse i o account result hi =>
    have hhouses : Aside m₀ u { m with houses := m.houses ++ [account] } :=
      hm.of_same rfl rfl rfl (fun _ h => h) hm.consumer hm.channel hm.ticks
    exact hhouses.setRequest i _
  | endRequest i o r result hi => exact hm.setRequest i _
  | expireKey => exact hm

end Bank

namespace Represents

variable {s s' : Store} {m m₀ : Bank} {u : Uuid}

/-- Where all transactions of an account are settled, they are those of its movements. -/
theorem transactionsOf_settled (h : Represents s m)
    (hsettled : ∀ mv ∈ m.movements, mv.account = u → mv.tx ∈ m.completed) :
    s.transactionsOf u = (m.movementsOf u).map (Movement.transaction true) := by
  rw [Store.transactionsOf, h.transactions, List.filter_map, Bank.movementsOf]
  refine List.map_congr_left fun mv hmv => ?_
  obtain ⟨hmem, hu⟩ := List.mem_filter.mp hmv
  rw [decide_eq_true (hsettled mv hmem (of_decide_eq_true hu))]

theorem outboxOf_settled (h : Represents s m) (hnum : m.Numbered)
    (hsettled : ∀ mv ∈ m.movements, mv.account = u → mv.tx ∈ m.completed) :
    s.outboxOf u = (m.movementsOf u).map (Movement.row true) := by
  have hids : (s.transactionsOf u).map Transaction.id = (m.movementsOf u).map Movement.tx := by
    rw [h.transactionsOf_settled hsettled, List.map_map]
    rfl
  rw [Store.outboxOf, hids, h.outbox, List.filter_map]
  have hown : m.movements.filter
      ((fun row : Outbox => row.transactionId ∈ (m.movementsOf u).map Movement.tx) ∘
        fun mv => mv.row (decide (mv.tx ∈ m.completed))) = m.movementsOf u := by
    refine List.filter_congr fun mv hmv => decide_eq_decide.mpr ⟨fun hin => ?_, fun hu => ?_⟩
    · obtain ⟨mv', hmv', htx⟩ := List.mem_map.mp hin
      obtain ⟨hmem, hu⟩ := List.mem_filter.mp hmv'
      rw [← hnum.movement_eq hmem hmv htx]
      exact of_decide_eq_true hu
    · exact List.mem_map_of_mem (List.mem_filter.mpr ⟨hmv, decide_eq_true hu⟩)
  rw [hown]
  refine List.map_congr_left fun mv hmv => ?_
  obtain ⟨hmem, hu⟩ := List.mem_filter.mp hmv
  rw [decide_eq_true (hsettled mv hmem (of_decide_eq_true hu))]

theorem sameFor (h₀ : Represents s m₀) (hwf₀ : m₀.WF) (hnum₀ : m₀.Numbered)
    (h : Represents s' m) (hnum : m.Numbered) (hopened : s.accountEvents u.toString ≠ [])
    (hsettled : ∀ mv ∈ m₀.movements, mv.account = u → mv.tx ∈ m₀.completed)
    (hm : Bank.Aside m₀ u m) : s.SameFor u s' := by
  obtain ⟨id, a, hid, ha, -⟩ := h₀.exists_account hopened
  obtain rfl := Uuid.toString_inj.mp hid
  have hbook : ∀ ledgerId ∈ s.attached u.toString, ∃ ledger b, ledgerId = ledger.toString ∧
      m₀.books ledger = some b ∧ m.books ledger = some b := by
    intro ledgerId hledger
    rw [h₀.attached ha] at hledger
    obtain ⟨p, hp, rfl⟩ := List.mem_map.mp hledger
    obtain ⟨b, hb, -, howner, -⟩ := hwf₀.approvals u a ha p hp
    exact ⟨p.1, b, rfl, hb, hm.books p.1 b hb howner⟩
  refine ⟨?_, ?_, ?_, ?_, ?_, ?_⟩
  · rw [h.accountEvents_at, h₀.accountEvents_at, Bank.accountLog, Bank.accountLog, hm.account]
  · rw [h.accountViews_at, h₀.accountViews_at, Bank.accountView, Bank.accountView, hm.account]
  · intro ledgerId hledger
    obtain ⟨ledger, b, rfl, hb, hb'⟩ := hbook ledgerId hledger
    rw [h.ledgerEvents_at, h₀.ledgerEvents_at, Bank.ledgerLog, Bank.ledgerLog, hb, hb']
  · intro ledgerId hledger
    obtain ⟨ledger, b, rfl, hb, hb'⟩ := hbook ledgerId hledger
    rw [h.ledgerViews_at, h₀.ledgerViews_at, Bank.ledgerView, Bank.ledgerView, hb, hb']
  · rw [h.transactionsOf_settled hm.completed, h₀.transactionsOf_settled hsettled, hm.movements]
  · rw [h.outboxOf_settled hnum hm.completed, h₀.outboxOf_settled hnum₀ hsettled, hm.movements]

end Represents

/-- Nothing is under way for an account at rest. -/
theorem System.AtRest.aside {st : System} {m : Bank} {u : Uuid} (h : st.AtRest u)
    (hmodels : Models st m) : Bank.Aside m u m := by
  refine ⟨rfl, fun _ _ hb _ => hb, rfl, ?_, ?_, ?_, ?_⟩
  · intro mv hmv hu
    by_contra hopen
    have hin : mv.transaction false ∈ st.store.transactionsOf u := by
      refine List.mem_filter.mpr ⟨?_, decide_eq_true hu⟩
      rw [hmodels.store.transactions, List.mem_map]
      exact ⟨mv, hmv, by rw [decide_eq_false hopen]⟩
    have hstatus := h.settled _ hin
    revert hstatus
    exact of_decide_eq_false rfl
  · intro hu
    have hstopped := h.consumer
    rw [hmodels.consumer] at hstopped
    cases hprog : m.consumer.prog with
    | call c k =>
      rw [hprog] at hstopped
      exact hstopped
    | done r =>
      rcases Models.idle_or_dead_of_done hprog with ⟨hidle, -⟩ | ⟨message, hdead, -⟩
      · rw [hidle] at hu
        cases hu
      · rw [hdead] at hu
        cases hu
  · rw [← hmodels.channel]
    exact h.channel
  · intro t ht mv hmv
    have hended : t.Ended := by
      refine TickPoint.ended_of_stopped (h.ticks _ ?_)
      rw [hmodels.ticks]
      exact List.mem_map_of_mem ht
    cases t with
    | stopped result => cases hmv
    | _ => exact hended.elim

/-- Through any run in which no command is sent for it, an account at rest stays as it is. -/
theorem account_isolated {st st' : System} {account : Uuid} {as : List Action}
    (h : System.machine.Reachable st) (hrest : st.AtRest account)
    (hrun : (System.machine.restrict fun _ a => ¬ a.Addresses account).Steps st as st') :
    st.store.SameFor account st'.store := by
  obtain ⟨m, -, hmodels, hwf, hnum⟩ := refinement.reachable h
  have hsim : Machine.Simulation (System.machine.restrict fun _ a => ¬ a.Addresses account)
      (Bank.machine.restrict fun _ a => ¬ a.Addresses account)
      (fun st m => Models st m ∧ m.WF ∧ m.Numbered) :=
    refinement.restrict fun _ _ _ _ hother => hother
  obtain ⟨m', hsteps, hmodels', -, hnum'⟩ := hsim.steps hrun ⟨hmodels, hwf, hnum⟩
  have haside : m'.WF ∧ Bank.Aside m account m' := by
    refine hsteps.preserves (P := fun m' => m'.WF ∧ Bank.Aside m account m') ?_
      ⟨hwf, hrest.aside hmodels⟩
    rintro m₁ a m₂ ⟨hwf₁, hm₁⟩ ⟨hother, hstep⟩
    exact ⟨hwf₁.step hstep, hm₁.step hwf₁ hother hstep⟩
  exact hmodels.store.sameFor hwf hnum hmodels'.store hnum' hrest.opened
    (hrest.aside hmodels).completed haside.2

/-- A second customer opens an account, and a deposit on it is settled. -/
def Scenario.secondCustomer : List Action :=
  handle 14 50 4 (.openAccount (uid 0) none .retail .checking "bob" .usd) ++
  handle 15 60 4 (.approveAccount (uid 14) (uid 0)) ++
  handle 16 70 5 (.deposit (uid 14) (usd 30)) ++ tick 1 17 1

theorem account_isolated_secondCustomer : ∃ st st' : System, st.AtRest (Scenario.uid 10) ∧
    st'.store.transactions.length = 2 ∧ st.store.SameFor (Scenario.uid 10) st'.store := by
  have hrun : (((System.init []).run Scenario.funded).bind fun st =>
      (st.runWhile (fun _ a => decide ¬ a.Addresses (Scenario.uid 10)) Scenario.secondCustomer).map
        fun st' => (decide (st.AtRest (Scenario.uid 10)), st'.store.transactions.length)) =
      some (true, 2) := by decide +kernel
  obtain ⟨st, hst, hrest⟩ := Option.bind_eq_some_iff.mp hrun
  obtain ⟨st', hst', hend⟩ := Option.map_eq_some_iff.mp hrest
  obtain ⟨hatRest, hlength⟩ := Prod.ext_iff.mp hend
  have hatRest := of_decide_eq_true hatRest
  exact ⟨st, st', hatRest, hlength, account_isolated (System.reachable_of_run hst) hatRest
    (System.steps_of_runWhile (fun _ _ h => of_decide_eq_true h) hst')⟩

end Bankie
