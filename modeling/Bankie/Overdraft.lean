import Bankie.LedgerLogs
import Mathlib.Tactic.Linarith

/-!
Nothing but a negative deposit overdraws a ledger.
The check of a withdrawal and the hold that follows it are separate steps, and the job
posts in between. What carries the check over to the hold is that no posting of the job
lowers an available balance: a release leaves it, and a credit adds an amount that was
submitted with a deposit.
-/
namespace Bankie

open Program Transition

/-- The order that a movement was written for. -/
def Movement.order (mv : Movement) : Order := ⟨mv.account, mv.action, mv.amount⟩

namespace Bank

/-- No deposit of a negative amount was submitted for this account. -/
def Solvent (m : Bank) (account : Uuid) : Prop :=
  ∀ amount, .deposit account amount ∈ m.submitted → 0 ≤ amount.amount.toRat

/-- The ledger has these funds, unless a negative deposit was submitted for its owner. -/
def Covers (m : Bank) (ledger : Uuid) (amount : ℚ) : Prop :=
  ∃ b, m.books ledger = some b ∧ (m.Solvent b.owner → amount ≤ b.available)

/-- What the consumer has in its hands was submitted. -/
def Carries (m : Bank) : ConsumerPoint → Prop
  | .load _ command => command ∈ m.submitted
  | .house _ order _ _ => order.command ∈ m.submitted
  | .checkAccount _ order _ _ _ => order.command ∈ m.submitted
  | .checkLedger _ order _ _ _ => order.command ∈ m.submitted
  | .record _ order _ _ _ => order.command ∈ m.submitted
  | _ => True

/-- Every order that is written, waits or is carried was submitted. -/
structure Asked (m : Bank) : Prop where
  orders : ∀ mv ∈ m.movements, mv.order.command ∈ m.submitted
  channel : ∀ command ∈ m.channel, command ∈ m.submitted
  consumer : m.Carries m.consumer

/-- What the consumer has checked where it stands. -/
def Checked (m : Bank) : ConsumerPoint → Prop
  | .record _ order ledger _ _ =>
    order.action = .withdraw → m.Covers ledger order.amount.amount.toRat
  | .hold _ order ledger _ => m.Covers ledger order.amount.amount.toRat
  | _ => True

structure Covered (m : Bank) : Prop where
  books : ∀ ledger b, m.books ledger = some b → m.Solvent b.owner → 0 ≤ b.available
  consumer : m.Checked m.consumer

theorem asked_init (houses : List HouseAccount) : (init houses).Asked where
  orders _ hmv := absurd hmv List.not_mem_nil
  channel _ hc := absurd hc List.not_mem_nil
  consumer := trivial

theorem covered_init (houses : List HouseAccount) : (init houses).Covered where
  books _ _ hb := by cases hb
  consumer := trivial

variable {m m' : Bank}

theorem Carries.step {p : ConsumerPoint} (hp : m.Carries p) {a : Action} (h : m.Step a m') :
    m'.Carries p := by
  cases p with
  | load d command => exact h.submitted _ hp
  | house d order loaded sequence => exact h.submitted _ hp
  | checkAccount d order loaded sequence house => exact h.submitted _ hp
  | checkLedger d order ledger sequence house => exact h.submitted _ hp
  | record d order ledger sequence house => exact h.submitted _ hp
  | _ => trivial

theorem Advances.carries {p q : ConsumerPoint} (h : m.Advances p q) (hp : m.Carries p) :
    m.Carries q := by
  cases h with
  | loadOrder => exact hp
  | house => exact hp
  | checkAccount => exact hp
  | checkLedger => exact hp
  | _ => trivial

theorem Asked.step (hm : m.Asked) {a : Action} (h : m.Step a m') : m'.Asked where
  orders mv hmv := by
    refine h.submitted _ ?_
    cases h with
    | record o d order ledger sequence house hp =>
      rcases List.mem_append.mp hmv with hold | hnew
      · exact hm.orders mv hold
      · obtain rfl := List.mem_singleton.mp hnew
        have hcarries := hm.consumer
        rw [hp] at hcarries
        exact hcarries
    | _ => exact hm.orders mv hmv
  channel command hcommand := by
    cases h with
    | submit fresh body hfresh =>
      rcases List.mem_append.mp hcommand with hold | hnew
      · exact List.mem_append_left _ (hm.channel command hold)
      · exact List.mem_append_right _ hnew
    | receive d command' rest hidle hchannel hfresh =>
      exact hm.channel command (hchannel ▸ List.mem_cons_of_mem _ hcommand)
    | _ => exact hm.channel command hcommand
  consumer := by
    have hcarries := hm.consumer.step h
    cases h with
    | receive d command rest hidle hchannel hfresh =>
      exact hm.channel command (hchannel ▸ List.mem_cons_self)
    | advance o p hp => exact (hp.carries hm.consumer : m.Carries p)
    | record o d order ledger sequence house hp =>
      change Carries _ (afterRecord d order ledger sequence)
      rw [afterRecord]
      cases order.action <;> trivial
    | giveUp => trivial
    | openAccount => trivial
    | initLedger => trivial
    | approve => trivial
    | hold => trivial
    | _ => exact hcarries

theorem asked_invariant : machine.Invariant (fun m => (m.WF ∧ m.Numbered) ∧ m.Asked) := by
  refine wf_invariant.strengthen ?_ (fun _ _ _ _ hasked h => hasked.step h)
  rintro m ⟨houses, rfl⟩
  exact asked_init houses

theorem Solvent.of_step {a : Action} (h : m.Step a m') {account : Uuid}
    (hs : m'.Solvent account) : m.Solvent account :=
  fun amount hamount => hs amount (h.submitted _ hamount)

/-- The settlement of a movement never lowers the available balance of a solvent owner. -/
theorem settlement_available (hm : m.Asked) {mv : Movement} (hmv : mv ∈ m.movements)
    (hs : m.Solvent mv.account) (now : String) : 0 ≤ (mv.settlement now).available := by
  cases haction : mv.action with
  | deposit =>
    have horder := hm.orders mv hmv
    rw [Order.command, show mv.order.action = .deposit from haction] at horder
    have hamount : 0 ≤ mv.amount.amount.toRat := hs mv.amount horder
    simpa [Movement.settlement, Posting.available, haction] using hamount
  | withdraw => simp [Movement.settlement, Posting.available, haction]

/-- The funds that were checked stay there while others take their steps. -/
theorem Covers.step (hm : m.Asked) (hwf : m.WF) {ledger : Uuid} {amount : ℚ}
    (hc : m.Covers ledger amount) {a : Action} (h : m.Step a m')
    (hother : ∀ o, a ≠ .consumer o) : m'.Covers ledger amount := by
  obtain ⟨b, hb, hfunds⟩ := hc
  rcases h.book_kept hwf hb with hkept | ⟨p, hpost, hposts⟩
  · exact ⟨b, hkept, fun hs => hfunds (hs.of_step h)⟩
  · refine ⟨_, hpost, fun hs => ?_⟩
    have hs' : m.Solvent b.owner := hs.of_step h
    cases hposts with
    | hold o => exact absurd rfl (hother o)
    | settle i o lockValue mv rest hok hi =>
      have hmv := hwf.rows _ (List.mem_of_getElem? hi) mv List.mem_cons_self
      obtain ⟨b', hb', -, howner, -⟩ := hwf.movements mv hmv
      obtain rfl := Option.some.inj (hb.symm.trans hb')
      have hgain := settlement_available hm hmv (howner ▸ hs') o.now
      have hold := hfunds hs'
      rw [Book.available_post]
      linarith

theorem Checked.step (hm : m.Asked) (hwf : m.WF) {p : ConsumerPoint} (hp : m.Checked p)
    {a : Action} (h : m.Step a m') (hother : ∀ o, a ≠ .consumer o) : m'.Checked p := by
  cases p with
  | record d order ledger sequence house =>
    exact fun haction => (hp haction).step hm hwf h hother
  | hold d order ledger sequence => exact Covers.step hm hwf hp h hother
  | _ => trivial

theorem Advances.checked {p q : ConsumerPoint} (h : m.Advances p q)
    (hfunds : ∀ d order ledger sequence house, p = .checkLedger d order ledger sequence house →
      q = .record d order ledger sequence house → order.action = .withdraw →
        m.Covers ledger order.amount.amount.toRat) : m.Checked q := by
  cases h with
  | checkLedger d order ledger sequence house =>
    exact hfunds d order ledger sequence house rfl rfl
  | _ => trivial

theorem Covered.books_step (hm : m.Covered) (hasked : m.Asked) (hwf : m.WF) {a : Action}
    (h : m.Step a m') {ledger : Uuid} {b' : Book} (hb' : m'.books ledger = some b')
    (hs : m'.Solvent b'.owner) : 0 ≤ b'.available := by
  rcases h.book_cases hb' with hb | hempty | ⟨b, p, hb, rfl, hposts⟩
  · exact hm.books ledger b' hb (hs.of_step h)
  · simp [Book.available, hempty]
  · have hs' : m.Solvent b.owner := hs.of_step h
    have hold := hm.books ledger b hb hs'
    rw [Book.available_post]
    cases hposts with
    | hold o d order ledger sequence hp =>
      have hchecked := hm.consumer
      rw [hp] at hchecked
      obtain ⟨b₁, hb₁, hfunds⟩ := hchecked
      obtain rfl := Option.some.inj (hb.symm.trans hb₁)
      have hcover := hfunds hs'
      simp only [holdOf, Posting.available]
      linarith
    | settle i o lockValue mv rest hok hi =>
      have hmv := hwf.rows _ (List.mem_of_getElem? hi) mv List.mem_cons_self
      obtain ⟨b₁, hb₁, -, howner, -⟩ := hwf.movements mv hmv
      obtain rfl := Option.some.inj (hb.symm.trans hb₁)
      have hgain := settlement_available hasked hmv (howner ▸ hs') o.now
      linarith

/-- A step keeps the funds covered where the check of a withdrawal has seen them. -/
theorem Covered.step (hm : m.Covered) (hasked : m.Asked) (hwf : m.WF) {a : Action}
    (h : m.Step a m')
    (hfunds : ∀ o d order ledger sequence house, a = .consumer o →
      m.consumer = .checkLedger d order ledger sequence house →
      m'.consumer = .record d order ledger sequence house → order.action = .withdraw →
        m.Covers ledger order.amount.amount.toRat) : m'.Covered := by
  refine ⟨fun ledger b' hb' hs => hm.books_step hasked hwf h hb' hs, ?_⟩
  by_cases hconsumer : ∃ o, a = .consumer o
  · obtain ⟨o, rfl⟩ := hconsumer
    cases h with
    | advance o p hp =>
      exact (hp.checked fun d order ledger sequence house hq hq' =>
        hfunds o d order ledger sequence house rfl hq hq' : m.Checked p)
    | giveUp => trivial
    | openAccount => trivial
    | initLedger => trivial
    | approve => trivial
    | record o d order ledger sequence house hp =>
      have hchecked := hm.consumer
      rw [hp] at hchecked
      change Checked _ (afterRecord d order ledger sequence)
      rw [afterRecord]
      cases haction : order.action with
      | deposit => trivial
      | withdraw => exact hchecked haction
    | hold => trivial
  · have hother : ∀ o, a ≠ .consumer o := fun o ho => hconsumer ⟨o, ho⟩
    have hchecked := hm.consumer.step hasked hwf h hother
    cases h with
    | receive => trivial
    | advance o => exact absurd rfl (hother o)
    | giveUp o => exact absurd rfl (hother o)
    | openAccount o => exact absurd rfl (hother o)
    | initLedger o => exact absurd rfl (hother o)
    | approve o => exact absurd rfl (hother o)
    | record o => exact absurd rfl (hother o)
    | hold o => exact absurd rfl (hother o)
    | _ => exact hchecked

end Bank

/-- The ledger was opened for this account. -/
def Store.LedgerOf (s : Store) (account : Uuid) (ledgerId : String) : Prop :=
  ∃ amount e rest, s.ledgerEvents ledgerId = .ledgerInitiated amount e :: rest ∧
    e.parentId = account.toString

theorem Book.owner_eq {ledger account : Uuid} {b : Book} {amount : Money} {e : BaseEvent}
    {rest : List LedgerEvent} (hlog : b.events ledger = .ledgerInitiated amount e :: rest)
    (hparent : e.parentId = account.toString) : b.owner = account := by
  have he : ledgerBaseEvent b.openedAt ledger b.owner = e :=
    (LedgerEvent.ledgerInitiated.inj (List.cons.inj hlog).1).2
  exact Uuid.toString_inj.mp ((congrArg BaseEvent.parentId he).trans hparent)

/-- The stored view row, or the aggregate of the log, shows a negative available balance. -/
def Store.Overdrawn (s : Store) (ledgerId : String) : Prop :=
  (∃ v, s.ledgerViews.lookup ledgerId = some v ∧ v.available.amount < .zero) ∨
    ∃ l, Ledger.replay (s.ledgerEvents ledgerId) = .ok l ∧ l.available.amount < .zero

theorem Represents.overdrawn {s : Store} {m : Bank} (h : Represents s m) {ledger : Uuid}
    {b : Book} (hb : m.books ledger = some b) (hover : s.Overdrawn ledger.toString) :
    b.available < 0 := by
  rcases hover with ⟨v, hv, hneg⟩ | ⟨l, hl, hneg⟩
  · rw [h.ledgerViews_at, Bank.ledgerView, hb] at hv
    obtain rfl := Option.some.inj hv
    rw [Decimal.lt_iff_toRat, (b.view_holds ledger).1.2.2.1] at hneg
    simpa using hneg
  · rw [h.ledgerEvents_at, Bank.ledgerLog, hb] at hl
    obtain ⟨l', hl', -, -, hav, -⟩ := b.replay_events ledger
    obtain rfl := Outcome.ok.inj (hl'.symm.trans hl)
    rw [Decimal.lt_iff_toRat, hav] at hneg
    simpa using hneg

/-- The consumer goes on to the write of a withdrawal only where the row showed its funds. -/
theorem Models.covers_of_checked {st st' : System} {m m' : Bank} (h : Models st m) (hm : m.WF)
    (h' : Models st' m') {o : Oracle} (hstep : st.step (.consumer o) = some st') {d : Draws}
    {order : Order} {ledger : Uuid} {sequence : ℕ} {house : String}
    (hp : m.consumer = .checkLedger d order ledger sequence house)
    (hp' : m'.consumer = .record d order ledger sequence house)
    (haction : order.action = .withdraw) : m.Covers ledger order.amount.amount.toRat := by
  obtain ⟨⟨p, s⟩, hcall, rfl⟩ := Option.map_eq_some_iff.mp hstep
  have hprog : p = (ConsumerPoint.record d order ledger sequence house).prog := by
    rw [← hp']
    exact h'.consumer
  have hnot : p ≠ ConsumerPoint.idle.prog := by
    rw [hprog]
    exact (calls_record d order ledger sequence house).ne_done _
  have hknows := hm.consumer
  rw [hp] at hknows
  obtain ⟨b, hb, -, -, hcurrency⟩ := hknows
  rw [h.consumer, hp] at hcall
  rcases (calls_checkLedger d order ledger sequence house).step hcall with
    ⟨view, hexec, hnext⟩ | ⟨e, -, hnext⟩ | ⟨e, hexec, -⟩
  · obtain ⟨-, hexec'⟩ := exec_ok hexec
    obtain ⟨hview, -⟩ := Prod.mk.inj hexec'
    have hrow : view = some (b.view ledger) := by
      rw [← Outcome.ok.inj hview, h.store.ledgerViews_at, Bank.ledgerView, hb]
      rfl
    rcases checkLedger_next d order ledger sequence house view hnext with ⟨-, hshows⟩ | hidle
    · refine ⟨b, hb, fun _ => not_lt.mp fun hshort => ?_⟩
      obtain ⟨⟨hac, -, hav, -⟩, -, -⟩ := b.view_holds ledger
      exact hshows haction _ hrow ((Money.lt_iff _ _).mpr ⟨hac.trans hcurrency, by rwa [hav]⟩)
    · exact absurd hidle hnot
  · exact absurd hnext hnot
  · obtain ⟨-, hexec'⟩ := exec_panic hexec
    cases (Prod.mk.inj hexec').1

theorem covered_refinement : Machine.Simulation System.machine Bank.machine
    (fun st m => (Models st m ∧ m.WF ∧ m.Numbered) ∧ m.Asked ∧ m.Covered) := by
  refine refinement.strengthen ?_ fun st m a st' hrel hcovered hstep => ?_
  · rintro m ⟨houses, rfl⟩
    exact ⟨Bank.asked_init houses, Bank.covered_init houses⟩
  · obtain ⟨m', hm', hrel'⟩ := refinement.step st m a st' hrel hstep
    refine ⟨m', hm', hrel', hcovered.1.step hm',
      hcovered.2.step hcovered.1 hrel.2.1 hm' ?_⟩
    rintro o d order ledger sequence house rfl hp hp' haction
    exact hrel.1.covers_of_checked hrel.2.1 hrel'.1 hstep hp hp' haction

/-- Overdraft safety, in every interleaving of the consumer, the ticks and the requests, with
any call failing: where a ledger is overdrawn, a deposit of a negative amount was submitted
for its account. -/
theorem overdrawn_of_negative_deposit {st : System} (h : System.machine.Reachable st)
    (account : Uuid) (ledgerId : String) (hledger : st.store.LedgerOf account ledgerId)
    (hover : st.store.Overdrawn ledgerId) :
    ∃ amount, .deposit account amount ∈ st.submitted ∧ amount.amount < .zero := by
  obtain ⟨m, -, ⟨hmodels, -⟩, -, hcovered⟩ := covered_refinement.reachable h
  obtain ⟨amount₀, e, rest, hlog, hparent⟩ := hledger
  obtain ⟨ledger, b, rfl, hb, hevents⟩ :=
    hmodels.store.exists_book (hlog ▸ List.cons_ne_nil _ _)
  have howner : b.owner = account := by
    rw [hevents] at hlog
    exact b.owner_eq hlog hparent
  by_contra hnone
  have hsolvent : m.Solvent b.owner := by
    intro amount hamount
    by_contra hneg
    refine hnone ⟨amount, ?_, ?_⟩
    · rw [hmodels.submitted, ← howner]
      exact hamount
    · rw [Decimal.lt_iff_toRat, Decimal.toRat_zero]
      exact not_le.mp hneg
  exact absurd (hcovered.books ledger b hb hsolvent)
    (not_le.mpr (hmodels.store.overdrawn hb hover))

theorem overdrawn_of_negative_deposit_five : ∃ st : System,
    st.store.Overdrawn (Scenario.uid 11).toString ∧
      ∃ amount, .deposit (Scenario.uid 10) amount ∈ st.submitted ∧ amount.amount < .zero := by
  have hrun : (((System.init []).run (Scenario.opened ++
      Scenario.handle 12 40 5 (.deposit (Scenario.uid 10) (Scenario.usd (-5))) ++
      Scenario.tick 0 13 1)).map fun st =>
        ((st.store.ledgerEvents (Scenario.uid 11).toString).head?,
          (st.store.ledgerViews.lookup (Scenario.uid 11).toString).map fun v =>
            decide (v.available.amount < .zero))) =
      some (some (.ledgerInitiated ⟨.zero, .usd⟩
        (ledgerBaseEvent Scenario.up.now (Scenario.uid 11) (Scenario.uid 10))), some true) := by
    decide +kernel
  obtain ⟨st, hst, hview⟩ := Option.map_eq_some_iff.mp hrun
  obtain ⟨hhead, hview⟩ := Prod.mk.inj hview
  obtain ⟨v, hv, hneg⟩ := Option.map_eq_some_iff.mp hview
  obtain ⟨rest, hlog⟩ := List.head?_eq_some_iff.mp hhead
  have hover : st.store.Overdrawn (Scenario.uid 11).toString :=
    Or.inl ⟨v, hv, of_decide_eq_true hneg⟩
  exact ⟨st, hover, overdrawn_of_negative_deposit (System.reachable_of_run hst) (Scenario.uid 10)
    _ ⟨_, _, rest, hlog, rfl⟩ hover⟩

end Bankie
