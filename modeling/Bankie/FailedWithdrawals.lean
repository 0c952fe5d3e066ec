import Bankie.Commands
import Bankie.Entries

/-!
What a withdrawal leaves behind where its handling ends in an error.
The handling is followed from the command's receipt to its error, with steps of all the other
workers in between. Up to the write of the rows an error leaves nothing. The hold after it is
a separate commit: where that fails, the rows stay, and the job releases what was never held.
-/
namespace Bankie

open Program Transition

def LedgerEvent.Names (transactionId : Uuid) : LedgerEvent → Prop
  | .ledgerInitiated .. => False
  | .ledgerUpdated _ tx _ _ _ _ => tx = transactionId.toString

/-- A step of a worker other than the consumer. -/
def Action.Aside : Action → Prop
  | .consumer _ => False
  | .receive _ => False
  | _ => True

/-- The consumer has received this command in `st₀`. What is left of the execute, before its
error is caught, comes with the state; other workers step in between. -/
inductive Serving (st₀ : System) (d : Draws) (command : BankAccountCommand) :
    System → Code Unit → Prop where
  | receive {st : System} (hnext : st₀.channel.head? = some command)
      (hstep : st₀.step (.receive d) = some st) :
      Serving st₀ d command st (executeBankAccount d command.id.toString command)
  | aside {st st' : System} {p : Code Unit} {a : Action} (h : Serving st₀ d command st p)
      (ha : a.Aside) (hstep : st.step a = some st') : Serving st₀ d command st' p
  | call {st : System} {p p' : Code Unit} {s' : Store} {o : Oracle}
      (h : Serving st₀ d command st p) (hstep : p.step exec o st.store = some (p', s')) :
      Serving st₀ d command
        { st with consumer := p'.rescue (fun _ => pure ()), store := s' } p'

/-- Nothing is left to settle for a command that was received in `st₀`: what is processing or
unprocessed was there before it, and no ledger is ever updated for its transaction. -/
structure LeavesNothing (st₀ : System) (d : Draws) (st : System) : Prop where
  transactions : ∀ t ∈ st.store.transactions, t.status = "processing" →
    ∃ t₀ ∈ st₀.store.transactions, t₀.id = t.id
  outbox : ∀ row ∈ st.store.outbox, row.processed = false →
    ∃ row₀ ∈ st₀.store.outbox, row₀.transactionId = row.transactionId
  later : ∀ as st', System.machine.Steps st as st' → ∀ ledgerId,
    ∀ e ∈ st'.store.ledgerEvents ledgerId, ¬ e.Names d.transactionId

section Runs

variable {st₀ st : System} {d : Draws} {command : BankAccountCommand} {p : Code Unit}

theorem System.consumer_aside {st' : System} {a : Action} (ha : a.Aside)
    (hstep : st.step a = some st') : st'.consumer = st.consumer := by
  cases a with
  | submit fresh body =>
    simp only [System.step, System.submit] at hstep
    split at hstep
    · split at hstep <;> cases hstep <;> rfl
    · cases hstep
  | receive => exact ha.elim
  | consumer => exact ha.elim
  | startTick lockValue =>
    simp only [System.step, System.startTick] at hstep
    split at hstep <;> cases hstep
    rfl
  | tick i o =>
    obtain ⟨r, -, rfl⟩ := Option.map_eq_some_iff.mp hstep
    rfl
  | startRequest id ledgerId accountNumber body =>
    simp only [System.step, System.startRequest] at hstep
    split at hstep <;> cases hstep
    rfl
  | request i o =>
    obtain ⟨r, -, rfl⟩ := Option.map_eq_some_iff.mp hstep
    rfl
  | expireKey key =>
    simp only [System.step, System.expireKey] at hstep
    split at hstep <;> cases hstep
    rfl

theorem System.consumer_receive (hnext : st₀.channel.head? = some command)
    (hstep : st₀.step (.receive d) = some st) : st.consumer = processCommand d command := by
  simp only [System.step, System.receive] at hstep
  split at hstep
  · rename_i command' rest hconsumer hchannel
    split at hstep <;> cases hstep
    rw [hchannel] at hnext
    rw [Option.some.inj hnext]
  · cases hstep

theorem Serving.consumer (h : Serving st₀ d command st p) :
    st.consumer = p.rescue (fun _ => pure ()) := by
  induction h with
  | receive hnext hstep => exact System.consumer_receive hnext hstep
  | aside _ ha hstep ih => rw [System.consumer_aside ha hstep, ih]
  | call => rfl

theorem Serving.step (h : Serving st₀ d command st p) {p' : Code Unit} {s' : Store} {o : Oracle}
    (hstep : p.step exec o st.store = some (p', s')) :
    st.step (.consumer o) =
      some { st with consumer := p'.rescue (fun _ => pure ()), store := s' } := by
  rw [System.step, h.consumer, Prog.rescue_step hstep]
  rfl

end Runs

namespace ConsumerPoint

/-- The consumer is on its way with this order, or done with it. -/
def On (d : Draws) (order : Order) : ConsumerPoint → Prop
  | .idle => True
  | .dead _ => True
  | .load d' command => d' = d ∧ command = order.command
  | .house d' order' _ _ => d' = d ∧ order' = order
  | .checkAccount d' order' _ _ _ => d' = d ∧ order' = order
  | .checkLedger d' order' _ _ _ => d' = d ∧ order' = order
  | .record d' order' _ _ _ => d' = d ∧ order' = order
  | .hold d' order' _ _ => d' = d ∧ order' = order
  | _ => False

variable {d : Draws} {order : Order} {p : ConsumerPoint}

/-- On the way of an order the only ledger execute is the hold. -/
theorem On.executing (hp : p.On d order) : executing p.prog = some d.transactionId ↔ p.Holding := by
  cases p with
  | idle => simp [Bankie.executing, prog, Prog.nextCall, Holding]
  | dead message => simp [Bankie.executing, prog, Prog.nextCall, Holding]
  | load d' command =>
    rw [Bankie.executing, (calls_load d' command).nextCall]
    simp [Holding]
  | house d' order' loaded sequence =>
    cases loaded with
    | none =>
      rw [Bankie.executing, (calls_house_none d' order' sequence).nextCall]
      simp [Holding]
    | some a =>
      rw [Bankie.executing, (calls_house_some d' order' a sequence).nextCall]
      simp [Holding]
  | checkAccount d' order' a sequence text =>
    rw [Bankie.executing, (calls_checkAccount d' order' a sequence text).nextCall]
    simp [Holding]
  | checkLedger d' order' ledger sequence text =>
    rw [Bankie.executing, (calls_checkLedger d' order' ledger sequence text).nextCall]
    simp [Holding]
  | record d' order' ledger sequence text =>
    rw [Bankie.executing, (calls_record d' order' ledger sequence text).nextCall]
    simp [Holding]
  | hold d' order' ledger sequence =>
    obtain ⟨rfl, rfl⟩ := hp
    simp [executing_hold, Holding]
  | _ => exact hp.elim

end ConsumerPoint

namespace Bank

variable {m₀ m m' : Bank} {d : Draws} {order : Order}

theorem Advances.on {p q : ConsumerPoint} (h : m.Advances p q) (hp : p.On d order) :
    q.On d order := by
  cases h with
  | loadOpen d' parent opening =>
    obtain ⟨account, action, amount⟩ := order
    cases action <;> cases hp.2
  | loadApprove d' account ledger sequence =>
    obtain ⟨account, action, amount⟩ := order
    cases action <;> cases hp.2
  | loadOrder d' order' sequence => exact ⟨hp.1, Order.command_inj hp.2⟩
  | openQuery => exact hp.elim
  | openExists => exact hp.elim
  | approveQuery => exact hp.elim
  | houseUnopened => trivial
  | house => exact hp
  | checkAccount => exact hp
  | checkLedger => exact hp

theorem Advances.running {p q : ConsumerPoint} (h : m.Advances p q) :
    p.Running ∧ ¬ p.Holding := by
  cases h with
  | loadOrder d' order' sequence => exact ⟨trivial, id⟩
  | _ => exact ⟨trivial, id⟩

theorem Step.running {o : Oracle} (h : m.Step (.consumer o) m') : m.consumer.Running := by
  cases h with
  | advance _ q hq => exact hq.running.1
  | giveUp _ hrunning hhold => exact hrunning
  | openAccount _ d' opening hp => rw [hp]; trivial
  | initLedger _ d' account ledger c sequence hp => rw [hp]; trivial
  | approve _ d' account ledger sequence a hok hp ha => rw [hp]; trivial
  | record _ d' order ledger sequence house hp => rw [hp]; trivial
  | hold _ d' order ledger sequence b hp hb => rw [hp]; trivial

/-- The consumer is at work on an order that it received in `m₀`: until it comes to the hold
it has written no movement. -/
structure Working (m₀ : Bank) (d : Draws) (order : Order) (m : Bank) : Prop where
  on : m.consumer.On d order
  new : ∀ mv ∈ m₀.movements, mv.tx ≠ d.transactionId
  used : d.transactionId ∈ m.used
  movements : m.consumer.Running → ¬ m.consumer.Holding → m.movements = m₀.movements

theorem Step.aside {a : Action} (h : m.Step a m') (ha : a.Aside) :
    m'.consumer = m.consumer ∧ m'.movements = m.movements := by
  cases a with
  | receive => exact ha.elim
  | consumer => exact ha.elim
  | _ => cases h <;> exact ⟨rfl, rfl⟩

theorem Working.aside (hm : Working m₀ d order m) {a : Action} (h : m.Step a m')
    (ha : a.Aside) : Working m₀ d order m' := by
  obtain ⟨hconsumer, hmovements⟩ := h.aside ha
  refine ⟨?_, hm.new, h.used _ hm.used, ?_⟩
  · rw [hconsumer]
    exact hm.on
  · rw [hconsumer, hmovements]
    exact hm.movements

/-- A step on a withdrawal reads, or gives up, or writes and goes to the hold, or holds. -/
theorem Working.consumer (hm : Working m₀ d order m) (haction : order.action = .withdraw)
    {o : Oracle} (h : m.Step (.consumer o) m') : Working m₀ d order m' := by
  have hused := h.used _ hm.used
  cases h with
  | advance _ q hq =>
    exact ⟨hq.on hm.on, hm.new, hused, fun _ _ => hm.movements hq.running.1 hq.running.2⟩
  | giveUp _ hrunning hhold => exact ⟨trivial, hm.new, hused, fun hrunning => hrunning.elim⟩
  | openAccount => exact ⟨trivial, hm.new, hused, fun hrunning => hrunning.elim⟩
  | initLedger _ d' account ledger c sequence hp =>
    have hon := hm.on
    rw [hp] at hon
    exact hon.elim
  | approve => exact ⟨trivial, hm.new, hused, fun hrunning => hrunning.elim⟩
  | record _ d' order' ledger sequence house hp =>
    have hon := hm.on
    rw [hp] at hon
    obtain ⟨rfl, rfl⟩ := hon
    refine ⟨?_, hm.new, hused, fun hrunning hholding => ?_⟩
    · simp [afterRecord, haction, ConsumerPoint.On]
    · simp [afterRecord, haction, ConsumerPoint.Holding] at hholding
  | hold => exact ⟨trivial, hm.new, hused, fun hrunning => hrunning.elim⟩

/-- This transaction was drawn, and is neither on a movement nor in the consumer's hands. -/
structure Untouched (u : Uuid) (m : Bank) : Prop where
  used : u ∈ m.used
  movements : ∀ mv ∈ m.movements, mv.tx ≠ u
  drawn : ∀ d ∈ m.consumer.drawn, d.transactionId ≠ u

theorem Untouched.step {u : Uuid} (hm : m.Untouched u) {a : Action} (h : m.Step a m') :
    m'.Untouched u where
  used := h.used u hm.used
  movements mv hmv := by
    rcases h.movements with hsame | ⟨o, d, order, ledger, sequence, house, -, hp, rfl⟩
    · exact hm.movements mv (hsame ▸ hmv)
    · rcases List.mem_append.mp hmv with hold | hnew
      · exact hm.movements mv hold
      · rw [List.mem_singleton.mp hnew]
        exact hm.drawn d (by rw [hp]; rfl)
  drawn d hd := by
    rcases (h.drawn d hd).2 with hold | hfresh
    · exact hm.drawn d hold
    · rintro rfl
      exact hfresh.2 _ List.mem_cons_self hm.used

/-- An order that ends before its hold leaves its transaction untouched. -/
theorem Working.untouched (hm : Working m₀ d order m) (haction : order.action = .withdraw)
    (hholding : ¬ m.consumer.Holding) {o : Oracle} (h : m.Step (.consumer o) m')
    (hidle : m'.consumer = .idle) :
    m'.movements = m₀.movements ∧ m'.Untouched d.transactionId := by
  have hmovements : m'.movements = m₀.movements := by
    rw [← hm.movements h.running hholding]
    rcases h.movements with hsame | ⟨o', d', order', ledger, sequence, house, -, hp, rfl⟩
    · exact hsame
    · have hon := hm.on
      rw [hp] at hon
      obtain ⟨rfl, rfl⟩ := hon
      rw [setConsumer_consumer, afterRecord, haction] at hidle
      cases hidle
  refine ⟨hmovements, h.used _ hm.used, fun mv hmv => hm.new mv (hmovements ▸ hmv), ?_⟩
  rw [hidle]
  intro d' hd'
  cases hd'

end Bank

theorem Represents.not_names {s : Store} {m : Bank} (h : Represents s m) (htraced : m.Traced)
    {u : Uuid} (hu : ∀ mv ∈ m.movements, mv.tx ≠ u) {ledgerId : String} {e : LedgerEvent}
    (he : e ∈ s.ledgerEvents ledgerId) : ¬ e.Names u := by
  obtain ⟨ledger, b, -, hb, hlog⟩ := h.exists_book (List.ne_nil_of_mem he)
  rw [hlog] at he
  intro hnames
  rcases Book.mem_events he with hopening | ⟨p, hp, _, _, _, _, rfl⟩
  · obtain rfl := List.mem_singleton.mp hopening
    exact hnames
  · obtain ⟨mv, hmv, -, hmakes⟩ := htraced.postings ledger b hb p hp
    exact hu mv hmv (hmakes.transactionId.symm.trans (Uuid.toString_inj.mp hnames))

section Outcomes

variable {st₀ st : System} {m₀ m : Bank} {d : Draws} {order : Order} {p : Code Unit}

/-- The bank follows the handling of an order, and the steps in between. -/
theorem Serving.working (h : Serving st₀ d order.command st p)
    (haction : order.action = .withdraw) (hrel : Models st₀ m₀ ∧ m₀.WF ∧ m₀.Numbered) :
    ∃ m as, Bank.machine.Steps m₀ as m ∧ (Models st m ∧ m.WF ∧ m.Numbered) ∧
      Bank.Working m₀ d order m := by
  induction h with
  | receive hnext hstep =>
    obtain ⟨m, hm, hrel'⟩ := refinement.step _ _ _ _ hrel hstep
    refine ⟨m, _, Machine.Steps.cons hm (Machine.Steps.nil m), hrel', ?_⟩
    cases hm with
    | receive _ command rest hidle hchannel hfresh =>
      rw [hrel.1.channel, hchannel] at hnext
      obtain rfl := Option.some.inj hnext
      refine ⟨⟨rfl, rfl⟩, fun mv hmv htx => ?_, List.mem_cons_self, fun _ _ => rfl⟩
      exact hfresh.2 _ List.mem_cons_self (htx ▸ hrel.2.2.tx_used mv hmv)
  | aside _ ha hstep ih =>
    obtain ⟨m, as, hsteps, hrel', hworking⟩ := ih
    obtain ⟨m', hm', hrel''⟩ := refinement.step _ _ _ _ hrel' hstep
    exact ⟨m', _, hsteps.trans (Machine.Steps.cons hm' (Machine.Steps.nil m')), hrel'',
      hworking.aside hm' ha⟩
  | call hserving hstep ih =>
    obtain ⟨m, as, hsteps, hrel', hworking⟩ := ih
    obtain ⟨m', hm', hrel''⟩ := refinement.step _ _ _ _ hrel' (hserving.step hstep)
    exact ⟨m', _, hsteps.trans (Machine.Steps.cons hm' (Machine.Steps.nil m')), hrel'',
      hworking.consumer haction hm'⟩

theorem Bank.Untouched.leavesNothing (hu : m.Untouched d.transactionId)
    (hreach : Bank.machine.Reachable m) (h₀ : Represents st₀.store m₀)
    (hrel : Models st m ∧ m.WF ∧ m.Numbered) (hmovements : m.movements = m₀.movements) :
    LeavesNothing st₀ d st where
  transactions t ht _ := by
    rw [hrel.1.store.transactions, hmovements] at ht
    obtain ⟨mv, hmv, rfl⟩ := List.mem_map.mp ht
    refine ⟨mv.transaction (decide (mv.tx ∈ m₀.completed)), ?_, rfl⟩
    rw [h₀.transactions]
    exact List.mem_map_of_mem hmv
  outbox row hrow _ := by
    rw [hrel.1.store.outbox, hmovements] at hrow
    obtain ⟨mv, hmv, rfl⟩ := List.mem_map.mp hrow
    refine ⟨mv.row (decide (mv.tx ∈ m₀.completed)), ?_, rfl⟩
    rw [h₀.outbox]
    exact List.mem_map_of_mem hmv
  later as st' hsteps ledgerId e he := by
    obtain ⟨m', hsteps', hmodels', -⟩ := refinement.steps hsteps hrel
    obtain ⟨-, htraced⟩ := Bank.traced_invariant.reachable (hreach.steps hsteps')
    have hu' := hsteps'.preserves (P := Bank.Untouched d.transactionId)
      (fun _ _ _ hm hstep => hm.step hstep) hu
    exact hmodels'.store.not_names htraced hu'.movements he

/-- A withdrawal that is written and not held is still to be settled, or is settled already. -/
theorem not_leavesNothing (hreach : Bank.machine.Reachable m) (h₀ : Represents st₀.store m₀)
    (hrel : Models st m ∧ m.WF ∧ m.Numbered) {mv : Movement} (hmv : mv ∈ m.movements)
    (htx : mv.tx = d.transactionId) (hnew : ∀ mv ∈ m₀.movements, mv.tx ≠ d.transactionId) :
    ¬ LeavesNothing st₀ d st := by
  intro hleaves
  by_cases hdone : mv.tx ∈ m.completed
  · obtain ⟨-, hmarks⟩ := Bank.marksApplied_invariant.reachable hreach
    obtain ⟨mv', hmv', htx', happlied⟩ := hmarks.completed mv.tx hdone
    obtain rfl := hrel.2.2.movement_eq hmv' hmv htx'
    obtain ⟨e, he, hsettles⟩ := hrel.1.store.settles hrel.2.1 hmv' happlied
    refine hleaves.later [] st (Machine.Steps.nil st) _ e he ?_
    cases e with
    | ledgerInitiated => exact hsettles.elim
    | ledgerUpdated => exact hsettles.2.1.trans (congrArg Uuid.toString htx)
  · have ht : mv.transaction (decide (mv.tx ∈ m.completed)) ∈ st.store.transactions := by
      rw [hrel.1.store.transactions]
      exact List.mem_map_of_mem hmv
    obtain ⟨t₀, ht₀, hid⟩ := hleaves.transactions _ ht (by
      rw [decide_eq_false hdone]
      rfl)
    rw [h₀.transactions] at ht₀
    obtain ⟨mv₀, hmv₀, rfl⟩ := List.mem_map.mp ht₀
    exact hnew mv₀ hmv₀ ((show mv₀.tx = mv.tx from hid).trans htx)

end Outcomes

/-- A withdrawal whose handling ends in an error leaves nothing exactly where the call that
fails is not its hold. -/
theorem leavesNothing_iff {st₀ : System} (h : System.machine.Reachable st₀) {d : Draws}
    {account : Uuid} {amount : Money} {st : System} {p : Code Unit}
    (hserving : Serving st₀ d (.withdrawal account amount) st p) {o : Oracle} {e : String}
    {s' : Store} (herr : p.step exec o st.store = some (.done (.err e), s')) :
    LeavesNothing st₀ d { st with consumer := pure (), store := s' } ↔
      executing p ≠ some d.transactionId := by
  let order : Order := ⟨account, .withdraw, amount⟩
  obtain ⟨m₀, hreach₀, hrel₀⟩ := refinement.reachable h
  have hserving : Serving st₀ d order.command st p := hserving
  obtain ⟨m, as, hsteps, hrel, hworking⟩ := hserving.working rfl hrel₀
  obtain ⟨m', hm', hrel'⟩ := refinement.step _ _ _ _ hrel (hserving.step herr)
  have hreach : Bank.machine.Reachable m := hreach₀.steps hsteps
  have hreach' : Bank.machine.Reachable m' :=
    hreach.steps (Machine.Steps.cons hm' (Machine.Steps.nil m'))
  have hidle : m'.consumer = .idle := Models.idle_of_done hrel'.1.consumer.symm
  have hnext : executing p = executing m.consumer.prog := by
    rw [← hrel.1.consumer, hserving.consumer, executing, executing, Prog.rescue_nextCall herr]
  rw [hnext, ne_eq, hworking.on.executing]
  constructor
  · intro hleaves hholding
    obtain ⟨-, htraced⟩ := Bank.traced_invariant.reachable hreach
    obtain ⟨mv, d', order', ledger, sequence, hp, hmv, htx, -⟩ := htraced.holding hholding
    have hon := hworking.on
    rw [hp] at hon
    obtain ⟨rfl, -⟩ := hon
    exact not_leavesNothing hreach' hrel₀.1.store hrel' (hm'.movements_subset mv hmv) htx
      hworking.new hleaves
  · intro hholding
    obtain ⟨hmovements, huntouched⟩ := hworking.untouched rfl hholding hm' hidle
    exact huntouched.leavesNothing hreach' hrel₀.1.store hrel' hmovements

section Examples

/-- An execute makes these calls, with no step of another worker in between. -/
def System.serve (st : System) (p : Code Unit) : List Oracle → Option (System × Code Unit)
  | [] => some (st, p)
  | o :: os =>
    match p.step exec o st.store with
    | none => none
    | some (p', s') =>
      serve { st with consumer := p'.rescue (fun _ => pure ()), store := s' } p' os

def System.errs (st₀ : System) (d : Draws) (command : BankAccountCommand) (os : List Oracle)
    (o : Oracle) : Option (System × Code Unit × String × Store) :=
  match st₀.step (.receive d) with
  | none => none
  | some st =>
    match st.serve (executeBankAccount d command.id.toString command) os with
    | none => none
    | some (st, p) =>
      match p.step exec o st.store with
      | some (.done (.err e), s') => some (st, p, e, s')
      | _ => none

variable {st₀ st st' : System} {d : Draws} {command : BankAccountCommand} {p p' : Code Unit}

theorem Serving.serve {os : List Oracle} (h : Serving st₀ d command st p)
    (hserve : st.serve p os = some (st', p')) : Serving st₀ d command st' p' := by
  induction os generalizing st p with
  | nil =>
    obtain ⟨rfl, rfl⟩ := Prod.mk.inj (Option.some.inj hserve)
    exact h
  | cons o os ih =>
    rw [System.serve] at hserve
    split at hserve
    · cases hserve
    · rename_i hstep
      exact ih (Serving.call h hstep) hserve

theorem System.serving_of_errs (hnext : st₀.channel.head? = some command) {os : List Oracle}
    {o : Oracle} {e : String} {s' : Store} (h : st₀.errs d command os o = some (st, p, e, s')) :
    Serving st₀ d command st p ∧ p.step exec o st.store = some (.done (.err e), s') := by
  rw [System.errs] at h
  split at h
  · cases h
  · rename_i hreceive
    split at h
    · cases h
    · rename_i hserve
      split at h
      · rename_i hstep
        cases h
        exact ⟨(Serving.receive hnext hreceive).serve hserve, hstep⟩
      · cases h

/-- A withdrawal of this amount from the account of the scenario, sent and not yet received. -/
def Scenario.asked (amount : Money) : List Action :=
  funded ++ [.submit (uid 14) (.withdrawal (uid 10) amount)]

end Examples

/-- A withdrawal of 500 from an account with 100 is refused by the checks. -/
theorem leavesNothing_iff_refused : ∃ (st₀ st : System) (p : Code Unit) (s' : Store),
    p.step exec Scenario.up st.store = some (.done (.err "Insufficient funds"), s') ∧
      LeavesNothing st₀ (Scenario.draws 50) { st with consumer := pure (), store := s' } := by
  let command : BankAccountCommand := .withdrawal (Scenario.uid 10) (Scenario.usd 500)
  have hrun : ((System.init []).run (Scenario.asked (Scenario.usd 500))).bind (fun st₀ =>
      (st₀.errs (Scenario.draws 50) command (List.replicate 3 Scenario.up) Scenario.up).map
        fun r => (decide (st₀.channel.head? = some command), executing r.2.1, r.2.2.1)) =
      some (true, none, "Insufficient funds") := by decide +kernel
  obtain ⟨st₀, hst₀, herrs⟩ := Option.bind_eq_some_iff.mp hrun
  obtain ⟨⟨st, p, e, s'⟩, hr, hfacts⟩ := Option.map_eq_some_iff.mp herrs
  obtain ⟨hnext, hcall, rfl⟩ : _ ∧ _ ∧ _ := by simpa only [Prod.mk.injEq] using hfacts
  obtain ⟨hserving, herr⟩ := System.serving_of_errs (of_decide_eq_true hnext) hr
  have hreach := System.reachable_of_run hst₀
  refine ⟨st₀, st, p, s', herr, (leavesNothing_iff hreach hserving herr).mpr ?_⟩
  rw [hcall]
  exact (Option.some_ne_none _).symm

/-- The hold of a withdrawal of 30 fails after its rows are committed. -/
theorem not_leavesNothing_unheld : ∃ (st₀ : System) (d : Draws) (account : Uuid)
    (amount : Money) (st : System) (p : Code Unit) (o : Oracle) (e : String) (s' : Store),
    System.machine.Reachable st₀ ∧ Serving st₀ d (.withdrawal account amount) st p ∧
      p.step exec o st.store = some (.done (.err e), s') ∧
      ¬ LeavesNothing st₀ d { st with consumer := pure (), store := s' } := by
  let command : BankAccountCommand := .withdrawal (Scenario.uid 10) (Scenario.usd 30)
  let conflict : Oracle := ⟨some "optimistic lock error", "2024-01-01T00:00:00Z"⟩
  have hrun : ((System.init []).run (Scenario.asked (Scenario.usd 30))).bind (fun st₀ =>
      (st₀.errs (Scenario.draws 50) command (List.replicate 5 Scenario.up) conflict).map
        fun r => (decide (st₀.channel.head? = some command),
          decide (∃ t ∈ r.2.2.2.transactions, t.status = "processing" ∧
            ∀ t₀ ∈ st₀.store.transactions, t₀.id ≠ t.id))) = some (true, true) := by
    decide +kernel
  obtain ⟨st₀, hst₀, herrs⟩ := Option.bind_eq_some_iff.mp hrun
  obtain ⟨⟨st, p, e, s'⟩, hr, hfacts⟩ := Option.map_eq_some_iff.mp herrs
  obtain ⟨hnext, hleft⟩ := Prod.mk.inj hfacts
  obtain ⟨hserving, herr⟩ := System.serving_of_errs (of_decide_eq_true hnext) hr
  refine ⟨st₀, _, _, _, st, p, conflict, e, s', System.reachable_of_run hst₀, hserving, herr,
    fun hleaves => ?_⟩
  obtain ⟨t, ht, hstatus, hnew⟩ := of_decide_eq_true hleft
  obtain ⟨t₀, ht₀, hid⟩ := hleaves.transactions t ht hstatus
  exact hnew t₀ ht₀ hid

end Bankie
