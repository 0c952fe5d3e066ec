import Bankie.Refinement

/-!
The service where the rows of the ledgers lag.
The framework writes the row of a ledger after the events and apart from them, so a check of
funds may read a row that is older than the log, or one that has lost an update. Here the check
reads any row at all. Only the checks of the consumer read one, and the bank lets an order
through whatever was read: the refinement stands.
-/
namespace Bankie

open Program Transition

/-- The effect of a call, with this row in answer to a query for a ledger. -/
def executeLagging (row : Option LedgerView) (c : Call) (now : String) (s : Store) :
    Outcome (Reply c) × Store :=
  match c with
  | .queryLedger _ => (.ok row, s)
  | c => execute c now s

def execLagging (row : Option LedgerView) (c : Call) (o : Oracle) (s : Store) :
    Outcome (Reply c) × Store :=
  match o.fail with
  | some e => (.err e, s)
  | none => executeLagging row c o.now s

theorem execLagging_of_ne {row : Option LedgerView} {c : Call}
    (hc : ∀ id, c ≠ .queryLedger id) (o : Oracle) (s : Store) :
    execLagging row c o s = exec c o s := by
  cases c with
  | queryLedger id => exact absurd rfl (hc id)
  | _ => rfl

theorem execLagging_stored (id : String) (o : Oracle) (s : Store) :
    execLagging (s.ledgerViews.lookup id) (.queryLedger id) o s = exec (.queryLedger id) o s := rfl

theorem execLagging_queryLedger {row : Option LedgerView} {id : String} {o : Oracle}
    {s s' : Store} {r : Outcome (Option LedgerView)}
    (h : execLagging row (.queryLedger id) o s = (r, s')) : s' = s ∧ ¬ r.IsPanic := by
  unfold execLagging at h
  split at h
  · obtain ⟨rfl, rfl⟩ := Prod.mk.inj h
    exact ⟨rfl, fun hpanic => hpanic⟩
  · obtain ⟨rfl, rfl⟩ := Prod.mk.inj h
    exact ⟨rfl, fun hpanic => hpanic⟩

/-- Only the check of funds asks for the row of a ledger. -/
theorem ConsumerPoint.checks_of_queryLedger {p : ConsumerPoint} {id : String}
    (h : p.prog.nextCall = some (.queryLedger id)) :
    ∃ d order ledger sequence house, p = .checkLedger d order ledger sequence house := by
  have hother : ∀ {c : Call} {next : Reply c → Code Unit} {failed : String → Code Unit},
      p.prog.Calls c next failed → c = .queryLedger id := by
    intro c next failed hcalls
    exact Option.some.inj (hcalls.nextCall.symm.trans h)
  cases p with
  | idle => cases h
  | dead message => cases h
  | load d command => cases hother (calls_load d command)
  | openQuery d opening => cases hother (calls_openQuery d opening)
  | openExists d opening => cases hother (calls_openExists d opening)
  | openCommit d opening => cases hother (calls_openCommit d opening)
  | approveQuery d account ledger sequence =>
    cases hother (calls_approveQuery d account ledger sequence)
  | approveInit d account ledger c sequence =>
    cases hother (calls_approveInit d account ledger c sequence)
  | approveCommit d account ledger sequence =>
    cases hother (calls_approveCommit d account ledger sequence)
  | house d order loaded sequence =>
    cases loaded with
    | none => cases hother (calls_house_none d order sequence)
    | some a => cases hother (calls_house_some d order a sequence)
  | checkAccount d order a sequence house =>
    cases hother (calls_checkAccount d order a sequence house)
  | checkLedger d order ledger sequence house => exact ⟨_, _, _, _, _, rfl⟩
  | record d order ledger sequence house =>
    cases hother (calls_record d order ledger sequence house)
  | hold d order ledger sequence => cases hother (calls_hold d order ledger sequence)

namespace System

/-- A step where a query for a ledger reads this row. -/
def stepLagging (row : Option LedgerView) (st : System) : Action → Option System
  | .consumer o => (st.consumer.step (execLagging row) o st.store).map
      (fun r => { st with consumer := r.1, store := r.2 })
  | a => st.step a

/-- All runs in which the rows of the ledgers lag, one way or another. -/
def lagging : Machine System Action where
  Init := machine.Init
  Step st a st' := ∃ row, st.stepLagging row a = some st'

theorem exists_stepLagging (st : System) (a : Action) :
    ∃ row, st.stepLagging row a = st.step a := by
  cases a with
  | consumer o =>
    cases hp : st.consumer with
    | done r => exact ⟨none, by rw [stepLagging, step, hp]; rfl⟩
    | call c k =>
      cases c with
      | queryLedger id =>
        refine ⟨st.store.ledgerViews.lookup id, ?_⟩
        simp only [stepLagging, step, hp, Prog.step, execLagging_stored]
      | _ => exact ⟨none, by rw [stepLagging, step, hp]; rfl⟩
  | _ => exact ⟨none, rfl⟩

theorem step_lagging {st st' : System} {a : Action} (h : machine.Step st a st') :
    lagging.Step st a st' := by
  obtain ⟨row, hrow⟩ := st.exists_stepLagging a
  exact ⟨row, hrow.trans h⟩

theorem reachable_lagging {st : System} (h : machine.Reachable st) : lagging.Reachable st :=
  h.mono (fun _ hinit => hinit) fun _ _ _ => step_lagging

theorem reachable_lagging_restrict {guard : System → Action → Prop} {st : System}
    (h : (machine.restrict guard).Reachable st) : (lagging.restrict guard).Reachable st :=
  h.mono (fun _ hinit => hinit) fun _ _ _ hstep => ⟨hstep.1, step_lagging hstep.2⟩

end System

namespace Models

variable {st : System} {m : Bank}

/-- The check of funds lets an order through or gives up, whatever row it reads. -/
theorem stepMisread (h : Models st m) {row : Option LedgerView} {o : Oracle} {p' : Code Unit}
    {s' : Store} {d : Draws} {order : Order} {ledger : Uuid} {sequence : ℕ} {house : String}
    (hp : m.consumer = .checkLedger d order ledger sequence house)
    (hstep : st.consumer.step (execLagging row) o st.store = some (p', s')) :
    ∃ m', m.Step (.consumer o) m' ∧ Models { st with consumer := p', store := s' } m' := by
  rw [h.consumer, hp] at hstep
  rcases (calls_checkLedger d order ledger sequence house).step hstep with
    ⟨view, hexec, hnext⟩ | ⟨e, hexec, hnext⟩ | ⟨e, hexec, -⟩
  · have hs := (execLagging_queryLedger hexec).1
    rcases checkLedger_next d order ledger sequence house view hnext with ⟨hnext, -⟩ | hidle
    · exact h.advance hp (Bank.Advances.checkLedger d order ledger sequence house) hnext hs
    · exact h.giveUp hp trivial id hidle hs
  · exact h.giveUp hp trivial id hnext (execLagging_queryLedger hexec).1
  · exact absurd trivial (execLagging_queryLedger hexec).2

theorem stepLagging_eq (h : Models st m) {o : Oracle} (hnot : ∀ d order ledger sequence house,
    m.consumer ≠ .checkLedger d order ledger sequence house) (row : Option LedgerView) :
    st.stepLagging row (.consumer o) = st.step (.consumer o) := by
  rw [System.step, System.stepLagging]
  congr 1
  cases hp : st.consumer with
  | done r => rfl
  | call c k =>
    have hc : ∀ id, c ≠ .queryLedger id := by
      rintro id rfl
      have hnext : m.consumer.prog.nextCall = some (.queryLedger id) := by
        rw [← h.consumer, hp]
        rfl
      obtain ⟨d, order, ledger, sequence, house, hcheck⟩ :=
        ConsumerPoint.checks_of_queryLedger hnext
      exact hnot d order ledger sequence house hcheck
    rw [Prog.step, Prog.step, execLagging_of_ne hc]

theorem stepLagging (h : Models st m) (hm : m.WF ∧ m.Numbered) {row : Option LedgerView}
    {a : Action} {st' : System} (hstep : st.stepLagging row a = some st') :
    ∃ m', m.Step a m' ∧ Models st' m' := by
  cases a with
  | consumer o =>
    by_cases hcheck : ∃ d order ledger sequence house,
        m.consumer = .checkLedger d order ledger sequence house
    · obtain ⟨d, order, ledger, sequence, house, hp⟩ := hcheck
      obtain ⟨⟨p', s'⟩, hcall, rfl⟩ := Option.map_eq_some_iff.mp hstep
      exact h.stepMisread hp hcall
    · rw [h.stepLagging_eq (fun d order ledger sequence house hp =>
        hcheck ⟨d, order, ledger, sequence, house, hp⟩)] at hstep
      exact h.step hm hstep
  | _ => exact h.step hm hstep

end Models

/-- Every run whose rows lag is a run of the bank. -/
theorem lagging_refinement : Machine.Simulation System.lagging Bank.machine
    (fun st m => Models st m ∧ m.WF ∧ m.Numbered) := by
  refine Machine.Simulation.of_invariant Bank.wf_invariant ?_ ?_
  · rintro st ⟨houses, rfl⟩
    exact ⟨Bank.init houses, ⟨houses, rfl⟩, represents_init houses, rfl, rfl, rfl, rfl, rfl, rfl⟩
  · rintro st m a st' h hm ⟨row, hstep⟩
    exact h.stepLagging hm hstep

end Bankie
