import Bankie.Completed
import Bankie.AccountLedger

/-!
The journal entry of a movement.
Entry identifiers are drawn once, so an entry finds the lines and the transaction of its own
movement. The house line is on the ledger of an active house account in the currency of the
movement: that is what the lookup before the checks has found.
-/
namespace Bankie

open Program Transition

namespace Bank

variable {m m' : Bank}

/-- What the consumer has drawn it drew before, or it draws it now. -/
theorem Step.drawn {a : Action} (h : m.Step a m') :
    ∀ d ∈ m'.consumer.drawn,
      m'.movements = m.movements ∧ (d ∈ m.consumer.drawn ∨ m.Fresh d.ids) := by
  intro d hd
  cases h with
  | receive d' command rest hidle hchannel hfresh =>
    obtain rfl := Option.some.inj hd
    exact ⟨rfl, Or.inr hfresh⟩
  | advance o p hp => exact ⟨rfl, Or.inl (hp.drawn d hd)⟩
  | initLedger o d' account ledger c sequence hp =>
    rw [hp]
    exact ⟨rfl, Or.inl hd⟩
  | record o d' order ledger sequence house hp =>
    rw [setConsumer_consumer, afterRecord_drawn] at hd
    cases hd
  | giveUp => cases hd
  | openAccount => cases hd
  | approve => cases hd
  | hold => cases hd
  | _ => exact ⟨rfl, Or.inl hd⟩

/-- Entry identifiers are drawn once. -/
structure Entered (m : Bank) : Prop where
  nodup : (m.movements.map (fun mv => mv.entry.id)).Nodup
  drawn : ∀ d ∈ m.consumer.drawn, ∀ mv ∈ m.movements, mv.entry.id ≠ d.journalEntryId

theorem entered_init (houses : List HouseAccount) : (init houses).Entered where
  nodup := List.nodup_nil
  drawn _ hd := by cases hd

theorem Entered.step (hm : m.Entered) (hnum : m.Numbered) {a : Action} (h : m.Step a m') :
    m'.Entered where
  nodup := by
    rcases h.movements with hsame | ⟨o, d, order, ledger, sequence, house, -, hp, rfl⟩
    · rw [hsame]
      exact hm.nodup
    · rw [setConsumer_movements, addMovement_movements, List.map_append, List.nodup_append]
      refine ⟨hm.nodup, List.nodup_singleton _, ?_⟩
      intro u hu v hv
      obtain ⟨mv, hmv, rfl⟩ := List.mem_map.mp hu
      rw [List.mem_singleton.mp hv]
      exact hm.drawn d (by rw [hp]; rfl) mv hmv
  drawn d hd mv hmv := by
    obtain ⟨hsame, hdrawn⟩ := h.drawn d hd
    rw [hsame] at hmv
    rcases hdrawn with hold | hfresh
    · exact hm.drawn d hold mv hmv
    · intro heq
      refine hfresh.2 d.journalEntryId (by simp [Draws.ids]) ?_
      rw [← heq]
      exact hnum.ids_used mv hmv _ (by simp [Movement.entry, Helper.journalEntryOf, Draws.ids])

theorem entered_invariant : machine.Invariant (fun m => (m.WF ∧ m.Numbered) ∧ m.Entered) := by
  refine wf_invariant.strengthen ?_ (fun _ _ _ hm he h => he.step hm.2 h)
  rintro m ⟨houses, rfl⟩
  exact entered_init houses

end Bank

section Houses

/-- The house ledger that the consumer has chosen, and the currency that it chose it for. -/
def ConsumerPoint.chosen : ConsumerPoint → Option (Currency × String)
  | .checkAccount _ order _ _ text => some (order.amount.currency, text)
  | .checkLedger _ order _ _ text => some (order.amount.currency, text)
  | .record _ order _ _ text => some (order.amount.currency, text)
  | _ => none

namespace Bank

variable {m m' : Bank}

/-- The text is the ledger of an active house account in this currency. -/
def HouseFor (m : Bank) (c : Currency) (text : String) : Prop :=
  ∃ h ∈ m.houses, h.ledgerId = text ∧ h.currency = c ∧ h.status = "active" ∧
    h.accountType = "House"

/-- Movements are written against the house account of their currency. -/
structure Housed (m : Bank) : Prop where
  consumer : ∀ choice ∈ m.consumer.chosen, m.HouseFor choice.1 choice.2
  movements : ∀ mv ∈ m.movements, m.HouseFor mv.amount.currency mv.houseLedger

theorem housed_init (houses : List HouseAccount) : (init houses).Housed where
  consumer _ hchoice := by cases hchoice
  movements _ hmv := absurd hmv List.not_mem_nil

theorem Step.houses_subset {a : Action} (h : m.Step a m') : ∀ x ∈ m.houses, x ∈ m'.houses := by
  intro x hx
  cases h with
  | insertHouse => exact List.mem_append_left _ hx
  | _ => exact hx

theorem HouseFor.step {c : Currency} {text : String} (hfor : m.HouseFor c text) {a : Action}
    (h : m.Step a m') : m'.HouseFor c text := by
  obtain ⟨x, hx, hfacts⟩ := hfor
  exact ⟨x, h.houses_subset x hx, hfacts⟩

theorem Advances.chosen {p q : ConsumerPoint} (h : m.Advances p q)
    (hnot : ∀ d order x sequence, p ≠ .house d order (some x) sequence) :
    ∀ choice ∈ q.chosen, choice ∈ p.chosen := by
  intro choice hchoice
  cases h with
  | house d order x sequence => exact absurd rfl (hnot d order x sequence)
  | checkAccount => exact hchoice
  | checkLedger => exact hchoice
  | _ => cases hchoice

/-- Only the lookup of the house account chooses. -/
theorem Step.chosen {a : Action} (h : m.Step a m')
    (hnot : ∀ o, a = .consumer o → ∀ d order x sequence,
      m.consumer ≠ .house d order (some x) sequence) :
    ∀ choice ∈ m'.consumer.chosen, choice ∈ m.consumer.chosen := by
  intro choice hchoice
  cases h with
  | advance o p hp => exact hp.chosen (hnot o rfl) choice hchoice
  | record o d order ledger sequence house hp =>
    rw [setConsumer_consumer, afterRecord] at hchoice
    cases haction : order.action <;> rw [haction] at hchoice <;> cases hchoice
  | receive => cases hchoice
  | giveUp => cases hchoice
  | openAccount => cases hchoice
  | initLedger => cases hchoice
  | approve => cases hchoice
  | hold => cases hchoice
  | _ => exact hchoice

theorem Housed.step (hm : m.Housed) {a : Action} (h : m.Step a m')
    (hchosen : ∀ choice ∈ m'.consumer.chosen,
      choice ∈ m.consumer.chosen ∨ m.HouseFor choice.1 choice.2) : m'.Housed where
  consumer choice hchoice := by
    rcases hchosen choice hchoice with hold | hnew
    · exact (hm.consumer choice hold).step h
    · exact hnew.step h
  movements mv hmv := by
    rcases h.movements with hsame | ⟨o, d, order, ledger, sequence, house, -, hp, rfl⟩
    · rw [hsame] at hmv
      exact (hm.movements mv hmv).step h
    · rcases List.mem_append.mp hmv with hold | hnew
      · exact (hm.movements mv hold).step h
      · rw [List.mem_singleton.mp hnew]
        exact (hm.consumer (order.amount.currency, house) (by rw [hp]; rfl)).step h

end Bank

theorem execute_getHouseAccount_chosen {c : Currency} {now : String} {s s' : Store}
    {h : HouseAccount} (hexec : execute (.getHouseAccount c) now s = (.ok h, s')) :
    h.currency = c ∧ h.status = "active" ∧ h.accountType = "House" := by
  have hget := (Prod.mk.inj hexec).1
  unfold Store.getHouseAccount at hget
  split at hget
  · rename_i h' hfind
    obtain rfl := Outcome.ok.inj hget
    have hfound := List.find?_some hfind
    rw [decide_eq_true_eq] at hfound
    obtain ⟨hcurrency, hstatus, htype⟩ := hfound
    exact ⟨Currency.toString_inj hcurrency, hstatus, htype⟩
  · cases hget

/-- The lookup, as a step of the bank that keeps what it has found. -/
theorem Models.stepHouse_chosen {st : System} {m : Bank} (h : Models st m) {o : Oracle}
    {d : Draws} {order : Order} {a : Account} {sequence : ℕ}
    (hp : m.consumer = .house d order (some a) sequence) {p' : Code Unit} {s' : Store}
    (hstep : st.consumer.step exec o st.store = some (p', s')) :
    ∃ m', m.Step (.consumer o) m' ∧ Models { st with consumer := p', store := s' } m' ∧
      ∀ choice ∈ m'.consumer.chosen, m.HouseFor choice.1 choice.2 := by
  have hrunning : m.consumer.Running := by
    rw [hp]
    trivial
  have hnot : ¬ m.consumer.Holding := by
    rw [hp]
    exact id
  have hgiveUp : p' = ConsumerPoint.idle.prog → s' = st.store →
      ∃ m', m.Step (.consumer o) m' ∧ Models { st with consumer := p', store := s' } m' ∧
        ∀ choice ∈ m'.consumer.chosen, m.HouseFor choice.1 choice.2 := fun hp' hs' =>
    ⟨_, Bank.Step.giveUp o hrunning (fun hh => absurd hh hnot), h.moveConsumer hp' hs',
      fun _ hchoice => by cases hchoice⟩
  rw [h.consumer, hp] at hstep
  rcases (calls_house_some d order a sequence).step hstep with ⟨house, hexec, hp'⟩ |
    ⟨e, hexec, hp'⟩ | ⟨e, hexec, -⟩
  · obtain ⟨-, hexec'⟩ := exec_ok hexec
    obtain ⟨hmem, hs'⟩ := execute_getHouseAccount hexec'
    rw [h.store.houses] at hmem
    have hadvance : m.Advances m.consumer (.checkAccount d order a sequence house.ledgerId) := by
      rw [hp]
      exact Bank.Advances.house d order a sequence house hmem
    refine ⟨_, Bank.Step.advance o _ hadvance, h.moveConsumer hp' hs', ?_⟩
    intro choice hchoice
    obtain rfl := Option.some.inj hchoice
    exact ⟨house, hmem, rfl, execute_getHouseAccount_chosen hexec'⟩
  · rcases exec_cases hexec with ⟨-, -, hs'⟩ | ⟨-, hexec'⟩
    · exact hgiveUp hp' hs'
    · exact hgiveUp hp' (execute_err hexec')
  · obtain ⟨-, hexec'⟩ := exec_panic hexec
    exact absurd hexec' (execute_getHouseAccount_ne_panic _ _ e _)

theorem housed_refinement : Machine.Simulation System.lagging Bank.machine
    (fun st m => (Models st m ∧ m.WF ∧ m.Numbered) ∧ m.Housed) := by
  refine lagging_refinement.strengthen ?_ fun st m a st' hrel hhoused hstep => ?_
  · rintro m ⟨houses, rfl⟩
    exact Bank.housed_init houses
  · by_cases hlookup : ∃ o d order x sequence,
        a = .consumer o ∧ m.consumer = .house d order (some x) sequence
    · obtain ⟨o, d, order, x, sequence, rfl, hp⟩ := hlookup
      obtain ⟨row, hstep⟩ := hstep
      rw [hrel.1.stepLagging_eq (by simp [hp])] at hstep
      obtain ⟨⟨p', s'⟩, hcall, rfl⟩ := Option.map_eq_some_iff.mp hstep
      obtain ⟨m', hm', hmodels, hchosen⟩ := hrel.1.stepHouse_chosen hp hcall
      exact ⟨m', hm', ⟨hmodels, Bank.wf_invariant.step m _ m' hrel.2 hm'⟩,
        hhoused.step hm' fun choice hchoice => Or.inr (hchosen choice hchoice)⟩
    · obtain ⟨m', hm', hrel'⟩ := lagging_refinement.step st m a st' hrel hstep
      refine ⟨m', hm', hrel', hhoused.step hm' fun choice hchoice => Or.inl ?_⟩
      refine hm'.chosen ?_ choice hchoice
      rintro o rfl d order x sequence hp
      exact hlookup ⟨o, d, order, x, sequence, rfl, hp⟩

end Houses

end Bankie
