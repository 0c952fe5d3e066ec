import Bankie.Quiet

/-!
Every posting comes from a movement.
A book of a ledger holds nothing but holds and settlements of the movements on that ledger,
each for the transaction and the amount of its movement. This needs no guard on the run:
a row that is applied twice is settled twice.
-/
namespace Bankie

open Transition

/-- The posting is the settlement of the movement, or the hold of a withdrawal. -/
def Movement.Makes (mv : Movement) (p : Posting) : Prop :=
  p = mv.settlement p.time ∨
    mv.action = .withdraw ∧ p.kind = .hold ∧ p.transactionId = mv.tx ∧
      p.amount = mv.amount.amount

theorem Movement.Makes.transactionId {mv : Movement} {p : Posting} (h : mv.Makes p) :
    p.transactionId = mv.tx := by
  rcases h with heq | ⟨-, -, htx, -⟩
  · rw [heq]
    rfl
  · exact htx

theorem Movement.Makes.settlement {mv : Movement} {p : Posting} (h : mv.Makes p)
    (hkind : p.kind ≠ .hold) : p = mv.settlement p.time := by
  rcases h with heq | ⟨-, hhold, -⟩
  · exact heq
  · exact absurd hhold hkind

namespace Bank

variable {m m' : Bank}

structure Traced (m : Bank) : Prop where
  postings : ∀ ledger b, m.books ledger = some b → ∀ p ∈ b.postings,
    ∃ mv ∈ m.movements, mv.ledger = ledger ∧ mv.Makes p
  holding : m.consumer.Holding → ∃ mv, m.Holds m.consumer mv

theorem traced_init (houses : List HouseAccount) : (init houses).Traced where
  postings _ _ hb := by cases hb
  holding hh := hh.elim

theorem Step.movements_subset {a : Action} (h : m.Step a m') :
    ∀ mv ∈ m.movements, mv ∈ m'.movements := by
  intro mv hmv
  rcases h.movements with hsame | ⟨o, d, order, ledger, sequence, house, -, -, rfl⟩
  · rw [hsame]
    exact hmv
  · exact List.mem_append_left _ hmv

theorem Numbered.movement_eq (hnum : m.Numbered) {mv mv' : Movement} (hmv : mv ∈ m.movements)
    (hmv' : mv' ∈ m.movements) (htx : mv.tx = mv'.tx) : mv = mv' :=
  List.inj_on_of_nodup_map hnum.tx_nodup hmv hmv' htx

theorem Traced.holding_step (hm : m.Traced) {a : Action} (h : m.Step a m')
    (hh : m'.consumer.Holding) : ∃ mv, m'.Holds m'.consumer mv := by
  rcases h.movements with hsame | ⟨o, d, order, ledger, sequence, house, -, -, rfl⟩
  · rcases h.holding hh with ⟨hconsumer, -⟩ | hne
    · rw [hconsumer] at hh ⊢
      obtain ⟨mv, hholds⟩ := hm.holding hh
      refine ⟨mv, ?_⟩
      unfold Holds
      rw [hsame]
      exact hholds
    · exact absurd hsame hne
  · exact ⟨_, m.holds_record (withdraw_of_holding hh)⟩

theorem Traced.step (hm : m.Traced) (hwf : m.WF) {a : Action} (h : m.Step a m') :
    m'.Traced := by
  refine ⟨fun ledger b' hb' p hp => ?_, hm.holding_step h⟩
  have hold : ∀ b, m.books ledger = some b → p ∈ b.postings →
      ∃ mv ∈ m'.movements, mv.ledger = ledger ∧ mv.Makes p := by
    intro b hb hpb
    obtain ⟨mv, hmv, hmakes⟩ := hm.postings ledger b hb p hpb
    exact ⟨mv, h.movements_subset mv hmv, hmakes⟩
  rcases h.book_cases hb' with hb | hempty | ⟨b, q, hb, rfl, hposts⟩
  · exact hold b' hb hp
  · rw [hempty] at hp
    cases hp
  · rcases List.mem_append.mp hp with hin | hlast
    · exact hold b hb hin
    · obtain rfl := List.mem_singleton.mp hlast
      cases hposts with
      | hold o d order ledger sequence hpoint =>
        obtain ⟨mv, d', order', ledger', sequence', heq, hmv, htx, hledger, haction, hamount⟩ :=
          hm.holding (by rw [hpoint]; trivial)
        rw [hpoint] at heq
        obtain ⟨rfl, rfl, rfl, rfl⟩ := ConsumerPoint.hold.inj heq
        refine ⟨mv, h.movements_subset mv hmv, hledger, Or.inr ⟨haction, rfl, htx.symm, ?_⟩⟩
        rw [hamount]
        rfl
      | settle i o lockValue mv rest hok hi =>
        exact ⟨mv, h.movements_subset mv
          (hwf.rows _ (List.mem_of_getElem? hi) mv List.mem_cons_self), rfl, Or.inl rfl⟩

theorem traced_invariant : machine.Invariant (fun m => (m.WF ∧ m.Numbered) ∧ m.Traced) := by
  refine wf_invariant.strengthen ?_ (fun _ _ _ hm ht h => ht.step hm.1 h)
  rintro m ⟨houses, rfl⟩
  exact traced_init houses

end Bank

end Bankie
