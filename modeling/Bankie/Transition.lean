import Mathlib.Data.Nat.Notation
import Mathlib.Data.List.Induction

/-!
Labelled transition systems: runs, reachable states, invariants and simulations.
A guard cuts a system down to the steps that meet it, so that a property of guarded
runs is an invariant of the restricted system. A simulation carries runs from one system
to another, and the guards with them.
-/
namespace Bankie.Transition

/-- States, the initial ones among them, and labelled steps. -/
structure Machine (σ α : Type) where
  Init : σ → Prop
  Step : σ → α → σ → Prop

namespace Machine

variable {σ τ α : Type}

/-- The runs, with the labels of their steps in order. -/
inductive Steps (M : Machine σ α) : σ → List α → σ → Prop where
  | nil (s : σ) : Steps M s [] s
  | cons {s s' s'' : σ} {a : α} {as : List α} (first : M.Step s a s')
      (rest : Steps M s' as s'') : Steps M s (a :: as) s''

def Reachable (M : Machine σ α) (s : σ) : Prop := ∃ s₀ as, M.Init s₀ ∧ M.Steps s₀ as s

/-- The system that only takes steps that meet a guard. -/
def restrict (M : Machine σ α) (guard : σ → α → Prop) : Machine σ α where
  Init := M.Init
  Step s a s' := guard s a ∧ M.Step s a s'

theorem Steps.trans {M : Machine σ α} {s s' s'' : σ} {as bs : List α}
    (h : M.Steps s as s') (h' : M.Steps s' bs s'') : M.Steps s (as ++ bs) s'' := by
  induction h with
  | nil => exact h'
  | cons first _ ih => exact Steps.cons first (ih h')

theorem Steps.unrestrict {M : Machine σ α} {guard : σ → α → Prop} {s s' : σ} {as : List α}
    (h : (M.restrict guard).Steps s as s') : M.Steps s as s' := by
  induction h with
  | nil s => exact Steps.nil s
  | cons first _ ih => exact Steps.cons first.2 ih

/-- What every step keeps is kept by a run. -/
theorem Steps.preserves {M : Machine σ α} {P : σ → Prop} {s s' : σ} {as : List α}
    (hs : M.Steps s as s') (hstep : ∀ s a s', P s → M.Step s a s' → P s') (hP : P s) : P s' := by
  induction hs with
  | nil => exact hP
  | cons first _ ih => exact ih (hstep _ _ _ hP first)

/-- A part of the state that a step leaves alone or moves as another system may has runs of that
system. -/
theorem Steps.project {β : Type} {M : Machine σ α} {A : Machine τ β} (part : σ → τ)
    (hstep : ∀ s a s', M.Step s a s' → part s' = part s ∨ ∃ b, A.Step (part s) b (part s'))
    {s s' : σ} {as : List α} (h : M.Steps s as s') : ∃ bs, A.Steps (part s) bs (part s') := by
  induction h with
  | nil s => exact ⟨[], Steps.nil _⟩
  | cons first _ ih =>
    obtain ⟨bs, hrest⟩ := ih
    rcases hstep _ _ _ first with hsame | ⟨b, hfirst⟩
    · exact ⟨bs, hsame ▸ hrest⟩
    · exact ⟨b :: bs, Steps.cons hfirst hrest⟩

theorem Reachable.steps {M : Machine σ α} {s s' : σ} {as : List α}
    (h : M.Reachable s) (h' : M.Steps s as s') : M.Reachable s' := by
  obtain ⟨s₀, bs, hinit, hs⟩ := h
  exact ⟨s₀, bs ++ as, hinit, hs.trans h'⟩

theorem Reachable.unrestrict {M : Machine σ α} {guard : σ → α → Prop} {s : σ}
    (h : (M.restrict guard).Reachable s) : M.Reachable s := by
  obtain ⟨s₀, as, hinit, hs⟩ := h
  exact ⟨s₀, as, hinit, hs.unrestrict⟩

theorem Reachable.mono {M N : Machine σ α} {s : σ} (h : M.Reachable s)
    (hinit : ∀ s, M.Init s → N.Init s) (hstep : ∀ s a s', M.Step s a s' → N.Step s a s') :
    N.Reachable s := by
  obtain ⟨s₀, as, hs₀, hs⟩ := h
  refine ⟨s₀, as, hinit s₀ hs₀, ?_⟩
  clear hs₀
  induction hs with
  | nil s => exact Steps.nil s
  | cons first _ ih => exact Steps.cons (hstep _ _ _ first) ih

theorem Reachable.restrict_restrict {M : Machine σ α} {guard guard' : σ → α → Prop} {s : σ}
    (h : (M.restrict fun s a => guard s a ∧ guard' s a).Reachable s) :
    ((M.restrict guard).restrict guard').Reachable s :=
  h.mono (fun _ hinit => hinit) fun _ _ _ hstep => ⟨hstep.1.2, hstep.1.1, hstep.2⟩

/-- A property that holds at the start and is kept by every step. -/
structure Invariant (M : Machine σ α) (P : σ → Prop) : Prop where
  init : ∀ s, M.Init s → P s
  step : ∀ s a s', P s → M.Step s a s' → P s'

namespace Invariant

variable {M : Machine σ α} {P Q : σ → Prop}

theorem steps (h : M.Invariant P) {s s' : σ} {as : List α} (hs : M.Steps s as s')
    (hP : P s) : P s' :=
  hs.preserves h.step hP

theorem reachable (h : M.Invariant P) {s : σ} (hs : M.Reachable s) : P s := by
  obtain ⟨s₀, as, hinit, hrun⟩ := hs
  exact h.steps hrun (h.init s₀ hinit)

theorem restrict (h : M.Invariant P) (guard : σ → α → Prop) :
    (M.restrict guard).Invariant P where
  init := h.init
  step s a s' hP hstep := h.step s a s' hP hstep.2

/-- One invariant may rest on another. -/
theorem strengthen (h : M.Invariant P) (hinit : ∀ s, M.Init s → Q s)
    (hstep : ∀ s a s', P s → Q s → M.Step s a s' → Q s') :
    M.Invariant (fun s => P s ∧ Q s) where
  init s hs := ⟨h.init s hs, hinit s hs⟩
  step s a s' hPQ hs := ⟨h.step s a s' hPQ.1 hs, hstep s a s' hPQ.1 hPQ.2 hs⟩

end Invariant

theorem reachable_invariant (M : Machine σ α) : M.Invariant M.Reachable where
  init s hs := ⟨s, [], hs, Steps.nil s⟩
  step _ _ s' h hstep := h.steps (Steps.cons hstep (Steps.nil s'))

/-- Every step of `C` is matched, with its label, by a step of `A` between related states. -/
structure Simulation (C : Machine σ α) (A : Machine τ α) (rel : σ → τ → Prop) : Prop where
  init : ∀ s, C.Init s → ∃ t, A.Init t ∧ rel s t
  step : ∀ s t a s', rel s t → C.Step s a s' → ∃ t', A.Step t a t' ∧ rel s' t'

namespace Simulation

variable {C : Machine σ α} {A : Machine τ α} {rel : σ → τ → Prop}

theorem steps (h : Simulation C A rel) {s s' : σ} {t : τ} {as : List α}
    (hs : C.Steps s as s') (hrel : rel s t) : ∃ t', A.Steps t as t' ∧ rel s' t' := by
  induction hs generalizing t with
  | nil s => exact ⟨t, Steps.nil t, hrel⟩
  | cons first _ ih =>
    obtain ⟨t₁, hstep, hrel₁⟩ := h.step _ _ _ _ hrel first
    obtain ⟨t₂, hrest, hrel₂⟩ := ih hrel₁
    exact ⟨t₂, Steps.cons hstep hrest, hrel₂⟩

theorem reachable (h : Simulation C A rel) {s : σ} (hs : C.Reachable s) :
    ∃ t, A.Reachable t ∧ rel s t := by
  obtain ⟨s₀, as, hinit, hrun⟩ := hs
  obtain ⟨t₀, hinit', hrel⟩ := h.init s₀ hinit
  obtain ⟨t, hrun', hrel'⟩ := h.steps hrun hrel
  exact ⟨t, ⟨t₀, as, hinit', hrun'⟩, hrel'⟩

theorem strengthen (h : Simulation C A rel) {Q : τ → Prop} (hinit : ∀ t, A.Init t → Q t)
    (hstep : ∀ s t a s', rel s t → Q t → C.Step s a s' →
      ∃ t', A.Step t a t' ∧ rel s' t' ∧ Q t') :
    Simulation C A (fun s t => rel s t ∧ Q t) where
  init s hs := by
    obtain ⟨t, ht, hrel⟩ := h.init s hs
    exact ⟨t, ht, hrel, hinit t ht⟩
  step s t a s' hrel hs := hstep s t a s' hrel.1 hrel.2 hs

/-- Guards that related states agree on restrict both sides. -/
theorem restrict (h : Simulation C A rel) {guard : σ → α → Prop} {guard' : τ → α → Prop}
    (hguard : ∀ s t a, rel s t → guard s a → guard' t a) :
    Simulation (C.restrict guard) (A.restrict guard') rel where
  init := h.init
  step s t a s' hrel hs := by
    obtain ⟨t', hstep, hrel'⟩ := h.step s t a s' hrel hs.2
    exact ⟨t', ⟨hguard s t a hrel hs.1, hstep⟩, hrel'⟩

/-- The steps of `C` need only be matched where an invariant of `A` holds. -/
theorem of_invariant {P : τ → Prop} (hP : A.Invariant P)
    (hinit : ∀ s, C.Init s → ∃ t, A.Init t ∧ rel s t)
    (hstep : ∀ s t a s', rel s t → P t → C.Step s a s' → ∃ t', A.Step t a t' ∧ rel s' t') :
    Simulation C A (fun s t => rel s t ∧ P t) where
  init s hs := by
    obtain ⟨t, ht, hrel⟩ := hinit s hs
    exact ⟨t, ht, hrel, hP.init t ht⟩
  step s t a s' hrel hs := by
    obtain ⟨t', ht, hrel'⟩ := hstep s t a s' hrel.1 hrel.2 hs
    exact ⟨t', ht, hrel', hP.step t a t' hrel.2 ht⟩

end Simulation

section Runs

/-- The run with these labels, if each step is enabled and passes the guard. -/
def runWhile (next : σ → α → Option σ) (guard : σ → α → Bool) (s : σ) : List α → Option σ
  | [] => some s
  | a :: as =>
    if guard s a then (next s a).bind (fun s' => runWhile next guard s' as) else none

theorem steps_of_runWhile {M : Machine σ α} {next : σ → α → Option σ}
    (hM : ∀ s a s', next s a = some s' → M.Step s a s') {guard : σ → α → Bool}
    {G : σ → α → Prop} (hG : ∀ s a, guard s a = true → G s a) {s s' : σ} {as : List α}
    (h : runWhile next guard s as = some s') : (M.restrict G).Steps s as s' := by
  induction as generalizing s with
  | nil =>
    obtain rfl : s = s' := by simpa [runWhile] using h
    exact Steps.nil s
  | cons a as ih =>
    unfold runWhile at h
    split at h
    · rename_i hg
      obtain ⟨mid, hmid, hrest⟩ := Option.bind_eq_some_iff.mp h
      exact Steps.cons ⟨hG s a hg, hM s a mid hmid⟩ (ih hrest)
    · cases h

theorem steps_of_run {M : Machine σ α} {next : σ → α → Option σ}
    (hM : ∀ s a s', next s a = some s' → M.Step s a s') {guard : σ → α → Bool} {s s' : σ}
    {as : List α} (h : runWhile next guard s as = some s') : M.Steps s as s' :=
  (steps_of_runWhile (G := fun _ _ => True) hM (fun _ _ _ => trivial) h).unrestrict

end Runs

end Machine

end Bankie.Transition
