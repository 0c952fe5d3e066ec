import Bankie.Program
import Mathlib.Data.Option.Basic
import Mathlib.Data.List.Forall2

/-!
One program over two stores.
Either store answers the calls, and the two answers to a call are alike without being the same.
A program that does not tell alike answers apart makes the same calls on both stores, and stores
that are related stay related.
-/
namespace Bankie.Program

namespace Outcome

variable {α α' β β' : Type}

/-- Two outcomes with related values, or with the same message. -/
inductive Related (R : α → β → Prop) : Outcome α → Outcome β → Prop where
  | ok {a : α} {b : β} (h : R a b) : Related R (.ok a) (.ok b)
  | err (e : String) : Related R (.err e) (.err e)
  | panic (e : String) : Related R (.panic e) (.panic e)

theorem Related.refl {R : α → α → Prop} (hR : ∀ a, R a a) (x : Outcome α) : Related R x x := by
  cases x with
  | ok a => exact Related.ok (hR a)
  | err e => exact Related.err e
  | panic e => exact Related.panic e

theorem Related.bind {R : α → β → Prop} {S : α' → β' → Prop} {x : Outcome α} {y : Outcome β}
    (h : Related R x y) {f : α → Outcome α'} {g : β → Outcome β'}
    (hfg : ∀ a b, R a b → Related S (f a) (g b)) : Related S (x >>= f) (y >>= g) := by
  cases h with
  | ok h => exact hfg _ _ h
  | err e => exact Related.err e
  | panic e => exact Related.panic e

theorem Related.ite {R : α → β → Prop} {c : Prop} [Decidable c] {x x' : Outcome α}
    {y y' : Outcome β} (h : Related R x y) (h' : Related R x' y') :
    Related R (if c then x else x') (if c then y else y') := by
  split
  · exact h
  · exact h'

theorem Related.foldlM {R : α → β → Prop} {γ : Type} {f : α → γ → Outcome α}
    {g : β → γ → Outcome β} (hfg : ∀ a b c, R a b → Related R (f a c) (g b c)) (cs : List γ)
    {a : α} {b : β} (h : R a b) : Related R (cs.foldlM f a) (cs.foldlM g b) := by
  induction cs generalizing a b with
  | nil => exact Related.ok h
  | cons c cs ih =>
    rw [List.foldlM_cons, List.foldlM_cons]
    exact (hfg a b c h).bind fun a' b' h' => ih h'

end Outcome

namespace Prog

variable {C : Type} {R : C → Type} {α β : Type} {alike : (c : C) → R c → R c → Prop}

/-- The program goes on the same from answers that are alike. -/
def Steady (alike : (c : C) → R c → R c → Prop) : Prog C R α → Prop
  | .done _ => True
  | .call c k => (∀ a a', alike c a a' → k (.ok a) = k (.ok a')) ∧ ∀ r, (k r).Steady alike

theorem steady_done (x : Outcome α) : (Prog.done x : Prog C R α).Steady alike := trivial

theorem Steady.bind {p : Prog C R α} (hp : p.Steady alike) {f : α → Prog C R β}
    (hf : ∀ a, (f a).Steady alike) : (p.bind f).Steady alike := by
  induction p with
  | done x =>
    cases x with
    | ok a => exact hf a
    | err e => exact steady_done _
    | panic e => exact steady_done _
  | call c k ih =>
    obtain ⟨hk, hrest⟩ := hp
    exact ⟨fun a a' h => congrArg (fun q => q.bind f) (hk a a' h), fun r => ih r (hrest r)⟩

theorem Steady.rescue {p : Prog C R α} (hp : p.Steady alike) {handler : String → Prog C R α}
    (hhandler : ∀ e, (handler e).Steady alike) : (p.rescue handler).Steady alike := by
  induction p with
  | done x =>
    cases x with
    | ok a => exact steady_done _
    | err e => exact hhandler e
    | panic e => exact steady_done _
  | call c k ih =>
    obtain ⟨hk, hrest⟩ := hp
    exact ⟨fun a a' h => congrArg (fun q => q.rescue handler) (hk a a' h),
      fun r => ih r (hrest r)⟩

theorem Steady.mapErr {p : Prog C R α} (hp : p.Steady alike) (f : String → String) :
    (p.mapErr f).Steady alike :=
  hp.rescue fun _ => steady_done _

theorem Steady.attempt {p : Prog C R α} (hp : p.Steady alike) : p.attempt.Steady alike :=
  (hp.bind fun _ => steady_done _).rescue fun _ => steady_done _

theorem steady_perform {c : C} (hc : ∀ a a', alike c a a' → a = a') :
    (perform c : Prog C R (R c)).Steady alike :=
  ⟨fun a a' h => by rw [hc a a' h], fun r => by cases r <;> exact steady_done _⟩

theorem steady_performUnwrap {c : C} (hc : ∀ a a', alike c a a' → a = a') :
    (performUnwrap c : Prog C R (R c)).Steady alike :=
  ⟨fun a a' h => by rw [hc a a' h], fun r => by cases r <;> exact steady_done _⟩

/-- One step over both stores: the same program is left, over related stores. -/
theorem Steady.step {ω σ τ : Type} {exec : (c : C) → ω → σ → Outcome (R c) × σ}
    {exec' : (c : C) → ω → τ → Outcome (R c) × τ} {rel : σ → τ → Prop}
    (hexec : ∀ c o s t, rel s t →
      Outcome.Related (alike c) (exec c o s).1 (exec' c o t).1 ∧
        rel (exec c o s).2 (exec' c o t).2)
    {p : Prog C R α} (hp : p.Steady alike) (o : ω) {s : σ} {t : τ} (h : rel s t) :
    Option.Rel (fun x y => x.1 = y.1 ∧ x.1.Steady alike ∧ rel x.2 y.2)
      (p.step exec o s) (p.step exec' o t) := by
  cases p with
  | done x => exact Option.Rel.none
  | call c k =>
    obtain ⟨hk, hrest⟩ := hp
    obtain ⟨hreply, hrel⟩ := hexec c o s t h
    refine Option.Rel.some ⟨?_, ?_, hrel⟩
    · change resume k (exec c o s).1 = resume k (exec' c o t).1
      generalize (exec c o s).1 = x at hreply
      generalize (exec' c o t).1 = y at hreply
      cases hreply with
      | ok ha => exact hk _ _ ha
      | err e => rfl
      | panic e => rfl
    · change (resume k (exec c o s).1).Steady alike
      cases (exec c o s).1 with
      | ok a => exact hrest _
      | err e => exact hrest _
      | panic e => exact steady_done _

end Prog

end Bankie.Program
