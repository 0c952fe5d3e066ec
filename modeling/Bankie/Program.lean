import Mathlib.Data.Nat.Notation

/-!
Programs that work through calls to stores they do not own.
A program is a tree: it is done, or it makes a call and continues with the reply.
The same tree gives the run of a program alone, its single steps between those of
other programs, and the rules by which a postcondition is proved of it.
-/
namespace Bankie.Program

/-- How a piece of code ends: with a value, with an error message, or by a panic. -/
inductive Outcome (α : Type) where
  | ok (value : α)
  | err (message : String)
  | panic (message : String)
  deriving DecidableEq

namespace Outcome

variable {α β γ : Type}

def bind : Outcome α → (α → Outcome β) → Outcome β
  | .ok a, f => f a
  | .err e, _ => .err e
  | .panic e, _ => .panic e

instance : Monad Outcome where
  pure := .ok
  bind := bind

@[simp] theorem pure_eq (a : α) : (pure a : Outcome α) = .ok a := rfl

@[simp] theorem ok_bind (a : α) (f : α → Outcome β) : (Outcome.ok a >>= f) = f a := rfl

@[simp] theorem err_bind (e : String) (f : α → Outcome β) :
    (Outcome.err e >>= f) = .err e := rfl

@[simp] theorem panic_bind (e : String) (f : α → Outcome β) :
    (Outcome.panic e >>= f) = .panic e := rfl

instance : LawfulMonad Outcome := LawfulMonad.mk' Outcome
  (fun x => by cases x <;> rfl) (fun _ _ => rfl) (fun x _ _ => by cases x <;> rfl)

/-- A value that must be there: its absence is a panic. -/
def unwrap (message : String) : Option α → Outcome α
  | some a => .ok a
  | none => .panic message

def IsPanic : Outcome α → Prop
  | .panic _ => True
  | _ => False

def toOption : Outcome α → Option α
  | .ok a => some a
  | _ => none

theorem toOption_eq_some {x : Outcome α} {a : α} (h : x.toOption = some a) : x = .ok a := by
  cases x with
  | ok b => rw [Option.some.inj h]
  | err e => cases h
  | panic e => cases h

theorem not_isPanic_bind {x : Outcome α} {f : α → Outcome β} (hx : ¬ x.IsPanic)
    (hf : ∀ a, ¬ (f a).IsPanic) : ¬ (x >>= f).IsPanic := by
  cases x with
  | ok a => exact hf a
  | err e => exact id
  | panic e => exact absurd trivial hx

theorem not_isPanic_ite {c : Prop} [Decidable c] {x y : Outcome α} (hx : ¬ x.IsPanic)
    (hy : ¬ y.IsPanic) : ¬ (if c then x else y).IsPanic := by
  split
  · exact hx
  · exact hy

theorem bind_eq_ok {x : Outcome α} {f : α → Outcome β} {b : β} :
    (x >>= f) = .ok b ↔ ∃ a, x = .ok a ∧ f a = .ok b := by
  cases x <;> simp

theorem ite_err_eq_ok {c : Prop} [Decidable c] {e : String} {x : Outcome α} {a : α} :
    (if c then .err e else x) = .ok a ↔ ¬ c ∧ x = .ok a := by
  by_cases hc : c <;> simp [hc]

/-- Two folds that agree on each element end in related states, or both stop at one and the
same element. -/
theorem foldlM_together {σ τ : Type} {R : σ → τ → Prop} {f : σ → α → Outcome σ}
    {g : τ → α → Outcome τ} {message : String}
    (hstep : ∀ s t a, R s t → (∃ s' t', f s a = .ok s' ∧ g t a = .ok t' ∧ R s' t') ∨
      f s a = .panic message ∧ g t a = .panic message)
    (as : List α) {s : σ} {t : τ} (h : R s t) :
    (∃ s' t', as.foldlM f s = .ok s' ∧ as.foldlM g t = .ok t' ∧ R s' t') ∨
      ∃ before a after s' t', as = before ++ a :: after ∧ before.foldlM f s = .ok s' ∧
        before.foldlM g t = .ok t' ∧ f s' a = .panic message ∧ g t' a = .panic message := by
  induction as generalizing s t with
  | nil => exact Or.inl ⟨s, t, rfl, rfl, h⟩
  | cons a as ih =>
    rcases hstep s t a h with ⟨s₁, t₁, hf, hg, h₁⟩ | ⟨hf, hg⟩
    · rw [List.foldlM_cons, List.foldlM_cons, hf, hg, ok_bind, ok_bind]
      rcases ih h₁ with hend | ⟨before, b, after, s', t', rfl, hs', ht', hfb, hgb⟩
      · exact Or.inl hend
      · refine Or.inr ⟨a :: before, b, after, s', t', rfl, ?_, ?_, hfb, hgb⟩
        · rw [List.foldlM_cons, hf, ok_bind, hs']
        · rw [List.foldlM_cons, hg, ok_bind, ht']
    · exact Or.inr ⟨[], a, as, s, t, rfl, rfl, rfl, hf, hg⟩

end Outcome

/-- A program with calls from `C`, where `R c` is the type of a successful reply to `c`.
A call that fails hands its error message to the continuation. -/
inductive Prog (C : Type) (R : C → Type) (α : Type) where
  | done (result : Outcome α)
  | call (c : C) (next : Except String (R c) → Prog C R α)

namespace Prog

variable {C : Type} {R : C → Type} {α β : Type}

def bind : Prog C R α → (α → Prog C R β) → Prog C R β
  | .done (.ok a), f => f a
  | .done (.err e), _ => .done (.err e)
  | .done (.panic e), _ => .done (.panic e)
  | .call c k, f => .call c (fun r => (k r).bind f)

instance : Monad (Prog C R) where
  pure a := .done (.ok a)
  bind := bind

/-- Continue with `h` where the program ends in an error. -/
def rescue : Prog C R α → (String → Prog C R α) → Prog C R α
  | .done (.ok a), _ => .done (.ok a)
  | .done (.err e), h => h e
  | .done (.panic e), _ => .done (.panic e)
  | .call c k, h => .call c (fun r => (k r).rescue h)

def fail (message : String) : Prog C R α := .done (.err message)

def lift (x : Outcome α) : Prog C R α := .done x

def perform (c : C) : Prog C R (R c) :=
  .call c fun
    | .ok a => .done (.ok a)
    | .error e => .done (.err e)

/-- Make one call and panic where it fails. -/
def performUnwrap (c : C) : Prog C R (R c) :=
  .call c fun
    | .ok a => .done (.ok a)
    | .error e => .done (.panic e)

def mapErr (f : String → String) (p : Prog C R α) : Prog C R α :=
  p.rescue (fun e => fail (f e))

def attempt (p : Prog C R α) : Prog C R (Except String α) :=
  (p.bind (fun a => .done (.ok (Except.ok a)))).rescue (fun e => .done (.ok (.error e)))

@[simp] theorem pure_eq (a : α) : (pure a : Prog C R α) = .done (.ok a) := rfl

@[simp] theorem bind_eq (p : Prog C R α) (f : α → Prog C R β) : (p >>= f) = p.bind f := rfl

@[simp] theorem done_ok_bind (a : α) (f : α → Prog C R β) :
    (Prog.done (.ok a)).bind f = f a := rfl

@[simp] theorem done_err_bind (e : String) (f : α → Prog C R β) :
    (Prog.done (.err e)).bind f = .done (.err e) := rfl

@[simp] theorem done_panic_bind (e : String) (f : α → Prog C R β) :
    (Prog.done (.panic e)).bind f = .done (.panic e) := rfl

@[simp] theorem call_bind (c : C) (k : Except String (R c) → Prog C R α)
    (f : α → Prog C R β) : (Prog.call c k).bind f = .call c (fun r => (k r).bind f) := rfl

theorem bind_assoc {γ : Type} (p : Prog C R α) (f : α → Prog C R β) (g : β → Prog C R γ) :
    (p.bind f).bind g = p.bind (fun a => (f a).bind g) := by
  induction p with
  | done r => cases r <;> rfl
  | call c k ih =>
    rw [call_bind, call_bind, call_bind]
    congr 1
    funext r
    exact ih r

def Stopped : Prog C R α → Prop
  | .done _ => True
  | .call _ _ => False

instance (p : Prog C R α) : Decidable p.Stopped :=
  match p with
  | .done _ => .isTrue trivial
  | .call _ _ => .isFalse id

def result : Prog C R α → Option (Outcome α)
  | .done r => some r
  | .call _ _ => none

theorem result_eq_some {p : Prog C R α} {r : Outcome α} (h : p.result = some r) : p = .done r := by
  cases p with
  | done r' => rw [Option.some.inj h]
  | call c k => cases h

def nextCall : Prog C R α → Option C
  | .done _ => none
  | .call c _ => some c

/-- The program left after a call, from the outcome of that call. -/
def resume {c : C} (k : Except String (R c) → Prog C R α) : Outcome (R c) → Prog C R α
  | .ok a => k (.ok a)
  | .err e => k (.error e)
  | .panic e => .done (.panic e)

/-- The program makes the call `c`, and goes on with `next` or with `failed`. -/
def Calls (p : Prog C R α) (c : C) (next : R c → Prog C R α) (failed : String → Prog C R α) :
    Prop :=
  ∃ k, p = .call c k ∧ (∀ a, k (.ok a) = next a) ∧ ∀ e, k (.error e) = failed e

theorem Calls.ne_done {p : Prog C R α} {c : C} {next : R c → Prog C R α}
    {failed : String → Prog C R α} (h : p.Calls c next failed) (r : Outcome α) : p ≠ .done r := by
  obtain ⟨k, rfl, -⟩ := h
  intro hdone
  cases hdone

theorem Calls.nextCall {p : Prog C R α} {c : C} {next : R c → Prog C R α}
    {failed : String → Prog C R α} (h : p.Calls c next failed) : p.nextCall = some c := by
  obtain ⟨k, rfl, -⟩ := h
  rfl

section Semantics

variable {ω σ : Type}

/-- One call against the store `s`. The oracle `o` settles what the store does not:
whether the call fails, and what the clock shows. -/
def step (exec : (c : C) → ω → σ → Outcome (R c) × σ) (o : ω) :
    Prog C R α → σ → Option (Prog C R α × σ)
  | .done _, _ => none
  | .call c k, s => some (resume k (exec c o s).1, (exec c o s).2)

/-- The whole run of a program alone, with one oracle for each call. -/
def run (exec : (c : C) → ω → σ → Outcome (R c) × σ) :
    Prog C R α → (ℕ → ω) → σ → Outcome α × σ
  | .done r, _, s => (r, s)
  | .call c k, os, s =>
    match exec c (os 0) s with
    | (.ok a, s') => (k (.ok a)).run exec (fun n => os (n + 1)) s'
    | (.err e, s') => (k (.error e)).run exec (fun n => os (n + 1)) s'
    | (.panic e, s') => (.panic e, s')

/-- The calls of the whole run in order, each with its oracle. -/
def trace (exec : (c : C) → ω → σ → Outcome (R c) × σ) :
    Prog C R α → (ℕ → ω) → σ → List (C × ω)
  | .done _, _, _ => []
  | .call c k, os, s => (c, os 0) ::
    match exec c (os 0) s with
    | (.ok a, s') => (k (.ok a)).trace exec (fun n => os (n + 1)) s'
    | (.err e, s') => (k (.error e)).trace exec (fun n => os (n + 1)) s'
    | (.panic _, _) => []

/-- Every run of the program from `s`, with oracles from `O`, ends in `Q`. -/
def wp (exec : (c : C) → ω → σ → Outcome (R c) × σ) (O : ω → Prop) :
    Prog C R α → (Outcome α → σ → Prop) → σ → Prop
  | .done r, Q, s => Q r s
  | .call c k, Q, s => ∀ o, O o →
    match exec c o s with
    | (.ok a, s') => (k (.ok a)).wp exec O Q s'
    | (.err e, s') => (k (.error e)).wp exec O Q s'
    | (.panic e, s') => Q (.panic e) s'

variable {exec : (c : C) → ω → σ → Outcome (R c) × σ} {O : ω → Prop}

/-- What a step can do, by the outcome of its call. -/
theorem Calls.step {p p' : Prog C R α} {c : C} {next : R c → Prog C R α}
    {failed : String → Prog C R α} (h : p.Calls c next failed) {o : ω} {s s' : σ}
    (hstep : p.step exec o s = some (p', s')) :
    (∃ a, exec c o s = (.ok a, s') ∧ p' = next a) ∨
      (∃ e, exec c o s = (.err e, s') ∧ p' = failed e) ∨
        ∃ e, exec c o s = (.panic e, s') ∧ p' = .done (.panic e) := by
  obtain ⟨k, rfl, hok, herr⟩ := h
  simp only [Prog.step, Option.some.injEq, Prod.mk.injEq] at hstep
  obtain ⟨rfl, rfl⟩ := hstep
  generalize exec c o s = r
  obtain ⟨r, s'⟩ := r
  cases r with
  | ok a => exact Or.inl ⟨a, rfl, hok a⟩
  | err e => exact Or.inr (Or.inl ⟨e, rfl, herr e⟩)
  | panic e => exact Or.inr (Or.inr ⟨e, rfl, rfl⟩)

theorem Calls.run {p : Prog C R α} {c : C} {next : R c → Prog C R α}
    {failed : String → Prog C R α} (h : p.Calls c next failed) (os : ℕ → ω) (s : σ) :
    p.run exec os s = match exec c (os 0) s with
      | (.ok a, s') => (next a).run exec (fun n => os (n + 1)) s'
      | (.err e, s') => (failed e).run exec (fun n => os (n + 1)) s'
      | (.panic e, s') => (.panic e, s') := by
  obtain ⟨k, rfl, hok, herr⟩ := h
  rw [Prog.run]
  generalize exec c (os 0) s = r
  obtain ⟨r, s'⟩ := r
  cases r with
  | ok a => simp only [hok]
  | err e => simp only [herr]
  | panic e => rfl

theorem Calls.run_ok {p : Prog C R α} {c : C} {next : R c → Prog C R α}
    {failed : String → Prog C R α} (h : p.Calls c next failed) (os : ℕ → ω) {s s' : σ} {a : R c}
    (hexec : exec c (os 0) s = (.ok a, s')) :
    p.run exec os s = (next a).run exec (fun n => os (n + 1)) s' ∧
      p.trace exec os s = (c, os 0) :: (next a).trace exec (fun n => os (n + 1)) s' := by
  obtain ⟨k, rfl, hok, -⟩ := h
  simp only [Prog.run, trace, hexec, hok, and_self]

theorem Calls.run_err {p : Prog C R α} {c : C} {next : R c → Prog C R α}
    {failed : String → Prog C R α} (h : p.Calls c next failed) (os : ℕ → ω) {s s' : σ}
    {e : String} (hexec : exec c (os 0) s = (.err e, s')) :
    p.run exec os s = (failed e).run exec (fun n => os (n + 1)) s' ∧
      p.trace exec os s = (c, os 0) :: (failed e).trace exec (fun n => os (n + 1)) s' := by
  obtain ⟨k, rfl, -, herr⟩ := h
  simp only [Prog.run, trace, hexec, herr, and_self]

theorem Calls.trace_head {p : Prog C R α} {c : C} {next : R c → Prog C R α}
    {failed : String → Prog C R α} (h : p.Calls c next failed) (os : ℕ → ω) (s : σ) :
    (c, os 0) ∈ p.trace exec os s := by
  obtain ⟨k, rfl, -⟩ := h
  rw [trace]
  exact List.mem_cons_self

theorem trace_oracle {p : Prog C R α} {os : ℕ → ω} {s : σ} {e : C × ω}
    (h : e ∈ p.trace exec os s) : ∃ n, e.2 = os n := by
  induction p generalizing os s with
  | done r => cases h
  | call c k ih =>
    rw [trace] at h
    rcases List.mem_cons.mp h with rfl | hrest
    · exact ⟨0, rfl⟩
    · generalize exec c (os 0) s = r at hrest
      obtain ⟨r, s'⟩ := r
      cases r with
      | ok a =>
        obtain ⟨n, hn⟩ := ih _ hrest
        exact ⟨n + 1, hn⟩
      | err e =>
        obtain ⟨n, hn⟩ := ih _ hrest
        exact ⟨n + 1, hn⟩
      | panic e => cases hrest

/-- A program whose errors are caught steps as it would without. -/
theorem rescue_step {p p' : Prog C R α} {o : ω} {s s' : σ}
    (h : p.step exec o s = some (p', s')) (handler : String → Prog C R α) :
    (p.rescue handler).step exec o s = some (p'.rescue handler, s') := by
  cases p with
  | done r => cases h
  | call c k =>
    simp only [step, Option.some.injEq, Prod.mk.injEq] at h
    obtain ⟨rfl, rfl⟩ := h
    rw [rescue, step]
    cases (exec c o s).1 <;> rfl

theorem rescue_nextCall {p p' : Prog C R α} {o : ω} {s s' : σ}
    (h : p.step exec o s = some (p', s')) (handler : String → Prog C R α) :
    (p.rescue handler).nextCall = p.nextCall := by
  cases p with
  | done r => cases h
  | call c k => rfl

theorem wp_run {p : Prog C R α} {Q : Outcome α → σ → Prop} {s : σ} {os : ℕ → ω}
    (h : p.wp exec O Q s) (hos : ∀ n, O (os n)) :
    Q (p.run exec os s).1 (p.run exec os s).2 := by
  induction p generalizing os s with
  | done r => exact h
  | call c k ih =>
    have hc := h (os 0) (hos 0)
    have hos' : ∀ n, O (os (n + 1)) := fun n => hos (n + 1)
    simp only [run]
    split at hc
    · exact ih _ hc hos'
    · exact ih _ hc hos'
    · exact hc

/-- Sequencing: the postcondition of the first program is the precondition of the rest. -/
theorem wp_bind {p : Prog C R α} {f : α → Prog C R β} {Q : Outcome β → σ → Prop} {s : σ}
    (h : p.wp exec O (fun r s' => match r with
      | .ok a => (f a).wp exec O Q s'
      | .err e => Q (.err e) s'
      | .panic e => Q (.panic e) s') s) :
    (p.bind f).wp exec O Q s := by
  induction p generalizing s with
  | done r => cases r <;> exact h
  | call c k ih =>
    intro o ho
    have hc := h o ho
    split at hc
    · exact ih _ hc
    · exact ih _ hc
    · exact hc

theorem wp_rescue {p : Prog C R α} {h : String → Prog C R α} {Q : Outcome α → σ → Prop} {s : σ}
    (hp : p.wp exec O (fun r s' => match r with
      | .ok a => Q (.ok a) s'
      | .err e => (h e).wp exec O Q s'
      | .panic e => Q (.panic e) s') s) :
    (p.rescue h).wp exec O Q s := by
  induction p generalizing s with
  | done r => cases r <;> exact hp
  | call c k ih =>
    intro o ho
    have hc := hp o ho
    split at hc
    · exact ih _ hc
    · exact ih _ hc
    · exact hc

theorem wp_perform {c : C} {Q : Outcome (R c) → σ → Prop} {s : σ}
    (h : ∀ o, O o → Q (exec c o s).1 (exec c o s).2) : (perform c).wp exec O Q s := by
  intro o ho
  have hc := h o ho
  generalize exec c o s = r at hc ⊢
  obtain ⟨r, s'⟩ := r
  cases r <;> exact hc

theorem wp_mapErr {p : Prog C R α} {f : String → String} {Q : Outcome α → σ → Prop} {s : σ}
    (h : p.wp exec O (fun r s' => match r with
      | .ok a => Q (.ok a) s'
      | .err e => Q (.err (f e)) s'
      | .panic e => Q (.panic e) s') s) :
    (p.mapErr f).wp exec O Q s :=
  wp_rescue h

end Semantics

end Prog

end Bankie.Program
