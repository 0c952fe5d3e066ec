import Mathlib.Data.Nat.Notation

/-!
Lists split into words.
A word is a longest run without a separator, so the gaps between words do not matter: a list
made of two words with gaps around them splits into just these two.
-/
namespace Bankie

variable {α : Type} {p : α → Bool}

/-- The runs between separators, without the empty ones. -/
def words (p : α → Bool) (l : List α) : List (List α) :=
  (l.splitOnP p).filter (fun w => !w.isEmpty)

/-- A nonempty list without a separator. -/
structure IsWord (p : α → Bool) (w : List α) : Prop where
  ne_nil : w ≠ []
  inside : ∀ x ∈ w, p x = false

theorem words_nil : words p ([] : List α) = [] := rfl

theorem words_gap_append {gap : List α} (hgap : ∀ x ∈ gap, p x = true) (l : List α) :
    words p (gap ++ l) = words p l := by
  induction gap with
  | nil => rfl
  | cons x gap ih =>
    have hx : p x = true := hgap x List.mem_cons_self
    have hskip : words p (x :: (gap ++ l)) = words p (gap ++ l) := by
      rw [words, List.splitOnP_cons_eq_if_modifyHead, if_pos hx]
      rfl
    rw [List.cons_append, hskip]
    exact ih fun y hy => hgap y (List.mem_cons_of_mem _ hy)

theorem IsWord.words_append_gap {w : List α} (hw : IsWord p w) {gap : List α}
    (hgap : ∀ x ∈ gap, p x = true) (hne : gap ≠ []) (l : List α) :
    words p (w ++ (gap ++ l)) = w :: words p l := by
  obtain ⟨x, gap, rfl⟩ := List.exists_cons_of_ne_nil hne
  have hx : p x = true := hgap x List.mem_cons_self
  rw [List.cons_append, words, List.splitOnP_append_cons_of_forall_mem hw.inside x hx,
    List.filter_cons_of_pos (by simpa using hw.ne_nil)]
  exact congrArg (w :: ·)
    (words_gap_append (fun y hy => hgap y (List.mem_cons_of_mem _ hy)) l)

theorem IsWord.words_eq {w : List α} (hw : IsWord p w) : words p w = [w] := by
  rw [words, List.splitOnP_eq_singleton hw.inside]
  exact List.filter_cons_of_pos (by simpa using hw.ne_nil)

/-- Two words with gaps around them. -/
theorem words_pair {a b before gap after : List α} (ha : IsWord p a) (hb : IsWord p b)
    (hbefore : ∀ x ∈ before, p x = true) (hgap : ∀ x ∈ gap, p x = true) (hne : gap ≠ [])
    (hafter : ∀ x ∈ after, p x = true) :
    words p (before ++ (a ++ (gap ++ (b ++ after)))) = [a, b] := by
  rw [words_gap_append hbefore, ha.words_append_gap hgap hne]
  by_cases hend : after = []
  · rw [hend, List.append_nil, hb.words_eq]
  · have hlast := hb.words_append_gap hafter hend []
    rw [List.append_nil] at hlast
    rw [hlast, words_nil]

end Bankie
