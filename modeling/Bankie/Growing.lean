import Mathlib.Data.List.Forall2

/-!
Tables that only grow, and readers that page through them.
A row may change where it stands, and new rows come at the end. A reader that asks for the
newest rows first, one page after the other, meets rows that have moved back in the meantime:
it may see a row twice, but it misses none of those that were there when it began. A reader of a
log sees longer and longer beginnings of it.
-/
namespace Bankie.Growing

variable {α : Type} {R : α → α → Prop} {l l' l'' : List α}

/-- The rows of the earlier table stand at their places in the later one, and each of them has
changed as `R` allows. -/
inductive Kept (R : α → α → Prop) : List α → List α → Prop where
  | new (l : List α) : Kept R [] l
  | row {x y : α} {l l' : List α} (hxy : R x y) (hrest : Kept R l l') : Kept R (x :: l) (y :: l')

namespace Kept

theorem append (hrefl : ∀ x, R x x) (l new : List α) : Kept R l (l ++ new) := by
  induction l with
  | nil => exact Kept.new new
  | cons x l ih => exact Kept.row (hrefl x) ih

theorem refl (hrefl : ∀ x, R x x) (l : List α) : Kept R l l := by
  simpa using Kept.append hrefl l []

theorem map {f : α → α} (hf : ∀ x, R x (f x)) (l : List α) : Kept R l (l.map f) := by
  induction l with
  | nil => exact Kept.new []
  | cons x l ih => exact Kept.row (hf x) ih

theorem trans (htrans : ∀ x y z, R x y → R y z → R x z) (h : Kept R l l') (h' : Kept R l' l'') :
    Kept R l l'' := by
  induction h generalizing l'' with
  | new l => exact Kept.new l''
  | row hxy _ ih =>
    cases h' with
    | row hyz hrest => exact Kept.row (htrans _ _ _ hxy hyz) (ih hrest)

theorem filter {p : α → Bool} (hp : ∀ x y, R x y → p x = p y) (h : Kept R l l') :
    Kept R (l.filter p) (l'.filter p) := by
  induction h with
  | new l => exact Kept.new _
  | row hxy _ ih =>
    rename_i x y l l' hrest
    cases hx : p x with
    | true =>
      rw [List.filter_cons_of_pos hx, List.filter_cons_of_pos ((hp x y hxy).symm.trans hx)]
      exact Kept.row hxy ih
    | false =>
      rw [List.filter_cons_of_neg (by simp [hx]),
        List.filter_cons_of_neg (by simp [← hp x y hxy, hx])]
      exact ih

theorem getElem? (h : Kept R l l') {i : ℕ} {x : α} (hi : l[i]? = some x) :
    ∃ y, l'[i]? = some y ∧ R x y := by
  induction h generalizing i with
  | new l => cases hi
  | row hxy _ ih =>
    cases i with
    | zero =>
      obtain rfl := Option.some.inj hi
      exact ⟨_, rfl, hxy⟩
    | succ i => exact ih hi

theorem length_le (h : Kept R l l') : l.length ≤ l'.length := by
  induction h with
  | new l => exact Nat.zero_le _
  | row _ _ ih => exact Nat.succ_le_succ ih

end Kept

section Pages

def page (offset limit : ℕ) (l : List α) : List α := (l.reverse.drop offset).take limit

theorem mem_page {offset limit i : ℕ} {x : α} (hi : l[i]? = some x)
    (hlow : offset ≤ l.length - 1 - i) (hhigh : l.length - 1 - i < offset + limit) :
    x ∈ page offset limit l := by
  obtain ⟨hlt, -⟩ := List.getElem?_eq_some_iff.mp hi
  have hrev : l.reverse[l.length - 1 - i]? = some x := by
    rw [List.getElem?_reverse (by omega), show l.length - 1 - (l.length - 1 - i) = i by omega]
    exact hi
  obtain ⟨j, hj⟩ := Nat.exists_eq_add_of_le hlow
  refine List.mem_iff_getElem?.mpr ⟨j, ?_⟩
  rw [page, List.getElem?_take_of_lt (by omega), List.getElem?_drop, ← hj]
  exact hrev

theorem mem_of_mem_page {offset limit : ℕ} {x : α} (h : x ∈ page offset limit l) : x ∈ l :=
  List.mem_reverse.mp (List.mem_of_mem_drop (List.mem_of_mem_take h))

/-- The pages of one table, put together, are the table from its newest row on. -/
theorem flatMap_page (limit k : ℕ) (l : List α) :
    (List.range k).flatMap (fun n => page (n * limit) limit l) = l.reverse.take (k * limit) := by
  induction k with
  | zero => simp
  | succ k ih =>
    rw [List.range_succ, List.flatMap_append, ih, List.flatMap_singleton, page,
      Nat.succ_mul, List.take_add]

/-- A row that was there at the start has moved back by as many rows as came after it, and so
is never ahead of the page that is read. -/
theorem page_or_behind (hrefl : ∀ x, R x x) (htrans : ∀ x y z, R x y → R y z → R x z)
    {tables : ℕ → List α} {limit i : ℕ} {x : α} (hi : (tables 0)[i]? = some x) {k : ℕ}
    (hkept : ∀ n < k, Kept R (tables n) (tables (n + 1))) :
    Kept R (tables 0) (tables k) ∧
      ((∃ n ≤ k, ∃ y ∈ page (n * limit) limit (tables n), R x y) ∨
        i < (tables k).length ∧ (k + 1) * limit ≤ (tables k).length - 1 - i) := by
  have hshown : ∀ n, Kept R (tables 0) (tables n) → n * limit ≤ (tables n).length - 1 - i →
      (∃ y ∈ page (n * limit) limit (tables n), R x y) ∨
        i < (tables n).length ∧ (n + 1) * limit ≤ (tables n).length - 1 - i := by
    intro n hstart hlow
    obtain ⟨y, hy, hxy⟩ := hstart.getElem? hi
    obtain ⟨hlt, -⟩ := List.getElem?_eq_some_iff.mp hy
    by_cases hhigh : (tables n).length - 1 - i < n * limit + limit
    · exact Or.inl ⟨y, mem_page hy hlow hhigh, hxy⟩
    · rw [Nat.succ_mul]
      exact Or.inr ⟨hlt, Nat.le_of_not_lt hhigh⟩
  induction k with
  | zero =>
    refine ⟨Kept.refl hrefl _, ?_⟩
    rcases hshown 0 (Kept.refl hrefl _) (by omega) with hpage | hbehind
    · exact Or.inl ⟨0, Nat.le_refl 0, hpage⟩
    · exact Or.inr hbehind
  | succ k ih =>
    obtain ⟨hstart, hread⟩ := ih fun n hn => hkept n (Nat.lt_succ_of_lt hn)
    have hlast := hkept k (Nat.lt_succ_self k)
    have hstart' := hstart.trans htrans hlast
    refine ⟨hstart', ?_⟩
    rcases hread with ⟨n, hn, hpage⟩ | ⟨hlt, hbehind⟩
    · exact Or.inl ⟨n, Nat.le_succ_of_le hn, hpage⟩
    · have hlength := hlast.length_le
      rcases hshown (k + 1) hstart' (by omega) with hpage | hbehind'
      · exact Or.inl ⟨k + 1, Nat.le_refl _, hpage⟩
      · exact Or.inr hbehind'

/-- A reader that stops at the first short page has seen every row that was there when it
began, however the table grew between the pages. -/
theorem pages_complete (hrefl : ∀ x, R x x) (htrans : ∀ x y z, R x y → R y z → R x z)
    (tables : ℕ → List α) {limit k : ℕ} (hkept : ∀ n < k, Kept R (tables n) (tables (n + 1)))
    (hshort : (page (k * limit) limit (tables k)).length < limit) {x : α} (hx : x ∈ tables 0) :
    ∃ n ≤ k, ∃ y ∈ page (n * limit) limit (tables n), R x y := by
  obtain ⟨i, hi⟩ := List.mem_iff_getElem?.mp hx
  rcases (page_or_behind hrefl htrans hi hkept).2 with hpage | ⟨hlt, hbehind⟩
  · exact hpage
  · rw [page, List.length_take, List.length_drop, List.length_reverse] at hshort
    rw [Nat.succ_mul] at hbehind
    omega

end Pages

section Readings

variable {β : Type} {tells : β → List α → Prop} {log log' : List α} {readings : List β}

/-- Readings that tell, in their order, longer and longer beginnings of a log. -/
def ReadInOrder (tells : β → List α → Prop) (log : List α) (readings : List β) : Prop :=
  ∃ seen : List (List α), List.Forall₂ tells readings seen ∧ seen.Pairwise (· <+: ·) ∧
    ∀ l ∈ seen, l <+: log

theorem readInOrder_nil (tells : β → List α → Prop) (log : List α) : ReadInOrder tells log [] :=
  ⟨[], List.Forall₂.nil, List.Pairwise.nil, fun _ h => absurd h List.not_mem_nil⟩

theorem ReadInOrder.grow (h : ReadInOrder tells log readings) (hlog : log <+: log') :
    ReadInOrder tells log' readings := by
  obtain ⟨seen, htells, horder, hseen⟩ := h
  exact ⟨seen, htells, horder, fun l hl => (hseen l hl).trans hlog⟩

theorem ReadInOrder.read (h : ReadInOrder tells log readings) {b : β} (hb : tells b log) :
    ReadInOrder tells log (readings ++ [b]) := by
  obtain ⟨seen, htells, horder, hseen⟩ := h
  refine ⟨seen ++ [log], List.rel_append htells (List.Forall₂.cons hb List.Forall₂.nil), ?_, ?_⟩
  · refine List.pairwise_append.mpr ⟨horder, List.pairwise_singleton _ _, fun l hl l' hl' => ?_⟩
    rw [List.mem_singleton.mp hl']
    exact hseen l hl
  · intro l hl
    rcases List.mem_append.mp hl with hold | hnew
    · exact hseen l hold
    · exact List.mem_singleton.mp hnew ▸ List.prefix_rfl

end Readings

end Bankie.Growing
