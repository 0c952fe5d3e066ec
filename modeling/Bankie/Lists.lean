import Mathlib.Algebra.BigOperators.Group.List.Basic
import Mathlib.Data.List.Forall2
import Mathlib.Data.List.Induction
import Mathlib.Data.List.Nodup
import Mathlib.Tactic.Abel

/-!
Lists as tables and as logs.
A table changes in one row, and a sum over it changes by that row. A log only grows at its
end, so that what every entry needs to have before it is checked when the entry is added.
-/
namespace Bankie

section Tables

variable {α β κ : Type}

/-- A list with its element at `i` written out, and with that element replaced. -/
theorem exists_split {l : List α} {i : ℕ} {x : α} (h : l[i]? = some x) :
    ∃ as bs, l = as ++ x :: bs ∧ ∀ y, l.set i y = as ++ y :: bs := by
  obtain ⟨hi, hx⟩ := List.getElem?_eq_some_iff.mp h
  refine ⟨l.take i, l.drop (i + 1), ?_, ?_⟩
  · rw [← hx, List.cons_getElem_drop_succ, List.take_append_drop]
  · intro y
    exact List.set_eq_take_append_cons_drop.trans (if_pos hi)

theorem map_fst_set {l : List (κ × β)} {i : ℕ} {k : κ} {b b' : β} (hi : l[i]? = some (k, b)) :
    (l.set i (k, b')).map Prod.fst = l.map Prod.fst := by
  obtain ⟨as, bs, rfl, hset⟩ := exists_split hi
  rw [hset, List.map_append, List.map_append]
  rfl

/-- Where no key is repeated, a replaced row is the only one with its key. -/
theorem mem_set_iff_of_nodup {l : List (κ × β)} (hnodup : (l.map Prod.fst).Nodup) {i : ℕ} {k : κ}
    {b b' : β} (hi : l[i]? = some (k, b)) {x : κ × β} :
    x ∈ l.set i (k, b') ↔ x = (k, b') ∨ x ∈ l ∧ x.1 ≠ k := by
  obtain ⟨as, bs, rfl, hset⟩ := exists_split hi
  rw [hset]
  rw [List.map_append, List.map_cons, List.nodup_middle, List.nodup_cons, ← List.map_append]
    at hnodup
  have hother : ∀ y ∈ as ++ bs, y.1 ≠ k := by
    intro y hy heq
    exact hnodup.1 (List.mem_map.mpr ⟨y, hy, heq⟩)
  simp only [List.mem_append, List.mem_cons] at hother ⊢
  constructor
  · rintro (has | rfl | hbs)
    · exact Or.inr ⟨Or.inl has, hother x (Or.inl has)⟩
    · exact Or.inl rfl
    · exact Or.inr ⟨Or.inr (Or.inr hbs), hother x (Or.inr hbs)⟩
  · rintro (rfl | ⟨has | rfl | hbs, hne⟩)
    · exact Or.inr (Or.inl rfl)
    · exact Or.inl has
    · exact absurd rfl hne
    · exact Or.inr (Or.inr hbs)

theorem filter_key [DecidableEq κ] {l : List α} (key : α → κ) (hnodup : (l.map key).Nodup) {x : α}
    (hx : x ∈ l) : l.filter (fun y => key y = key x) = [x] := by
  induction l with
  | nil => cases hx
  | cons y ys ih =>
    rw [List.map_cons, List.nodup_cons] at hnodup
    rcases List.mem_cons.mp hx with rfl | hxs
    · have hrest : ys.filter (fun z => key z = key x) = [] := by
        rw [List.filter_eq_nil_iff]
        intro z hz heq
        exact hnodup.1 (of_decide_eq_true heq ▸ List.mem_map_of_mem hz)
      rw [List.filter_cons_of_pos (by simp), hrest]
    · have hne : key y ≠ key x := fun heq => hnodup.1 (heq ▸ List.mem_map_of_mem hxs)
      rw [List.filter_cons_of_neg (by simp [hne]), ih hnodup.2 hxs]

/-- Where every element of a group carries the key of the group, a key finds its group. -/
theorem filter_flatMap_key {β : Type} [DecidableEq κ] {l : List α} {f : α → List β} (key : α → κ)
    (key' : β → κ) (hkey : ∀ x ∈ l, ∀ y ∈ f x, key' y = key x) (hnodup : (l.map key).Nodup) {x : α}
    (hx : x ∈ l) : (l.flatMap f).filter (fun y => key' y = key x) = f x := by
  have hown : ∀ z ∈ l, key z = key x → (f z).filter (fun y => key' y = key x) = f z := by
    intro z hz heq
    exact List.filter_eq_self.mpr fun y hy => by simp [hkey z hz y hy, heq]
  have hother : ∀ z ∈ l, key z ≠ key x → (f z).filter (fun y => key' y = key x) = [] := by
    intro z hz hne
    exact List.filter_eq_nil_iff.mpr fun y hy => by simp [hkey z hz y hy, hne]
  have hgroups : ∀ zs : List α, (∀ z ∈ zs, z ∈ l) →
      (zs.flatMap f).filter (fun y => key' y = key x) =
        (zs.filter (fun z => key z = key x)).flatMap f := by
    intro zs hzs
    induction zs with
    | nil => rfl
    | cons z zs ih =>
      rw [List.flatMap_cons, List.filter_append,
        ih (fun z' hz' => hzs z' (List.mem_cons_of_mem _ hz'))]
      by_cases heq : key z = key x
      · rw [hown z (hzs z List.mem_cons_self) heq, List.filter_cons_of_pos (by simp [heq]),
          List.flatMap_cons]
      · rw [hother z (hzs z List.mem_cons_self) heq, List.filter_cons_of_neg (by simp [heq]),
          List.nil_append]
  rw [hgroups l (fun _ hz => hz), filter_key key hnodup hx, List.flatMap_cons, List.flatMap_nil,
    List.append_nil]

/-- A sum changes with the one element whose summand changes. -/
theorem sum_map_update {A : Type} [AddCommGroup A] {l : List α} (key : α → κ)
    (hnodup : (l.map key).Nodup) {x : α} (hx : x ∈ l) {f g : α → A}
    (hother : ∀ y ∈ l, key y ≠ key x → g y = f y) :
    (l.map g).sum = (l.map f).sum + (g x - f x) := by
  induction l with
  | nil => cases hx
  | cons y ys ih =>
    rw [List.map_cons, List.nodup_cons] at hnodup
    rw [List.map_cons, List.sum_cons, List.map_cons, List.sum_cons]
    rcases List.mem_cons.mp hx with rfl | hxs
    · have hrest : ys.map g = ys.map f := by
        refine List.map_congr_left fun z hz => hother z (List.mem_cons_of_mem _ hz) ?_
        intro heq
        exact hnodup.1 (heq ▸ List.mem_map_of_mem hz)
      rw [hrest]
      abel
    · have hne : key y ≠ key x := by
        intro heq
        exact hnodup.1 (heq ▸ List.mem_map_of_mem hxs)
      rw [ih hnodup.2 hxs fun z hz => hother z (List.mem_cons_of_mem _ hz),
        hother y List.mem_cons_self hne]
      abel

theorem sum_map_filterMap {A : Type} [AddMonoid A] (f : α → Option β) (g : β → A)
    (l : List α) : ((l.filterMap f).map g).sum = (l.map (fun x => ((f x).map g).getD 0)).sum := by
  induction l with
  | nil => rfl
  | cons x l ih =>
    cases hx : f x with
    | none => simp [hx, ih]
    | some y => simp [hx, ih]

/-- What a table picks out, with the element at `i` apart. -/
theorem exists_perm_filterMap (f : α → Option β) {l : List α} {i : ℕ} {x : α}
    (h : l[i]? = some x) : ∃ rest, (l.filterMap f).Perm ((f x).toList ++ rest) ∧
      ∀ y, ((l.set i y).filterMap f).Perm ((f y).toList ++ rest) := by
  obtain ⟨as, bs, hl, hset⟩ := exists_split h
  have hperm : ∀ y, ((as ++ y :: bs).filterMap f).Perm
      ((f y).toList ++ (as.filterMap f ++ bs.filterMap f)) := by
    intro y
    have hcons : (y :: bs).filterMap f = (f y).toList ++ bs.filterMap f := by
      cases hy : f y <;> simp [hy]
    rw [List.filterMap_append, hcons]
    exact List.perm_append_comm_assoc _ _ _
  refine ⟨as.filterMap f ++ bs.filterMap f, ?_, fun y => ?_⟩
  · rw [hl]
    exact hperm x
  · rw [hset y]
    exact hperm y

end Tables

section Logs

variable {α : Type}

/-- Every entry with a need has an earlier entry that meets it. -/
def Preceded (need : α → Prop) (meets : α → α → Prop) (l : List α) : Prop :=
  ∀ (i : ℕ) (x : α), l[i]? = some x → need x → ∃ y ∈ l.take i, meets y x

variable {need : α → Prop} {meets : α → α → Prop}

theorem preceded_nil : Preceded need meets [] := by
  intro i x hx
  simp at hx

/-- An entry may be added where its need is met, and only there. -/
theorem preceded_concat {l : List α} {x : α} :
    Preceded need meets (l ++ [x]) ↔
      Preceded need meets l ∧ (need x → ∃ y ∈ l, meets y x) := by
  constructor
  · refine fun h => ⟨fun i z hz hneed => ?_, fun hneed => ?_⟩
    · have hi := (List.getElem?_eq_some_iff.mp hz).1
      have hmet := h i z ((List.getElem?_append_left hi).trans hz) hneed
      rwa [List.take_append_of_le_length hi.le] at hmet
    · have hmet := h l.length x List.getElem?_concat_length hneed
      rwa [List.take_left] at hmet
  · rintro ⟨h, hx⟩ i z hz hneed
    by_cases hi : i < l.length
    · rw [List.getElem?_append_left hi] at hz
      rw [List.take_append_of_le_length hi.le]
      exact h i z hz hneed
    · obtain rfl : i = l.length := by
        have hlen := (List.getElem?_eq_some_iff.mp hz).1
        rw [List.length_append, List.length_singleton] at hlen
        omega
      rw [List.getElem?_concat_length] at hz
      obtain rfl := Option.some.inj hz
      rw [List.take_left]
      exact hx hneed

theorem Preceded.append {l l' : List α} (h : Preceded need meets l)
    (hl' : ∀ x ∈ l', need x → ∃ y ∈ l, meets y x) : Preceded need meets (l ++ l') := by
  induction l' using List.reverseRecOn with
  | nil => rwa [List.append_nil]
  | append_singleton l' x ih =>
    rw [← List.append_assoc]
    refine preceded_concat.mpr ⟨ih fun z hz => hl' z (List.mem_append_left _ hz), fun hneed => ?_⟩
    obtain ⟨y, hy, hmeets⟩ := hl' x (List.mem_append_right _ (List.mem_singleton_self x)) hneed
    exact ⟨y, List.mem_append_left _ hy, hmeets⟩

theorem Preceded.exists_mem {l : List α} (h : Preceded need meets l) {x : α} (hx : x ∈ l)
    (hneed : need x) : ∃ y ∈ l, meets y x := by
  obtain ⟨i, hi⟩ := List.mem_iff_getElem?.mp hx
  obtain ⟨y, hy, hmeets⟩ := h i x hi hneed
  exact ⟨y, List.mem_of_mem_take hy, hmeets⟩

end Logs

end Bankie
