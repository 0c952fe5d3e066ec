import Bankie.Decimal
import Bankie.Program

/-!
Addition of decimals that hold a bounded number of digits.
The type keeps a mantissa of 96 bits and at most 28 fractional digits. An exact sum may need
more; what is answered then is up to the implementation. An addition is any that answers the
exact sum wherever the type holds it, and the one that rounds half to even is such an addition.
-/
namespace Bankie

open Program

/-- The type holds this number: in 96 bits, with up to 28 fractional digits. -/
def Representable (q : ℚ) : Prop :=
  ∃ (m : ℤ) (s : ℕ), m.natAbs < 2 ^ 96 ∧ s ≤ 28 ∧ q = m / 10 ^ s

/-- An addition that is exact where the type holds the sum. -/
structure Addition where
  add : Decimal → Decimal → Outcome Decimal
  add_eq : ∀ a b, Representable (a.toRat + b.toRat) →
    ∃ d, add a b = .ok d ∧ d.toRat = a.toRat + b.toRat

namespace Decimal

def Fits (d : Decimal) : Prop := d.mantissa.natAbs < 2 ^ 96 ∧ d.scale ≤ 28

instance (d : Decimal) : Decidable d.Fits := inferInstanceAs (Decidable (_ ∧ _))

theorem Fits.representable {d : Decimal} (h : d.Fits) : Representable d.toRat :=
  ⟨d.mantissa, d.scale, h.1, h.2, rfl⟩

/-- The integer nearest to `n / unit`, the even one of two. -/
def roundHalfEven (n : ℤ) (unit : ℕ) : ℤ :=
  let q := n.natAbs / unit
  let r := n.natAbs % unit
  n.sign * (if unit < 2 * r ∨ (unit = 2 * r ∧ q % 2 = 1) then q + 1 else q : ℕ)

theorem roundHalfEven_mul (n : ℤ) {unit : ℕ} (hunit : 0 < unit) :
    roundHalfEven (n * unit) unit = n := by
  have habs : (n * unit : ℤ).natAbs = n.natAbs * unit := by
    rw [Int.natAbs_mul, Int.natAbs_natCast]
  have hsign : (n * unit : ℤ).sign = n.sign := by
    have hpos : (unit : ℤ).sign = 1 := Int.sign_eq_one_of_pos (by exact_mod_cast hunit)
    rw [Int.sign_mul, hpos, mul_one]
  have hcond : ¬ (unit < 2 * 0 ∨ (unit = 2 * 0 ∧ n.natAbs % 2 = 1)) := by omega
  simp only [roundHalfEven, habs, hsign, Nat.mul_mod_left, Nat.mul_div_cancel _ hunit,
    if_neg hcond, Int.sign_mul_natAbs]

def shorten (s : ℕ) (d : Decimal) : Decimal :=
  if d.scale ≤ s then d else ⟨roundHalfEven d.mantissa (10 ^ (d.scale - s)), s⟩

/-- The decimal with as many digits as the type holds, of those up to `s` fractional ones. -/
def fit (d : Decimal) : ℕ → Outcome Decimal
  | 0 => if (d.shorten 0).Fits then .ok (d.shorten 0) else .panic "Addition overflowed"
  | s + 1 => if (d.shorten (s + 1)).Fits then .ok (d.shorten (s + 1)) else d.fit s

theorem shorten_toRat {d : Decimal} {m : ℤ} {s : ℕ} (h : d.toRat = m / 10 ^ s) :
    (d.shorten s).toRat = d.toRat := by
  by_cases hs : d.scale ≤ s
  · rw [shorten, if_pos hs]
  · obtain ⟨k, hk⟩ := Nat.exists_eq_add_of_le (Nat.le_of_not_le hs)
    have hmantissa : d.mantissa = m * (10 ^ k : ℕ) := by
      have hrat : (d.mantissa : ℚ) = m * 10 ^ k := by
        rw [toRat, hk, pow_add] at h
        field_simp at h
        rw [h, mul_comm]
      exact_mod_cast hrat
    rw [shorten, if_neg hs, hk, Nat.add_sub_cancel_left, hmantissa,
      roundHalfEven_mul m (Nat.pow_pos (by decide)), h]
    rfl

theorem shorten_fits {d : Decimal} {m : ℤ} {s : ℕ} (hm : m.natAbs < 2 ^ 96) (hs : s ≤ 28)
    (h : d.toRat = m / 10 ^ s) : (d.shorten s).Fits := by
  have hvalue := shorten_toRat h
  have hscale : (d.shorten s).scale ≤ s := by
    unfold shorten
    split
    · assumption
    · exact le_rfl
  refine ⟨lt_of_le_of_lt ?_ hm, hscale.trans hs⟩
  have hm' : (m : ℚ) = (d.shorten s).atScale s := by
    have hpow : (10 : ℚ) ^ s ≠ 0 := by positivity
    rw [← div_left_inj' hpow, atScale_toRat _ hscale, hvalue, h]
  rw [show m = (d.shorten s).atScale s by exact_mod_cast hm', atScale, Int.natAbs_mul]
  refine Nat.le_mul_of_pos_right _ (Int.natAbs_pos.mpr ?_)
  positivity

/-- The scale at which the type holds a number is reached with the number unchanged. -/
theorem fit_eq {d : Decimal} {m : ℤ} {s n : ℕ} (hm : m.natAbs < 2 ^ 96) (hs : s ≤ 28)
    (h : d.toRat = m / 10 ^ s) (hn : s ≤ n) : ∃ d', d.fit n = .ok d' ∧ d'.toRat = d.toRat := by
  have hexact : ∀ t, s ≤ t → (d.shorten t).toRat = d.toRat := by
    intro t ht
    refine shorten_toRat (m := m * 10 ^ (t - s)) ?_
    exact h.trans (atScale_toRat ⟨m, s⟩ ht).symm
  induction n with
  | zero =>
    obtain rfl := Nat.le_zero.mp hn
    exact ⟨_, if_pos (shorten_fits hm hs h), hexact 0 le_rfl⟩
  | succ n ih =>
    by_cases hfits : (d.shorten (n + 1)).Fits
    · exact ⟨_, if_pos hfits, hexact (n + 1) hn⟩
    · have hle : s ≤ n := by
        rcases Nat.lt_or_ge n s with hlt | hge
        · obtain rfl : s = n + 1 := le_antisymm hn hlt
          exact absurd (shorten_fits hm hs h) hfits
        · exact hge
      obtain ⟨d', hd', hvalue⟩ := ih hle
      exact ⟨d', (if_neg hfits).trans hd', hvalue⟩

end Decimal

namespace Addition

/-- Unbounded digits: no sum is rounded. -/
def unbounded : Addition where
  add a b := .ok (a + b)
  add_eq a b _ := ⟨a + b, rfl, Decimal.toRat_add a b⟩

/-- The sum with as many fractional digits as fit, rounded half to even. -/
def rounded : Addition where
  add a b := (a + b).fit 28
  add_eq a b h := by
    obtain ⟨m, s, hm, hs, hsum⟩ := h
    rw [← Decimal.toRat_add] at hsum ⊢
    exact Decimal.fit_eq hm hs hsum hs

end Addition

end Bankie
