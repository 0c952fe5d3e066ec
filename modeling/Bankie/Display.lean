import Bankie.Money

/-!
Amounts as the interface shows them.
An amount is printed with as many fractional digits as its currency has. Digits past those
are cut off, not rounded, so the text never names more than the amount.
-/
namespace Bankie

namespace Decimal

/-- The value with exactly `precision` fractional digits, cut off towards zero. -/
def cut (precision : ℕ) (d : Decimal) : Decimal :=
  if d.scale ≤ precision then ⟨d.atScale precision, precision⟩
  else ⟨d.mantissa.tdiv (10 ^ (d.scale - precision)), precision⟩

/-- The format `{:.precision}`: the sign of the decimal, and the digits up to the precision. -/
def display (precision : ℕ) (d : Decimal) : String :=
  String.ofList (d.sign ++ (d.cut precision).unsigned)

variable {precision : ℕ} {d : Decimal}

@[simp] theorem cut_scale (precision : ℕ) (d : Decimal) : (d.cut precision).scale = precision := by
  unfold cut
  split <;> rfl

theorem cut_toRat (h : d.scale ≤ precision) : (d.cut precision).toRat = d.toRat := by
  rw [cut, if_pos h, ← atScale_toRat d h]
  rfl

theorem cut_eq {k : ℕ} (h : d.scale = precision + k) (hk : k ≠ 0) :
    d.cut precision = ⟨d.mantissa.tdiv (10 ^ k), precision⟩ := by
  rw [cut, if_neg (by omega), h, Nat.add_sub_cancel_left]

theorem abs_sub_cut_lt (precision : ℕ) (d : Decimal) :
    |d.toRat - (d.cut precision).toRat| < 1 / 10 ^ precision := by
  by_cases h : d.scale ≤ precision
  · rw [cut_toRat h, sub_self, abs_zero]
    positivity
  · obtain ⟨k, hk⟩ := Nat.exists_eq_add_of_le (Nat.le_of_not_le h)
    have hvalue : d.toRat - (d.cut precision).toRat =
        (d.mantissa.tmod (10 ^ k) : ℚ) / 10 ^ k / 10 ^ precision := by
      have hsum : (d.mantissa : ℚ) =
          10 ^ k * (d.mantissa.tdiv (10 ^ k) : ℚ) + (d.mantissa.tmod (10 ^ k) : ℚ) := by
        exact_mod_cast (Int.mul_tdiv_add_tmod d.mantissa (10 ^ k)).symm
      rw [cut_eq hk (by omega), toRat, toRat, hk, pow_add, hsum]
      field_simp
      ring
    have hless : |(d.mantissa.tmod (10 ^ k) : ℚ)| < 10 ^ k := by
      have habs : (d.mantissa.tmod (10 ^ k)).natAbs < 10 ^ k := by
        rw [Int.natAbs_tmod, Int.natAbs_pow]
        exact Nat.mod_lt _ (by positivity)
      rw [← Int.cast_abs, Int.abs_eq_natAbs]
      exact_mod_cast habs
    have hunit : (0 : ℚ) < 10 ^ k := by positivity
    have hpow : (0 : ℚ) < 10 ^ precision := by positivity
    rw [hvalue, abs_div, abs_div, abs_of_pos hpow, abs_of_pos hunit]
    exact div_lt_div_of_pos_right ((div_lt_one hunit).mpr hless) hpow

theorem abs_toRat (d : Decimal) : |d.toRat| = d.mantissa.natAbs / 10 ^ d.scale := by
  have hpow : (0 : ℚ) < 10 ^ d.scale := by positivity
  rw [toRat, abs_div, abs_of_pos hpow, ← Int.cast_abs, Int.abs_eq_natAbs]
  rfl

/-- The text names no more than the value, whatever its sign. -/
theorem abs_cut_le (precision : ℕ) (d : Decimal) : |(d.cut precision).toRat| ≤ |d.toRat| := by
  by_cases h : d.scale ≤ precision
  · rw [cut_toRat h]
  · obtain ⟨k, hk⟩ := Nat.exists_eq_add_of_le (Nat.le_of_not_le h)
    have hdigits : (d.mantissa.tdiv (10 ^ k)).natAbs * 10 ^ k ≤ d.mantissa.natAbs := by
      rw [Int.natAbs_tdiv, Int.natAbs_pow]
      exact Nat.div_mul_le_self _ _
    have hpow : (0 : ℚ) < 10 ^ precision := by positivity
    have hunit : (0 : ℚ) < 10 ^ k := by positivity
    rw [abs_toRat, abs_toRat, cut_eq hk (by omega), hk, pow_add, ← div_div, div_right_comm]
    refine div_le_div_of_nonneg_right ((le_div_iff₀ hunit).mpr ?_) hpow.le
    exact_mod_cast hdigits

/-- A value with no more digits than the precision is shown in full. -/
theorem cut_toRat_of_multiple {n : ℤ} (h : d.toRat * 10 ^ precision = n) :
    (d.cut precision).toRat = d.toRat := by
  have hpow : (0 : ℚ) < 10 ^ precision := by positivity
  have hcut : (d.cut precision).toRat * 10 ^ precision = (d.cut precision).mantissa := by
    rw [toRat, cut_scale, div_mul_cancel₀ _ hpow.ne']
  have hclose : |(n : ℚ) - (d.cut precision).mantissa| < 1 := by
    have hless := mul_lt_mul_of_pos_right (abs_sub_cut_lt precision d) hpow
    rw [one_div_mul_cancel hpow.ne', ← abs_of_pos hpow, ← abs_mul, sub_mul, h, hcut] at hless
    exact hless
  have hsame : n = (d.cut precision).mantissa := by
    have hint : |n - (d.cut precision).mantissa| < 1 := by exact_mod_cast hclose
    exact sub_eq_zero.mp (Int.abs_lt_one_iff.mp hint)
  exact mul_right_cancel₀ hpow.ne' (by rw [hcut, h, hsame])

section Text

theorem fromStr_unsigned (d : Decimal) :
    fromStr (String.ofList d.unsigned) = some ⟨d.mantissa.natAbs, d.scale⟩ := by
  obtain ⟨c, cs, hcs, hdigit⟩ := unsigned_head_isDigit d
  have hparse := parseUnsigned_unsigned d
  rw [hcs] at hparse
  have hlist : (String.ofList d.unsigned).toList = c :: cs := by simp [hcs]
  simp only [fromStr, hlist]
  split
  · rename_i heq
    rw [(List.cons.inj heq).1] at hdigit
    exact absurd hdigit (by decide)
  · rename_i heq
    rw [(List.cons.inj heq).1] at hdigit
    exact absurd hdigit (by decide)
  · rw [hparse]
    rfl

theorem fromStr_minus (d : Decimal) :
    fromStr (String.ofList ('-' :: d.unsigned)) = some ⟨-d.mantissa.natAbs, d.scale⟩ := by
  have hlist : (String.ofList ('-' :: d.unsigned)).toList = '-' :: d.unsigned := by simp
  simp only [fromStr, hlist, parseUnsigned_unsigned]
  rfl

theorem cut_mantissa_nonneg (precision : ℕ) (h : 0 ≤ d.mantissa) :
    0 ≤ (d.cut precision).mantissa := by
  unfold cut
  split
  · exact mul_nonneg h (by positivity)
  · exact Int.tdiv_nonneg h (by positivity)

theorem cut_mantissa_nonpos (precision : ℕ) (h : d.mantissa ≤ 0) :
    (d.cut precision).mantissa ≤ 0 := by
  unfold cut
  split
  · exact mul_nonpos_of_nonpos_of_nonneg h (by positivity)
  · have hopposite : 0 ≤ (-d.mantissa).tdiv (10 ^ (d.scale - precision)) :=
      Int.tdiv_nonneg (by omega) (by positivity)
    rw [Int.neg_tdiv] at hopposite
    exact Int.neg_nonneg.mp hopposite

/-- The text is read back as the value that was cut off, with all its digits. A minus sign
in front of nothing but zeros is read as zero. -/
theorem fromStr_display (precision : ℕ) (d : Decimal) :
    fromStr (d.display precision) = some (d.cut precision) := by
  by_cases hneg : d.mantissa < 0
  · have habs : -((d.cut precision).mantissa.natAbs : ℤ) = (d.cut precision).mantissa := by
      have := cut_mantissa_nonpos precision hneg.le
      omega
    rw [display, sign, if_pos hneg, List.singleton_append, fromStr_minus, habs]
  · have habs : ((d.cut precision).mantissa.natAbs : ℤ) = (d.cut precision).mantissa := by
      have := cut_mantissa_nonneg precision (Int.not_lt.mp hneg)
      omega
    rw [display, sign, if_neg hneg, List.nil_append, fromStr_unsigned, habs]

end Text

end Decimal

def Currency.precision : Currency → ℕ
  | .usd => 2
  | .twd => 0

namespace Money

def toString (m : Money) : String := m.amount.display m.currency.precision

example : (Money.new ⟨5000, 2⟩ .usd).toString = "50.00" := by decide
example : (Money.new ⟨5000, 2⟩ .twd).toString = "50" := by decide

end Money

end Bankie
