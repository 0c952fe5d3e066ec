import Mathlib.Algebra.Order.Field.Rat
import Mathlib.Tactic.FieldSimp
import Mathlib.Tactic.Positivity
import Mathlib.Tactic.Ring

/-!
Decimal numbers with a scale, their exact arithmetic and their text.
A decimal prints with exactly `scale` digits after the point, so its text names the same
decimal and not only the same number. The rational value carries the algebra: sums and
comparisons of decimals are those of their values.
-/
namespace Bankie

/-- The number `mantissa / 10 ^ scale`, written with `scale` fractional digits. -/
structure Decimal where
  mantissa : ℤ
  scale : ℕ
  deriving DecidableEq

namespace Decimal

def zero : Decimal := ⟨0, 0⟩

def ofInt (n : ℤ) : Decimal := ⟨n, 0⟩

/-- The mantissa at a scale of at least the decimal's own. -/
def atScale (d : Decimal) (s : ℕ) : ℤ := d.mantissa * 10 ^ (s - d.scale)

def add (a b : Decimal) : Decimal :=
  let s := max a.scale b.scale
  ⟨a.atScale s + b.atScale s, s⟩

def sub (a b : Decimal) : Decimal :=
  let s := max a.scale b.scale
  ⟨a.atScale s - b.atScale s, s⟩

instance : Add Decimal := ⟨add⟩
instance : Sub Decimal := ⟨sub⟩

instance : LT Decimal := ⟨fun a b => a.mantissa * 10 ^ b.scale < b.mantissa * 10 ^ a.scale⟩

instance (a b : Decimal) : Decidable (a < b) :=
  inferInstanceAs (Decidable (a.mantissa * 10 ^ b.scale < b.mantissa * 10 ^ a.scale))

def toRat (d : Decimal) : ℚ := d.mantissa / 10 ^ d.scale

theorem atScale_toRat (d : Decimal) {s : ℕ} (h : d.scale ≤ s) :
    (d.atScale s : ℚ) / 10 ^ s = d.toRat := by
  obtain ⟨k, rfl⟩ := Nat.exists_eq_add_of_le h
  simp only [atScale, toRat, Nat.add_sub_cancel_left, Int.cast_mul, Int.cast_pow,
    Int.cast_ofNat, pow_add]
  field_simp

@[simp] theorem toRat_zero : zero.toRat = 0 := by simp [zero, toRat]

@[simp] theorem toRat_add (a b : Decimal) : (a + b).toRat = a.toRat + b.toRat := by
  change ((add a b).mantissa : ℚ) / 10 ^ (add a b).scale = _
  rw [← atScale_toRat a (le_max_left a.scale b.scale),
    ← atScale_toRat b (le_max_right a.scale b.scale)]
  simp only [add, Int.cast_add]
  ring

@[simp] theorem toRat_sub (a b : Decimal) : (a - b).toRat = a.toRat - b.toRat := by
  change ((sub a b).mantissa : ℚ) / 10 ^ (sub a b).scale = _
  rw [← atScale_toRat a (le_max_left a.scale b.scale),
    ← atScale_toRat b (le_max_right a.scale b.scale)]
  simp only [sub, Int.cast_sub]
  ring

theorem lt_iff_toRat (a b : Decimal) : a < b ↔ a.toRat < b.toRat := by
  have ha : (0 : ℚ) < 10 ^ a.scale := by positivity
  have hb : (0 : ℚ) < 10 ^ b.scale := by positivity
  change a.mantissa * 10 ^ b.scale < b.mantissa * 10 ^ a.scale ↔ _
  rw [toRat, toRat, div_lt_div_iff₀ ha hb]
  exact_mod_cast Iff.rfl

/-- The value rounded to `s` fractional digits, half away from zero. -/
def round (s : ℕ) (d : Decimal) : Decimal :=
  if d.scale ≤ s then d
  else
    let unit := 10 ^ (d.scale - s)
    let magnitude := (2 * d.mantissa.natAbs + unit) / (2 * unit)
    ⟨d.mantissa.sign * magnitude, s⟩

/-- A column `numeric(p, s)` takes a value whose rounding has at most `p` digits. -/
def FitsNumeric (p s : ℕ) (d : Decimal) : Prop :=
  ((d.round s).atScale s).natAbs < 10 ^ p

instance (p s : ℕ) (d : Decimal) : Decidable (d.FitsNumeric p s) :=
  inferInstanceAs (Decidable (_ < _))

section Rounding

theorem exists_int_round (s : ℕ) (d : Decimal) : ∃ n : ℤ, (d.round s).toRat * 10 ^ s = n := by
  have hpow : (10 : ℚ) ^ s ≠ 0 := by positivity
  unfold round
  split
  · rename_i h
    refine ⟨d.atScale s, ?_⟩
    rw [← atScale_toRat d h, div_mul_cancel₀ _ hpow]
  · exact ⟨_, div_mul_cancel₀ _ hpow⟩

theorem round_multiple (k unit : ℕ) (hunit : 0 < unit) :
    (2 * (k * unit) + unit) / (2 * unit) = k := by
  rw [show 2 * (k * unit) + unit = unit + k * (2 * unit) by ring,
    Nat.add_mul_div_right _ _ (by omega), Nat.div_eq_of_lt (by omega), zero_add]

/-- Rounding keeps exactly the values that have no more digits. -/
theorem round_toRat_iff (s : ℕ) (d : Decimal) :
    (d.round s).toRat = d.toRat ↔ ∃ n : ℤ, d.toRat * 10 ^ s = n := by
  constructor
  · intro h
    rw [← h]
    exact exists_int_round s d
  · rintro ⟨n, hn⟩
    by_cases hs : d.scale ≤ s
    · rw [round, if_pos hs]
    · obtain ⟨k, hk⟩ := Nat.exists_eq_add_of_le (Nat.le_of_not_le hs)
      have hmantissa : d.mantissa = n * 10 ^ k := by
        have hrat : (d.mantissa : ℚ) = n * 10 ^ k := by
          rw [← hn, toRat, hk, pow_add]
          field_simp
        exact_mod_cast hrat
      have hround : d.round s = ⟨n, s⟩ := by
        rw [round, if_neg hs, hk, Nat.add_sub_cancel_left, hmantissa]
        have habs : (n * 10 ^ k : ℤ).natAbs = n.natAbs * 10 ^ k := by
          simp [Int.natAbs_mul, Int.natAbs_pow]
        have hsign : (n * 10 ^ k : ℤ).sign = n.sign := by
          have hpos : (10 ^ k : ℤ).sign = 1 := Int.sign_eq_one_of_pos (by positivity)
          rw [Int.sign_mul, hpos, mul_one]
        simp only [habs, hsign, round_multiple _ _ (Nat.pow_pos (n := k) (by decide : 0 < 10)),
          Int.sign_mul_natAbs]
      rw [hround, toRat, ← hn, mul_div_cancel_right₀ _ (by positivity)]

end Rounding

section Text

def sign (d : Decimal) : List Char := if d.mantissa < 0 then ['-'] else []

def padded (d : Decimal) : List Char :=
  let cs := Nat.toDigits 10 d.mantissa.natAbs
  List.replicate (d.scale + 1 - cs.length) '0' ++ cs

def whole (d : Decimal) : List Char := d.padded.take (d.padded.length - d.scale)

def fraction (d : Decimal) : List Char := d.padded.drop (d.padded.length - d.scale)

def unsigned (d : Decimal) : List Char :=
  if d.scale = 0 then d.whole else d.whole ++ '.' :: d.fraction

def toString (d : Decimal) : String := String.ofList (d.sign ++ d.unsigned)

def parseUnsigned (cs : List Char) : Option (ℕ × ℕ) :=
  match cs.splitOn '.' with
  | [w] => if w ≠ [] ∧ w.all Char.isDigit then some (Nat.ofDigitChars 10 w 0, 0) else none
  | [w, f] =>
    if w ++ f ≠ [] ∧ (w ++ f).all Char.isDigit then
      some (Nat.ofDigitChars 10 (w ++ f) 0, f.length)
    else none
  | _ => none

/-- `Decimal::from_str`. -/
def fromStr (s : String) : Option Decimal :=
  match s.toList with
  | '-' :: cs => (parseUnsigned cs).map (fun p => ⟨-(p.1 : ℤ), p.2⟩)
  | '+' :: cs => (parseUnsigned cs).map (fun p => ⟨p.1, p.2⟩)
  | cs => (parseUnsigned cs).map (fun p => ⟨p.1, p.2⟩)

theorem scale_lt_padded (d : Decimal) : d.scale < d.padded.length := by
  simp only [padded, List.length_append, List.length_replicate]
  omega

theorem isDigit_of_mem_padded {d : Decimal} {c : Char} (h : c ∈ d.padded) : c.isDigit = true := by
  rcases List.mem_append.mp h with hz | hc
  · rw [List.eq_of_mem_replicate hz]
    decide
  · exact Nat.isDigit_of_mem_toDigits (by decide) (by decide) hc

theorem whole_append_fraction (d : Decimal) : d.whole ++ d.fraction = d.padded :=
  List.take_append_drop _ _

theorem fraction_length (d : Decimal) : d.fraction.length = d.scale := by
  have h := scale_lt_padded d
  rw [fraction, List.length_drop]
  omega

theorem ofDigitChars_padded (d : Decimal) :
    Nat.ofDigitChars 10 d.padded 0 = d.mantissa.natAbs := by
  rw [padded, Nat.ofDigitChars_append]
  simp

theorem point_not_mem {d : Decimal} {cs : List Char} (h : ∀ c ∈ cs, c ∈ d.padded) : '.' ∉ cs := by
  intro hp
  have hd := isDigit_of_mem_padded (h _ hp)
  revert hd
  decide

theorem parseUnsigned_unsigned (d : Decimal) :
    parseUnsigned d.unsigned = some (d.mantissa.natAbs, d.scale) := by
  have hne : d.padded ≠ [] := List.ne_nil_of_length_pos (by have := scale_lt_padded d; omega)
  have hall : d.padded.all Char.isDigit = true :=
    List.all_eq_true.mpr fun c hc => isDigit_of_mem_padded hc
  by_cases hs : d.scale = 0
  · have hwhole : d.whole = d.padded := by simp [whole, hs]
    have hsplit : d.unsigned.splitOn '.' = [d.padded] := by
      have hmem : ∀ l ∈ [d.padded], '.' ∉ l := by
        simpa using point_not_mem (fun c hc => hc)
      have h : (['.'].intercalate [d.padded]).splitOn '.' = [d.padded] :=
        List.splitOn_intercalate '.' hmem (by simp)
      simpa [unsigned, hs, hwhole, List.intercalate] using h
    simp [parseUnsigned, hsplit, hne, hall, ofDigitChars_padded, hs]
  · have hsplit : d.unsigned.splitOn '.' = [d.whole, d.fraction] := by
      have hmem : ∀ l ∈ [d.whole, d.fraction], '.' ∉ l := by
        intro l hl
        apply point_not_mem (d := d)
        intro c hc
        simp only [List.mem_cons, List.not_mem_nil, or_false] at hl
        rcases hl with rfl | rfl
        · exact List.mem_of_mem_take hc
        · exact List.mem_of_mem_drop hc
      have h : (['.'].intercalate [d.whole, d.fraction]).splitOn '.' = [d.whole, d.fraction] :=
        List.splitOn_intercalate '.' hmem (by simp)
      simpa [unsigned, hs, List.intercalate] using h
    have happ := whole_append_fraction d
    simp [parseUnsigned, hsplit, happ, hne, hall, ofDigitChars_padded, fraction_length]

theorem unsigned_head_isDigit (d : Decimal) : ∃ c cs, d.unsigned = c :: cs ∧ c.isDigit = true := by
  have hlen := scale_lt_padded d
  have hwhole : d.whole ≠ [] := by
    apply List.ne_nil_of_length_pos
    rw [whole, List.length_take]
    omega
  obtain ⟨c, cs, hc⟩ := List.exists_cons_of_ne_nil hwhole
  have hdigit : c.isDigit = true := by
    apply isDigit_of_mem_padded (d := d)
    apply List.mem_of_mem_take (i := d.padded.length - d.scale)
    change c ∈ d.whole
    simp [hc]
  by_cases hs : d.scale = 0
  · exact ⟨c, cs, by simp [unsigned, hs, hc], hdigit⟩
  · exact ⟨c, cs ++ '.' :: d.fraction, by simp [unsigned, hs, hc], hdigit⟩

/-- The text of a decimal names that decimal, scale included. -/
@[simp] theorem fromStr_toString (d : Decimal) : fromStr d.toString = some d := by
  have hparse := parseUnsigned_unsigned d
  by_cases hneg : d.mantissa < 0
  · have hlist : d.toString.toList = '-' :: d.unsigned := by simp [toString, sign, hneg]
    have habs : -|d.mantissa| = d.mantissa := by rw [abs_of_neg hneg, neg_neg]
    simp [fromStr, hlist, hparse, habs]
  · obtain ⟨c, cs, hcs, hdigit⟩ := unsigned_head_isDigit d
    have hlist : d.toString.toList = c :: cs := by simp [toString, sign, hneg, hcs]
    have hminus : c ≠ '-' := by rintro rfl; revert hdigit; decide
    have hplus : c ≠ '+' := by rintro rfl; revert hdigit; decide
    have habs : (d.mantissa.natAbs : ℤ) = d.mantissa := by omega
    rw [hcs] at hparse
    simp only [fromStr, hlist]
    split
    · rename_i heq
      exact absurd (List.cons.inj heq).1 hminus
    · rename_i heq
      exact absurd (List.cons.inj heq).1 hplus
    · simp [hparse, habs]

end Text

end Decimal

end Bankie
