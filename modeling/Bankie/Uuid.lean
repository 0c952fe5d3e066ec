import Mathlib.Data.Nat.Notation
import Mathlib.Tactic.Ring

/-!
Hexadecimal text and identifiers of 128 bits.
An identifier prints in the hyphenated form of 8-4-4-4-12 digits. The parser takes that
form, the plain digits, the braced form and the URN, and reads every printed
identifier back; the empty text is not an identifier.
-/
namespace Bankie

namespace Hex

/-- The last `w` hexadecimal digits of `n`, most significant first. -/
def digits : ℕ → ℕ → List Char
  | 0, _ => []
  | w + 1, n => digits w (n / 16) ++ [Nat.digitChar (n % 16)]

def value (c : Char) : Option ℕ :=
  if '0' ≤ c ∧ c ≤ '9' then some (c.toNat - 48)
  else if 'a' ≤ c ∧ c ≤ 'f' then some (c.toNat - 87)
  else if 'A' ≤ c ∧ c ≤ 'F' then some (c.toNat - 55)
  else none

def parseFrom (start : ℕ) (cs : List Char) : Option ℕ :=
  cs.foldlM (fun v c => (value c).map (fun d => 16 * v + d)) start

def parse (cs : List Char) : Option ℕ := parseFrom 0 cs

theorem digits_length (w n : ℕ) : (digits w n).length = w := by
  induction w generalizing n with
  | zero => rfl
  | succ w ih => simp [digits, ih]

theorem value_digitChar {d : ℕ} (h : d < 16) : value (Nat.digitChar d) = some d := by
  have hall : ∀ d : Fin 16, value (Nat.digitChar d.val) = some d.val := by decide
  exact hall ⟨d, h⟩

theorem parseFrom_digits (w n start : ℕ) :
    parseFrom start (digits w n) = some (16 ^ w * start + n % 16 ^ w) := by
  induction w generalizing n with
  | zero => simp [digits, parseFrom, Nat.mod_one]
  | succ w ih =>
    have hd : n % 16 < 16 := Nat.mod_lt _ (by decide)
    have hmod : n % 16 ^ (w + 1) = 16 * (n / 16 % 16 ^ w) + n % 16 := by
      rw [pow_succ, mul_comm (16 ^ w), Nat.mod_mul]
      omega
    have hstep : parseFrom start (digits (w + 1) n) =
        (parseFrom start (digits w (n / 16))).bind
          (fun v => (value (Nat.digitChar (n % 16))).map (fun d => 16 * v + d)) := by
      simp [parseFrom, digits, List.foldlM_append]
    rw [hstep, ih (n / 16), value_digitChar hd, hmod]
    simp only [Option.bind_some, Option.map_some, Option.some.injEq, pow_succ]
    ring

theorem parse_digits {w n : ℕ} (h : n < 16 ^ w) : parse (digits w n) = some n := by
  rw [parse, parseFrom_digits, Nat.mod_eq_of_lt h, Nat.mul_zero, Nat.zero_add]

theorem hyphen_not_mem_digits (w n : ℕ) : '-' ∉ digits w n := by
  induction w generalizing n with
  | zero => simp [digits]
  | succ w ih =>
    have hall : ∀ d : Fin 16, '-' ≠ Nat.digitChar d.val := by decide
    have hd := hall ⟨n % 16, Nat.mod_lt _ (by decide)⟩
    simp [digits, ih (n / 16), hd]

end Hex

/-- An identifier of 128 bits. -/
structure Uuid where
  bits : BitVec 128
  deriving DecidableEq

namespace Uuid

/-- Cut a list into consecutive groups of the given lengths. -/
def groups : List ℕ → List Char → List (List Char)
  | [], _ => []
  | n :: ns, cs => cs.take n :: groups ns (cs.drop n)

def layout : List ℕ := [8, 4, 4, 4, 12]

def hyphenated (u : Uuid) : List Char :=
  ['-'].intercalate (groups layout (Hex.digits 32 u.bits.toNat))

def toString (u : Uuid) : String := String.ofList u.hyphenated

def ofNat (n : ℕ) : Uuid := ⟨BitVec.ofNat 128 n⟩

def parseSimple (cs : List Char) : Option Uuid :=
  if cs.length = 32 then (Hex.parse cs).map ofNat else none

def parseHyphenated (cs : List Char) : Option Uuid :=
  if (cs.splitOn '-').map List.length = layout then
    (Hex.parse (cs.splitOn '-').flatten).map ofNat
  else none

/-- `Uuid::parse_str`, with the form picked by the length of the text. -/
def parseStr (s : String) : Option Uuid :=
  let cs := s.toList
  if cs.length = 36 then parseHyphenated cs
  else if cs.length = 32 then parseSimple cs
  else if cs.length = 38 ∧ cs.head? = some '\x7b' ∧ cs.getLast? = some '\x7d' then
    parseHyphenated ((cs.drop 1).take 36)
  else if cs.length = 45 ∧ cs.take 9 = "urn:uuid:".toList then
    parseHyphenated (cs.drop 9)
  else none

theorem parseStr_empty : parseStr "" = none := by decide

theorem groups_flatten (ns : List ℕ) (cs : List Char) (h : ns.sum = cs.length) :
    (groups ns cs).flatten = cs := by
  induction ns generalizing cs with
  | nil =>
    have hcs : cs = [] := List.length_eq_zero_iff.mp (by simpa using h.symm)
    simp [groups, hcs]
  | cons n ns ih =>
    have hdrop : ns.sum = (cs.drop n).length := by
      simp only [List.sum_cons] at h
      rw [List.length_drop]
      omega
    simp [groups, ih (cs.drop n) hdrop]

theorem groups_length (ns : List ℕ) (cs : List Char) (h : ns.sum = cs.length) :
    (groups ns cs).map List.length = ns := by
  induction ns generalizing cs with
  | nil => rfl
  | cons n ns ih =>
    simp only [List.sum_cons] at h
    have hdrop : ns.sum = (cs.drop n).length := by
      rw [List.length_drop]
      omega
    have hn : n ≤ cs.length := by omega
    simp [groups, ih (cs.drop n) hdrop, hn]

theorem mem_groups {ns : List ℕ} {cs g : List Char} {c : Char}
    (hg : g ∈ groups ns cs) (hc : c ∈ g) : c ∈ cs := by
  induction ns generalizing cs with
  | nil => simp [groups] at hg
  | cons n ns ih =>
    rcases List.mem_cons.mp hg with rfl | hg
    · exact List.mem_of_mem_take hc
    · exact List.mem_of_mem_drop (ih hg)

theorem splitOn_hyphenated (u : Uuid) :
    u.hyphenated.splitOn '-' = groups layout (Hex.digits 32 u.bits.toNat) := by
  apply List.splitOn_intercalate
  · intro g hg hc
    exact Hex.hyphen_not_mem_digits 32 u.bits.toNat (mem_groups hg hc)
  · simp [layout, groups]

theorem hyphenated_length (u : Uuid) : u.hyphenated.length = 36 := by
  have hlen := Hex.digits_length 32 u.bits.toNat
  simp [hyphenated, layout, groups, List.intercalate, hlen]

theorem parseHyphenated_hyphenated (u : Uuid) : parseHyphenated u.hyphenated = some u := by
  have hsum : layout.sum = (Hex.digits 32 u.bits.toNat).length := by
    rw [Hex.digits_length]
    rfl
  have hlt : u.bits.toNat < 16 ^ 32 := u.bits.isLt
  rw [parseHyphenated, splitOn_hyphenated, if_pos (groups_length _ _ hsum),
    groups_flatten _ _ hsum, Hex.parse_digits hlt]
  simp [ofNat]

/-- Every printed identifier is read back. -/
@[simp] theorem parseStr_toString (u : Uuid) : parseStr u.toString = some u := by
  have hlist : u.toString.toList = u.hyphenated := by simp [toString]
  simp [parseStr, hlist, hyphenated_length, parseHyphenated_hyphenated]

@[simp] theorem toString_inj {u v : Uuid} : u.toString = v.toString ↔ u = v := by
  constructor
  · intro h
    have hp : parseStr u.toString = parseStr v.toString := congrArg parseStr h
    simpa using hp
  · rintro rfl
    rfl

-- From here on a printed identifier is a name: no proof about the service looks at its digits.
attribute [irreducible] toString

end Uuid

end Bankie
