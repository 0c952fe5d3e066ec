import Bankie.Decimal
import Bankie.Program

/-!
Currencies and amounts of money.
Adding amounts of two currencies is a panic, and comparing them gives no answer.
Sums are exact here. The rounding and the overflow panic that a decimal of 96 bits has past 28
digits are a parameter where balances are stated of the logs.
-/
namespace Bankie

open Program

inductive Currency where
  | usd
  | twd
  deriving DecidableEq

namespace Currency

instance : Inhabited Currency := ⟨.usd⟩

def toString : Currency → String
  | .usd => "USD"
  | .twd => "TWD"

def fromStr (s : String) : Option Currency :=
  if s = "USD" then some .usd else if s = "TWD" then some .twd else none

/-- `From<String>`: a text that names no currency falls back to the default. -/
def ofString (s : String) : Currency := (fromStr s).getD default

@[simp] theorem ofString_toString (c : Currency) : ofString c.toString = c := by
  cases c <;> decide

theorem toString_inj {a b : Currency} (h : a.toString = b.toString) : a = b := by
  simpa using congrArg ofString h

end Currency

structure Money where
  amount : Decimal
  currency : Currency
  deriving DecidableEq

namespace Money

instance : Inhabited Money := ⟨⟨.zero, default⟩⟩

def new (amount : Decimal) (currency : Currency) : Money := ⟨amount, currency⟩

def add (a b : Money) : Outcome Money :=
  if a.currency ≠ b.currency then .panic "Cannot add Money with different currencies"
  else .ok ⟨a.amount + b.amount, a.currency⟩

def sub (a b : Money) : Outcome Money :=
  if a.currency ≠ b.currency then .panic "Cannot subtract Money with different currencies"
  else .ok ⟨a.amount - b.amount, a.currency⟩

def partialCmp (a b : Money) : Option Ordering :=
  if a.currency ≠ b.currency then none
  else if a.amount < b.amount then some .lt
  else if b.amount < a.amount then some .gt
  else some .eq

/-- The operator `<` that `PartialOrd` derives from `partial_cmp`. -/
def Lt (a b : Money) : Prop := a.partialCmp b = some .lt

instance (a b : Money) : Decidable (a.Lt b) :=
  inferInstanceAs (Decidable (a.partialCmp b = some .lt))

theorem add_ok {a b : Money} (h : a.currency = b.currency) :
    a.add b = .ok ⟨a.amount + b.amount, a.currency⟩ := by
  rw [add, if_neg (fun hne => hne h)]

theorem toRat_of_add {a b c : Money} (h : a.add b = .ok c) :
    c.amount.toRat = a.amount.toRat + b.amount.toRat := by
  unfold add at h
  split at h
  · cases h
  · obtain rfl := Outcome.ok.inj h
    exact Decimal.toRat_add _ _

theorem lt_iff (a b : Money) :
    a.Lt b ↔ a.currency = b.currency ∧ a.amount.toRat < b.amount.toRat := by
  rw [Lt, partialCmp, ← Decimal.lt_iff_toRat]
  by_cases hc : a.currency = b.currency
  · by_cases hlt : a.amount < b.amount
    · simp [hc, hlt]
    · by_cases hgt : b.amount < a.amount <;> simp [hc, hlt, hgt]
  · simp [hc]

end Money

end Bankie
