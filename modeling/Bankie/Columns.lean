import Bankie.Books

/-!
What the columns keep of an amount.
A movement writes its amount into a column of two digits, into columns of four digits and
into a text without a limit. The three agree exactly where the amount is a whole number of
hundredths, and nothing on the way brings it to one.
-/
namespace Bankie

open Program

/-- The value in the column `transactions.amount`, a `decimal(19,2)`. -/
def Transaction.stored (t : Transaction) : ℚ := (t.amount.round 2).toRat

/-- The value in the column `debit_amount`, a `decimal(19,4)`. -/
def JournalLine.storedDebit (l : JournalLine) : ℚ := (l.debitAmount.round 4).toRat

/-- The value in the column `credit_amount`, a `decimal(19,4)`. -/
def JournalLine.storedCredit (l : JournalLine) : ℚ := (l.creditAmount.round 4).toRat

def LedgerCommand.amount : LedgerCommand → Money
  | .init _ _ amount => amount
  | .credit _ _ _ amount => amount
  | .debitHold _ _ _ amount => amount
  | .debitRelease _ _ _ amount => amount

/-- The stored transaction, the amounts in its journal lines and the amount in its outbox
payload are one number. -/
structure Store.SameAmount (s : Store) (t : Transaction) : Prop where
  debits : ∀ l ∈ s.journalLines, l.journalEntryId = t.journalEntryId →
    l.storedDebit ≠ 0 → l.storedDebit = t.stored
  credits : ∀ l ∈ s.journalLines, l.journalEntryId = t.journalEntryId →
    l.storedCredit ≠ 0 → l.storedCredit = t.stored
  payload : ∀ row ∈ s.outbox, row.transactionId = t.id →
    ∃ ledgerId command, parseEvent row = .ok (ledgerId, command, t.id) ∧
      command.amount.amount.toRat = t.stored

def Decimal.Hundredths (d : Decimal) : Prop := ∃ n : ℤ, d.toRat * 100 = n

namespace Decimal

theorem hundredths_iff (d : Decimal) : d.Hundredths ↔ (d.round 2).toRat = d.toRat := by
  rw [round_toRat_iff, Hundredths]
  norm_num

theorem Hundredths.round_four {d : Decimal} (h : d.Hundredths) :
    (d.round 4).toRat = d.toRat := by
  obtain ⟨n, hn⟩ := h
  rw [round_toRat_iff]
  refine ⟨n * 100, ?_⟩
  push_cast
  rw [← hn]
  ring

theorem round_zero (s : ℕ) : (Decimal.zero.round s).toRat = 0 := by
  rw [round, if_pos (show zero.scale ≤ s from Nat.zero_le s), toRat_zero]

end Decimal

theorem Movement.line_amounts {mv : Movement} {l : JournalLine} (h : l ∈ mv.lines) :
    l.journalEntryId = some mv.entry.id ∧
      (l.debitAmount = mv.amount.amount ∧ l.creditAmount = .zero ∨
        l.debitAmount = .zero ∧ l.creditAmount = mv.amount.amount) := by
  obtain ⟨l', hl', rfl⟩ := List.mem_map.mp h
  refine ⟨rfl, ?_⟩
  unfold Helper.journalLinesOf at hl'
  split at hl'
  · rcases List.mem_pair.mp hl' with rfl | rfl
    · exact Or.inl ⟨rfl, rfl⟩
    · exact Or.inr ⟨rfl, rfl⟩
  · rcases List.mem_pair.mp hl' with rfl | rfl
    · exact Or.inr ⟨rfl, rfl⟩
    · exact Or.inl ⟨rfl, rfl⟩

end Bankie
