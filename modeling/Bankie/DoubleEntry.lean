import Bankie.Columns
import Bankie.Entries

/-!
Double entry.
The sides of the lines are chosen from the action, and the outbox command from the reference
text. Every entry is the entry of one movement, so its two lines balance, its one transaction
refers to it, and the command of the outbox moves the customer's line the same way.
-/
namespace Bankie

open Program Transition

/-- The lines carry the amount of the command, on the sides that the command moves. -/
def LedgerCommand.Matches (house customer : JournalLine) (t : Transaction) :
    LedgerCommand → Prop
  | .credit id accountId _ amount =>
    id.toString = customer.ledgerId ∧ accountId = t.bankAccountId ∧
      amount.currency.toString = customer.currency ∧
      customer.debitAmount = .zero ∧ customer.creditAmount = amount.amount ∧
      house.debitAmount = amount.amount ∧ house.creditAmount = .zero
  | .debitRelease id accountId _ amount =>
    id.toString = customer.ledgerId ∧ accountId = t.bankAccountId ∧
      amount.currency.toString = customer.currency ∧
      customer.creditAmount = .zero ∧ customer.debitAmount = amount.amount ∧
      house.creditAmount = amount.amount ∧ house.debitAmount = .zero
  | _ => False

namespace Store

def HouseLedger (s : Store) (currency ledgerId : String) : Prop :=
  ∃ h ∈ s.houseAccounts, h.ledgerId = ledgerId ∧ h.currency.toString = currency ∧
    h.status = "active" ∧ h.accountType = "House"

/-- An entry of exactly two lines that balance, with exactly one transaction that refers to
it, and one outbox command that matches the lines. -/
structure DoubleEntry (s : Store) (entry : JournalEntry) (house customer : JournalLine)
    (t : Transaction) : Prop where
  lines : s.journalLines.filter (fun l => l.journalEntryId = some entry.id) = [house, customer]
  transaction : s.transactions.filter (fun t => t.journalEntryId = some entry.id) = [t]
  currency : house.currency = customer.currency
  house_ledger : s.HouseLedger house.currency house.ledgerId
  customer_ledger : customer.ledgerId ∈ s.attached t.bankAccountId.toString
  distinct : house.ledgerId ≠ customer.ledgerId
  balanced : house.debitAmount.toRat + customer.debitAmount.toRat =
    house.creditAmount.toRat + customer.creditAmount.toRat
  balanced_stored : house.storedDebit + customer.storedDebit =
    house.storedCredit + customer.storedCredit
  command : ∃ row command, s.outbox.filter (fun row => row.transactionId = t.id) = [row] ∧
    parseEvent row = .ok (customer.ledgerId, command, t.id) ∧ command.Matches house customer t

end Store

namespace Movement

def houseLine (mv : Movement) : JournalLine where
  id := mv.draws.houseLineId
  journalEntryId := some mv.entry.id
  ledgerId := mv.houseLedger
  debitAmount := if mv.action = .deposit then mv.amount.amount else .zero
  creditAmount := if mv.action = .deposit then .zero else mv.amount.amount
  currency := mv.amount.currency.toString
  description := none

def customerLine (mv : Movement) : JournalLine where
  id := mv.draws.userLineId
  journalEntryId := some mv.entry.id
  ledgerId := mv.ledger.toString
  debitAmount := if mv.action = .deposit then .zero else mv.amount.amount
  creditAmount := if mv.action = .deposit then mv.amount.amount else .zero
  currency := mv.amount.currency.toString
  description := none

theorem lines_eq (mv : Movement) : mv.lines = [mv.houseLine, mv.customerLine] := by
  obtain ⟨d, account, ledger, house, action, amount, n⟩ := mv
  cases action <;> rfl

theorem balanced (mv : Movement) :
    mv.houseLine.debitAmount.toRat + mv.customerLine.debitAmount.toRat =
      mv.houseLine.creditAmount.toRat + mv.customerLine.creditAmount.toRat := by
  cases haction : mv.action <;> simp [houseLine, customerLine, haction]

theorem balanced_stored (mv : Movement) :
    mv.houseLine.storedDebit + mv.customerLine.storedDebit =
      mv.houseLine.storedCredit + mv.customerLine.storedCredit := by
  have hzero := Decimal.round_zero 4
  cases haction : mv.action <;>
    simp [houseLine, customerLine, haction, JournalLine.storedDebit, JournalLine.storedCredit,
      hzero]

theorem settlement_matches (completed : Bool) (mv : Movement) :
    (mv.action.settlement mv.ledger mv.account mv.tx mv.amount).Matches mv.houseLine
      mv.customerLine (mv.transaction completed) := by
  obtain ⟨d, account, ledger, house, action, amount, n⟩ := mv
  cases action with
  | deposit => exact ⟨rfl, rfl, rfl, rfl, rfl, rfl, rfl⟩
  | withdraw => exact ⟨rfl, rfl, rfl, rfl, rfl, rfl, rfl⟩

end Movement

theorem Bank.Entered.nodup_some {m : Bank} (hm : m.Entered) :
    (m.movements.map (fun mv => some mv.entry.id)).Nodup := by
  have hmap := hm.nodup.map (Option.some_injective Uuid)
  rwa [List.map_map] at hmap

namespace Represents

variable {s : Store} {m : Bank}

theorem filter_journalLines (h : Represents s m) (hm : m.Entered) {mv : Movement}
    (hmv : mv ∈ m.movements) :
    s.journalLines.filter (fun l => l.journalEntryId = some mv.entry.id) =
      [mv.houseLine, mv.customerLine] := by
  have hkey : ∀ mv' ∈ m.movements, ∀ l ∈ mv'.lines, l.journalEntryId = some mv'.entry.id :=
    fun mv' _ l hl => (Movement.line_amounts hl).1
  rw [h.journalLines, ← mv.lines_eq]
  exact filter_flatMap_key (fun mv => some mv.entry.id) JournalLine.journalEntryId hkey
    hm.nodup_some hmv

theorem filter_transactions (h : Represents s m) (hm : m.Entered) {mv : Movement}
    (hmv : mv ∈ m.movements) :
    s.transactions.filter (fun t => t.journalEntryId = some mv.entry.id) =
      [mv.transaction (decide (mv.tx ∈ m.completed))] := by
  have hfilter := filter_key (fun mv : Movement => some mv.entry.id) hm.nodup_some hmv
  rw [h.transactions, List.filter_map]
  exact congrArg (List.map _) hfilter

theorem doubleEntry (h : Represents s m) (hwf : m.WF) (hnum : m.Numbered) (hentered : m.Entered)
    (hhoused : m.Housed) (hhouseOnly : m.HouseOnly) (hon : m.OnAttached) {mv : Movement}
    (hmv : mv ∈ m.movements) :
    s.DoubleEntry mv.entry mv.houseLine mv.customerLine
      (mv.transaction (decide (mv.tx ∈ m.completed))) where
  lines := h.filter_journalLines hentered hmv
  transaction := h.filter_transactions hentered hmv
  currency := rfl
  house_ledger := by
    obtain ⟨x, hx, hledger, hcurrency, hstatus, htype⟩ := hhoused.movements mv hmv
    exact ⟨x, h.houses ▸ hx, hledger, congrArg Currency.toString hcurrency, hstatus, htype⟩
  customer_ledger := by
    obtain ⟨a, ha, p, hp, hledger⟩ := hon.movements mv hmv
    change mv.ledger.toString ∈ s.attached mv.account.toString
    rw [h.attached ha, ← hledger]
    exact List.mem_map_of_mem hp
  distinct htext := by
    obtain ⟨b, hb, hholder, -⟩ := hwf.movements mv hmv
    cases hholder.symm.trans ((hhouseOnly.movements mv hmv mv.ledger htext).2.2 b hb)
  balanced := mv.balanced
  balanced_stored := mv.balanced_stored
  command := ⟨_, _, h.filter_outbox hnum hmv, parseEvent_settlementRow ..,
    mv.settlement_matches _⟩

end Represents

/-- In every reachable state every journal entry is a double entry. -/
theorem double_entry {st : System} (h : System.machine.Reachable st) :
    ∀ entry ∈ st.store.journalEntries, ∃ house customer t,
      st.store.DoubleEntry entry house customer t := by
  obtain ⟨m, hreach, ⟨hmodels, hwf, hnum⟩, hhoused⟩ :=
    housed_refinement.reachable (System.reachable_lagging h)
  obtain ⟨-, hentered⟩ := Bank.entered_invariant.reachable hreach
  obtain ⟨-, hhouseOnly⟩ := Bank.houseOnly_invariant.reachable hreach
  obtain ⟨-, hon⟩ := Bank.onAttached_invariant.reachable hreach
  intro entry hentry
  rw [hmodels.store.journalEntries] at hentry
  obtain ⟨mv, hmv, rfl⟩ := List.mem_map.mp hentry
  exact ⟨_, _, _, hmodels.store.doubleEntry hwf hnum hentered hhoused hhouseOnly hon hmv⟩

theorem double_entry_spent : ∃ st : System, st.store.journalEntries.length = 2 ∧
    ∀ entry ∈ st.store.journalEntries, ∃ house customer t,
      st.store.DoubleEntry entry house customer t := by
  have hrun : (((System.init []).run Scenario.spent).map
      (fun st => st.store.journalEntries.length)) = some 2 := by decide +kernel
  obtain ⟨st, hst, hlength⟩ := Option.map_eq_some_iff.mp hrun
  exact ⟨st, hlength, double_entry (System.reachable_of_run hst)⟩

end Bankie
