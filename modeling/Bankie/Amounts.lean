import Bankie.DoubleEntry
import Bankie.Overdraft

/-!
The amount of a movement, in all of its records.
The handler writes the amount of the command as it came, at whatever scale. The columns round
it, the payload does not, so the records agree exactly on whole numbers of hundredths.
-/
namespace Bankie

open Program Transition

/-- The stored transaction of an order. -/
structure Transaction.Of (t : Transaction) (order : Order) : Prop where
  account : t.bankAccountId = order.account
  action : t.transactionType = .ok order.action
  amount : t.amount = order.amount.amount
  currency : t.currency = order.amount.currency.toString

namespace Movement

theorem transaction_of (completed : Bool) (mv : Movement) :
    (mv.transaction completed).Of mv.order where
  account := rfl
  action := transactionType_transactionOf mv.draws mv.account mv.amount mv.action
  amount := rfl
  currency := rfl

theorem settlement_amount (mv : Movement) :
    (mv.action.settlement mv.ledger mv.account mv.tx mv.amount).amount = mv.amount := by
  cases mv.action <;> rfl

theorem stored_line {mv : Movement} {l : JournalLine} (h : l ∈ mv.lines) :
    (l.storedDebit = 0 ∨ l.storedDebit = (mv.amount.amount.round 4).toRat) ∧
      (l.storedCredit = 0 ∨ l.storedCredit = (mv.amount.amount.round 4).toRat) := by
  rw [JournalLine.storedDebit, JournalLine.storedCredit]
  obtain ⟨-, ⟨hdebit, hcredit⟩ | ⟨hdebit, hcredit⟩⟩ := line_amounts h
  · rw [hdebit, hcredit]
    exact ⟨Or.inr rfl, Or.inl (Decimal.round_zero 4)⟩
  · rw [hdebit, hcredit]
    exact ⟨Or.inl (Decimal.round_zero 4), Or.inr rfl⟩

end Movement

/-- The records of a movement agree exactly where its amount is a whole number of
hundredths. -/
theorem Represents.sameAmount_iff {s : Store} {m : Bank} (h : Represents s m)
    (hnum : m.Numbered) (hentered : m.Entered) {mv : Movement} (hmv : mv ∈ m.movements) :
    s.SameAmount (mv.transaction (decide (mv.tx ∈ m.completed))) ↔
      mv.amount.amount.Hundredths := by
  have hrow := h.filter_outbox hnum hmv
  have hparse := parseEvent_settlementRow mv.outboxId mv.action mv.ledger mv.account mv.tx
    mv.amount (decide (mv.tx ∈ m.completed))
  constructor
  · intro hsame
    have hin : mv.row (decide (mv.tx ∈ m.completed)) ∈ s.outbox := by
      rw [h.outbox]
      exact List.mem_map_of_mem hmv
    obtain ⟨ledgerId, command, hread, hamount⟩ := hsame.payload _ hin rfl
    obtain ⟨-, rfl, -⟩ : _ ∧ _ ∧ _ := by
      simpa only [Prod.mk.injEq] using Outcome.ok.inj (hparse.symm.trans hread)
    rw [mv.settlement_amount] at hamount
    exact mv.amount.amount.hundredths_iff.mpr hamount.symm
  · intro hwhole
    have htwo : (mv.transaction (decide (mv.tx ∈ m.completed))).stored =
        mv.amount.amount.toRat := mv.amount.amount.hundredths_iff.mp hwhole
    have hlines : ∀ l ∈ s.journalLines, l.journalEntryId = some mv.entry.id → l ∈ mv.lines := by
      intro l hl hentry
      rw [mv.lines_eq, ← h.filter_journalLines hentered hmv]
      exact List.mem_filter.mpr ⟨hl, decide_eq_true hentry⟩
    refine ⟨fun l hl hentry hne => ?_, fun l hl hentry hne => ?_, fun row hin htx => ?_⟩
    · rw [htwo, ← hwhole.round_four]
      exact (Movement.stored_line (hlines l hl hentry)).1.resolve_left hne
    · rw [htwo, ← hwhole.round_four]
      exact (Movement.stored_line (hlines l hl hentry)).2.resolve_left hne
    · have hfound : row ∈ s.outbox.filter (fun row => row.transactionId = mv.tx) :=
        List.mem_filter.mpr ⟨hin, decide_eq_true htx⟩
      rw [hrow] at hfound
      obtain rfl := List.mem_singleton.mp hfound
      refine ⟨_, _, hparse, ?_⟩
      rw [mv.settlement_amount, htwo]

/-- In every reachable state a stored transaction is that of an order that was submitted, and
its records carry one amount exactly where that of the order is a whole number of hundredths. -/
theorem same_amount_iff {st : System} (h : System.machine.Reachable st) {t : Transaction}
    (ht : t ∈ st.store.transactions) :
    ∃ order : Order, order.command ∈ st.submitted ∧ t.Of order ∧
      (st.store.SameAmount t ↔ order.amount.amount.Hundredths) := by
  obtain ⟨m, hreach, hmodels, -, hnum⟩ := refinement.reachable h
  obtain ⟨-, hentered⟩ := Bank.entered_invariant.reachable hreach
  obtain ⟨-, hasked⟩ := Bank.asked_invariant.reachable hreach
  rw [hmodels.store.transactions] at ht
  obtain ⟨mv, hmv, rfl⟩ := List.mem_map.mp ht
  exact ⟨mv.order, hmodels.submitted ▸ hasked.orders mv hmv, mv.transaction_of _,
    hmodels.store.sameAmount_iff hnum hentered hmv⟩

theorem same_amount_iff_funded : ∃ (st : System) (t : Transaction) (order : Order),
    t ∈ st.store.transactions ∧ t.status = "completed" ∧ order.command ∈ st.submitted ∧
      t.Of order ∧ (st.store.SameAmount t ↔ order.amount.amount.Hundredths) := by
  have hrun : (((System.init []).run Scenario.funded).map
      (fun st => st.store.transactions.map Transaction.status)) = some ["completed"] := by
    decide +kernel
  obtain ⟨st, hst, hstatus⟩ := Option.map_eq_some_iff.mp hrun
  have hlast : "completed" ∈ st.store.transactions.map Transaction.status := by
    rw [hstatus]
    exact List.mem_singleton_self _
  obtain ⟨t, ht, hcompleted⟩ := List.mem_map.mp hlast
  obtain ⟨order, hsubmitted, hof, hiff⟩ := same_amount_iff (System.reachable_of_run hst) ht
  exact ⟨st, t, order, ht, hcompleted, hsubmitted, hof, hiff⟩

/-- A deposit of 10.005: the transaction says 10.01, the payload 10.005. -/
def Scenario.odd : List Action :=
  opened ++ handle 12 40 5 (.deposit (uid 10) ⟨⟨10005, 3⟩, .usd⟩)

theorem not_same_amount : ∃ (st : System) (t : Transaction), System.machine.Reachable st ∧
    t ∈ st.store.transactions ∧ ¬ st.store.SameAmount t := by
  have hrun : (((System.init []).run Scenario.odd).map fun st =>
      decide (∃ t ∈ st.store.transactions, t.amount.round 2 = ⟨1001, 2⟩ ∧
        ∃ row ∈ st.store.outbox, row.transactionId = t.id ∧
          (parseEvent row).toOption.map (fun r => r.2.1.amount.amount) = some ⟨10005, 3⟩)) =
      some true := by decide +kernel
  obtain ⟨st, hst, hrows⟩ := Option.map_eq_some_iff.mp hrun
  obtain ⟨t, ht, hstored, row, hrow, htx, hpayload⟩ := of_decide_eq_true hrows
  refine ⟨st, t, System.reachable_of_run hst, ht, fun hsame => ?_⟩
  obtain ⟨ledgerId, command, hparse, hamount⟩ := hsame.payload row hrow htx
  rw [hparse] at hpayload
  have hcommand : command.amount.amount = ⟨10005, 3⟩ := Option.some.inj hpayload
  rw [hcommand, Transaction.stored, hstored] at hamount
  norm_num [Decimal.toRat] at hamount

end Bankie
