import Bankie.Domain

/-!
The ledger aggregate and its view.
A command only emits events, whatever the ledger holds; the events are folded twice, into
the aggregate that commands are handled on and into the view that balances are read from.
Both folds panic where an amount in another currency is added.
-/
namespace Bankie

open Program

/-- The base event that every ledger command fills in. -/
def ledgerBaseEvent (now : String) (id accountId : Uuid) : BaseEvent where
  createdAt := now
  aggregateId := id.toString
  parentId := accountId.toString

/-- The events of a command; `Decimal::ZERO - amount` is how the source negates. -/
def LedgerCommand.events (now : String) : LedgerCommand → List LedgerEvent
  | .init id accountId amount =>
    [.ledgerInitiated amount (ledgerBaseEvent now id accountId)]
  | .debitHold id accountId transactionId amount =>
    [.ledgerUpdated amount transactionId.toString "debit_hold"
      (Money.new (Decimal.zero - amount.amount) amount.currency)
      (Money.new amount.amount amount.currency) (ledgerBaseEvent now id accountId)]
  | .debitRelease id accountId transactionId amount =>
    [.ledgerUpdated amount transactionId.toString "debit_release"
      (Money.new Decimal.zero amount.currency)
      (Money.new (Decimal.zero - amount.amount) amount.currency)
      (ledgerBaseEvent now id accountId)]
  | .credit id accountId transactionId amount =>
    [.ledgerUpdated amount transactionId.toString "credit_hold"
      (Money.new Decimal.zero amount.currency)
      (Money.new amount.amount amount.currency) (ledgerBaseEvent now id accountId),
     .ledgerUpdated amount transactionId.toString "credit_release"
      (Money.new amount.amount amount.currency)
      (Money.new (Decimal.zero - amount.amount) amount.currency)
      (ledgerBaseEvent now id accountId)]

namespace Ledger

def handle (now : String) (_ : Ledger) (command : LedgerCommand) :
    Except String (List LedgerEvent) :=
  .ok (command.events now)

def apply (self : Ledger) : LedgerEvent → Outcome Ledger
  | .ledgerInitiated amount baseEvent => .ok
    { id := baseEvent.aggregateId
      accountId := baseEvent.parentId
      amount := amount
      available := amount
      pending := Money.new .zero amount.currency
      timestamp := baseEvent.createdAt }
  | .ledgerUpdated amount _ _ availableDelta pendingDelta baseEvent => do
    let available ← self.available.add availableDelta
    let pending ← self.pending.add pendingDelta
    return { id := baseEvent.aggregateId
             accountId := baseEvent.parentId
             amount := amount
             available := available
             pending := pending
             timestamp := baseEvent.createdAt }

/-- The aggregate that the framework loads from a log. -/
def replay (log : List LedgerEvent) : Outcome Ledger := log.foldlM apply default

end Ledger

namespace LedgerView

def update (self : LedgerView) : LedgerEvent → Outcome LedgerView
  | .ledgerInitiated amount baseEvent => .ok
    { id := baseEvent.aggregateId
      accountId := baseEvent.parentId
      createdAt := baseEvent.createdAt
      updatedAt := baseEvent.createdAt
      available := amount
      pending := Money.new .zero amount.currency
      current := amount }
  | .ledgerUpdated _ _ _ availableDelta pendingDelta baseEvent => do
    let available ← self.available.add availableDelta
    let pending ← self.pending.add pendingDelta
    let current ← available.add pending
    return { self with
             id := baseEvent.aggregateId
             accountId := baseEvent.parentId
             available := available
             pending := pending
             current := current
             updatedAt := baseEvent.createdAt }

/-- The view row that a log projects to. -/
def project (log : List LedgerEvent) : Outcome LedgerView := log.foldlM update default

end LedgerView

/-- A pair of balances in one currency, by value. -/
def Balances (c : Currency) (available pending : Money) (a p : ℚ) : Prop :=
  available.currency = c ∧ pending.currency = c ∧
    available.amount.toRat = a ∧ pending.amount.toRat = p

/-- The balances of a view, with the current balance the sum of the other two. -/
def LedgerView.Holds (v : LedgerView) (c : Currency) (a p : ℚ) : Prop :=
  Balances c v.available v.pending a p ∧ v.current.currency = c ∧
    v.current.amount.toRat = a + p

def Ledger.Holds (l : Ledger) (c : Currency) (a p : ℚ) : Prop :=
  Balances c l.available l.pending a p

theorem LedgerView.update_updated {v : LedgerView} {c : Currency} {a p : ℚ}
    (h : v.Holds c a p) (amount : Money) (tx kind : String) (da dp : Decimal) (b : BaseEvent) :
    ∃ v', v.update (.ledgerUpdated amount tx kind ⟨da, c⟩ ⟨dp, c⟩ b) = .ok v' ∧
      v'.Holds c (a + da.toRat) (p + dp.toRat) ∧ v'.id = b.aggregateId ∧
      v'.accountId = b.parentId := by
  obtain ⟨⟨hac, hpc, ha, hp⟩, -, -⟩ := h
  subst hac
  have hadd : v.available.add ⟨da, v.available.currency⟩ =
      .ok ⟨v.available.amount + da, v.available.currency⟩ := Money.add_ok rfl
  have hpend : v.pending.add ⟨dp, v.available.currency⟩ =
      .ok ⟨v.pending.amount + dp, v.pending.currency⟩ := Money.add_ok hpc
  have hcur : Money.add ⟨v.available.amount + da, v.available.currency⟩
      ⟨v.pending.amount + dp, v.pending.currency⟩ =
      .ok ⟨v.available.amount + da + (v.pending.amount + dp), v.available.currency⟩ :=
    Money.add_ok hpc.symm
  refine ⟨{ v with
    id := b.aggregateId
    accountId := b.parentId
    available := ⟨v.available.amount + da, v.available.currency⟩
    pending := ⟨v.pending.amount + dp, v.pending.currency⟩
    current := ⟨v.available.amount + da + (v.pending.amount + dp), v.available.currency⟩
    updatedAt := b.createdAt }, ?_, ⟨⟨rfl, hpc, ?_, ?_⟩, rfl, ?_⟩, rfl, rfl⟩
  · rw [update, hadd, Outcome.ok_bind, hpend, Outcome.ok_bind, hcur]
    rfl
  · simp [ha]
  · simp [hp]
  · simp [ha, hp]

theorem Ledger.apply_updated {l : Ledger} {c : Currency} {a p : ℚ}
    (h : l.Holds c a p) (amount : Money) (tx kind : String) (da dp : Decimal) (b : BaseEvent) :
    ∃ l', l.apply (.ledgerUpdated amount tx kind ⟨da, c⟩ ⟨dp, c⟩ b) = .ok l' ∧
      l'.Holds c (a + da.toRat) (p + dp.toRat) ∧ l'.id = b.aggregateId ∧
      l'.accountId = b.parentId := by
  obtain ⟨hac, hpc, ha, hp⟩ := h
  have hadd : l.available.add ⟨da, c⟩ = .ok ⟨l.available.amount + da, l.available.currency⟩ :=
    Money.add_ok hac
  have hpend : l.pending.add ⟨dp, c⟩ = .ok ⟨l.pending.amount + dp, l.pending.currency⟩ :=
    Money.add_ok hpc
  refine ⟨{
    id := b.aggregateId
    accountId := b.parentId
    amount := amount
    available := ⟨l.available.amount + da, l.available.currency⟩
    pending := ⟨l.pending.amount + dp, l.pending.currency⟩
    timestamp := b.createdAt }, ?_, ⟨hac, hpc, ?_, ?_⟩, rfl, rfl⟩
  · rw [apply, hadd, Outcome.ok_bind, hpend]
    rfl
  · simp [ha]
  · simp [hp]

end Bankie
