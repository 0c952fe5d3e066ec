import Bankie.Books

/-!
The two folds of one log agree.
Commands are handled on the replayed aggregate and checked against the projected view. Over
any events at all, the two folds reach the same balances, or they stop by the same panic at
the same event; the view's own sum never panics.
-/
namespace Bankie

open Program

/-- The message of a panic on two currencies. -/
def mixedCurrencies : String := "Cannot add Money with different currencies"

/-- The ledger and its view tell the same balances, in one currency. -/
structure Ledger.Agrees (l : Ledger) (v : LedgerView) : Prop where
  id : l.id = v.id
  accountId : l.accountId = v.accountId
  available : l.available = v.available
  pending : l.pending = v.pending
  currency : v.available.currency = v.pending.currency
  current : v.available.add v.pending = .ok v.current
  total : v.current.amount.toRat = v.available.amount.toRat + v.pending.amount.toRat

/-- The account and its view tell the same account. -/
structure BankAccount.Agrees (a : BankAccount) (v : BankAccountView) : Prop where
  id : a.id = v.id
  status : a.status = v.status
  accountType : a.accountType = v.accountType
  kind : a.kind = v.kind
  currency : a.currency = v.currency
  userId : a.userId = v.userId
  ledgerId : a.ledgerId = v.ledgerId

theorem Decimal.add_zero (d : Decimal) : d + Decimal.zero = d := by
  change Decimal.add d Decimal.zero = d
  simp [add, atScale, zero]

theorem Money.add_mixed {a b : Money} (h : a.currency ≠ b.currency) :
    a.add b = .panic mixedCurrencies := by
  rw [add, if_pos h]
  rfl

/-- One event: both folds take it, or both panic on it. -/
theorem Ledger.Agrees.apply_update {l : Ledger} {v : LedgerView} (h : l.Agrees v)
    (e : LedgerEvent) :
    (∃ l' v', l.apply e = .ok l' ∧ v.update e = .ok v' ∧ l'.Agrees v') ∨
      l.apply e = .panic mixedCurrencies ∧ v.update e = .panic mixedCurrencies := by
  obtain ⟨-, -, havailable, hpending, hcurrency, -, -⟩ := h
  cases e with
  | ledgerInitiated amount b =>
    have hsum : amount.add ⟨.zero, amount.currency⟩ =
        .ok ⟨amount.amount + .zero, amount.currency⟩ := Money.add_ok rfl
    rw [Decimal.add_zero] at hsum
    exact Or.inl ⟨_, _, rfl, rfl, rfl, rfl, rfl, rfl, rfl, hsum, Money.toRat_of_add hsum⟩
  | ledgerUpdated amount tx kind availableDelta pendingDelta b =>
    simp only [Ledger.apply, LedgerView.update, havailable, hpending]
    by_cases ha : v.available.currency = availableDelta.currency
    · by_cases hp : v.pending.currency = pendingDelta.currency
      · have hsum : Money.add ⟨v.available.amount + availableDelta.amount, v.available.currency⟩
            ⟨v.pending.amount + pendingDelta.amount, v.pending.currency⟩ =
            .ok ⟨v.available.amount + availableDelta.amount +
              (v.pending.amount + pendingDelta.amount), v.available.currency⟩ :=
          Money.add_ok hcurrency
        rw [Money.add_ok ha, Money.add_ok hp]
        simp only [Outcome.ok_bind, hsum]
        exact Or.inl ⟨_, _, rfl, rfl, rfl, rfl, rfl, rfl, hcurrency, hsum,
          Money.toRat_of_add hsum⟩
      · rw [Money.add_ok ha, Money.add_mixed hp]
        exact Or.inr ⟨rfl, rfl⟩
    · rw [Money.add_mixed ha]
      exact Or.inr ⟨rfl, rfl⟩

theorem BankAccount.Agrees.apply_update {a : BankAccount} {v : BankAccountView} (h : a.Agrees v)
    (e : BankAccountEvent) : (a.apply e).Agrees (v.update e) := by
  cases e with
  | accountOpened => exact ⟨rfl, rfl, rfl, rfl, rfl, rfl, h.ledgerId⟩
  | accountKycApproved => exact ⟨rfl, rfl, h.accountType, h.kind, h.currency, h.userId, rfl⟩
  | customerDepositedCash => exact h
  | customerWithdrewCash => exact h

theorem BankAccount.Agrees.foldl {a : BankAccount} {v : BankAccountView} (h : a.Agrees v)
    (log : List BankAccountEvent) :
    (log.foldl BankAccount.apply a).Agrees (log.foldl BankAccountView.update v) := by
  induction log generalizing a v with
  | nil => exact h
  | cons e log ih => exact ih (h.apply_update e)

theorem Ledger.agrees_default : (default : Ledger).Agrees default :=
  ⟨rfl, rfl, rfl, rfl, rfl, rfl, Money.toRat_of_add rfl⟩

theorem BankAccount.replay_agrees (log : List BankAccountEvent) :
    (BankAccount.replay log).Agrees (BankAccountView.project log) :=
  BankAccount.Agrees.foldl ⟨rfl, rfl, rfl, rfl, rfl, rfl, rfl⟩ log

theorem Ledger.replay_agrees {log : List LedgerEvent} {v : LedgerView}
    (h : LedgerView.project log = .ok v) : ∃ l, Ledger.replay log = .ok l ∧ l.Agrees v := by
  rcases Outcome.foldlM_together (fun l v e h => h.apply_update e) log Ledger.agrees_default
    with ⟨l, v', hl, hv', hagrees⟩ | ⟨before, e, after, -, v', rfl, -, hbefore, -, hpanic⟩
  · obtain rfl := Outcome.ok.inj (h.symm.trans hv')
    exact ⟨l, hl, hagrees⟩
  · rw [LedgerView.project, List.foldlM_append, hbefore, Outcome.ok_bind, List.foldlM_cons,
      hpanic] at h
    cases h

/-- Replay and projection agree on every log: of a ledger, unless both panic at one event,
and of an account. -/
theorem replay_agrees_project (log : List LedgerEvent) (accountLog : List BankAccountEvent) :
    ((∃ l v, Ledger.replay log = .ok l ∧ LedgerView.project log = .ok v ∧ l.Agrees v) ∨
      ∃ before e after l v, log = before ++ e :: after ∧
        Ledger.replay before = .ok l ∧ LedgerView.project before = .ok v ∧
        l.apply e = .panic mixedCurrencies ∧ v.update e = .panic mixedCurrencies) ∧
      (BankAccount.replay accountLog).Agrees (BankAccountView.project accountLog) := by
  constructor
  · apply Outcome.foldlM_together
    · exact fun l v e h => h.apply_update e
    · exact Ledger.agrees_default
  · exact BankAccount.replay_agrees accountLog

end Bankie
