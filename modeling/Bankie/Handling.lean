import Bankie.AccountLedger

/-!
How a deposit or a withdrawal is handled, call by call.
Each function of the service has one rule that says with which replies it ends and what it
leaves in the store. The rules come together in the four ways in which the handling of an
order on an approved account can end.
-/
namespace Bankie

open Program

/-- Some call fails under these oracles. -/
def MayFail (O : Oracle → Prop) : Prop := ∃ o, O o ∧ o.fail ≠ none

section Rules

variable {O : Oracle → Prop} {s : Store}

theorem wp_call {c : Call} {Q : Outcome (Reply c) → Store → Prop}
    (hfail : MayFail O → ∀ e, Q (.err e) s)
    (hexec : ∀ now, Q (execute c now s).1 (execute c now s).2) : (call c).wp exec O Q s := by
  refine Prog.wp_perform fun o ho => ?_
  rw [exec]
  split
  · rename_i e hfails
    exact hfail ⟨o, ho, by rw [hfails]; exact Option.some_ne_none e⟩ e
  · exact hexec o.now

def Store.Passes (s : Store) (order : Order) : Prop :=
  ∃ v ∈ s.accountViews.lookup order.account.toString, v.currency = order.amount.currency ∧
    ∀ l ∈ s.ledgerViews.lookup v.ledgerId, order.action = .withdraw →
      ¬ l.available.Lt order.amount

theorem validateLedger_spec (action : LedgerAction) (amount : Money) (l : Option LedgerView)
    {Q : Outcome Unit → Store → Prop}
    (hok : (∀ v ∈ l, action = .withdraw → ¬ v.available.Lt amount) → Q (.ok ()) s)
    (herr : (¬ ∀ v ∈ l, action = .withdraw → ¬ v.available.Lt amount) → ∀ e, Q (.err e) s) :
    (BankAccountLogic.validateLedger action amount l).wp exec O Q s := by
  cases l with
  | none => exact hok fun _ hv => by cases hv
  | some v =>
    rw [BankAccountLogic.validateLedger]
    split
    · rename_i hlt
      exact herr (fun hall => hall v rfl hlt.1 hlt.2) _
    · rename_i hge
      refine hok ?_
      intro v' hv' haction hlt
      obtain rfl := Option.some.inj hv'
      exact hge ⟨haction, hlt⟩

end Rules

section Writer

variable {s s' : Store}

/-- The identifiers that a movement is written with are on no row yet. -/
structure Store.Unwritten (s : Store) (d : Draws) : Prop where
  entry : ∀ e ∈ s.journalEntries, e.id ≠ d.journalEntryId
  lines : ∀ l ∈ s.journalLines, l.id ≠ d.houseLineId ∧ l.id ≠ d.userLineId
  transaction : ∀ t ∈ s.transactions, t.id ≠ d.transactionId
  distinct : d.houseLineId ≠ d.userLineId

def Decimal.FitsColumns (amount : Decimal) : Prop :=
  amount.FitsNumeric 19 4 ∧ amount.FitsNumeric 19 2

def Store.NewReference (s : Store) (d : Draws) (order : Order) : Prop :=
  ∀ t ∈ s.transactions, t.transactionReference ≠
    (Helper.transactionOf d order.account order.amount order.action).transactionReference

namespace Store

end Store

end Writer

section Orders

/-- What a store must show for an order to be written: an active house account whose ledger
has a row, an account that passes the checks, an amount that fits and a new reference. -/
structure Store.Accepts (s : Store) (d : Draws) (order : Order) : Prop where
  house : ∃ h, s.getHouseAccount order.amount.currency = .ok h ∧
    (s.ledgerViews.lookup h.ledgerId).isSome
  passes : s.Passes order
  fits : order.amount.amount.FitsColumns
  reference : s.NewReference d order

/-- The write of the rows of an order. -/
def Store.Writes (s : Store) (d : Draws) (order : Order) (ledger : Uuid) (s' : Store) : Prop :=
  ∃ house, s.createTransactionWithJournal
    (Helper.transactionOf d order.account order.amount order.action) ledger.toString
    (Helper.journalEntryOf d) (Helper.journalLinesOf d house ledger.toString order.amount
      order.action) = .ok (d.transactionId, s')

/-- The ways in which the handling of an order on an approved account ends. -/
inductive Handled (O : Oracle → Prop) (s : Store) (d : Draws) (order : Order) (ledger : Uuid) :
    Outcome Unit → Store → Prop where
  | refused (e : String) (h : MayFail O ∨ ¬ s.Accepts d order) :
      Handled O s d order ledger (.err e) s
  | deposited (s' : Store) (haction : order.action = .deposit) (haccepts : s.Accepts d order)
      (hwrite : s.Writes d order ledger s') : Handled O s d order ledger (.ok ()) s'
  | withdrawn (s₁ s' : Store) (now : String) (haction : order.action = .withdraw)
      (haccepts : s.Accepts d order) (hwrite : s.Writes d order ledger s₁)
      (hhold : s₁.executeLedger ledger.toString
        (.debitHold ledger order.account d.transactionId order.amount) now = .ok s') :
      Handled O s d order ledger (.ok ()) s'
  | unheld (e : String) (s' : Store) (hfail : MayFail O) (haction : order.action = .withdraw)
      (haccepts : s.Accepts d order) (hwrite : s.Writes d order ledger s') :
      Handled O s d order ledger (.err e) s'

variable {O : Oracle → Prop} {s : Store} {m : Bank} {d : Draws} {order : Order} {a : Account}
  {ledger : Uuid}

theorem Represents.unwritten (h : Represents s m) (hnum : m.Numbered) (hfresh : m.Fresh d.ids) :
    s.Unwritten d := by
  have hused : ∀ mv ∈ m.movements, ∀ u ∈ mv.draws.ids, ∀ v ∈ d.ids, u ≠ v := by
    rintro mv hmv u hu v hv rfl
    exact hfresh.2 u hv (hnum.ids_used mv hmv u hu)
  refine ⟨?_, ?_, ?_, ?_⟩
  · intro e he
    rw [h.journalEntries] at he
    obtain ⟨mv, hmv, rfl⟩ := List.mem_map.mp he
    exact hused mv hmv _ (by simp [Movement.entry, Helper.journalEntryOf, Draws.ids]) _
      (by simp [Draws.ids])
  · intro l hl
    rw [h.journalLines] at hl
    obtain ⟨mv, hmv, hl⟩ := List.mem_flatMap.mp hl
    have hid : l.id ∈ mv.draws.ids := by
      obtain ⟨l', hl', rfl⟩ := List.mem_map.mp hl
      unfold Helper.journalLinesOf at hl'
      split at hl' <;> rcases List.mem_pair.mp hl' with rfl | rfl <;> simp [Draws.ids]
    exact ⟨hused mv hmv _ hid _ (by simp [Draws.ids]), hused mv hmv _ hid _ (by simp [Draws.ids])⟩
  · intro t ht
    rw [h.transactions] at ht
    obtain ⟨mv, hmv, rfl⟩ := List.mem_map.mp ht
    exact hused mv hmv _ List.mem_cons_self _ List.mem_cons_self
  · have hnodup := hfresh.1
    simp only [Draws.ids, List.nodup_cons, List.mem_cons, not_or] at hnodup
    exact hnodup.2.2.1.1

theorem Represents.approved_view (h : Represents s m) (ha : m.accounts order.account = some a)
    (hledger : a.ledger = some ledger) :
    ∃ v, s.accountViews.lookup order.account.toString = some v ∧ v.status = .approved ∧
      v.currency = a.currency ∧ v.ledgerId = ledger.toString := by
  obtain ⟨hcurrency, hstatus, hledgerId⟩ := a.project_events order.account
  refine ⟨_, (h.accountViews_at order.account).trans (by rw [Bank.accountView, ha]; rfl), ?_,
    hcurrency, ?_⟩
  · rw [hstatus, hledger]
    rfl
  · rw [hledgerId, hledger]
    rfl

end Orders

end Bankie
