import Bankie.OutboxCodec
import Mathlib.Algebra.BigOperators.Group.List.Basic

/-!
Accounts, books and movements as what happened to them.
An account is its opening and its approvals, a book is the postings on one ledger in one
currency, and a movement is what one deposit or withdrawal writes. No other event log or
row can be written down here: the logs and rows of the stores are read off these records,
and the folds of the stores are sums over them.
-/
namespace Bankie

open Program

/-- A bank account, as its opening and its approvals, oldest first. -/
structure Account where
  accountType : BankAccountType
  kind : BankAccountKind
  currency : Currency
  userId : String
  openedAt : String
  approvals : List (Uuid × String)

namespace Account

def approve (ledger : Uuid) (now : String) (a : Account) : Account :=
  { a with approvals := a.approvals ++ [(ledger, now)] }

def ledger (a : Account) : Option Uuid := a.approvals.getLast?.map Prod.fst

def events (id : Uuid) (a : Account) : List BankAccountEvent :=
  .accountOpened a.accountType a.kind a.currency a.userId (Helper.createBaseEvent a.openedAt id) ::
    a.approvals.map (fun p => .accountKycApproved p.1.toString (Helper.createBaseEvent p.2 id))

theorem events_approve (id ledger : Uuid) (now : String) (a : Account) :
    (a.approve ledger now).events id =
      a.events id ++ [.accountKycApproved ledger.toString (Helper.createBaseEvent now id)] := by
  simp [events, approve]

theorem replay_events (id : Uuid) (a : Account) :
    (BankAccount.replay (a.events id)).id = id.toString ∧
      (BankAccount.replay (a.events id)).ledgerId = (a.ledger.map Uuid.toString).getD "" := by
  obtain ⟨t, k, c, u, w, approvals⟩ := a
  induction approvals using List.reverseRecOn with
  | nil => exact ⟨rfl, rfl⟩
  | append_singleton approvals p ih =>
    simp [BankAccount.replay, events, ledger, BankAccount.apply, Helper.createBaseEvent]

theorem project_events (id : Uuid) (a : Account) :
    (BankAccountView.project (a.events id)).currency = a.currency ∧
      (BankAccountView.project (a.events id)).status =
        (if a.ledger = none then .pending else .approved) ∧
      (BankAccountView.project (a.events id)).ledgerId =
        (a.ledger.map Uuid.toString).getD "" := by
  obtain ⟨t, k, c, u, w, approvals⟩ := a
  induction approvals using List.reverseRecOn with
  | nil => exact ⟨rfl, rfl, rfl⟩
  | append_singleton approvals p ih =>
    have hcurrency : (BankAccountView.project (events id ⟨t, k, c, u, w, approvals⟩)).currency =
        c := ih.1
    simpa [BankAccountView.project, events, ledger, BankAccountView.update] using hcurrency

end Account

inductive PostingKind where
  | hold
  | release
  | credit
  deriving DecidableEq

/-- One ledger command that has been executed on a book. -/
structure Posting where
  kind : PostingKind
  transactionId : Uuid
  amount : Decimal
  time : String
  deriving DecidableEq

namespace Posting

def command (ledger account : Uuid) (c : Currency) (p : Posting) : LedgerCommand :=
  match p.kind with
  | .hold => .debitHold ledger account p.transactionId ⟨p.amount, c⟩
  | .release => .debitRelease ledger account p.transactionId ⟨p.amount, c⟩
  | .credit => .credit ledger account p.transactionId ⟨p.amount, c⟩

def events (ledger account : Uuid) (c : Currency) (p : Posting) : List LedgerEvent :=
  (p.command ledger account c).events p.time

def available (p : Posting) : ℚ :=
  match p.kind with
  | .hold => -p.amount.toRat
  | .release => 0
  | .credit => p.amount.toRat

def pending (p : Posting) : ℚ :=
  match p.kind with
  | .hold => p.amount.toRat
  | .release => -p.amount.toRat
  | .credit => 0

theorem exists_updated {ledger account : Uuid} {c : Currency} {p : Posting} {e : LedgerEvent}
    (he : e ∈ p.events ledger account c) : ∃ kind availableDelta pendingDelta base,
      e = .ledgerUpdated ⟨p.amount, c⟩ p.transactionId.toString kind availableDelta
        pendingDelta base := by
  obtain ⟨kind, tx, amount, time⟩ := p
  cases kind with
  | hold => exact ⟨_, _, _, _, List.mem_singleton.mp he⟩
  | release => exact ⟨_, _, _, _, List.mem_singleton.mp he⟩
  | credit =>
    rcases List.mem_cons.mp he with hhold | hrelease
    · exact ⟨_, _, _, _, hhold⟩
    · exact ⟨_, _, _, _, List.mem_singleton.mp hrelease⟩

theorem update_events {v : LedgerView} {c : Currency} {a b : ℚ} (h : v.Holds c a b)
    (ledger account : Uuid) (p : Posting) :
    ∃ v', (p.events ledger account c).foldlM LedgerView.update v = .ok v' ∧
      v'.Holds c (a + p.available) (b + p.pending) ∧ v'.id = ledger.toString ∧
      v'.accountId = account.toString := by
  obtain ⟨kind, tx, amount, time⟩ := p
  cases kind with
  | hold =>
    obtain ⟨v', hv', hholds, hid, hacc⟩ := LedgerView.update_updated h ⟨amount, c⟩ tx.toString
      "debit_hold" (Decimal.zero - amount) amount (ledgerBaseEvent time ledger account)
    refine ⟨v', ?_, by simpa [available, pending] using hholds, hid, hacc⟩
    simp [events, command, LedgerCommand.events, Money.new, hv']
  | release =>
    obtain ⟨v', hv', hholds, hid, hacc⟩ := LedgerView.update_updated h ⟨amount, c⟩ tx.toString
      "debit_release" Decimal.zero (Decimal.zero - amount) (ledgerBaseEvent time ledger account)
    refine ⟨v', ?_, by simpa [available, pending] using hholds, hid, hacc⟩
    simp [events, command, LedgerCommand.events, Money.new, hv']
  | credit =>
    obtain ⟨v₁, hv₁, hholds₁, -, -⟩ := LedgerView.update_updated h ⟨amount, c⟩ tx.toString
      "credit_hold" Decimal.zero amount (ledgerBaseEvent time ledger account)
    obtain ⟨v₂, hv₂, hholds₂, hid, hacc⟩ := LedgerView.update_updated hholds₁ ⟨amount, c⟩
      tx.toString "credit_release" amount (Decimal.zero - amount)
      (ledgerBaseEvent time ledger account)
    refine ⟨v₂, ?_, by simpa [available, pending] using hholds₂, hid, hacc⟩
    simp [events, command, LedgerCommand.events, Money.new, hv₁, hv₂]

theorem apply_events {l : Ledger} {c : Currency} {a b : ℚ} (h : l.Holds c a b)
    (ledger account : Uuid) (p : Posting) :
    ∃ l', (p.events ledger account c).foldlM Ledger.apply l = .ok l' ∧
      l'.Holds c (a + p.available) (b + p.pending) := by
  obtain ⟨kind, tx, amount, time⟩ := p
  cases kind with
  | hold =>
    obtain ⟨l', hl', hholds, -, -⟩ := Ledger.apply_updated h ⟨amount, c⟩ tx.toString
      "debit_hold" (Decimal.zero - amount) amount (ledgerBaseEvent time ledger account)
    refine ⟨l', ?_, by simpa [available, pending] using hholds⟩
    simp [events, command, LedgerCommand.events, Money.new, hl']
  | release =>
    obtain ⟨l', hl', hholds, -, -⟩ := Ledger.apply_updated h ⟨amount, c⟩ tx.toString
      "debit_release" Decimal.zero (Decimal.zero - amount) (ledgerBaseEvent time ledger account)
    refine ⟨l', ?_, by simpa [available, pending] using hholds⟩
    simp [events, command, LedgerCommand.events, Money.new, hl']
  | credit =>
    obtain ⟨l₁, hl₁, hholds₁, -, -⟩ := Ledger.apply_updated h ⟨amount, c⟩ tx.toString
      "credit_hold" Decimal.zero amount (ledgerBaseEvent time ledger account)
    obtain ⟨l₂, hl₂, hholds₂, -, -⟩ := Ledger.apply_updated hholds₁ ⟨amount, c⟩
      tx.toString "credit_release" amount (Decimal.zero - amount)
      (ledgerBaseEvent time ledger account)
    refine ⟨l₂, ?_, by simpa [available, pending] using hholds₂⟩
    simp [events, command, LedgerCommand.events, Money.new, hl₁, hl₂]

end Posting

/-- Whose money a book keeps: a customer's, or the bank's own. -/
inductive Holder where
  | customer
  | house
  deriving DecidableEq

/-- A ledger, as its opening in one currency for one owner and its postings, oldest first. -/
structure Book where
  holder : Holder
  owner : Uuid
  currency : Currency
  openedAt : String
  postings : List Posting

namespace Book

def post (p : Posting) (b : Book) : Book := { b with postings := b.postings ++ [p] }

def opening (ledger : Uuid) (b : Book) : LedgerCommand :=
  .init ledger b.owner (Money.new .zero b.currency)

def events (ledger : Uuid) (b : Book) : List LedgerEvent :=
  (b.opening ledger).events b.openedAt ++
    b.postings.flatMap (Posting.events ledger b.owner b.currency)

def available (b : Book) : ℚ := (b.postings.map Posting.available).sum

def pending (b : Book) : ℚ := (b.postings.map Posting.pending).sum

/-- An event of a book opened it, or is an update for the transaction of a posting. -/
theorem mem_events {ledger : Uuid} {b : Book} {e : LedgerEvent} (he : e ∈ b.events ledger) :
    e ∈ (b.opening ledger).events b.openedAt ∨
      ∃ p ∈ b.postings, ∃ kind availableDelta pendingDelta base,
        e = .ledgerUpdated ⟨p.amount, b.currency⟩ p.transactionId.toString kind availableDelta
          pendingDelta base := by
  rcases List.mem_append.mp he with hopening | hposted
  · exact Or.inl hopening
  · obtain ⟨p, hp, hpe⟩ := List.mem_flatMap.mp hposted
    exact Or.inr ⟨p, hp, Posting.exists_updated hpe⟩

theorem events_post (ledger : Uuid) (p : Posting) (b : Book) :
    (b.post p).events ledger = b.events ledger ++ p.events ledger b.owner b.currency := by
  simp [events, post, opening]

@[simp] theorem available_post (p : Posting) (b : Book) :
    (b.post p).available = b.available + p.available := by simp [available, post]

@[simp] theorem pending_post (p : Posting) (b : Book) :
    (b.post p).pending = b.pending + p.pending := by simp [pending, post]

/-- A book projects to a view, without a panic, and the view shows its balances. -/
theorem project_events (ledger : Uuid) (b : Book) :
    ∃ v, LedgerView.project (b.events ledger) = .ok v ∧
      v.Holds b.currency b.available b.pending ∧ v.id = ledger.toString ∧
      v.accountId = b.owner.toString := by
  obtain ⟨holder, owner, c, w, postings⟩ := b
  induction postings using List.reverseRecOn with
  | nil =>
    refine ⟨_, rfl, ⟨⟨rfl, rfl, ?_, ?_⟩, rfl, ?_⟩, rfl, rfl⟩ <;>
      simp [available, pending, Money.new]
  | append_singleton postings p ih =>
    obtain ⟨v, hv, hholds, -, -⟩ := ih
    obtain ⟨v', hv', hholds', hid, hacc⟩ := Posting.update_events hholds ledger owner p
    refine ⟨v', ?_, ?_, hid, hacc⟩
    · change LedgerView.project ((Book.mk holder owner c w postings).post p |>.events ledger) = _
      rw [LedgerView.project, events_post, List.foldlM_append]
      change (LedgerView.project _ >>= _) = _
      rw [hv]
      exact hv'
    · simpa [available, pending] using hholds'

theorem replay_events (ledger : Uuid) (b : Book) :
    ∃ l, Ledger.replay (b.events ledger) = .ok l ∧
      l.Holds b.currency b.available b.pending := by
  obtain ⟨holder, owner, c, w, postings⟩ := b
  induction postings using List.reverseRecOn with
  | nil =>
    refine ⟨_, rfl, rfl, rfl, ?_, ?_⟩ <;> simp [available, pending, Money.new]
  | append_singleton postings p ih =>
    obtain ⟨l, hl, hholds⟩ := ih
    obtain ⟨l', hl', hholds'⟩ := Posting.apply_events hholds ledger owner p
    refine ⟨l', ?_, ?_⟩
    · change Ledger.replay ((Book.mk holder owner c w postings).post p |>.events ledger) = _
      rw [Ledger.replay, events_post, List.foldlM_append]
      change (Ledger.replay _ >>= _) = _
      rw [hl]
      exact hl'
    · simpa [available, pending] using hholds'

def view (ledger : Uuid) (b : Book) : LedgerView :=
  match LedgerView.project (b.events ledger) with
  | .ok v => v
  | _ => default

theorem project_view (ledger : Uuid) (b : Book) :
    LedgerView.project (b.events ledger) = .ok (b.view ledger) := by
  obtain ⟨v, hv, -⟩ := b.project_events ledger
  rw [view, hv]

theorem view_holds (ledger : Uuid) (b : Book) :
    (b.view ledger).Holds b.currency b.available b.pending := by
  obtain ⟨v, hv, hholds, -⟩ := b.project_events ledger
  rw [view, hv]
  exact hholds

theorem view_accountId (ledger : Uuid) (b : Book) :
    (b.view ledger).accountId = b.owner.toString := by
  obtain ⟨v, hv, -, -, hacc⟩ := b.project_events ledger
  rw [view, hv]
  exact hacc

end Book

/-- What one deposit or withdrawal writes. -/
structure Movement where
  draws : Draws
  account : Uuid
  ledger : Uuid
  houseLedger : String
  action : LedgerAction
  amount : Money
  outboxId : ℕ

namespace Movement

def tx (mv : Movement) : Uuid := mv.draws.transactionId

def entry (mv : Movement) : JournalEntry := Helper.journalEntryOf mv.draws

def lines (mv : Movement) : List JournalLine :=
  (Helper.journalLinesOf mv.draws mv.houseLedger mv.ledger.toString mv.amount mv.action).map
    (fun line => { line with journalEntryId := some mv.entry.id })

def transaction (completed : Bool) (mv : Movement) : Transaction :=
  { Helper.transactionOf mv.draws mv.account mv.amount mv.action with
    journalEntryId := some mv.entry.id
    status := if completed then "completed" else "processing" }

def row (processed : Bool) (mv : Movement) : Outbox :=
  settlementRow mv.outboxId mv.action mv.ledger mv.account mv.tx mv.amount processed

def settlement (now : String) (mv : Movement) : Posting where
  kind :=
    match mv.action with
    | .deposit => .credit
    | .withdraw => .release
  transactionId := mv.tx
  amount := mv.amount.amount
  time := now

@[simp] theorem transaction_id (completed : Bool) (mv : Movement) :
    (mv.transaction completed).id = mv.tx := rfl

theorem settlement_kind (now : String) (mv : Movement) : (mv.settlement now).kind ≠ .hold := by
  rw [settlement]
  cases mv.action <;> simp

theorem settlement_command (now : String) (mv : Movement) :
    (mv.settlement now).command mv.ledger mv.account mv.amount.currency =
      mv.action.settlement mv.ledger mv.account mv.tx mv.amount := by
  obtain ⟨d, account, ledger, house, action, amount, n⟩ := mv
  cases action <;> rfl

end Movement

end Bankie
