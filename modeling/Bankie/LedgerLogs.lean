import Bankie.Owners

/-!
Every ledger log is the log of a book.
It is one opening followed by updates, all for one account and in one currency; a
customer's ledger is in the currency of the account. So neither fold of a log ever adds
two currencies.
-/
namespace Bankie

open Program Transition

/-- An update for this account with every amount in this currency. -/
def LedgerEvent.UpdatesIn (parent : String) (c : Currency) : LedgerEvent → Prop
  | .ledgerInitiated .. => False
  | .ledgerUpdated amount _ _ availableDelta pendingDelta baseEvent =>
    baseEvent.parentId = parent ∧ amount.currency = c ∧ availableDelta.currency = c ∧
      pendingDelta.currency = c

/-- One `LedgerInitiated`, followed only by updates for its account in its currency. -/
def WellFormedLog (parent : String) (c : Currency) : List LedgerEvent → Prop
  | .ledgerInitiated amount baseEvent :: rest =>
    baseEvent.parentId = parent ∧ amount.currency = c ∧ ∀ e ∈ rest, e.UpdatesIn parent c
  | _ => False

theorem Posting.updatesIn {ledger account : Uuid} {c : Currency} {p : Posting} {e : LedgerEvent}
    (h : e ∈ p.events ledger account c) : e.UpdatesIn account.toString c := by
  obtain ⟨kind, tx, amount, time⟩ := p
  cases kind with
  | hold =>
    obtain rfl := List.mem_singleton.mp h
    exact ⟨rfl, rfl, rfl, rfl⟩
  | release =>
    obtain rfl := List.mem_singleton.mp h
    exact ⟨rfl, rfl, rfl, rfl⟩
  | credit =>
    rcases List.mem_cons.mp h with rfl | h
    · exact ⟨rfl, rfl, rfl, rfl⟩
    · obtain rfl := List.mem_singleton.mp h
      exact ⟨rfl, rfl, rfl, rfl⟩

theorem Book.wellFormedLog (ledger : Uuid) (b : Book) :
    WellFormedLog b.owner.toString b.currency (b.events ledger) := by
  refine ⟨rfl, rfl, fun e he => ?_⟩
  obtain ⟨p, -, hp⟩ := List.mem_flatMap.mp he
  exact Posting.updatesIn hp

namespace Represents

variable {s : Store} {m : Bank}

/-- A log that is not empty is the log of a book. -/
theorem exists_book (h : Represents s m) {key : String} (hlog : s.ledgerEvents key ≠ []) :
    ∃ ledger b, key = ledger.toString ∧ m.books ledger = some b ∧
      s.ledgerEvents key = b.events ledger := by
  rw [h.ledgerEvents] at hlog ⊢
  obtain ⟨ledger, hkey, hlog'⟩ := byKey_ne_other hlog
  cases hb : m.books ledger with
  | none =>
    rw [hlog', Bank.ledgerLog, hb] at hlog
    exact absurd rfl hlog
  | some b =>
    refine ⟨ledger, b, hkey, hb, ?_⟩
    rw [hlog', Bank.ledgerLog, hb]
    rfl

theorem exists_account (h : Represents s m) {key : String} (hlog : s.accountEvents key ≠ []) :
    ∃ id a, key = id.toString ∧ m.accounts id = some a ∧ s.accountEvents key = a.events id := by
  rw [h.accountEvents] at hlog ⊢
  obtain ⟨id, hkey, hlog'⟩ := byKey_ne_other hlog
  cases ha : m.accounts id with
  | none =>
    rw [hlog', Bank.accountLog, ha] at hlog
    exact absurd rfl hlog
  | some a =>
    refine ⟨id, a, hkey, ha, ?_⟩
    rw [hlog', Bank.accountLog, ha]
    rfl

end Represents

namespace Account

theorem replay_currency (id : Uuid) (a : Account) :
    (BankAccount.replay (a.events id)).currency = a.currency := by
  obtain ⟨t, k, c, u, w, approvals⟩ := a
  induction approvals using List.reverseRecOn with
  | nil => rfl
  | append_singleton approvals p ih =>
    have hc : (BankAccount.replay (events id ⟨t, k, c, u, w, approvals⟩)).currency = c := ih
    simpa [BankAccount.replay, events, BankAccount.apply] using hc

theorem approved_of_mem_events {id : Uuid} {a : Account} {ledgerId : String} {e : BaseEvent}
    (h : .accountKycApproved ledgerId e ∈ a.events id) :
    ∃ p ∈ a.approvals, ledgerId = p.1.toString := by
  rcases List.mem_cons.mp h with hopen | happroved
  · cases hopen
  · obtain ⟨p, hp, heq⟩ := List.mem_map.mp happroved
    exact ⟨p, hp, (BankAccountEvent.accountKycApproved.inj heq).1.symm⟩

end Account

/-- The log of a ledger in any reachable state: its shape, its one currency, the account
that it belongs to, and that both of its folds come to an end. -/
theorem ledger_log_wellFormed {st : System} (h : System.machine.Reachable st) (key : String)
    (hlog : st.store.ledgerEvents key ≠ []) :
    ∃ parent c, WellFormedLog parent c (st.store.ledgerEvents key) ∧
      (st.store.accountEvents parent ≠ [] →
        (BankAccount.replay (st.store.accountEvents parent)).currency = c) ∧
      (∀ account e, .accountKycApproved key e ∈ st.store.accountEvents account →
        account = parent) ∧
      (∃ l, Ledger.replay (st.store.ledgerEvents key) = .ok l) ∧
      ∃ v, LedgerView.project (st.store.ledgerEvents key) = .ok v := by
  obtain ⟨m, hreach, hmodels, -⟩ := refinement.reachable h
  obtain ⟨⟨hm, -⟩, howned⟩ := Bank.owned_invariant.reachable hreach
  obtain ⟨ledger, b, rfl, hb, hevents⟩ := hmodels.store.exists_book hlog
  obtain ⟨l, hl, -⟩ := b.replay_events ledger
  rw [hevents]
  refine ⟨b.owner.toString, b.currency, b.wellFormedLog ledger, ?_, ?_, ⟨l, hl⟩,
    ⟨_, b.project_view ledger⟩⟩
  · intro hparent
    obtain ⟨id, a, hid, ha, hlog'⟩ := hmodels.store.exists_account hparent
    obtain rfl := Uuid.toString_inj.mp hid
    rw [hlog', Account.replay_currency]
    have hby := howned.books ledger b hb
    unfold Bank.OwnedBy at hby
    split at hby
    · obtain ⟨a', ha', hc⟩ := hby
      obtain rfl := Option.some.inj (ha.symm.trans ha')
      exact hc
    · cases ha.symm.trans hby.no_account
  · intro account e he
    obtain ⟨id, a, rfl, ha, hlog'⟩ := hmodels.store.exists_account (List.ne_nil_of_mem he)
    rw [hlog'] at he
    obtain ⟨p, hp, hledger⟩ := Account.approved_of_mem_events he
    obtain ⟨b', hb', -, howner, -⟩ := hm.approvals id a ha p hp
    rw [← Uuid.toString_inj.mp hledger] at hb'
    obtain rfl := Option.some.inj (hb.symm.trans hb')
    rw [howner]

theorem ledger_log_wellFormed_funded : ∃ st, System.machine.Reachable st ∧
    ∃ parent c, WellFormedLog parent c
      (st.store.ledgerEvents (Scenario.uid 11).toString) := by
  have hrun : (((System.init []).run Scenario.funded).map
      (fun st => decide (st.store.ledgerEvents (Scenario.uid 11).toString ≠ []))) =
      some true := by decide +kernel
  obtain ⟨st, hst, hlog⟩ := Option.map_eq_some_iff.mp hrun
  have hreach := System.reachable_of_run hst
  obtain ⟨parent, c, hwf, -⟩ :=
    ledger_log_wellFormed hreach _ (of_decide_eq_true hlog)
  exact ⟨st, hreach, parent, c, hwf⟩

end Bankie
