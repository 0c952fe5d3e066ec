import Bankie.AccountLedger
import Bankie.Audit
import Bankie.Duplicates
import Bankie.Folds
import Bankie.Handlers

/-!
The accounts that a customer is shown.
The query joins two tables of JSON by their texts, and no constraint of the database makes the
rows of the join distinct or complete. In every reachable state it lists each account that was
opened for the customer once, with the balances of its ledger as soon as it is approved; and
what it has listed it lists ever after.
-/
namespace Bankie

open Program Transition

def BankAccountEvent.user : BankAccountEvent → Option String
  | .accountOpened _ _ _ userId _ => some userId
  | _ => none

/-- An account with this id was opened for the user. -/
def Store.AccountOf (s : Store) (userId id : String) : Prop :=
  ∃ e ∈ s.accountEvents id, e.user = some userId

namespace BankAccountWithLedger

/-- The row has no balances, for the account has no ledger yet. -/
def Unfunded (row : BankAccountWithLedger) : Prop :=
  row.available = none ∧ row.pending = none ∧ row.current = none

/-- The row has the balances of a ledger of the account, which add up. -/
structure Funded (row : BankAccountWithLedger) (account : BankAccount) (l : LedgerView) :
    Prop where
  owner : l.accountId = account.id
  currency : l.available.currency = account.currency
  available : row.available = some l.available.amount
  pending : row.pending = some l.pending.amount
  current : row.current = some l.current.amount
  sum : l.current.amount.toRat = l.available.amount.toRat + l.pending.amount.toRat

/-- The row tells what the log of the account comes to, and the balances of the ledger that was
attached to it last. -/
structure Tells (row : BankAccountWithLedger) (s : Store) (account : BankAccount) : Prop where
  id : row.id = some account.id
  status : row.status = some account.status.serde
  accountType : row.accountType = some account.accountType.serde
  kind : row.kind = some account.kind.serde
  currency : row.currency = some account.currency.serde
  balances : (account.status = .pending ∧ s.attached account.id = [] ∧ row.Unfunded) ∨
    (account.status = .approved ∧ ∃ ledgerId l, (s.attached account.id).getLast? = some ledgerId ∧
      s.ledgerViews.lookup ledgerId = some l ∧ row.Funded account l)

/-- A later row of the same account: what was chosen at its opening stays, and so does its
approval. -/
structure ContinuedBy (row row' : BankAccountWithLedger) : Prop where
  id : row'.id = row.id
  accountType : row'.accountType = row.accountType
  kind : row'.kind = row.kind
  currency : row'.currency = row.currency
  createdAt : row'.createdAt = row.createdAt
  approved : row.status = some BankAccountStatus.approved.serde →
    row'.status = some BankAccountStatus.approved.serde

end BankAccountWithLedger

section Texts

theorem Currency.serde_inj {c c' : Currency} (h : c.serde = c'.serde) : c = c' := by
  rw [serde_eq_toString, serde_eq_toString] at h
  exact toString_inj h

theorem BankAccountKind.serde_inj {k k' : BankAccountKind} (h : k.serde = k'.serde) : k = k' := by
  revert h
  cases k <;> cases k' <;> decide

end Texts

namespace Store

variable {s : Store} {userId : String} {o : Oracle} {row : BankAccountWithLedger}

theorem userQueryHandler_up (ho : o.fail = none) (userId : String) (s : Store) :
    userQueryHandler userId o s = .ok (.ok (s.getUserBankAccounts userId)) := by
  rw [userQueryHandler, fetch, ho]
  rfl

theorem userQueryHandler_ok {rows : List BankAccountWithLedger}
    (h : userQueryHandler userId o s = .ok (.ok rows)) : rows = s.getUserBankAccounts userId := by
  cases ho : o.fail with
  | none =>
    rw [userQueryHandler_up ho] at h
    exact (Except.ok.inj (Outcome.ok.inj h)).symm
  | some e =>
    rw [userQueryHandler, fetch, ho] at h
    cases h

/-- A row of the answer is a view row of the user, with the ledger that it names. -/
theorem mem_getUserBankAccounts : row ∈ s.getUserBankAccounts userId ↔
    ∃ key v, s.accountViews.lookup key = some v ∧ v.userId = userId ∧
      row = v.withLedger (s.ledgerViews.lookup v.ledgerId) := by
  constructor
  · intro hrow
    obtain ⟨⟨key, v⟩, hmem, rfl⟩ := List.mem_map.mp hrow
    obtain ⟨hentry, huser⟩ := List.mem_filter.mp hmem
    exact ⟨key, v, AList.mem_lookup_iff.mpr hentry, of_decide_eq_true huser, rfl⟩
  · rintro ⟨key, v, hv, huser, rfl⟩
    exact List.mem_map.mpr ⟨⟨key, v⟩, List.mem_filter.mpr
      ⟨AList.mem_lookup_iff.mp hv, decide_eq_true huser⟩, rfl⟩

theorem nodup_map_getUserBankAccounts {β : Type} (f : BankAccountWithLedger → β)
    (hf : ∀ key key' v v', s.accountViews.lookup key = some v →
      s.accountViews.lookup key' = some v' → v.userId = userId → v'.userId = userId →
      f (v.withLedger (s.ledgerViews.lookup v.ledgerId)) =
        f (v'.withLedger (s.ledgerViews.lookup v'.ledgerId)) → key = key') :
    ((s.getUserBankAccounts userId).map f).Nodup := by
  rw [getUserBankAccounts, List.map_map]
  refine List.Nodup.map_on ?_ (s.accountViews.nodupKeys.nodup.filter _)
  rintro ⟨key, v⟩ hentry ⟨key', v'⟩ hentry' heq
  obtain ⟨hmem, huser⟩ := List.mem_filter.mp hentry
  obtain ⟨hmem', huser'⟩ := List.mem_filter.mp hentry'
  have hv := AList.mem_lookup_iff.mpr hmem
  have hv' := AList.mem_lookup_iff.mpr hmem'
  obtain rfl := hf key key' v v' hv hv' (of_decide_eq_true huser) (of_decide_eq_true huser') heq
  obtain rfl := Option.some.inj (hv.symm.trans hv')
  rfl

end Store

namespace Account

theorem project_opening (id : Uuid) (a : Account) :
    (BankAccountView.project (a.events id)).id = id.toString ∧
      (BankAccountView.project (a.events id)).accountType = a.accountType ∧
      (BankAccountView.project (a.events id)).createdAt = a.openedAt := by
  obtain ⟨t, k, c, u, w, approvals⟩ := a
  induction approvals using List.reverseRecOn with
  | nil => exact ⟨rfl, rfl, rfl⟩
  | append_singleton approvals p ih =>
    have hold : (BankAccountView.project (events id ⟨t, k, c, u, w, approvals⟩)).accountType = t ∧
        (BankAccountView.project (events id ⟨t, k, c, u, w, approvals⟩)).createdAt = w := ih.2
    simpa [BankAccountView.project, events, BankAccountView.update, Helper.createBaseEvent]
      using hold

theorem user_of_mem_events {id : Uuid} {a : Account} {userId : String} :
    (∃ e ∈ a.events id, e.user = some userId) ↔ a.userId = userId := by
  constructor
  · rintro ⟨e, he, huser⟩
    rcases List.mem_cons.mp he with rfl | happroved
    · exact Option.some.inj huser
    · obtain ⟨p, -, rfl⟩ := List.mem_map.mp happroved
      cases huser
  · rintro rfl
    exact ⟨_, List.mem_cons_self, rfl⟩

/-- A log that grows keeps its opening, and its approvals. -/
theorem of_events_prefix {id : Uuid} {a a' : Account} (h : a.events id <+: a'.events id) :
    a'.accountType = a.accountType ∧ a'.kind = a.kind ∧ a'.currency = a.currency ∧
      a'.userId = a.userId ∧ a'.openedAt = a.openedAt ∧ (a.ledger ≠ none → a'.ledger ≠ none) := by
  obtain ⟨hopening, happrovals⟩ := List.cons_prefix_cons.mp h
  obtain ⟨ht, hk, hc, hu, hbase⟩ := BankAccountEvent.accountOpened.inj hopening
  refine ⟨ht.symm, hk.symm, hc.symm, hu.symm, (BaseEvent.mk.inj hbase).1.symm, ?_⟩
  intro hledger hnone
  have hnil : a'.approvals = [] := by simpa [ledger] using hnone
  rw [hnil, List.map_nil, List.prefix_nil, List.map_eq_nil_iff] at happrovals
  exact hledger (by rw [ledger, happrovals]; rfl)

end Account

namespace Represents

variable {s : Store} {m : Bank} {id : Uuid} {a : Account}

theorem lookup_accountView (h : Represents s m) (ha : m.accounts id = some a) :
    s.accountViews.lookup id.toString = some (BankAccountView.project (a.events id)) := by
  rw [h.accountViews_at, Bank.accountView, ha]
  rfl

/-- The empty text, which a pending account has for its ledger, joins with no row. -/
theorem lookup_ledgerView_empty (h : Represents s m) : s.ledgerViews.lookup "" = none := by
  have hempty : s.ledgerViews.lookup "" = byKey m.ledgerView none "" := congrFun h.ledgerViews ""
  rw [hempty, byKey, Uuid.parseStr_empty]

theorem row_tells (h : Represents s m) (hwf : m.WF) (ha : m.accounts id = some a) :
    ((BankAccountView.project (a.events id)).withLedger (s.ledgerViews.lookup
      (BankAccountView.project (a.events id)).ledgerId)).Tells s
        (BankAccount.replay (a.events id)) := by
  have hagrees := BankAccount.replay_agrees (a.events id)
  have hattached := h.attached ha
  rw [← (a.replay_events id).1] at hattached
  refine ⟨?_, ?_, ?_, ?_, ?_, ?_⟩
  · rw [hagrees.id]
    rfl
  · rw [hagrees.status]
    rfl
  · rw [hagrees.accountType]
    rfl
  · rw [hagrees.kind]
    rfl
  · rw [hagrees.currency]
    rfl
  · rw [hattached, hagrees.status, (a.project_events id).2.1, (a.project_events id).2.2]
    cases hledger : a.ledger with
    | none =>
      have hnil : a.approvals = [] := by simpa [Account.ledger] using hledger
      refine Or.inl ⟨if_pos rfl, by rw [hnil, List.map_nil], ?_⟩
      have hnone : s.ledgerViews.lookup (((none : Option Uuid).map Uuid.toString).getD "") =
          none := h.lookup_ledgerView_empty
      rw [hnone]
      exact ⟨rfl, rfl, rfl⟩
    | some ledger =>
      obtain ⟨p, hp, rfl⟩ := Option.map_eq_some_iff.mp hledger
      obtain ⟨b, hb, -, howner, hcurrency⟩ :=
        hwf.approvals id a ha p (List.mem_of_getLast? hp)
      have hlookup : s.ledgerViews.lookup p.1.toString = some (b.view p.1) := by
        rw [h.ledgerViews_at, Bank.ledgerView, hb]
        rfl
      refine Or.inr ⟨if_neg (Option.some_ne_none _), p.1.toString, b.view p.1, ?_, hlookup, ?_⟩
      · rw [List.getLast?_map, hp]
        rfl
      · have hjoined : s.ledgerViews.lookup ((some p.1).map Uuid.toString |>.getD "") =
            some (b.view p.1) := hlookup
        obtain ⟨⟨hc, -, havailable, hpending⟩, -, hcurrent⟩ := b.view_holds p.1
        rw [hjoined]
        refine ⟨?_, ?_, rfl, rfl, rfl, ?_⟩
        · rw [b.view_accountId, howner, (a.replay_events id).1]
        · rw [hc, hcurrency, a.replay_currency id]
        · rw [hcurrent, havailable, hpending]

theorem mem_getUserBankAccounts (h : Represents s m) {userId : String}
    {row : BankAccountWithLedger} : row ∈ s.getUserBankAccounts userId ↔
      ∃ id a, m.accounts id = some a ∧ a.userId = userId ∧
        row = (BankAccountView.project (a.events id)).withLedger (s.ledgerViews.lookup
          (BankAccountView.project (a.events id)).ledgerId) := by
  rw [Store.mem_getUserBankAccounts]
  constructor
  · rintro ⟨key, v, hv, huser, rfl⟩
    obtain ⟨id, a, rfl, ha, rfl⟩ := h.exists_accountView hv
    exact ⟨id, a, ha, (a.project_names id).1.symm.trans huser, rfl⟩
  · rintro ⟨id, a, ha, huser, rfl⟩
    exact ⟨id.toString, _, h.lookup_accountView ha, (a.project_names id).1.trans huser, rfl⟩

theorem accountOf_iff (h : Represents s m) {userId key : String} : s.AccountOf userId key ↔
    ∃ id a, key = id.toString ∧ m.accounts id = some a ∧ a.userId = userId := by
  constructor
  · rintro ⟨e, he, huser⟩
    obtain ⟨id, a, rfl, ha, hevents⟩ := h.exists_account (List.ne_nil_of_mem he)
    exact ⟨id, a, rfl, ha, Account.user_of_mem_events.mp ⟨e, hevents ▸ he, huser⟩⟩
  · rintro ⟨id, a, rfl, ha, huser⟩
    rw [Store.AccountOf, h.accountEvents_at, Bank.accountLog, ha]
    exact Account.user_of_mem_events.mpr huser

theorem rows_nodup (h : Represents s m) (hm : m.Distinct) (userId : String) :
    ((s.getUserBankAccounts userId).map BankAccountWithLedger.id).Nodup ∧
      ((s.getUserBankAccounts userId).map fun row => (row.currency, row.kind)).Nodup := by
  constructor
  · refine Store.nodup_map_getUserBankAccounts _ fun key key' v v' hv hv' _ _ heq => ?_
    obtain ⟨id, a, rfl, -, rfl⟩ := h.exists_accountView hv
    obtain ⟨id', a', rfl, -, rfl⟩ := h.exists_accountView hv'
    have hids : (BankAccountView.project (a.events id)).id =
        (BankAccountView.project (a'.events id')).id := Option.some.inj heq
    rwa [(a.project_opening id).1, (a'.project_opening id').1] at hids
  · refine Store.nodup_map_getUserBankAccounts _ fun key key' v v' hv hv' huser huser' heq => ?_
    obtain ⟨id, a, rfl, ha, rfl⟩ := h.exists_accountView hv
    obtain ⟨id', a', rfl, ha', rfl⟩ := h.exists_accountView hv'
    obtain ⟨hcurrencies, hkinds⟩ := Prod.mk.inj heq
    have hcurrency := Currency.serde_inj (Option.some.inj hcurrencies)
    have hkind := BankAccountKind.serde_inj (Option.some.inj hkinds)
    rw [(a.project_events id).1, (a'.project_events id').1] at hcurrency
    rw [(a.project_names id).2, (a'.project_names id').2] at hkind
    rw [(a.project_names id).1] at huser
    rw [(a'.project_names id').1] at huser'
    rw [hm.accounts id id' a a' ha ha' ⟨huser'.trans huser.symm, hcurrency.symm, hkind.symm⟩]

end Represents

/-- In every reachable state the query answers with one row for each account that was opened
for the user, no two of one kind in one currency. Each row, the views being written with their
events and the sums being exact, tells what the log of its account comes to and shows its
ledger. -/
theorem user_accounts_listed {st : System} (h : System.machine.Reachable st) (userId : String)
    {o : Oracle} (ho : o.fail = none) :
    ∃ rows, userQueryHandler userId o st.store = .ok (.ok rows) ∧
      (rows.map BankAccountWithLedger.id).Nodup ∧
      (rows.map fun row => (row.currency, row.kind)).Nodup ∧
      (∀ id, some id ∈ rows.map BankAccountWithLedger.id ↔ st.store.AccountOf userId id) ∧
      ∀ row ∈ rows, ∃ id, st.store.AccountOf userId id ∧
        row.Tells st.store (BankAccount.replay (st.store.accountEvents id)) := by
  obtain ⟨m, -, ⟨hmodels, hwf, -⟩, hdistinct⟩ := distinct_refinement.reachable h
  have hstore := hmodels.store
  refine ⟨_, Store.userQueryHandler_up ho userId st.store, (hstore.rows_nodup hdistinct userId).1,
    (hstore.rows_nodup hdistinct userId).2, fun key => ?_, fun row hrow => ?_⟩
  · rw [hstore.accountOf_iff, List.mem_map]
    constructor
    · rintro ⟨row, hrow, hid⟩
      obtain ⟨id, a, ha, huser, rfl⟩ := hstore.mem_getUserBankAccounts.mp hrow
      exact ⟨id, a, (Option.some.inj hid).symm.trans (a.project_opening id).1, ha, huser⟩
    · rintro ⟨id, a, rfl, ha, huser⟩
      exact ⟨_, hstore.mem_getUserBankAccounts.mpr ⟨id, a, ha, huser, rfl⟩,
        congrArg some (a.project_opening id).1⟩
  · obtain ⟨id, a, ha, huser, rfl⟩ := hstore.mem_getUserBankAccounts.mp hrow
    refine ⟨id.toString, hstore.accountOf_iff.mpr ⟨id, a, rfl, ha, huser⟩, ?_⟩
    have hevents : st.store.accountEvents id.toString = a.events id := by
      rw [hstore.accountEvents_at, Bank.accountLog, ha]
      rfl
    rw [hevents]
    exact hstore.row_tells hwf ha

def Scenario.secondOpened : List Action :=
  funded ++ handle 14 50 4 (.openAccount (uid 0) none .retail .interest "alice" .usd)

theorem user_accounts_listed_secondOpened : ∃ (st : System) (rows : List BankAccountWithLedger),
    userQueryHandler "alice" Scenario.up st.store = .ok (.ok rows) ∧ rows.length = 2 ∧
      rows.map BankAccountWithLedger.available = [none, some (.ofInt 100)] ∧
      ∀ id, some id ∈ rows.map BankAccountWithLedger.id ↔ st.store.AccountOf "alice" id := by
  have hrun : ((System.init []).run Scenario.secondOpened).map
      (fun st => (st.store.getUserBankAccounts "alice").map BankAccountWithLedger.available) =
      some [none, some (.ofInt 100)] := by decide +kernel
  obtain ⟨st, hst, havailable⟩ := Option.map_eq_some_iff.mp hrun
  obtain ⟨rows, hanswer, -, -, hlisted, -⟩ :=
    user_accounts_listed (System.reachable_of_run hst) "alice" (o := Scenario.up) rfl
  obtain rfl := Store.userQueryHandler_ok hanswer
  refine ⟨st, _, hanswer, ?_, havailable, hlisted⟩
  rw [← List.length_map BankAccountWithLedger.available, havailable]
  rfl

/-- Whatever happens between two answers, each row of the first is continued by a row of the
second. -/
theorem user_accounts_kept {st st' : System} {as : List Action}
    (h : System.machine.Reachable st) (hsteps : System.machine.Steps st as st') {userId : String}
    {o o' : Oracle} {rows rows' : List BankAccountWithLedger}
    (hrows : userQueryHandler userId o st.store = .ok (.ok rows))
    (hrows' : userQueryHandler userId o' st'.store = .ok (.ok rows')) :
    ∀ row ∈ rows, ∃ row' ∈ rows', row.ContinuedBy row' := by
  obtain ⟨m, -, hmodels, -⟩ := refinement.reachable h
  obtain ⟨m', -, hmodels', -⟩ := refinement.reachable (h.steps hsteps)
  have hrecorded : st.store.RecordedIn st'.store :=
    hsteps.preserves (P := fun st₁ => st.store.RecordedIn st₁.store)
      (fun _ _ _ hold hstep => hold.trans (System.recordedIn_step hstep))
      (Store.RecordedIn.refl st.store)
  obtain rfl := Store.userQueryHandler_ok hrows
  obtain rfl := Store.userQueryHandler_ok hrows'
  intro row hrow
  obtain ⟨id, a, ha, huser, rfl⟩ := hmodels.store.mem_getUserBankAccounts.mp hrow
  -- the log of the account has only grown
  have hgrown := hrecorded.accountEvents id.toString
  rw [hmodels.store.accountEvents_at, hmodels'.store.accountEvents_at, Bank.accountLog, ha]
    at hgrown
  cases ha' : m'.accounts id with
  | none =>
    rw [Bank.accountLog, ha'] at hgrown
    exact absurd (List.prefix_nil.mp hgrown) (List.cons_ne_nil _ _)
  | some a' =>
    rw [Bank.accountLog, ha'] at hgrown
    obtain ⟨htype, hkind, hcurrency, huser', hopened, hledger⟩ := Account.of_events_prefix hgrown
    refine ⟨_, hmodels'.store.mem_getUserBankAccounts.mpr
      ⟨id, a', ha', huser'.trans huser, rfl⟩, ?_⟩
    obtain ⟨hid₁, htype₁, hopened₁⟩ := a.project_opening id
    obtain ⟨hid₂, htype₂, hopened₂⟩ := a'.project_opening id
    obtain ⟨hcurrency₁, hstatus₁, -⟩ := a.project_events id
    obtain ⟨hcurrency₂, hstatus₂, -⟩ := a'.project_events id
    refine ⟨?_, ?_, ?_, ?_, ?_, fun happroved => ?_⟩
    · rw [BankAccountView.withLedger, BankAccountView.withLedger, hid₁, hid₂]
    · rw [BankAccountView.withLedger, BankAccountView.withLedger, htype₁, htype₂, htype]
    · rw [BankAccountView.withLedger, BankAccountView.withLedger, (a.project_names id).2,
        (a'.project_names id).2, hkind]
    · rw [BankAccountView.withLedger, BankAccountView.withLedger, hcurrency₁, hcurrency₂,
        hcurrency]
    · rw [BankAccountView.withLedger, BankAccountView.withLedger, hopened₁, hopened₂, hopened]
    · have hledger₁ : a.ledger ≠ none := by
        intro hnone
        have hserde := Option.some.inj happroved
        rw [hstatus₁, if_pos hnone] at hserde
        exact absurd hserde (by decide)
      change some (BankAccountView.project (a'.events id)).status.serde = _
      rw [hstatus₂, if_neg (hledger hledger₁)]

/-- The second account is approved between the answers. -/
theorem user_accounts_kept_approved : ∃ (st st' : System)
    (rows rows' : List BankAccountWithLedger),
    userQueryHandler "alice" Scenario.up st.store = .ok (.ok rows) ∧
      userQueryHandler "alice" Scenario.up st'.store = .ok (.ok rows') ∧
      rows.map BankAccountWithLedger.status = [some "Pending", some "Approved"] ∧
      rows'.map BankAccountWithLedger.status = [some "Approved", some "Approved"] ∧
      ∀ row ∈ rows, ∃ row' ∈ rows', row.ContinuedBy row' := by
  have hrun : ((System.init []).run Scenario.secondOpened).bind (fun st =>
      (st.run (Scenario.handle 15 60 4 (.approveAccount (Scenario.uid 14) (Scenario.uid 0)))).map
        fun st' => ((st.store.getUserBankAccounts "alice").map BankAccountWithLedger.status,
          (st'.store.getUserBankAccounts "alice").map BankAccountWithLedger.status)) =
      some ([some "Pending", some "Approved"], [some "Approved", some "Approved"]) := by
    decide +kernel
  obtain ⟨st, hst, hrest⟩ := Option.bind_eq_some_iff.mp hrun
  obtain ⟨st', hst', hstatus⟩ := Option.map_eq_some_iff.mp hrest
  obtain ⟨hbefore, hafter⟩ := Prod.mk.inj hstatus
  have hanswer := Store.userQueryHandler_up (o := Scenario.up) rfl "alice" st.store
  have hanswer' := Store.userQueryHandler_up (o := Scenario.up) rfl "alice" st'.store
  exact ⟨st, st', _, _, hanswer, hanswer', hbefore, hafter,
    user_accounts_kept (System.reachable_of_run hst) (System.steps_of_run hst') hanswer hanswer'⟩

end Bankie
