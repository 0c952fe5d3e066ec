import Bankie.LedgerLogs

/-!
No customer has two live accounts of one kind in one currency.
The database has no constraint for it. The consumer checks before it inserts, it is the only
one that inserts, and no later event rewrites what the check compares; so what was checked
still holds at the commit.
-/
namespace Bankie

open Program Transition

def BankAccountView.Live (v : BankAccountView) : Prop :=
  v.status = .pending ∨ v.status = .approved ∨ v.status = .freeze

/-- The fields that no two live rows share. -/
def BankAccountView.SameAs (v v' : BankAccountView) : Prop :=
  v.userId = v'.userId ∧ v.currency = v'.currency ∧ v.kind = v'.kind

/-- No two distinct rows of live accounts are the same. -/
def Store.NoDuplicates (s : Store) : Prop :=
  ∀ id id' v v', s.accountViews.lookup id = some v → s.accountViews.lookup id' = some v' →
    v.Live → v'.Live → v.SameAs v' → id = id'

section Texts

/-! The query compares texts: each enumeration is printed as it is stored. -/

theorem Currency.serde_eq_toString (c : Currency) : c.serde = c.toString := by
  cases c <;> rfl

theorem BankAccountKind.serde_eq_toString (k : BankAccountKind) : k.serde = k.toString := by
  cases k <;> rfl

theorem BankAccountStatus.serde_mem_liveStatus (v : BankAccountView) :
    v.status.serde ∈ Store.liveStatus ↔ v.Live := by
  unfold BankAccountView.Live
  cases v.status <;> simp [serde, Store.liveStatus]

end Texts

namespace Account

theorem project_names (id : Uuid) (a : Account) :
    (BankAccountView.project (a.events id)).userId = a.userId ∧
      (BankAccountView.project (a.events id)).kind = a.kind := by
  obtain ⟨t, k, c, u, w, approvals⟩ := a
  induction approvals using List.reverseRecOn with
  | nil => exact ⟨rfl, rfl⟩
  | append_singleton approvals p ih =>
    have hold : (BankAccountView.project (events id ⟨t, k, c, u, w, approvals⟩)).userId = u ∧
        (BankAccountView.project (events id ⟨t, k, c, u, w, approvals⟩)).kind = k := ih
    simpa [BankAccountView.project, events, BankAccountView.update] using hold

def Is (a : Account) (userId : String) (c : Currency) (kind : BankAccountKind) : Prop :=
  a.userId = userId ∧ a.currency = c ∧ a.kind = kind

theorem live_project (id : Uuid) (a : Account) :
    (BankAccountView.project (a.events id)).Live := by
  unfold BankAccountView.Live
  rw [(a.project_events id).2.1]
  split
  · exact Or.inl rfl
  · exact Or.inr (Or.inl rfl)

end Account

namespace Bank

variable {m m' : Bank}

/-- No account has the user, the currency and the kind of this opening. -/
def Free (m : Bank) (opening : Opening) : Prop :=
  ∀ id a, m.accounts id = some a → ¬ a.Is opening.userId opening.currency opening.kind

/-- Accounts differ in their user, currency or kind, and what is about to be opened is free. -/
structure Distinct (m : Bank) : Prop where
  accounts : ∀ id id' a a', m.accounts id = some a → m.accounts id' = some a' →
    a'.Is a.userId a.currency a.kind → id = id'
  opening : ∀ d opening, m.consumer = .openCommit d opening → m.Free opening

theorem distinct_init (houses : List HouseAccount) : (init houses).Distinct where
  accounts _ _ _ _ ha := by cases ha
  opening _ _ hp := by cases hp

theorem Step.account_names {a : Action} (h : m.Step a m') {id : Uuid} {x : Account}
    (hx : m'.accounts id = some x) :
    (∃ y, m.accounts id = some y ∧ y.Is x.userId x.currency x.kind) ∨
      ∃ d opening, m.consumer = .openCommit d opening ∧ id = opening.id ∧
        x = openingAccount opening d.now := by
  have hsame : m.accounts id = some x →
      ∃ y, m.accounts id = some y ∧ y.Is x.userId x.currency x.kind :=
    fun hx => ⟨x, hx, rfl, rfl, rfl⟩
  cases h with
  | openAccount o d opening hp =>
    by_cases hid : id = opening.id
    · rw [hid, setConsumer_accounts, setAccount_accounts, Function.update_self] at hx
      exact Or.inr ⟨d, opening, hp, hid, (Option.some.inj hx).symm⟩
    · rw [setConsumer_accounts, setAccount_accounts, Function.update_of_ne hid] at hx
      exact Or.inl (hsame hx)
  | approve o d account ledger sequence y hok hp hy =>
    by_cases hid : id = account
    · rw [hid, setConsumer_accounts, setAccount_accounts, Function.update_self] at hx
      rw [← Option.some.inj hx, hid]
      exact Or.inl ⟨y, hy, rfl, rfl, rfl⟩
    · rw [setConsumer_accounts, setAccount_accounts, Function.update_of_ne hid] at hx
      exact Or.inl (hsame hx)
  | _ => exact Or.inl (hsame hx)

/-- The consumer is about to open an account because it was before, or has just checked. -/
theorem Step.opening {a : Action} (h : m.Step a m') {d : Draws} {opening : Opening}
    (hp : m'.consumer = .openCommit d opening) :
    (m.consumer = .openCommit d opening ∧ m'.accounts = m.accounts) ∨
      ∃ o, a = .consumer o ∧ m.consumer = .openExists d opening ∧ m'.accounts = m.accounts := by
  cases h with
  | advance o p hadvance =>
    rw [setConsumer_consumer] at hp
    subst hp
    generalize hq : m.consumer = q at hadvance
    cases hadvance with
    | openExists => exact Or.inr ⟨o, rfl, rfl, rfl⟩
  | receive => cases hp
  | giveUp => cases hp
  | openAccount => cases hp
  | initLedger => cases hp
  | approve => cases hp
  | hold => cases hp
  | record o d' order ledger sequence house hrecord =>
    rw [setConsumer_consumer, afterRecord] at hp
    cases haction : order.action <;> rw [haction] at hp <;> cases hp
  | _ => exact Or.inl ⟨hp, rfl⟩

/-- A step keeps the accounts apart where the check of an opening has seen them all. -/
theorem Distinct.step (hm : m.Distinct) {a : Action} (h : m.Step a m')
    (hchecked : ∀ o d opening, a = .consumer o → m.consumer = .openExists d opening →
      m'.consumer = .openCommit d opening → m.Free opening) : m'.Distinct where
  accounts id id' x x' hx hx' hsame := by
    rcases h.account_names hx with ⟨y, hy, hyx⟩ | ⟨d, opening, hp, rfl, rfl⟩
    · rcases h.account_names hx' with ⟨y', hy', hyx'⟩ | ⟨d, opening, hp, rfl, rfl⟩
      · refine hm.accounts id id' y y' hy hy' ?_
        obtain ⟨h₁, h₂, h₃⟩ := hyx
        obtain ⟨h₁', h₂', h₃'⟩ := hyx'
        obtain ⟨h₁'', h₂'', h₃''⟩ := hsame
        exact ⟨by rw [h₁', h₁'', h₁], by rw [h₂', h₂'', h₂], by rw [h₃', h₃'', h₃]⟩
      · obtain ⟨h₁, h₂, h₃⟩ := hyx
        obtain ⟨h₁', h₂', h₃'⟩ := hsame
        exact absurd ⟨h₁.trans h₁'.symm, h₂.trans h₂'.symm, h₃.trans h₃'.symm⟩
          (hm.opening d opening hp id y hy)
    · rcases h.account_names hx' with ⟨y', hy', hyx'⟩ | ⟨d', opening', hp', rfl, rfl⟩
      · obtain ⟨h₁, h₂, h₃⟩ := hyx'
        obtain ⟨h₁', h₂', h₃'⟩ := hsame
        exact absurd ⟨h₁.trans h₁', h₂.trans h₂', h₃.trans h₃'⟩
          (hm.opening d opening hp id' y' hy')
      · rw [hp] at hp'
        rw [(ConsumerPoint.openCommit.inj hp').2]
  opening d opening hp := by
    rcases h.opening hp with ⟨hold, haccounts⟩ | ⟨o, rfl, hexists, haccounts⟩
    · intro id x hx
      rw [haccounts] at hx
      exact hm.opening d opening hold id x hx
    · intro id x hx
      rw [haccounts] at hx
      exact hchecked o d opening rfl hexists hp id x hx

end Bank

namespace Represents

variable {s : Store} {m : Bank}

theorem exists_accountView (h : Represents s m) {key : String} {v : BankAccountView}
    (hv : s.accountViews.lookup key = some v) :
    ∃ id a, key = id.toString ∧ m.accounts id = some a ∧
      v = BankAccountView.project (a.events id) := by
  have hkey : byKey m.accountView none key = some v := by
    rw [← h.accountViews]
    exact hv
  obtain ⟨id, rfl, hview⟩ := byKey_ne_other (by rw [hkey]; exact Option.some_ne_none v)
  obtain ⟨a, ha, hav⟩ := Option.map_eq_some_iff.mp (hview.symm.trans hkey)
  exact ⟨id, a, rfl, ha, hav.symm⟩

/-- Where the query finds no row, no account is the same. -/
theorem free_of_valid (h : Represents s m) {opening : Opening}
    (hvalid : s.validateBankAccountExists opening.userId opening.currency opening.kind = true) :
    m.Free opening := by
  rintro id a ha ⟨huser, hcurrency, hkind⟩
  have hview : s.accountViews.lookup id.toString =
      some (BankAccountView.project (a.events id)) := by
    rw [h.accountViews_at, Bank.accountView, ha]
    rfl
  have hmem := AList.mem_lookup_iff.mp hview
  have hnone := List.eq_nil_of_length_eq_zero (of_decide_eq_true hvalid)
  rw [List.filter_eq_nil_iff] at hnone
  refine hnone _ hmem (decide_eq_true ⟨?_, ?_, ?_, ?_⟩)
  · exact (a.project_names id).1.trans huser
  · rw [(a.project_events id).1, hcurrency, Currency.serde_eq_toString]
  · rw [(a.project_names id).2, hkind, BankAccountKind.serde_eq_toString]
  · exact (BankAccountStatus.serde_mem_liveStatus _).mpr (a.live_project id)

theorem noDuplicates (h : Represents s m) (hm : m.Distinct) : s.NoDuplicates := by
  intro key key' v v' hv hv' _ _ ⟨huser, hcurrency, hkind⟩
  obtain ⟨id, a, rfl, ha, rfl⟩ := h.exists_accountView hv
  obtain ⟨id', a', rfl, ha', rfl⟩ := h.exists_accountView hv'
  rw [(a.project_names id).1, (a'.project_names id').1] at huser
  rw [(a.project_events id).1, (a'.project_events id').1] at hcurrency
  rw [(a.project_names id).2, (a'.project_names id').2] at hkind
  rw [hm.accounts id id' a a' ha ha' ⟨huser.symm, hcurrency.symm, hkind.symm⟩]

end Represents

/-- The consumer goes on to the commit of an opening only where the query found no row. -/
theorem Models.free_of_checked {st st' : System} {m m' : Bank} (h : Models st m)
    (h' : Models st' m') {o : Oracle} (hstep : st.step (.consumer o) = some st') {d : Draws}
    {opening : Opening} (hp : m.consumer = .openExists d opening)
    (hp' : m'.consumer = .openCommit d opening) : m.Free opening := by
  obtain ⟨⟨p, s⟩, hcall, rfl⟩ := Option.map_eq_some_iff.mp hstep
  have hprog : p = (ConsumerPoint.openCommit d opening).prog := by
    rw [← hp']
    exact h'.consumer
  have hnot : p ≠ ConsumerPoint.idle.prog := by
    rw [hprog]
    exact (calls_openCommit d opening).ne_done _
  rw [h.consumer, hp] at hcall
  rcases (calls_openExists d opening).step hcall with ⟨valid, hexec, hnext⟩ | ⟨e, -, hnext⟩ |
    ⟨e, hexec, -⟩
  · cases valid with
    | false => exact absurd hnext hnot
    | true =>
      obtain ⟨-, hexec'⟩ := exec_ok hexec
      exact h.store.free_of_valid (Outcome.ok.inj (Prod.mk.inj hexec').1)
  · exact absurd hnext hnot
  · obtain ⟨-, hexec'⟩ := exec_panic hexec
    cases (Prod.mk.inj hexec').1

theorem distinct_refinement : Machine.Simulation System.machine Bank.machine
    (fun st m => (Models st m ∧ m.WF ∧ m.Numbered) ∧ m.Distinct) := by
  refine refinement.strengthen ?_ fun st m a st' hrel hdistinct hstep => ?_
  · rintro m ⟨houses, rfl⟩
    exact Bank.distinct_init houses
  · obtain ⟨m', hm', hrel'⟩ := refinement.step st m a st' hrel hstep
    refine ⟨m', hm', hrel', hdistinct.step hm' ?_⟩
    rintro o d opening rfl hp hp'
    exact hrel.1.free_of_checked hrel'.1 hstep hp hp'

/-- In every reachable state no two live accounts have the same user, currency and kind. -/
theorem no_duplicate_accounts {st : System} (h : System.machine.Reachable st) :
    st.store.NoDuplicates := by
  obtain ⟨m, -, ⟨hmodels, -⟩, hdistinct⟩ := distinct_refinement.reachable h
  exact hmodels.store.noDuplicates hdistinct

/-- The same customer asks for the same account twice. -/
def Scenario.reopened : List Action :=
  Scenario.opened ++
    Scenario.handle 12 40 3 (.openAccount (uid 0) none .retail .checking "alice" .usd)

theorem no_duplicate_accounts_reopened : ∃ st : System,
    st.store.accountViews.keys = [(Scenario.uid 10).toString] ∧ st.store.NoDuplicates := by
  have hrun : (((System.init []).run Scenario.reopened).map
      (fun st => st.store.accountViews.keys)) = some [(Scenario.uid 10).toString] := by
    decide +kernel
  obtain ⟨st, hst, hkeys⟩ := Option.map_eq_some_iff.mp hrun
  exact ⟨st, hkeys, no_duplicate_accounts (System.reachable_of_run hst)⟩

end Bankie
