import Bankie.Audit
import Bankie.DoubleEntry

/-!
The house accounts: one of them active per currency, and none of their ledgers ever moved.
The unique constraint of the table survives every run, so that the lookup, which takes any
matching row, has only one to take, and takes the same one ever after. The journal posts the
other side of every movement to that account's ledger; no ledger command is ever sent there.
-/
namespace Bankie

open Program Transition

/-- Two rows that a unique key of the table does not let stand together. -/
def HouseAccount.Conflicts (a b : HouseAccount) : Prop :=
  a.id = b.id ∨ a.accountNumber = b.accountNumber ∨
    (a.accountType = b.accountType ∧ a.currency = b.currency ∧ a.status = b.status)

instance (a b : HouseAccount) : Decidable (a.Conflicts b) := inferInstanceAs (Decidable (_ ∨ _))

theorem HouseAccount.Conflicts.symm {a b : HouseAccount} (h : a.Conflicts b) : b.Conflicts a := by
  rcases h with hid | hnumber | ⟨htype, hcurrency, hstatus⟩
  · exact Or.inl hid.symm
  · exact Or.inr (Or.inl hnumber.symm)
  · exact Or.inr (Or.inr ⟨htype.symm, hcurrency.symm, hstatus.symm⟩)

instance : Std.Symm fun a b : HouseAccount => ¬ a.Conflicts b :=
  ⟨fun _ _ hapart hconflict => hapart hconflict.symm⟩

/-- What the unique keys of the table say of it. -/
def HousesUnique (houses : List HouseAccount) : Prop :=
  houses.Pairwise fun a b => ¬ a.Conflicts b

instance (houses : List HouseAccount) : Decidable (HousesUnique houses) :=
  inferInstanceAs (Decidable (List.Pairwise _ _))

/-- The account that the lookup may take for a currency. -/
def HouseAccount.ActiveFor (c : Currency) (h : HouseAccount) : Prop :=
  h.currency = c ∧ h.status = "active" ∧ h.accountType = "House"

theorem HousesUnique.eq_of_activeFor {houses : List HouseAccount} (hunique : HousesUnique houses)
    {c : Currency} {a b : HouseAccount} (ha : a ∈ houses) (hb : b ∈ houses)
    (hactive : a.ActiveFor c) (hactive' : b.ActiveFor c) : a = b := by
  by_contra hne
  have hapart := List.Pairwise.forall hunique ha hb hne
  obtain ⟨hcurrency, hstatus, htype⟩ := hactive
  obtain ⟨hcurrency', hstatus', htype'⟩ := hactive'
  exact hapart (Or.inr (Or.inr ⟨htype.trans htype'.symm, hcurrency.trans hcurrency'.symm,
    hstatus.trans hstatus'.symm⟩))

namespace Store

variable {s s' : Store}

theorem houses_executeLedger {id now : String} {command : LedgerCommand}
    (h : s.executeLedger id command now = .ok s') : s'.houseAccounts = s.houseAccounts := by
  obtain ⟨ledger, view, -, -, rfl⟩ := executeLedger_eq_ok.mp h
  rfl

theorem houses_commitAccount {id : String} {sequence : ℕ} {events : List BankAccountEvent}
    (h : s.commitAccount id sequence events = .ok s') : s'.houseAccounts = s.houseAccounts := by
  obtain ⟨-, h⟩ := Outcome.ite_err_eq_ok.mp h
  obtain rfl := Outcome.ok.inj h
  rfl

theorem houses_commitOrRollback {x : Outcome Store}
    (h : ∀ s', x = .ok s' → s'.houseAccounts = s.houseAccounts) :
    (commitOrRollback x s).2.houseAccounts = s.houseAccounts := by
  cases x with
  | ok s' => exact h s' rfl
  | err e => rfl
  | panic e => rfl

theorem housesUnique_createHouseAccount (hunique : HousesUnique s.houseAccounts)
    {account : HouseAccount} (h : s.createHouseAccount account = .ok s') :
    HousesUnique s'.houseAccounts := by
  obtain ⟨hnew, h⟩ := Outcome.ite_err_eq_ok.mp h
  obtain rfl := Outcome.ok.inj h
  refine List.pairwise_append.mpr ⟨hunique, List.pairwise_singleton _ _, ?_⟩
  intro old hold x hx hconflict
  rw [List.mem_singleton.mp hx] at hconflict
  exact hnew (List.any_eq_true.mpr ⟨old, hold, decide_eq_true hconflict⟩)

/-- The unique keys hold after any call, however it ends. -/
theorem housesUnique_exec (c : Call) (o : Oracle) (hunique : HousesUnique s.houseAccounts) :
    HousesUnique (exec c o s).2.houseAccounts := by
  have hkept : ∀ s' : Store, s'.houseAccounts = s.houseAccounts →
      HousesUnique s'.houseAccounts := fun s' hs' => hs' ▸ hunique
  unfold exec
  split
  · exact hunique
  · cases c with
    | commitAccount id sequence events =>
      exact hkept _ (houses_commitOrRollback fun _ h => houses_commitAccount h)
    | executeLedger id command =>
      exact hkept _ (houses_commitOrRollback fun _ h => houses_executeLedger h)
    | createTransactionWithJournal t ledgerId entry lines =>
      rw [execute]
      split
      · rename_i h
        have hhouses := congrArg Store.houseAccounts (createTransactionWithJournal_frame h)
        exact hkept _ hhouses
      · exact hunique
      · exact hunique
    | createHouseAccount account =>
      rw [execute]
      cases h : s.createHouseAccount account with
      | ok s' => exact housesUnique_createHouseAccount hunique h
      | err e => exact hunique
      | panic e => exact hunique
    | setNx key value =>
      rw [execute]
      split <;> exact hunique
    | _ => exact hunique

/-- The lookup finds the one row that it may take. -/
theorem getHouseAccount_eq (hunique : HousesUnique s.houseAccounts) {c : Currency}
    {h : HouseAccount} (hh : h ∈ s.houseAccounts) (hactive : h.ActiveFor c) :
    s.getHouseAccount c = .ok h := by
  have hsome : (s.houseAccounts.find? (fun h => h.currency.toString = c.toString ∧
      h.status = "active" ∧ h.accountType = "House")).isSome := by
    refine List.find?_isSome.mpr ⟨h, hh, ?_⟩
    obtain ⟨hcurrency, hrest⟩ := hactive
    exact decide_eq_true ⟨congrArg Currency.toString hcurrency, hrest⟩
  obtain ⟨found, hfound⟩ := Option.isSome_iff_exists.mp hsome
  have hmatch := List.find?_some hfound
  rw [decide_eq_true_eq] at hmatch
  obtain ⟨hcurrency, hrest⟩ := hmatch
  have hsame := hunique.eq_of_activeFor (List.mem_of_find?_eq_some hfound) hh
    ⟨Currency.toString_inj hcurrency, hrest⟩ hactive
  rw [getHouseAccount, hfound, hsame]

end Store

theorem System.run_houses {st st' : System} {as : List Action} (h : machine.Steps st as st') :
    st.store.houseAccounts <+: st'.store.houseAccounts :=
  h.preserves (P := fun mid => st.store.houseAccounts <+: mid.store.houseAccounts)
    (fun _ _ _ hprefix hstep => hprefix.trans (recordedIn_step hstep).houseAccounts)
    (List.prefix_refl _)

/-- The unique keys of the house accounts hold after every run. -/
theorem System.run_housesUnique {st st' : System} {as : List Action}
    (h : machine.Steps st as st') (hunique : HousesUnique st.store.houseAccounts) :
    HousesUnique st'.store.houseAccounts := by
  refine h.preserves (P := fun st => HousesUnique st.store.houseAccounts) ?_ hunique
  intro st a st' hst hstep
  rcases step_store hstep with hsame | ⟨c, o, hcall⟩ | ⟨cache, hcache⟩
  · rwa [hsame]
  · rw [hcall]
    exact Store.housesUnique_exec c o hst
  · rwa [hcache]

/-- The one account that the lookup may take for its currency. -/
def Store.SoleHouse (s : Store) (h : HouseAccount) : Prop :=
  h ∈ s.houseAccounts ∧ h.ActiveFor h.currency ∧
    ∀ x ∈ s.houseAccounts, x.ActiveFor h.currency → x = h

/-- Every entry is a double entry between a ledger of the customer and that of the one active
account of type `House` in its currency, which the lookup finds from then on. -/
theorem one_house_ledger {houses : List HouseAccount} (hunique : HousesUnique houses)
    {as : List Action} {st : System} (hrun : System.machine.Steps (System.init houses) as st)
    {entry : JournalEntry} (hentry : entry ∈ st.store.journalEntries) :
    ∃ (house customer : JournalLine) (t : Transaction) (h : HouseAccount),
      st.store.DoubleEntry entry house customer t ∧
      house.ledgerId = h.ledgerId ∧ house.currency = h.currency.toString ∧
      ∀ bs st', System.machine.Steps st bs st' →
        st'.store.SoleHouse h ∧ st'.store.getHouseAccount h.currency = .ok h := by
  have hreach : System.machine.Reachable st := ⟨_, as, ⟨houses, rfl⟩, hrun⟩
  obtain ⟨m, hm, ⟨hmodels, hwf, hnum⟩, hhoused⟩ :=
    housed_refinement.reachable (System.reachable_lagging hreach)
  obtain ⟨-, hentered⟩ := Bank.entered_invariant.reachable hm
  obtain ⟨-, hhouseOnly⟩ := Bank.houseOnly_invariant.reachable hm
  obtain ⟨-, hon⟩ := Bank.onAttached_invariant.reachable hm
  rw [hmodels.store.journalEntries] at hentry
  obtain ⟨mv, hmv, rfl⟩ := List.mem_map.mp hentry
  obtain ⟨h, hh, hledger, hcurrency, hstatus, htype⟩ := hhoused.movements mv hmv
  refine ⟨mv.houseLine, mv.customerLine, mv.transaction (decide (mv.tx ∈ m.completed)), h,
    hmodels.store.doubleEntry hwf hnum hentered hhoused hhouseOnly hon hmv,
    hledger.symm, congrArg Currency.toString hcurrency.symm, fun bs st' hlater => ?_⟩
  have hkept : h ∈ st'.store.houseAccounts := by
    refine (System.run_houses hlater).subset ?_
    rw [hmodels.store.houses]
    exact hh
  have hlaterUnique := System.run_housesUnique (hrun.trans hlater) hunique
  have hactive : h.ActiveFor h.currency := ⟨rfl, hstatus, htype⟩
  exact ⟨⟨hkept, hactive, fun x hx hxactive => hlaterUnique.eq_of_activeFor hx hkept hxactive
    hactive⟩, Store.getHouseAccount_eq hlaterUnique hkept hactive⟩

/-- The day of the deposit, at a bank that starts with a house account of another type. -/
theorem one_house_ledger_funded : ∃ st : System, st.store.houseAccounts.length = 2 ∧
    st.store.journalEntries.length = 1 ∧ ∀ entry ∈ st.store.journalEntries,
      ∃ h, st.store.SoleHouse h ∧ st.store.getHouseAccount h.currency = .ok h := by
  have hrun : ((System.init [Scenario.fees]).run Scenario.funded).map
      (fun st => (st.store.houseAccounts.length, st.store.journalEntries.length)) =
        some (2, 1) := by decide +kernel
  obtain ⟨st, hst, hlengths⟩ := Option.map_eq_some_iff.mp hrun
  obtain ⟨hhouses, hentries⟩ := Prod.mk.inj hlengths
  refine ⟨st, hhouses, hentries, fun entry hentry => ?_⟩
  obtain ⟨-, -, -, h, -, -, -, hlookup⟩ :=
    one_house_ledger (List.pairwise_singleton _ Scenario.fees) (System.steps_of_run hst)
      hentry
  exact ⟨h, hlookup [] st (Machine.Steps.nil st)⟩

section Unmoved

namespace Bank

variable {m m' : Bank}

/-- Nothing is posted to the book of a house account. -/
def HouseUnmoved (m : Bank) : Prop :=
  ∀ ledger b, m.books ledger = some b → b.holder = .house → b.postings = []

/-- What is posted is posted to a customer's book. -/
theorem Posts.customer {a : Action} {ledger : Uuid} {p : Posting} (h : m.Posts a ledger p)
    (hwf : m.WF) {b : Book} (hb : m.books ledger = some b) : b.holder = .customer := by
  have hserves : ∀ {account : Uuid} {c : Currency}, m.Serves ledger account c →
      b.holder = .customer := by
    rintro account c ⟨b', hb', hholder, -⟩
    rwa [Option.some.inj (hb.symm.trans hb')]
  cases h with
  | hold o d order ledger sequence hp =>
    have hknows := hwf.consumer
    rw [hp] at hknows
    exact hserves hknows.2
  | settle i o lockValue mv rest hok hi =>
    exact hserves (hwf.movements mv
      (hwf.rows _ (List.mem_of_getElem? hi) mv List.mem_cons_self))

theorem HouseUnmoved.step (hm : m.HouseUnmoved) (hwf : m.WF) {a : Action} (h : m.Step a m') :
    m'.HouseUnmoved := by
  intro ledger b' hb' hholder
  rcases h.book_cases hb' with hb | hempty | ⟨b, p, hb, rfl, hposts⟩
  · exact hm ledger b' hb hholder
  · exact hempty
  · cases (hposts.customer hwf hb).symm.trans hholder

theorem houseUnmoved_invariant :
    machine.Invariant (fun m => (m.WF ∧ m.Numbered) ∧ m.HouseUnmoved) := by
  refine wf_invariant.strengthen ?_ (fun _ _ _ hm hu h => hu.step hm.1 h)
  rintro m ⟨houses, rfl⟩ ledger b hb
  cases hb

end Bank

theorem Book.view_unmoved (ledger : Uuid) {b : Book} (hb : b.postings = []) :
    (b.view ledger).available = Money.new .zero b.currency ∧
      (b.view ledger).pending = Money.new .zero b.currency ∧
      (b.view ledger).current = Money.new .zero b.currency := by
  obtain ⟨holder, owner, c, openedAt, postings⟩ := b
  obtain rfl : postings = [] := hb
  exact ⟨rfl, rfl, rfl⟩

/-- In every reachable state the log of a house account's ledger holds at most its opening, and
its balances are zero, whatever the journal has posted there. -/
theorem house_ledger_unmoved {st : System} (h : System.machine.Reachable st)
    {house : HouseAccount} (hh : house ∈ st.store.houseAccounts) :
    (st.store.ledgerEvents house.ledgerId).length ≤ 1 ∧
      (∀ e ∈ st.store.ledgerEvents house.ledgerId, ∃ c base,
        e = .ledgerInitiated (Money.new .zero c) base) ∧
      ∀ v, st.store.ledgerViews.lookup house.ledgerId = some v →
        v.available.amount = .zero ∧ v.pending.amount = .zero ∧ v.current.amount = .zero := by
  obtain ⟨m, hm, hmodels, -⟩ := refinement.reachable h
  obtain ⟨-, hhouseOnly⟩ := Bank.houseOnly_invariant.reachable hm
  obtain ⟨-, hunmoved⟩ := Bank.houseUnmoved_invariant.reachable hm
  rw [hmodels.store.houses] at hh
  have hbook : ∀ ledger b, house.ledgerId = ledger.toString → m.books ledger = some b →
      b.postings = [] := fun ledger b htext hb =>
    hunmoved ledger b hb ((hhouseOnly.houses house hh ledger htext).2.2 b hb)
  have hlog : st.store.ledgerEvents house.ledgerId = [] ∨ ∃ (ledger : Uuid) (b : Book),
      st.store.ledgerEvents house.ledgerId = (b.opening ledger).events b.openedAt := by
    by_cases hnil : st.store.ledgerEvents house.ledgerId = []
    · exact Or.inl hnil
    · obtain ⟨ledger, b, htext, hb, hevents⟩ := hmodels.store.exists_book hnil
      refine Or.inr ⟨ledger, b, ?_⟩
      rw [hevents, Book.events, hbook ledger b htext hb, List.flatMap_nil, List.append_nil]
  refine ⟨?_, ?_, ?_⟩
  · rcases hlog with hnil | ⟨ledger, b, hevents⟩
    · simp [hnil]
    · rw [hevents]
      exact le_refl 1
  · intro e he
    rcases hlog with hnil | ⟨ledger, b, hevents⟩
    · rw [hnil] at he
      cases he
    · rw [hevents] at he
      exact ⟨b.currency, _, List.mem_singleton.mp he⟩
  · intro v hv
    obtain ⟨ledger, b, htext, hb, rfl⟩ := hmodels.store.exists_view hv
    obtain ⟨havailable, hpending, hcurrent⟩ := b.view_unmoved ledger (hbook ledger b htext hb)
    rw [havailable, hpending, hcurrent]
    exact ⟨rfl, rfl, rfl⟩

/-- The opened house account has its ledger, and the deposit did not move it. -/
theorem house_ledger_unmoved_funded : ∃ st : System, ∃ house ∈ st.store.houseAccounts,
    (st.store.ledgerEvents house.ledgerId).length = 1 ∧
      ∀ v, st.store.ledgerViews.lookup house.ledgerId = some v → v.current.amount = .zero := by
  have hrun : (((System.init []).run Scenario.funded).bind fun st =>
      st.store.houseAccounts.head?.map fun house =>
        (decide (house ∈ st.store.houseAccounts),
          (st.store.ledgerEvents house.ledgerId).length)) = some (true, 1) := by decide +kernel
  obtain ⟨st, hst, hrest⟩ := Option.bind_eq_some_iff.mp hrun
  obtain ⟨house, -, hfacts⟩ := Option.map_eq_some_iff.mp hrest
  obtain ⟨hmem, hlength⟩ := Prod.ext_iff.mp hfacts
  have hh := of_decide_eq_true hmem
  obtain ⟨-, -, hviews⟩ := house_ledger_unmoved (System.reachable_of_run hst) hh
  exact ⟨st, house, hh, hlength, fun v hv => (hviews v hv).2.2⟩

end Unmoved

section Requests

/-- The ledger was opened for this house account, in its currency. -/
def Store.OpenedFor (s : Store) (account : HouseAccount) : Prop :=
  ∃ (ledger : Uuid) (now : String), account.ledgerId = ledger.toString ∧
    (LedgerCommand.init ledger account.id (Money.new .zero account.currency)).events now <+:
      s.ledgerEvents account.ledgerId

theorem Store.OpenedFor.mono {s s' : Store} {account : HouseAccount} (h : s.OpenedFor account)
    (hs : s.RecordedIn s') : s'.OpenedFor account := by
  obtain ⟨ledger, now, htext, hopened⟩ := h
  exact ⟨ledger, now, htext, hopened.trans (hs.ledgerEvents _)⟩

/-- A house account that is stored, with its ledger opened for it. -/
def Store.Holds (s : Store) (account : HouseAccount) : Prop :=
  account ∈ s.houseAccounts ∧ s.OpenedFor account

/-- The answer to a request is 201 with the id of a stored house account, or 400. -/
def Response.HouseCreated (s : Store) (response : Response) : Prop :=
  (response.status = 201 ∧ ∃ account, s.Holds account ∧
    response.body = .object [("id", .string account.id.toString)]) ∨ response.status = 400

/-- Where a request for a house account stands, and what it has written so far. -/
inductive HouseRequest (s : Store) : Code Response → Prop where
  | start (ledger : Uuid) (account : HouseAccount) :
      HouseRequest s (houseAccountCreateHandler ledger account)
  | opened (account : HouseAccount) (hopened : s.OpenedFor account) :
      HouseRequest s (storeHouseAccount account)
  | answered (response : Response) (hresponse : response.HouseCreated s) :
      HouseRequest s (.done (.ok response))
  | panicked (e : String) : HouseRequest s (.done (.panic e))

theorem HouseRequest.mono {s s' : Store} {p : Code Response} (h : HouseRequest s p)
    (hs : s.RecordedIn s') : HouseRequest s' p := by
  cases h with
  | start ledger account => exact HouseRequest.start ledger account
  | opened account hopened => exact HouseRequest.opened account (hopened.mono hs)
  | answered response hresponse =>
    refine HouseRequest.answered response ?_
    rcases hresponse with ⟨hstatus, account, ⟨hmem, hopened⟩, hbody⟩ | hstatus
    · exact Or.inl ⟨hstatus, account, ⟨hs.houseAccounts.subset hmem, hopened.mono hs⟩, hbody⟩
    · exact Or.inr hstatus
  | panicked e => exact HouseRequest.panicked e

theorem Store.openedFor_of_executeLedger {s s' : Store} {ledger : Uuid} {account : HouseAccount}
    {now : String} (hlog : s.ledgerEvents ledger.toString = [])
    (h : s.executeLedger ledger.toString
      (.init ledger account.id (Money.new .zero account.currency)) now = .ok s') :
    s'.OpenedFor { account with ledgerId := ledger.toString } := by
  obtain ⟨l, view, -, -, rfl⟩ := executeLedger_eq_ok.mp h
  refine ⟨ledger, now, rfl, ?_⟩
  change _ <+: Function.update s.ledgerEvents ledger.toString _ ledger.toString
  rw [Function.update_self, hlog, List.nil_append]

theorem HouseRequest.step {s s' : Store} {p p' : Code Response} {o : Oracle}
    (h : HouseRequest s p)
    (hnew : ∀ ledger account, p = houseAccountCreateHandler ledger account →
      s.ledgerEvents ledger.toString = [])
    (hstep : p.step exec o s = some (p', s')) : HouseRequest s' p' := by
  cases h with
  | start ledger account =>
    rcases (calls_initHouse ledger account).step hstep with ⟨u, hexec, rfl⟩ | ⟨e, hexec, rfl⟩ |
      ⟨e, hexec, rfl⟩
    · obtain ⟨-, hwrite⟩ := exec_ok hexec
      exact HouseRequest.opened _
        (Store.openedFor_of_executeLedger (hnew ledger account rfl) (commitOrRollback_ok hwrite))
    · exact HouseRequest.answered _ (Or.inr rfl)
    · exact HouseRequest.panicked e
  | opened account hopened =>
    rcases (calls_insertHouse account).step hstep with ⟨u, hexec, rfl⟩ | ⟨e, hexec, rfl⟩ |
      ⟨e, hexec, rfl⟩
    · obtain ⟨-, hwrite⟩ := exec_ok hexec
      have hinsert := commitOrRollback_ok hwrite
      refine HouseRequest.answered _ (Or.inl ⟨rfl, account, ⟨?_, ?_⟩, rfl⟩)
      · obtain ⟨-, heq⟩ := Outcome.ite_err_eq_ok.mp hinsert
        obtain rfl := Outcome.ok.inj heq
        exact List.mem_append_right _ (List.mem_singleton_self account)
      · exact hopened.mono (Store.recordedIn_createHouseAccount hinsert)
    · exact HouseRequest.answered _ (Or.inr rfl)
    · exact HouseRequest.panicked e
  | answered => cases hstep
  | panicked => cases hstep

theorem Models.request_new {st : System} {m : Bank} (h : Models st m) (hwf : m.WF) {ledger : Uuid}
    {account : HouseAccount} (hp : houseAccountCreateHandler ledger account ∈ st.requests) :
    st.store.ledgerEvents ledger.toString = [] := by
  rw [h.requests] at hp
  obtain ⟨r, hr, hprog⟩ := List.mem_map.mp hp
  have hcall := congrArg Prog.nextCall hprog
  cases r with
  | init ledger' account' =>
    obtain ⟨htext, -⟩ := Call.executeLedger.inj (Option.some.inj hcall)
    obtain rfl := Uuid.toString_inj.mp htext
    have hclaim : ledger' ∈ m.claimed :=
      List.mem_append_right _ (List.mem_flatMap.mpr ⟨_, hr, List.mem_singleton_self ledger'⟩)
    rw [h.store.ledgerEvents_at, Bank.ledgerLog, (hwf.claimed_new ledger' hclaim).2.2]
    rfl
  | insert account' => cases Option.some.inj hcall
  | stopped result => cases hcall

theorem System.stepAt_eq {α : Type} {i : ℕ} {o : Oracle} {ps ps' : List (Code α)} {s s' : Store}
    (h : stepAt i o ps s = some (ps', s')) :
    ∃ p p', ps[i]? = some p ∧ p.step exec o s = some (p', s') ∧ ps' = ps.set i p' := by
  unfold stepAt at h
  split at h
  · cases h
  · rename_i p hi
    obtain ⟨⟨p', s''⟩, hp, heq⟩ := Option.map_eq_some_iff.mp h
    obtain ⟨rfl, rfl⟩ := Prod.mk.inj heq
    exact ⟨p, p', hi, hp, rfl⟩

theorem System.requests_step {st st' : System} {a : Action} (h : machine.Reachable st)
    (hall : ∀ p ∈ st.requests, HouseRequest st.store p) (hstep : st.step a = some st') :
    ∀ p ∈ st'.requests, HouseRequest st'.store p := by
  have hrecorded := recordedIn_step hstep
  have hsame : st'.requests = st.requests → ∀ p ∈ st'.requests, HouseRequest st'.store p :=
    fun hrequests p hp => (hall p (hrequests ▸ hp)).mono hrecorded
  cases a with
  | submit fresh body =>
    simp only [step, submit] at hstep
    split at hstep
    · split at hstep <;> (obtain rfl := Option.some.inj hstep; exact hsame rfl)
    · cases hstep
  | receive d =>
    change st.receive d = some st' at hstep
    unfold receive at hstep
    split at hstep
    · split at hstep
      · obtain rfl := Option.some.inj hstep
        exact hsame rfl
      · cases hstep
    · cases hstep
  | consumer o =>
    obtain ⟨r, -, rfl⟩ := Option.map_eq_some_iff.mp hstep
    exact hsame rfl
  | startTick lockValue =>
    obtain ⟨-, heq⟩ := Option.ite_none_right_eq_some.mp hstep
    obtain rfl := Option.some.inj heq
    exact hsame rfl
  | tick i o =>
    obtain ⟨r, -, rfl⟩ := Option.map_eq_some_iff.mp hstep
    exact hsame rfl
  | startRequest id ledgerId accountNumber body =>
    obtain ⟨-, heq⟩ := Option.ite_none_right_eq_some.mp hstep
    obtain rfl := Option.some.inj heq
    intro p hp
    rcases List.mem_append.mp hp with hold | hnew
    · exact hall p hold
    · rw [List.mem_singleton.mp hnew]
      exact HouseRequest.start _ _
  | request i o =>
    obtain ⟨⟨ps, s'⟩, hat, rfl⟩ := Option.map_eq_some_iff.mp hstep
    obtain ⟨p, p', hi, hp, rfl⟩ := stepAt_eq hat
    have hmem : p ∈ st.requests := List.mem_of_getElem? hi
    intro q hq
    rcases List.mem_or_eq_of_mem_set hq with hold | rfl
    · exact (hall q hold).mono hrecorded
    · refine (hall p hmem).step (fun ledger account heq => ?_) hp
      obtain ⟨m, -, hmodels, hwf, -⟩ := refinement.reachable h
      exact hmodels.request_new hwf (heq ▸ hmem)
  | expireKey key =>
    simp only [step, expireKey] at hstep
    split at hstep
    · obtain rfl := Option.some.inj hstep
      exact hsame rfl
    · cases hstep

/-- The answers to the requests for house accounts that have ended. -/
def System.answers (st : System) : List Response :=
  st.requests.filterMap fun p =>
    match p with
    | .done (.ok response) => some response
    | _ => none

theorem System.mem_answers {st : System} {response : Response} (h : response ∈ st.answers) :
    .done (.ok response) ∈ st.requests := by
  obtain ⟨p, hp, hsome⟩ := List.mem_filterMap.mp h
  split at hsome
  · rwa [Option.some.inj hsome] at hp
  · cases hsome

/-- In every reachable state each request has come to one of its points. -/
theorem System.houseRequests {st : System} (h : machine.Reachable st) :
    ∀ p ∈ st.requests, HouseRequest st.store p := by
  have hinvariant := (Machine.reachable_invariant machine).strengthen
    (Q := fun st => ∀ p ∈ st.requests, HouseRequest st.store p) ?_
    fun _ _ _ hreach hall hstep => requests_step hreach hall hstep
  · exact (hinvariant.reachable h).2
  · rintro st ⟨houses, rfl⟩ p hp
    cases hp

theorem HouseRequest.of_done {s : Store} {response : Response}
    (h : HouseRequest s (.done (.ok response))) : response.HouseCreated s := by
  generalize hp : (Prog.done (.ok response) : Code Response) = p at h
  cases h with
  | start ledger account => exact absurd hp.symm ((calls_initHouse ledger account).ne_done _)
  | opened account => exact absurd hp.symm ((calls_insertHouse account).ne_done _)
  | answered response' hresponse =>
    cases hp
    exact hresponse
  | panicked e => cases hp

/-- Every request that is answered is answered with status 201 and the id of a house account that
is stored then, on a ledger opened for it in its currency, or with status 400. -/
theorem house_account_created {st : System} (h : System.machine.Reachable st)
    {response : Response} (hr : response ∈ st.answers) : response.HouseCreated st.store :=
  (System.houseRequests h _ (System.mem_answers hr)).of_done

/-- Two requests for the same currency: the second is refused once the first is stored. -/
def Scenario.twoHouses : List Action :=
  [.startRequest (uid 1) (uid 2) "0123456789" ⟨uid 0, "active", "", "Master", "House", "", .usd⟩,
    .startRequest (uid 3) (uid 4) "9876543210" ⟨uid 0, "active", "", "Other", "House", "", .usd⟩]
    ++ List.replicate 2 (.request 0 up) ++ List.replicate 2 (.request 1 up)

theorem house_account_created_twice : ∃ st : System,
    st.answers.map Response.status = [201, 400] ∧
      ∀ response ∈ st.answers, response.HouseCreated st.store := by
  have hrun : ((System.init []).run Scenario.twoHouses).map
      (fun st => st.answers.map Response.status) = some [201, 400] := by decide +kernel
  obtain ⟨st, hst, hstatus⟩ := Option.map_eq_some_iff.mp hrun
  exact ⟨st, hstatus, fun response hr => house_account_created (System.reachable_of_run hst) hr⟩

end Requests

end Bankie
