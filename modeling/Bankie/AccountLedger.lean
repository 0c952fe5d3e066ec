import Bankie.HoldOrder

/-!
When an account keeps its ledger.
Approving an account attaches a new ledger to it, and nothing in the handler asks whether it
has one. Runs that commit no second approval of an account keep the ledger of the first, in
the aggregate and in the view, and every credit for the account goes to that ledger.
-/
namespace Bankie

open Program Transition

def BankAccountEvent.approvedLedger : BankAccountEvent → Option String
  | .accountKycApproved ledgerId _ => some ledgerId
  | _ => none

/-- The ledgers that approvals have attached to an account, oldest first. -/
def Store.attached (s : Store) (account : String) : List String :=
  (s.accountEvents account).filterMap BankAccountEvent.approvedLedger

/-- The account whose approval is committed by the next call. -/
def approving (p : Code Unit) : Option String :=
  match p.nextCall with
  | some (.commitAccount id _ events) =>
    if events.filterMap BankAccountEvent.approvedLedger = [] then none else some id
  | _ => none

/-- No approval of an account is committed where the account has a ledger already. -/
def System.ApprovesOnce (st : System) : Action → Prop
  | .consumer o => o.fail = none → ∀ account ∈ approving st.consumer,
      st.store.attached account = []
  | _ => True

instance (st : System) (a : Action) : Decidable (st.ApprovesOnce a) :=
  match a with
  | .consumer o => inferInstanceAs (Decidable (o.fail = none → _))
  | .tick .. => .isTrue trivial
  | .submit .. => .isTrue trivial
  | .receive _ => .isTrue trivial
  | .startTick _ => .isTrue trivial
  | .startRequest .. => .isTrue trivial
  | .request .. => .isTrue trivial
  | .expireKey _ => .isTrue trivial

namespace Store

/-- The aggregate and the view of an account both name this ledger. -/
def LedgerIs (s : Store) (account ledgerId : String) : Prop :=
  (BankAccount.replay (s.accountEvents account)).ledgerId = ledgerId ∧
    ∃ v, s.accountViews.lookup account = some v ∧ v.ledgerId = ledgerId

/-- Every credit applied for a transaction of the account is in this ledger. -/
def CreditsIn (s : Store) (account ledgerId : String) : Prop :=
  ∀ t ∈ s.transactions, t.bankAccountId.toString = account → ∀ key,
    ∀ e ∈ s.ledgerEvents key, e.Releases "credit_release" t.id.toString → key = ledgerId

end Store

/-- The account and the ledger of an order that the consumer is about to check or to write. -/
def ConsumerPoint.target : ConsumerPoint → Option (Uuid × Uuid)
  | .checkLedger _ order ledger _ _ => some (order.account, ledger)
  | .record _ order ledger _ _ => some (order.account, ledger)
  | _ => none

namespace Bank

variable {m m' : Bank}

/-- An approval has attached this ledger to the account. -/
def Attached (m : Bank) (account ledger : Uuid) : Prop :=
  ∃ a, m.accounts account = some a ∧ ∃ p ∈ a.approvals, p.1 = ledger

/-- What a step does to an account: it keeps it, opens it, or approves it. -/
theorem Step.approvals {a : Action} (h : m.Step a m') (u : Uuid) :
    m'.accounts u = m.accounts u ∨
      (∃ o d opening, a = .consumer o ∧ m.consumer = .openCommit d opening ∧ u = opening.id ∧
        m'.accounts u = some (openingAccount opening d.now)) ∨
      ∃ o d ledger sequence x, a = .consumer o ∧ o.fail = none ∧
        m.consumer = .approveCommit d u ledger sequence ∧ m.accounts u = some x ∧
        m'.accounts u = some (x.approve ledger d.now) := by
  cases h with
  | openAccount o d opening hp =>
    by_cases hu : u = opening.id
    · subst hu
      exact Or.inr (Or.inl ⟨o, d, opening, rfl, hp, rfl, by simp⟩)
    · exact Or.inl (by simp [Function.update_of_ne hu])
  | approve o d account ledger sequence x hok hp hx =>
    by_cases hu : u = account
    · subst hu
      exact Or.inr (Or.inr ⟨o, d, ledger, sequence, x, rfl, hok, hp, hx, by simp⟩)
    · exact Or.inl (by simp [Function.update_of_ne hu])
  | _ => exact Or.inl rfl

theorem Attached.step {account ledger : Uuid} (hattached : m.Attached account ledger)
    (hwf : m.WF) {a : Action} (h : m.Step a m') : m'.Attached account ledger := by
  obtain ⟨x, hx, p, hp, hpl⟩ := hattached
  rcases h.approvals account with hsame | ⟨o, d, opening, -, hpoint, rfl, -⟩ |
    ⟨o, d, ledger', sequence, x', -, -, -, hx', hnew⟩
  · exact ⟨x, hsame.trans hx, p, hp, hpl⟩
  · have hnew := (hwf.claimed_new opening.id (by simp [claimed, hpoint,
      ConsumerPoint.claims])).2.1
    cases hx.symm.trans hnew
  · obtain rfl := Option.some.inj (hx.symm.trans hx')
    exact ⟨_, hnew, p, List.mem_append_left _ hp, hpl⟩

/-- Orders are checked and written on an attached ledger. -/
structure OnAttached (m : Bank) : Prop where
  consumer : ∀ target ∈ m.consumer.target, m.Attached target.1 target.2
  movements : ∀ mv ∈ m.movements, m.Attached mv.account mv.ledger

theorem onAttached_init (houses : List HouseAccount) : (init houses).OnAttached where
  consumer _ ht := by cases ht
  movements _ hmv := absurd hmv List.not_mem_nil

theorem Advances.target (hwf : m.WF) {q : ConsumerPoint} (h : m.Advances m.consumer q) :
    ∀ target ∈ q.target, target ∈ m.consumer.target ∨ m.Attached target.1 target.2 := by
  intro target ht
  have hknows := hwf.consumer
  generalize m.consumer = p at h hknows ⊢
  cases h with
  | checkAccount d order a sequence house ledger hledger hcurrency =>
    obtain rfl := Option.some.inj ht
    obtain ⟨x, hx, rfl⟩ := Option.map_eq_some_iff.mp hledger
    exact Or.inr ⟨a, hknows, x, List.mem_of_getLast? hx, rfl⟩
  | checkLedger => exact Or.inl ht
  | _ => cases ht

theorem Step.target (hwf : m.WF) {a : Action} (h : m.Step a m') :
    ∀ target ∈ m'.consumer.target,
      target ∈ m.consumer.target ∨ m.Attached target.1 target.2 := by
  intro target ht
  cases h with
  | advance o p hp => exact hp.target hwf target ht
  | record o d order ledger sequence house hp =>
    rw [setConsumer_consumer, afterRecord] at ht
    cases haction : order.action <;> rw [haction] at ht <;> cases ht
  | receive => cases ht
  | giveUp => cases ht
  | openAccount => cases ht
  | initLedger => cases ht
  | approve => cases ht
  | hold => cases ht
  | _ => exact Or.inl ht

theorem OnAttached.step (hm : m.OnAttached) (hwf : m.WF) {a : Action} (h : m.Step a m') :
    m'.OnAttached where
  consumer target ht := by
    rcases h.target hwf target ht with hold | hnew
    · exact (hm.consumer target hold).step hwf h
    · exact hnew.step hwf h
  movements mv hmv := by
    rcases h.movements with hsame | ⟨o, d, order, ledger, sequence, house, -, hp, rfl⟩
    · exact (hm.movements mv (hsame ▸ hmv)).step hwf h
    · rcases List.mem_append.mp hmv with hold | hnew
      · exact (hm.movements mv hold).step hwf h
      · rw [List.mem_singleton.mp hnew]
        exact (hm.consumer (order.account, ledger) (by rw [hp]; rfl)).step hwf h

theorem onAttached_invariant :
    machine.Invariant (fun m => (m.WF ∧ m.Numbered) ∧ m.OnAttached) := by
  refine wf_invariant.strengthen ?_ (fun _ _ _ hm ho h => ho.step hm.1 h)
  rintro m ⟨houses, rfl⟩
  exact onAttached_init houses

def ApprovesOnce (m : Bank) : Action → Prop
  | .consumer o => o.fail = none → ∀ d account ledger sequence,
      m.consumer = .approveCommit d account ledger sequence →
        ∀ a, m.accounts account = some a → a.approvals = []
  | _ => True

/-- No account is approved twice. -/
def Single (m : Bank) : Prop :=
  ∀ u a, m.accounts u = some a → a.approvals.length ≤ 1

theorem Single.step (hm : m.Single) {a : Action} (hguard : m.ApprovesOnce a) (h : m.Step a m') :
    m'.Single := by
  intro u x' hx'
  rcases h.approvals u with hsame | ⟨o, d, opening, -, -, -, hnew⟩ |
    ⟨o, d, ledger, sequence, x, rfl, hok, hp, hx, hnew⟩
  · exact hm u x' (hsame ▸ hx')
  · obtain rfl := Option.some.inj (hnew.symm.trans hx')
    exact Nat.zero_le 1
  · obtain rfl := Option.some.inj (hnew.symm.trans hx')
    rw [Account.approve, hguard hok d u ledger sequence hp x hx]
    exact le_refl 1

theorem single_invariant : (machine.restrict ApprovesOnce).Invariant
    (fun m => ((m.WF ∧ m.Numbered) ∧ m.OnAttached) ∧ m.Single) := by
  refine (onAttached_invariant.restrict ApprovesOnce).strengthen ?_
    (fun _ _ _ _ hs h => hs.step h.1 h.2)
  rintro m ⟨houses, rfl⟩ u a ha
  cases ha

end Bank

section Logs

theorem Account.approvedLedgers_events (id : Uuid) (a : Account) :
    (a.events id).filterMap BankAccountEvent.approvedLedger =
      a.approvals.map (fun p => p.1.toString) := by
  rw [events, List.filterMap_cons_none rfl, List.filterMap_map]
  exact congrFun List.filterMap_eq_map a.approvals

theorem Represents.attached {s : Store} {m : Bank} (h : Represents s m) {id : Uuid} {a : Account}
    (ha : m.accounts id = some a) :
    s.attached id.toString = a.approvals.map (fun p => p.1.toString) := by
  rw [Store.attached, h.accountEvents_at, Bank.accountLog, ha]
  exact a.approvedLedgers_events id

theorem Book.exists_posting {b : Book} {ledger : Uuid} {kind tx : String} {e : LedgerEvent}
    (he : e ∈ b.events ledger) (hreleases : e.Releases kind tx) :
    ∃ p ∈ b.postings, p.transactionId.toString = tx := by
  rcases Book.mem_events he with hopening | ⟨p, hp, _, _, _, _, rfl⟩
  · obtain rfl := List.mem_singleton.mp hopening
    cases hreleases
  · exact ⟨p, hp, (of_decide_eq_true hreleases).2⟩

theorem approving_approveCommit (d : Draws) (account ledger : Uuid) (sequence : ℕ) :
    approving (ConsumerPoint.approveCommit d account ledger sequence).prog =
      some account.toString := by
  rw [approving, (calls_approveCommit d account ledger sequence).nextCall]
  rfl

theorem Models.approvesOnce {st : System} {m : Bank} (h : Models st m) {a : Action}
    (hguard : st.ApprovesOnce a) : m.ApprovesOnce a := by
  cases a with
  | consumer o =>
    intro hok d account ledger sequence hp x hx
    have hnone := hguard hok account.toString (by
      rw [h.consumer, hp, approving_approveCommit]
      rfl)
    rw [h.store.attached hx] at hnone
    exact List.map_eq_nil_iff.mp hnone
  | _ => trivial

end Logs

/-- What a run of the bank has attached stays attached. -/
theorem Bank.Attached.steps {m m' : Bank} {account ledger : Uuid} {as : List Action}
    (hattached : m.Attached account ledger) (hwf : m.WF) (h : Bank.machine.Steps m as m') :
    m'.Attached account ledger := by
  induction h with
  | nil => exact hattached
  | cons first _ ih => exact ih (hattached.step hwf first) (hwf.step first)

theorem Account.ledger_of_single {a : Account} (hsingle : a.approvals.length ≤ 1)
    {p : Uuid × String} (hp : p ∈ a.approvals) : a.approvals = [p] ∧ a.ledger = some p.1 := by
  have happrovals : a.approvals = [p] := by
    obtain ⟨q, hq⟩ := List.length_eq_one_iff.mp
      (le_antisymm hsingle (List.length_pos_of_mem hp))
    rw [hq] at hp ⊢
    rw [List.mem_singleton.mp hp]
  refine ⟨happrovals, ?_⟩
  rw [ledger, happrovals]
  rfl

namespace Represents

variable {s : Store} {m : Bank}

theorem ledgerIs (h : Represents s m) (hsingle : m.Single) {account ledger : Uuid}
    (hattached : m.Attached account ledger) : s.LedgerIs account.toString ledger.toString := by
  obtain ⟨a, ha, p, hp, rfl⟩ := hattached
  have hledger := (Account.ledger_of_single (hsingle account a ha) hp).2
  refine ⟨?_, _, (h.accountViews_at account).trans (by rw [Bank.accountView, ha]; rfl), ?_⟩
  · rw [h.accountEvents_at, Bank.accountLog, ha]
    refine (a.replay_events account).2.trans ?_
    rw [hledger]
    rfl
  · refine (a.project_events account).2.2.trans ?_
    rw [hledger]
    rfl

theorem creditsIn (h : Represents s m) (hnum : m.Numbered) (htraced : m.Traced)
    (hon : m.OnAttached) (hsingle : m.Single) {account ledger : Uuid}
    (hattached : m.Attached account ledger) : s.CreditsIn account.toString ledger.toString := by
  intro t ht haccount key e he hreleases
  obtain ⟨ledger', b, rfl, hb, hevents⟩ := h.exists_book (List.ne_nil_of_mem he)
  rw [h.transactions] at ht
  obtain ⟨mv, hmv, rfl⟩ := List.mem_map.mp ht
  obtain ⟨p, hp, htx⟩ := Book.exists_posting (hevents ▸ he) hreleases
  obtain ⟨mv', hmv', rfl, hmakes⟩ := htraced.postings ledger' b hb p hp
  obtain rfl := hnum.movement_eq hmv' hmv
    (hmakes.transactionId.symm.trans (Uuid.toString_inj.mp htx))
  -- the account of the movement has one approval, and both ledgers are of it
  obtain rfl : mv'.account = account := Uuid.toString_inj.mp haccount
  obtain ⟨a, ha, p₁, hp₁, hl₁⟩ := hon.movements mv' hmv'
  obtain ⟨a', ha', p₂, hp₂, rfl⟩ := hattached
  obtain rfl := Option.some.inj (ha.symm.trans ha')
  have hone := (Account.ledger_of_single (hsingle _ a ha) hp₂).1
  rw [hone] at hp₁
  rw [← hl₁, List.mem_singleton.mp hp₁]

end Represents

/-- In runs that commit no second approval of an account, the ledger that an approval has
attached stays the ledger of the account, and the credits for the account are all in it. -/
theorem account_keeps_ledger {st st' : System} {as : List Action}
    (h : (System.machine.restrict System.ApprovesOnce).Reachable st)
    (hsteps : (System.machine.restrict System.ApprovesOnce).Steps st as st')
    {account ledgerId : String} (hattached : ledgerId ∈ st.store.attached account) :
    st'.store.LedgerIs account ledgerId ∧ st'.store.CreditsIn account ledgerId := by
  have hsim : Machine.Simulation (System.machine.restrict System.ApprovesOnce)
      (Bank.machine.restrict Bank.ApprovesOnce)
      (fun st m => Models st m ∧ m.WF ∧ m.Numbered) :=
    refinement.restrict fun _ _ _ hrel hguard => hrel.1.approvesOnce hguard
  obtain ⟨m, hreach, hrel⟩ := hsim.reachable h
  obtain ⟨m', hrun, hmodels', -⟩ := hsim.steps hsteps hrel
  have hreach' := hreach.steps hrun
  obtain ⟨⟨⟨-, hnum⟩, hon⟩, hsingle⟩ := Bank.single_invariant.reachable hreach'
  obtain ⟨-, htraced⟩ := Bank.traced_invariant.reachable hreach'.unrestrict
  have hopened : st.store.accountEvents account ≠ [] := by
    intro hnil
    rw [Store.attached, hnil] at hattached
    exact absurd hattached List.not_mem_nil
  obtain ⟨id, a, rfl, ha, -⟩ := hrel.1.store.exists_account hopened
  rw [hrel.1.store.attached ha] at hattached
  obtain ⟨p, hp, rfl⟩ := List.mem_map.mp hattached
  have hkept : m'.Attached id p.1 :=
    Bank.Attached.steps ⟨a, ha, p, hp, rfl⟩ hrel.2.1 hrun.unrestrict
  exact ⟨hmodels'.store.ledgerIs hsingle hkept,
    hmodels'.store.creditsIn hnum htraced hon hsingle hkept⟩

theorem account_keeps_ledger_funded : ∃ st' : System,
    (st'.store.ledgerEvents (Scenario.uid 11).toString).length = 3 ∧
      st'.store.LedgerIs (Scenario.uid 10).toString (Scenario.uid 11).toString ∧
        st'.store.CreditsIn (Scenario.uid 10).toString (Scenario.uid 11).toString := by
  have hrun : (((System.init []).runWhile (fun st a => decide (st.ApprovesOnce a))
      Scenario.opened).bind fun st => (st.runWhile (fun st a => decide (st.ApprovesOnce a))
        (Scenario.handle 12 40 5 (.deposit (Scenario.uid 10) (Scenario.usd 100)) ++
          Scenario.tick 0 13 1)).map fun st' =>
        (decide ((Scenario.uid 11).toString ∈ st.store.attached (Scenario.uid 10).toString),
          (st'.store.ledgerEvents (Scenario.uid 11).toString).length)) = some (true, 3) := by
    decide +kernel
  obtain ⟨st, hst, hrest⟩ := Option.bind_eq_some_iff.mp hrun
  obtain ⟨st', hst', hfacts⟩ := Option.map_eq_some_iff.mp hrest
  obtain ⟨hattached, hlength⟩ := Prod.mk.inj hfacts
  exact ⟨st', hlength, account_keeps_ledger
    (System.reachable_of_runWhile (fun _ _ hg => of_decide_eq_true hg) hst)
    (System.steps_of_runWhile (fun _ _ hg => of_decide_eq_true hg) hst')
    (of_decide_eq_true hattached)⟩

/-- A second approval of the account, and then the tick that settles its deposit. -/
def Scenario.reapproval : List Action :=
  Scenario.handle 13 50 4 (.approveAccount (Scenario.uid 10) (Scenario.uid 0)) ++
    Scenario.tick 0 14 1

/-- The second approval moves the account to a new ledger, and the deposit is credited to
the old one. -/
theorem not_account_keeps_ledger : ∃ st st' as, System.machine.Reachable st ∧
    System.machine.Steps st as st' ∧
      (Scenario.uid 11).toString ∈ st.store.attached (Scenario.uid 10).toString ∧
        ¬ st'.store.LedgerIs (Scenario.uid 10).toString (Scenario.uid 11).toString ∧
          ¬ st'.store.CreditsIn (Scenario.uid 10).toString
            (BankAccount.replay
              (st'.store.accountEvents (Scenario.uid 10).toString)).ledgerId := by
  have hrun : (((System.init []).run Scenario.deposited).bind fun st =>
      (st.run Scenario.reapproval).map fun st' =>
        (decide ((Scenario.uid 11).toString ∈ st.store.attached (Scenario.uid 10).toString),
          (BankAccount.replay (st'.store.accountEvents (Scenario.uid 10).toString)).ledgerId,
          decide (∃ t ∈ st'.store.transactions,
            t.bankAccountId.toString = (Scenario.uid 10).toString ∧
              ∃ e ∈ st'.store.ledgerEvents (Scenario.uid 11).toString,
                e.Releases "credit_release" t.id.toString))) =
      some (true, (Scenario.uid 13).toString, true) := by decide +kernel
  obtain ⟨st, hst, hrest⟩ := Option.bind_eq_some_iff.mp hrun
  obtain ⟨st', hst', hfacts⟩ := Option.map_eq_some_iff.mp hrest
  obtain ⟨hattached, hledger, hcredit⟩ : _ ∧ _ ∧ _ := by simpa only [Prod.mk.injEq] using hfacts
  obtain ⟨t, ht, haccount, e, he, hreleases⟩ := of_decide_eq_true hcredit
  have hne : (Scenario.uid 11).toString ≠ (Scenario.uid 13).toString := by decide +kernel
  refine ⟨st, st', _, System.reachable_of_run hst, System.steps_of_run hst',
    of_decide_eq_true hattached, fun hkept => ?_, fun hcredits => ?_⟩
  · exact hne (hkept.1.symm.trans hledger)
  · exact hne ((hcredits t ht haccount _ e he hreleases).trans hledger)

end Bankie
