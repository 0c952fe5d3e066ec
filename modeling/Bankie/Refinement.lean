import Bankie.Points

/-!
The service refines the bank.
One call of the service from a point is one step of the bank, and leads to the program of
the next point; so every run of the service is a run of the bank, step by step. What holds
of every state of the bank holds of the stores that show it.
-/
namespace Bankie

open Program Transition

/-- The service is in the state of the bank: the store shows it, and every worker runs the
program of its point. -/
structure Models (st : System) (m : Bank) : Prop where
  store : Represents st.store m
  used : st.used = m.used
  submitted : st.submitted = m.submitted
  channel : st.channel = m.channel
  consumer : st.consumer = m.consumer.prog
  ticks : st.ticks = m.ticks.map TickPoint.prog
  requests : st.requests = m.requests.map RequestPoint.prog

section Replies

theorem commitOrRollback_ok {x : Outcome Store} {s s' : Store} {a : Unit}
    (h : commitOrRollback x s = (.ok a, s')) : x = .ok s' := by
  cases x <;> simp_all [commitOrRollback]

theorem commitOrRollback_err {x : Outcome Store} {s s' : Store} {e : String}
    (h : commitOrRollback x s = (.err e, s')) : s' = s := by
  cases x <;> simp_all [commitOrRollback]

theorem commitOrRollback_panic {x : Outcome Store} {s s' : Store} {e : String}
    (h : commitOrRollback x s = (.panic e, s')) : x = .panic e := by
  cases x <;> simp_all [commitOrRollback]

theorem execute_err {c : Call} {now : String} {s s' : Store} {e : String}
    (h : execute c now s = (.err e, s')) : s' = s := by
  cases c with
  | commitAccount => exact commitOrRollback_err h
  | executeLedger => exact commitOrRollback_err h
  | createHouseAccount => exact commitOrRollback_err h
  | createTransactionWithJournal transaction ledgerId entry lines =>
    simp only [execute] at h
    split at h <;> simp_all
  | setNx key value =>
    simp only [execute] at h
    split at h <;> cases h
  | getHouseAccount currency => exact (Prod.mk.inj h).2.symm
  | _ => exact absurd h (by simp [execute])

end Replies

namespace Models

variable {st : System} {m : Bank} {o : Oracle} {s' : Store}

section Consumer

variable {p' : Code Unit}

theorem moveConsumer (h : Models st m) {q : ConsumerPoint} (hp : p' = q.prog)
    (hs : s' = st.store) :
    Models { st with consumer := p', store := s' } (m.setConsumer q) := by
  subst hp hs
  exact ⟨h.store.of_same rfl rfl rfl rfl rfl, h.used, h.submitted, h.channel, rfl, h.ticks,
    h.requests⟩

/-- A call of the consumer: where it errs the consumer gives up, so only the replies of the
store are left to be matched. -/
theorem consumerCall (h : Models st m) {p : ConsumerPoint} (hp : m.consumer = p)
    (hrunning : p.Running) {c : Call} {next : Reply c → Code Unit}
    (hcalls : p.prog.Calls c next (fun _ => ConsumerPoint.idle.prog))
    (hstep : st.consumer.step exec o st.store = some (p', s'))
    (hhold : p.Holding → ∀ e, execute c o.now st.store ≠ (.err e, s'))
    (hpanic : ∀ e, execute c o.now st.store ≠ (.panic e, s'))
    (hok : ∀ a, o.fail = none → execute c o.now st.store = (.ok a, s') → p' = next a →
      ∃ m', m.Step (.consumer o) m' ∧ Models { st with consumer := p', store := s' } m') :
    ∃ m', m.Step (.consumer o) m' ∧ Models { st with consumer := p', store := s' } m' := by
  subst hp
  rw [h.consumer] at hstep
  rcases hcalls.step hstep with ⟨a, ha, hp'⟩ | ⟨e, he, hp'⟩ | ⟨e, he, hp'⟩
  · obtain ⟨hnone, hexec⟩ := exec_ok ha
    exact hok a hnone hexec hp'
  · rcases exec_cases he with ⟨hfail, -, hs'⟩ | ⟨-, hexec⟩
    · exact ⟨_, Bank.Step.giveUp o hrunning (fun _ => hfail), h.moveConsumer hp' hs'⟩
    · exact ⟨_, Bank.Step.giveUp o hrunning (fun hh => absurd hexec (hhold hh e)),
        h.moveConsumer hp' (execute_err hexec)⟩
  · obtain ⟨-, hexec⟩ := exec_panic he
    exact absurd hexec (hpanic e)

theorem giveUp (h : Models st m) {p : ConsumerPoint} (hp : m.consumer = p)
    (hrunning : p.Running) (hhold : ¬ p.Holding) (hp' : p' = ConsumerPoint.idle.prog)
    (hs : s' = st.store) :
    ∃ m', m.Step (.consumer o) m' ∧ Models { st with consumer := p', store := s' } m' := by
  subst hp
  exact ⟨_, Bank.Step.giveUp o hrunning (fun hh => absurd hh hhold), h.moveConsumer hp' hs⟩

theorem advance (h : Models st m) {p q : ConsumerPoint} (hp : m.consumer = p)
    (hadvance : m.Advances p q) (hp' : p' = q.prog) (hs : s' = st.store) :
    ∃ m', m.Step (.consumer o) m' ∧ Models { st with consumer := p', store := s' } m' := by
  subst hp
  exact ⟨_, Bank.Step.advance o q hadvance, h.moveConsumer hp' hs⟩

theorem loaded_order (h : Models st m) (d : Draws) (order : Order) :
    finish order.account (st.store.accountEvents order.account.toString).length
      (BankAccount.handle d
        (BankAccount.replay (st.store.accountEvents order.account.toString)) order.command) =
      (ConsumerPoint.house d order (m.accounts order.account)
        (st.store.accountEvents order.account.toString).length).prog := by
  rw [handle_order, h.store.accountEvents_at, Bank.accountLog]
  rfl

theorem stepLoad (h : Models st m) (hm : m.WF) {d : Draws} {command : BankAccountCommand}
    (hp : m.consumer = .load d command)
    (hstep : st.consumer.step exec o st.store = some (p', s')) :
    ∃ m', m.Step (.consumer o) m' ∧ Models { st with consumer := p', store := s' } m' := by
  refine h.consumerCall hp trivial (calls_load d command) hstep (fun hh => hh.elim)
    (by simp [execute]) ?_
  intro loaded _ hexec hp'
  obtain ⟨hloaded, hs'⟩ := Prod.mk.inj hexec
  obtain rfl := Outcome.ok.inj hloaded
  cases command with
  | openAccount id parent accountType kind userId currency =>
    have hlog : st.store.accountEvents id.toString = [] := by
      have hnew := (hm.claimed_new id (by simp [Bank.claimed, hp, ConsumerPoint.claims,
        BankAccountCommand.claims])).2.1
      rw [h.store.accountEvents_at, Bank.accountLog, hnew]
      rfl
    refine h.advance hp (Bank.Advances.loadOpen d parent ⟨id, accountType, kind, userId, currency⟩)
      ?_ hs'.symm
    rw [hp']
    simp only [BankAccountCommand.id, hlog]
    rfl
  | approveAccount id ledger =>
    exact h.advance hp (Bank.Advances.loadApprove d id ledger _) hp' hs'.symm
  | deposit id amount =>
    refine h.advance hp (Bank.Advances.loadOrder d ⟨id, .deposit, amount⟩
      (st.store.accountEvents id.toString).length) ?_ hs'.symm
    rw [hp']
    exact h.loaded_order d ⟨id, .deposit, amount⟩
  | withdrawal id amount =>
    refine h.advance hp (Bank.Advances.loadOrder d ⟨id, .withdraw, amount⟩
      (st.store.accountEvents id.toString).length) ?_ hs'.symm
    rw [hp']
    exact h.loaded_order d ⟨id, .withdraw, amount⟩

theorem stepOpenQuery (h : Models st m) {d : Draws} {opening : Opening}
    (hp : m.consumer = .openQuery d opening)
    (hstep : st.consumer.step exec o st.store = some (p', s')) :
    ∃ m', m.Step (.consumer o) m' ∧ Models { st with consumer := p', store := s' } m' := by
  refine h.consumerCall hp trivial (calls_openQuery d opening) hstep (fun hh => hh.elim)
    (by simp [execute]) ?_
  intro view _ hexec hp'
  obtain ⟨hview, hs'⟩ := Prod.mk.inj hexec
  rw [← Outcome.ok.inj hview, h.store.accountViews_at, Bank.accountView] at hp'
  cases hnew : m.accounts opening.id with
  | none =>
    exact h.advance hp (Bank.Advances.openQuery d opening hnew) (by simpa [hnew] using hp')
      hs'.symm
  | some a => exact h.giveUp hp trivial id (by simpa [hnew] using hp') hs'.symm

theorem stepOpenExists (h : Models st m) {d : Draws} {opening : Opening}
    (hp : m.consumer = .openExists d opening)
    (hstep : st.consumer.step exec o st.store = some (p', s')) :
    ∃ m', m.Step (.consumer o) m' ∧ Models { st with consumer := p', store := s' } m' := by
  refine h.consumerCall hp trivial (calls_openExists d opening) hstep (fun hh => hh.elim)
    (by simp [execute]) ?_
  intro valid _ hexec hp'
  obtain ⟨-, hs'⟩ := Prod.mk.inj hexec
  cases valid with
  | false => exact h.giveUp hp trivial id hp' hs'.symm
  | true => exact h.advance hp (Bank.Advances.openExists d opening) hp' hs'.symm

theorem execute_commitAccount_ne_panic (id : String) (sequence : ℕ)
    (events : List BankAccountEvent) (now e : String) (s : Store) :
    execute (.commitAccount id sequence events) now s ≠ (.panic e, s') := by
  intro h
  have hpanic := commitOrRollback_panic h
  unfold Store.commitAccount at hpanic
  split at hpanic <;> cases hpanic

theorem stepOpenCommit (h : Models st m) (hm : m.WF) {d : Draws} {opening : Opening}
    (hp : m.consumer = .openCommit d opening)
    (hstep : st.consumer.step exec o st.store = some (p', s')) :
    ∃ m', m.Step (.consumer o) m' ∧ Models { st with consumer := p', store := s' } m' := by
  refine h.consumerCall hp trivial (calls_openCommit d opening) hstep (fun hh => hh.elim)
    (fun e => execute_commitAccount_ne_panic _ _ _ _ e _) ?_
  intro _ _ hexec hp'
  have hnew := (hm.claimed_new opening.id (by simp [Bank.claimed, hp,
    ConsumerPoint.claims])).2.1
  have hlog : (Bank.openingAccount opening d.now).events opening.id =
      m.accountLog opening.id ++ [opening.event d.now] := by
    rw [Bank.accountLog, hnew]
    rfl
  have hstore := h.store.commitAccount hlog (commitOrRollback_ok hexec)
  exact ⟨_, Bank.Step.openAccount o d opening hp, hstore.of_same rfl rfl rfl rfl rfl, h.used,
    h.submitted, h.channel, hp', h.ticks, h.requests⟩

theorem stepApproveQuery (h : Models st m) {d : Draws} {account ledger : Uuid} {sequence : ℕ}
    (hp : m.consumer = .approveQuery d account ledger sequence)
    (hstep : st.consumer.step exec o st.store = some (p', s')) :
    ∃ m', m.Step (.consumer o) m' ∧ Models { st with consumer := p', store := s' } m' := by
  refine h.consumerCall hp trivial (calls_approveQuery d account ledger sequence) hstep
    (fun hh => hh.elim) (by simp [execute]) ?_
  intro view _ hexec hp'
  obtain ⟨hview, hs'⟩ := Prod.mk.inj hexec
  rw [← Outcome.ok.inj hview, h.store.accountViews_at, Bank.accountView] at hp'
  cases ha : m.accounts account with
  | none => exact h.giveUp hp trivial id (by simpa [ha] using hp') hs'.symm
  | some a =>
    refine h.advance hp (Bank.Advances.approveQuery d account ledger sequence a ha) ?_ hs'.symm
    simpa [ha, (a.project_events account).1] using hp'

theorem stepApproveInit (h : Models st m) (hm : m.WF) {d : Draws} {account ledger : Uuid}
    {c : Currency} {sequence : ℕ} (hp : m.consumer = .approveInit d account ledger c sequence)
    (hstep : st.consumer.step exec o st.store = some (p', s')) :
    ∃ m', m.Step (.consumer o) m' ∧ Models { st with consumer := p', store := s' } m' := by
  have hnew := (hm.claimed_new ledger (by simp [Bank.claimed, hp, ConsumerPoint.claims])).2.2
  obtain ⟨s₁, hs₁, hstore⟩ :=
    h.store.executeInit hnew o.now ⟨.customer, account, c, o.now, []⟩ rfl rfl
  have hexec : execute (.executeLedger ledger.toString
      (.init ledger account (Money.new .zero c))) o.now st.store = (.ok (), s₁) := by
    rw [execute]
    exact congrArg (commitOrRollback · st.store) hs₁
  refine h.consumerCall hp trivial (calls_approveInit d account ledger c sequence) hstep
    (fun hh => hh.elim) (fun e => by simp [hexec]) ?_
  intro _ _ hexec' hp'
  obtain rfl : s₁ = s' := (Prod.mk.inj (hexec.symm.trans hexec')).2
  exact ⟨_, Bank.Step.initLedger o d account ledger c sequence hp,
    hstore.of_same rfl rfl rfl rfl rfl, h.used, h.submitted, h.channel, hp', h.ticks, h.requests⟩

theorem stepApproveCommit (h : Models st m) (hm : m.WF) {d : Draws} {account ledger : Uuid}
    {sequence : ℕ} (hp : m.consumer = .approveCommit d account ledger sequence)
    (hstep : st.consumer.step exec o st.store = some (p', s')) :
    ∃ m', m.Step (.consumer o) m' ∧ Models { st with consumer := p', store := s' } m' := by
  refine h.consumerCall hp trivial (calls_approveCommit d account ledger sequence) hstep
    (fun hh => hh.elim) (fun e => execute_commitAccount_ne_panic _ _ _ _ e _) ?_
  intro _ hok hexec hp'
  have hknows := hm.consumer
  rw [hp] at hknows
  obtain ⟨a, ha, -⟩ := hknows
  have hlog : (a.approve ledger d.now).events account = m.accountLog account ++
      [.accountKycApproved ledger.toString (Helper.createBaseEvent d.now account)] := by
    rw [Bank.accountLog, ha, Account.events_approve]
    rfl
  have hstore := h.store.commitAccount hlog (commitOrRollback_ok hexec)
  exact ⟨_, Bank.Step.approve o d account ledger sequence a hok hp ha,
    hstore.of_same rfl rfl rfl rfl rfl, h.used, h.submitted, h.channel, hp', h.ticks, h.requests⟩

theorem execute_getHouseAccount {c : Currency} {now : String} {s s' : Store} {h : HouseAccount}
    (hexec : execute (.getHouseAccount c) now s = (.ok h, s')) : h ∈ s.houseAccounts ∧ s' = s := by
  obtain ⟨hget, hs'⟩ := Prod.mk.inj hexec
  refine ⟨?_, hs'.symm⟩
  unfold Store.getHouseAccount at hget
  split at hget
  · rename_i h' hfind
    obtain rfl := Outcome.ok.inj hget
    exact List.mem_of_find?_eq_some hfind
  · cases hget

theorem execute_getHouseAccount_ne_panic (c : Currency) (now e : String) (s : Store) :
    execute (.getHouseAccount c) now s ≠ (.panic e, s') := by
  intro h
  have hget := (Prod.mk.inj h).1
  unfold Store.getHouseAccount at hget
  split at hget <;> cases hget

theorem stepHouse (h : Models st m) {d : Draws} {order : Order} {loaded : Option Account}
    {sequence : ℕ} (hp : m.consumer = .house d order loaded sequence)
    (hstep : st.consumer.step exec o st.store = some (p', s')) :
    ∃ m', m.Step (.consumer o) m' ∧ Models { st with consumer := p', store := s' } m' := by
  cases loaded with
  | none =>
    refine h.consumerCall hp trivial (calls_house_none d order sequence) hstep
      (fun hh => hh.elim) (fun e => execute_getHouseAccount_ne_panic _ _ e _) ?_
    intro house _ hexec hp'
    exact h.advance hp (Bank.Advances.houseUnopened d order sequence _) hp'
      (execute_getHouseAccount hexec).2
  | some a =>
    refine h.consumerCall hp trivial (calls_house_some d order a sequence) hstep
      (fun hh => hh.elim) (fun e => execute_getHouseAccount_ne_panic _ _ e _) ?_
    intro house _ hexec hp'
    obtain ⟨hmem, hs'⟩ := execute_getHouseAccount hexec
    rw [h.store.houses] at hmem
    exact h.advance hp (Bank.Advances.house d order a sequence house hmem) hp' hs'

theorem stepCheckAccount (h : Models st m) (hm : m.WF) {d : Draws} {order : Order} {a : Account}
    {sequence : ℕ} {house : String} (hp : m.consumer = .checkAccount d order a sequence house)
    (hstep : st.consumer.step exec o st.store = some (p', s')) :
    ∃ m', m.Step (.consumer o) m' ∧ Models { st with consumer := p', store := s' } m' := by
  refine h.consumerCall hp trivial (calls_checkAccount d order a sequence house) hstep
    (fun hh => hh.elim) (by simp [execute]) ?_
  intro view _ hexec hp'
  have ha := hm.consumer
  rw [hp] at ha
  obtain ⟨hview, hs'⟩ := Prod.mk.inj hexec
  obtain ⟨hcurrency, hstatus, hledgerId⟩ := a.project_events order.account
  obtain ⟨hid, hself⟩ := a.replay_events order.account
  rw [← Outcome.ok.inj hview, h.store.accountViews_at, Bank.accountView,
    show m.accounts order.account = some a from ha, hid, hself] at hp'
  simp only [Option.map_some, BankAccountLogic.validateAccount, hcurrency, hstatus,
    hledgerId] at hp'
  cases hledger : a.ledger with
  | none =>
    refine h.giveUp hp trivial id ?_ hs'.symm
    rw [hp', hledger, if_pos (by simp)]
    rfl
  | some ledger =>
    by_cases hc : a.currency = order.amount.currency
    · refine h.advance hp (Bank.Advances.checkAccount d order a sequence house ledger hledger hc)
        ?_ hs'.symm
      rw [hp', hledger, if_neg (by simp), if_neg (by simpa using hc)]
      rfl
    · refine h.giveUp hp trivial id ?_ hs'.symm
      rw [hp', hledger, if_neg (by simp), if_pos hc]
      rfl

theorem stepCheckLedger (h : Models st m) {d : Draws} {order : Order}
    {ledger : Uuid} {sequence : ℕ} {house : String}
    (hp : m.consumer = .checkLedger d order ledger sequence house)
    (hstep : st.consumer.step exec o st.store = some (p', s')) :
    ∃ m', m.Step (.consumer o) m' ∧ Models { st with consumer := p', store := s' } m' := by
  refine h.consumerCall hp trivial (calls_checkLedger d order ledger sequence house) hstep
    (fun hh => hh.elim) (by simp [execute]) ?_
  intro view _ hexec hp'
  have hs' := (Prod.mk.inj hexec).2.symm
  rcases checkLedger_next d order ledger sequence house view hp' with ⟨hnext, -⟩ | hidle
  · exact h.advance hp (Bank.Advances.checkLedger d order ledger sequence house) hnext hs'
  · exact h.giveUp hp trivial id hidle hs'

theorem execute_createTransactionWithJournal_ok {t : Transaction} {ledgerId : String}
    {entry : JournalEntry} {lines : List JournalLine} {now : String} {s : Store} {id : Uuid}
    (h : execute (.createTransactionWithJournal t ledgerId entry lines) now s = (.ok id, s')) :
    s.createTransactionWithJournal t ledgerId entry lines = .ok (id, s') := by
  simp only [execute] at h
  split at h
  · rename_i heq
    simp only [Prod.mk.injEq, Outcome.ok.injEq] at h
    obtain ⟨rfl, rfl⟩ := h
    exact heq
  · simp at h
  · simp at h

theorem execute_createTransactionWithJournal_panic {t : Transaction} {ledgerId : String}
    {entry : JournalEntry} {lines : List JournalLine} {now e : String} {s : Store}
    (h : execute (.createTransactionWithJournal t ledgerId entry lines) now s = (.panic e, s')) :
    (s.createTransactionWithJournal t ledgerId entry lines).IsPanic := by
  simp only [execute] at h
  split at h
  · simp at h
  · simp at h
  · rename_i heq
    rw [heq]
    trivial

theorem stepRecord (h : Models st m) (hnum : m.Numbered) {d : Draws} {order : Order}
    {ledger : Uuid} {sequence : ℕ} {house : String}
    (hp : m.consumer = .record d order ledger sequence house)
    (hstep : st.consumer.step exec o st.store = some (p', s')) :
    ∃ m', m.Step (.consumer o) m' ∧ Models { st with consumer := p', store := s' } m' := by
  refine h.consumerCall hp trivial (calls_record d order ledger sequence house) hstep
    (fun hh => hh.elim) ?_ ?_
  · intro e hexec
    exact Store.createTransactionWithJournal_not_panic _ _ _ _ _ _ _ _
      (execute_createTransactionWithJournal_panic hexec)
  · intro id _ hexec hp'
    have hnew : d.transactionId ∉ m.completed := by
      intro hin
      obtain ⟨mv, hmv, htx⟩ := hnum.completed _ hin
      exact (hnum.drawn d (by simp [hp, ConsumerPoint.drawn])).2 mv hmv htx
    obtain ⟨rfl, hstore⟩ := h.store.createTransactionWithJournal hnew
      (execute_createTransactionWithJournal_ok hexec)
    refine ⟨_, Bank.Step.record o d order ledger sequence house hp,
      hstore.of_same rfl rfl rfl rfl rfl, h.used, h.submitted, h.channel, ?_, h.ticks, h.requests⟩
    change p' = (Bank.afterRecord d order ledger sequence).prog
    rw [hp', Bank.afterRecord]
    cases haction : order.action with
    | deposit =>
      simp only [afterWrite, haction]
      rfl
    | withdraw =>
      rw [afterWrite_withdraw haction]
      rfl

/-- The execute of a posting on the book that it is for. -/
theorem execute_posting {s : Store} (h : Represents s m) {ledger account : Uuid} {c : Currency}
    {b : Book} (hb : m.books ledger = some b) (howner : b.owner = account)
    (hcurrency : b.currency = c) (p : Posting) :
    ∃ s₁, execute (.executeLedger ledger.toString (p.command ledger account c)) p.time s =
      (.ok (), s₁) ∧ Represents s₁ (m.setBook ledger (b.post p)) := by
  subst howner hcurrency
  obtain ⟨s₁, hs₁, hstore⟩ := h.executePosting hb p
  refine ⟨s₁, ?_, hstore⟩
  rw [execute]
  exact congrArg (commitOrRollback · s) hs₁

theorem stepHold (h : Models st m) (hm : m.WF) {d : Draws} {order : Order} {ledger : Uuid}
    {sequence : ℕ} (hp : m.consumer = .hold d order ledger sequence)
    (hstep : st.consumer.step exec o st.store = some (p', s')) :
    ∃ m', m.Step (.consumer o) m' ∧ Models { st with consumer := p', store := s' } m' := by
  have hknows := hm.consumer
  rw [hp] at hknows
  obtain ⟨-, b, hb, -, howner, hcurrency⟩ := hknows
  obtain ⟨s₁, hs₁, hstore⟩ := execute_posting h.store hb howner hcurrency
    (Bank.holdOf d order o.now)
  have hexec : execute (.executeLedger ledger.toString
      (.debitHold ledger order.account d.transactionId order.amount)) o.now st.store =
      (.ok (), s₁) := hs₁
  refine h.consumerCall hp trivial (calls_hold d order ledger sequence) hstep
    (fun _ e => by simp [hexec]) (fun e => by simp [hexec]) ?_
  intro _ _ hexec' hp'
  obtain rfl : s₁ = s' := (Prod.mk.inj (hexec.symm.trans hexec')).2
  exact ⟨_, Bank.Step.hold o d order ledger sequence b hp hb,
    hstore.of_same rfl rfl rfl rfl rfl, h.used, h.submitted, h.channel, hp', h.ticks, h.requests⟩

/-- One call of the consumer is one step of the bank. -/
theorem stepConsumer (h : Models st m) (hm : m.WF) (hnum : m.Numbered)
    (hstep : st.consumer.step exec o st.store = some (p', s')) :
    ∃ m', m.Step (.consumer o) m' ∧ Models { st with consumer := p', store := s' } m' := by
  cases hp : m.consumer with
  | idle =>
    rw [h.consumer, hp] at hstep
    cases hstep
  | dead message =>
    rw [h.consumer, hp] at hstep
    cases hstep
  | load d command => exact h.stepLoad hm hp hstep
  | openQuery d opening => exact h.stepOpenQuery hp hstep
  | openExists d opening => exact h.stepOpenExists hp hstep
  | openCommit d opening => exact h.stepOpenCommit hm hp hstep
  | approveQuery d account ledger sequence => exact h.stepApproveQuery hp hstep
  | approveInit d account ledger c sequence => exact h.stepApproveInit hm hp hstep
  | approveCommit d account ledger sequence => exact h.stepApproveCommit hm hp hstep
  | house d order loaded sequence => exact h.stepHouse hp hstep
  | checkAccount d order a sequence house => exact h.stepCheckAccount hm hp hstep
  | checkLedger d order ledger sequence house => exact h.stepCheckLedger hp hstep
  | record d order ledger sequence house => exact h.stepRecord hnum hp hstep
  | hold d order ledger sequence => exact h.stepHold hm hp hstep

end Consumer

section Ticks

variable {p' : Code Unit} {i : ℕ}

theorem moveTick (h : Models st m) {t : TickPoint} (hp : p' = t.prog)
    (hs : Represents s' m) :
    Models { st with ticks := st.ticks.set i p', store := s' } (m.setTick i t) := by
  subst hp
  refine ⟨hs.of_same rfl rfl rfl rfl rfl, h.used, h.submitted, h.channel, h.consumer, ?_,
    h.requests⟩
  simp [h.ticks, List.map_set]

/-- A call of a tick that neither executes nor completes: it moves on, or it stops. -/
theorem tickCall (h : Models st m) {t : TickPoint} (hi : m.ticks[i]? = some t)
    (ht : t.MayStop) {c : Call} {next : Reply c → Code Unit}
    {failed : String → Outcome Unit}
    (hcalls : t.prog.Calls c next (fun e => (TickPoint.stopped (failed e)).prog))
    (hstep : t.prog.step exec o st.store = some (p', s'))
    (hpanic : ∀ e, execute c o.now st.store ≠ (.panic e, s'))
    (hok : ∀ a, execute c o.now st.store = (.ok a, s') → Represents s' m ∧
      ((∃ t', m.Ticks t t' ∧ next a = t'.prog) ∨
        ∃ r, next a = (TickPoint.stopped r).prog)) :
    ∃ m', m.Step (.tick i o) m' ∧
      Models { st with ticks := st.ticks.set i p', store := s' } m' := by
  have hstop : ∀ r, p' = (TickPoint.stopped r).prog → Represents s' m →
      ∃ m', m.Step (.tick i o) m' ∧
        Models { st with ticks := st.ticks.set i p', store := s' } m' :=
    fun r hp' hs => ⟨_, Bank.Step.tick i o t _ hi (Bank.Ticks.stop t r ht), h.moveTick hp' hs⟩
  rcases hcalls.step hstep with ⟨a, ha, hp'⟩ | ⟨e, he, hp'⟩ | ⟨e, he, -⟩
  · obtain ⟨-, hexec⟩ := exec_ok ha
    obtain ⟨hs, ⟨t', ht', hnext⟩ | ⟨r, hnext⟩⟩ := hok a hexec
    · exact ⟨_, Bank.Step.tick i o t t' hi ht', h.moveTick (hp'.trans hnext) hs⟩
    · exact hstop r (hp'.trans hnext) hs
  · rcases exec_cases he with ⟨-, -, hs'⟩ | ⟨-, hexec⟩
    · exact hstop _ hp' (hs' ▸ h.store)
    · exact hstop _ hp' (execute_err hexec ▸ h.store)
  · obtain ⟨-, hexec⟩ := exec_panic he
    exact absurd hexec (hpanic e)

theorem stepExecute (h : Models st m) (hm : m.WF) {lockValue : String} {mv : Movement}
    {rest : List Movement} (hi : m.ticks[i]? = some (.execute lockValue mv rest))
    (hstep : (TickPoint.execute lockValue mv rest).prog.step exec o st.store = some (p', s')) :
    ∃ m', m.Step (.tick i o) m' ∧
      Models { st with ticks := st.ticks.set i p', store := s' } m' := by
  obtain ⟨b, hb, -, howner, hcurrency⟩ :=
    hm.movements mv (hm.rows _ (List.mem_of_getElem? hi) mv List.mem_cons_self)
  obtain ⟨s₁, hs₁, hstore⟩ := execute_posting h.store hb howner hcurrency (mv.settlement o.now)
  have hexec : execute (.executeLedger mv.ledger.toString
      (mv.action.settlement mv.ledger mv.account mv.tx mv.amount)) o.now st.store =
      (.ok (), s₁) := by
    rw [← mv.settlement_command o.now]
    exact hs₁
  rcases (calls_execute lockValue mv rest).step hstep with ⟨a, ha, hp'⟩ | ⟨e, he, hp'⟩ |
    ⟨e, he, -⟩
  · obtain ⟨hok, hexec'⟩ := exec_ok ha
    obtain rfl : s₁ = s' := (Prod.mk.inj (hexec.symm.trans hexec')).2
    refine ⟨_, Bank.Step.execute i o lockValue mv rest b hok hi hb,
      hstore.of_same rfl rfl rfl rfl rfl, h.used, h.submitted, h.channel, h.consumer, ?_,
      h.requests⟩
    simp [h.ticks, List.map_set, hp']
  · rcases exec_cases he with ⟨hfail, -, hs'⟩ | ⟨hok, hexec'⟩
    · rw [← TickPoint.prog_loop] at hp'
      exact ⟨_, Bank.Step.executeFails i o lockValue mv rest hi hfail,
        h.moveTick hp' (hs' ▸ h.store)⟩
    · simp [hexec] at hexec'
  · obtain ⟨hok, hexec'⟩ := exec_panic he
    simp [hexec] at hexec'

theorem stepComplete (h : Models st m) {lockValue : String} {mv : Movement}
    {rest : List Movement} (hi : m.ticks[i]? = some (.complete lockValue mv rest))
    (hstep : (TickPoint.complete lockValue mv rest).prog.step exec o st.store = some (p', s')) :
    ∃ m', m.Step (.tick i o) m' ∧
      Models { st with ticks := st.ticks.set i p', store := s' } m' := by
  rcases (calls_complete lockValue mv rest).step hstep with ⟨a, ha, hp'⟩ | ⟨e, he, hp'⟩ |
    ⟨e, he, -⟩
  · obtain ⟨-, hexec⟩ := exec_ok ha
    obtain ⟨-, rfl⟩ := Prod.mk.inj hexec
    rw [← TickPoint.prog_loop] at hp'
    refine ⟨_, Bank.Step.complete i o lockValue mv rest hi,
      (h.store.completeTransaction mv.tx).of_same rfl rfl rfl rfl rfl, h.used, h.submitted,
      h.channel, h.consumer, ?_, h.requests⟩
    simp [h.ticks, List.map_set, hp']
  · rcases exec_cases he with ⟨hfail, -, hs'⟩ | ⟨-, hexec⟩
    · rw [← TickPoint.prog_loop] at hp'
      exact ⟨_, Bank.Step.completeFails i o lockValue mv rest hi hfail,
        h.moveTick hp' (hs' ▸ h.store)⟩
    · cases hexec
  · obtain ⟨-, hexec⟩ := exec_panic he
    cases hexec

theorem stepTick (h : Models st m) (hm : m.WF) {t : TickPoint} (hi : m.ticks[i]? = some t)
    (hstep : t.prog.step exec o st.store = some (p', s')) :
    ∃ m', m.Step (.tick i o) m' ∧
      Models { st with ticks := st.ticks.set i p', store := s' } m' := by
  cases t with
  | fetch lockValue =>
    refine h.tickCall hi trivial (calls_fetch lockValue) hstep (by simp [execute]) ?_
    intro rows hexec
    obtain ⟨hrows, rfl⟩ := Prod.mk.inj hexec
    refine ⟨h.store, Or.inl ⟨_, Bank.Ticks.fetch lockValue, ?_⟩⟩
    rw [← Outcome.ok.inj hrows, h.store.getUnprocessedOutbox]
    rfl
  | setNx lockValue batch =>
    refine h.tickCall hi trivial (calls_setNx lockValue batch) hstep ?_ ?_
    · intro e hexec
      simp only [execute] at hexec
      split at hexec <;> cases hexec
    · intro set hexec
      simp only [execute] at hexec
      split at hexec
      · obtain ⟨hset, rfl⟩ := Prod.mk.inj hexec
        exact ⟨h.store, Or.inr ⟨_, by rw [← Outcome.ok.inj hset]; rfl⟩⟩
      · obtain ⟨hset, rfl⟩ := Prod.mk.inj hexec
        exact ⟨h.store.setCache _, Or.inl ⟨_, Bank.Ticks.locked lockValue batch,
          by rw [← Outcome.ok.inj hset]; rfl⟩⟩
  | expire lockValue batch =>
    refine h.tickCall hi trivial (calls_expire lockValue batch) hstep (by simp [execute]) ?_
    intro _ hexec
    obtain ⟨-, rfl⟩ := Prod.mk.inj hexec
    exact ⟨h.store.setCache _, Or.inl ⟨_, Bank.Ticks.expire lockValue batch,
      (TickPoint.prog_loop lockValue batch).symm⟩⟩
  | execute lockValue mv rest => exact h.stepExecute hm hi hstep
  | complete lockValue mv rest => exact h.stepComplete hi hstep
  | get lockValue =>
    refine h.tickCall hi trivial (calls_get lockValue) hstep (by simp [execute]) ?_
    intro current hexec
    obtain ⟨-, rfl⟩ := Prod.mk.inj hexec
    refine ⟨h.store, ?_⟩
    cases current with
    | none => exact Or.inr ⟨_, rfl⟩
    | some current =>
      by_cases hc : current = lockValue
      · exact Or.inl ⟨_, Bank.Ticks.get lockValue, if_pos hc⟩
      · exact Or.inr ⟨_, if_neg hc⟩
  | del lockValue =>
    refine h.tickCall hi trivial (calls_del lockValue) hstep (by simp [execute]) ?_
    intro _ hexec
    obtain ⟨-, rfl⟩ := Prod.mk.inj hexec
    exact ⟨h.store.setCache _, Or.inr ⟨_, rfl⟩⟩
  | stopped result => cases hstep

end Ticks

section Requests

variable {p' : Code Response} {i : ℕ}

theorem moveRequest (h : Models st m) {r : RequestPoint} (hp : p' = r.prog)
    (hs : s' = st.store) :
    Models { st with requests := st.requests.set i p', store := s' } (m.setRequest i r) := by
  subst hp hs
  refine ⟨h.store.of_same rfl rfl rfl rfl rfl, h.used, h.submitted, h.channel, h.consumer,
    h.ticks, ?_⟩
  simp [h.requests, List.map_set]

theorem stepInitHouse (h : Models st m) (hm : m.WF) {ledger : Uuid} {account : HouseAccount}
    (hi : m.requests[i]? = some (.init ledger account))
    (hstep : (RequestPoint.init ledger account).prog.step exec o st.store = some (p', s')) :
    ∃ m', m.Step (.request i o) m' ∧
      Models { st with requests := st.requests.set i p', store := s' } m' := by
  have hnew := (hm.claimed_new ledger (List.mem_append_right _ (List.mem_flatMap.mpr
    ⟨_, List.mem_of_getElem? hi, List.mem_singleton_self ledger⟩))).2.2
  obtain ⟨s₁, hs₁, hstore⟩ := h.store.executeInit hnew o.now
    ⟨.house, account.id, account.currency, o.now, []⟩ rfl rfl
  have hexec : execute (.executeLedger ledger.toString
      (.init ledger account.id (Money.new .zero account.currency))) o.now st.store =
      (.ok (), s₁) := by
    rw [execute]
    exact congrArg (commitOrRollback · st.store) hs₁
  rcases (calls_initHouse ledger account).step hstep with ⟨a, ha, hp'⟩ | ⟨e, he, hp'⟩ |
    ⟨e, he, -⟩
  · obtain ⟨hok, hexec'⟩ := exec_ok ha
    obtain rfl : s₁ = s' := (Prod.mk.inj (hexec.symm.trans hexec')).2
    refine ⟨_, Bank.Step.initHouse i o ledger account hi,
      hstore.of_same rfl rfl rfl rfl rfl, h.used, h.submitted, h.channel, h.consumer, h.ticks,
      ?_⟩
    simp [h.requests, List.map_set, hp']
  · rcases exec_cases he with ⟨-, -, hs'⟩ | ⟨hok, hexec'⟩
    · exact ⟨_, Bank.Step.endRequest i o _ _ hi, h.moveRequest hp' hs'⟩
    · simp [hexec] at hexec'
  · obtain ⟨hok, hexec'⟩ := exec_panic he
    simp [hexec] at hexec'

theorem createHouseAccount_ok {account : HouseAccount} {s s' : Store}
    (h : s.createHouseAccount account = .ok s') :
    s' = { s with houseAccounts := s.houseAccounts ++ [account] } := by
  unfold Store.createHouseAccount at h
  split at h
  · cases h
  · exact (Outcome.ok.inj h).symm

theorem createHouseAccount_not_panic (account : HouseAccount) (s : Store) :
    ¬ (s.createHouseAccount account).IsPanic :=
  Outcome.not_isPanic_ite id id

theorem stepInsertHouse (h : Models st m) {account : HouseAccount}
    (hi : m.requests[i]? = some (.insert account))
    (hstep : (RequestPoint.insert account).prog.step exec o st.store = some (p', s')) :
    ∃ m', m.Step (.request i o) m' ∧
      Models { st with requests := st.requests.set i p', store := s' } m' := by
  rcases (calls_insertHouse account).step hstep with ⟨a, ha, hp'⟩ | ⟨e, he, hp'⟩ | ⟨e, he, -⟩
  · obtain ⟨-, hexec⟩ := exec_ok ha
    obtain rfl := createHouseAccount_ok (commitOrRollback_ok hexec)
    obtain ⟨h₁, h₂, h₃, h₄, h₅, h₆, h₇, h₈, h₉⟩ := h.store
    refine ⟨_, Bank.Step.insertHouse i o account
      (.ok ⟨201, .object [("id", .string account.id.toString)]⟩) hi,
      ⟨h₁, h₂, h₃, h₄, h₅, h₆, h₇, h₈, ?_⟩, h.used, h.submitted, h.channel, h.consumer,
      h.ticks, ?_⟩
    · simp [h₉]
    · simp [h.requests, List.map_set, hp']
  · have hs' : s' = st.store := by
      rcases exec_cases he with ⟨-, -, hs'⟩ | ⟨-, hexec⟩
      · exact hs'
      · exact execute_err hexec
    exact ⟨_, Bank.Step.endRequest i o _ _ hi, h.moveRequest hp' hs'⟩
  · obtain ⟨-, hexec⟩ := exec_panic he
    refine absurd ?_ (createHouseAccount_not_panic account st.store)
    rw [commitOrRollback_panic hexec]
    trivial

theorem stepRequest (h : Models st m) (hm : m.WF) {r : RequestPoint}
    (hi : m.requests[i]? = some r)
    (hstep : r.prog.step exec o st.store = some (p', s')) :
    ∃ m', m.Step (.request i o) m' ∧
      Models { st with requests := st.requests.set i p', store := s' } m' := by
  cases r with
  | init ledger account => exact h.stepInitHouse hm hi hstep
  | insert account => exact h.stepInsertHouse hi hstep
  | stopped result => cases hstep

end Requests

theorem fresh_iff (h : Models st m) (ids : List Uuid) : st.Fresh ids ↔ m.Fresh ids := by
  rw [System.Fresh, Bank.Fresh, h.used]

theorem stepSubmit (h : Models st m) {st' : System} {fresh : Uuid} {body : BankAccountCommand}
    (hstep : st.submit fresh body = some st') :
    ∃ m', m.Step (.submit fresh body) m' ∧ Models st' m' := by
  unfold System.submit at hstep
  split at hstep
  · rename_i hfresh
    rw [h.fresh_iff] at hfresh
    split at hstep
    · obtain rfl := Option.some.inj hstep
      exact ⟨_, Bank.Step.refuse fresh body hfresh, h.store.of_same rfl rfl rfl rfl rfl,
        congrArg _ h.used, h.submitted, h.channel, h.consumer, h.ticks, h.requests⟩
    · obtain rfl := Option.some.inj hstep
      exact ⟨_, Bank.Step.submit fresh body hfresh, h.store.of_same rfl rfl rfl rfl rfl,
        congrArg _ h.used, congrArg (· ++ _) h.submitted, congrArg (· ++ _) h.channel,
        h.consumer, h.ticks, h.requests⟩
  · cases hstep

theorem idle_or_dead_of_done {p : ConsumerPoint} {r : Outcome Unit} (h : p.prog = .done r) :
    p = .idle ∧ r = .ok () ∨ ∃ message, p = .dead message ∧ r = .panic message := by
  cases p with
  | idle =>
    cases h
    exact Or.inl ⟨rfl, rfl⟩
  | dead message =>
    cases h
    exact Or.inr ⟨message, rfl, rfl⟩
  | load d command => exact absurd h ((calls_load d command).ne_done _)
  | openQuery d opening => exact absurd h ((calls_openQuery d opening).ne_done _)
  | openExists d opening => exact absurd h ((calls_openExists d opening).ne_done _)
  | openCommit d opening => exact absurd h ((calls_openCommit d opening).ne_done _)
  | approveQuery d account ledger sequence =>
    exact absurd h ((calls_approveQuery d account ledger sequence).ne_done _)
  | approveInit d account ledger c sequence =>
    exact absurd h ((calls_approveInit d account ledger c sequence).ne_done _)
  | approveCommit d account ledger sequence =>
    exact absurd h ((calls_approveCommit d account ledger sequence).ne_done _)
  | house d order loaded sequence =>
    cases loaded with
    | none => exact absurd h ((calls_house_none d order sequence).ne_done _)
    | some a => exact absurd h ((calls_house_some d order a sequence).ne_done _)
  | checkAccount d order a sequence house =>
    exact absurd h ((calls_checkAccount d order a sequence house).ne_done _)
  | checkLedger d order ledger sequence house =>
    exact absurd h ((calls_checkLedger d order ledger sequence house).ne_done _)
  | record d order ledger sequence house =>
    exact absurd h ((calls_record d order ledger sequence house).ne_done _)
  | hold d order ledger sequence =>
    exact absurd h ((calls_hold d order ledger sequence).ne_done _)

theorem idle_of_done {p : ConsumerPoint} {r : Unit} (h : p.prog = .done (.ok r)) : p = .idle := by
  rcases idle_or_dead_of_done h with ⟨hidle, -⟩ | ⟨message, -, hpanic⟩
  · exact hidle
  · cases hpanic

theorem stepReceive (h : Models st m) {st' : System} {d : Draws}
    (hstep : st.receive d = some st') : ∃ m', m.Step (.receive d) m' ∧ Models st' m' := by
  unfold System.receive at hstep
  split at hstep
  · rename_i command rest hconsumer hchannel
    split at hstep
    · rename_i hfresh
      rw [h.fresh_iff] at hfresh
      obtain rfl := Option.some.inj hstep
      rw [h.consumer] at hconsumer
      rw [h.channel] at hchannel
      exact ⟨_, Bank.Step.receive d command rest (idle_of_done hconsumer) hchannel hfresh,
        h.store.of_same rfl rfl rfl rfl rfl, congrArg (_ ++ ·) h.used, h.submitted, rfl, rfl,
        h.ticks, h.requests⟩
    · cases hstep
  · cases hstep

theorem stepStartTick (h : Models st m) {st' : System} {lockValue : Uuid}
    (hstep : st.startTick lockValue = some st') :
    ∃ m', m.Step (.startTick lockValue) m' ∧ Models st' m' := by
  unfold System.startTick at hstep
  split at hstep
  · rename_i hfresh
    rw [h.fresh_iff] at hfresh
    obtain rfl := Option.some.inj hstep
    refine ⟨_, Bank.Step.startTick lockValue hfresh, h.store.of_same rfl rfl rfl rfl rfl,
      congrArg _ h.used, h.submitted, h.channel, h.consumer, ?_, h.requests⟩
    simp [h.ticks, TickPoint.prog]
  · cases hstep

theorem stepStartRequest (h : Models st m) {st' : System} {id ledger : Uuid}
    {accountNumber : String} {body : HouseAccount}
    (hstep : st.startRequest id ledger accountNumber body = some st') :
    ∃ m', m.Step (.startRequest id ledger accountNumber body) m' ∧ Models st' m' := by
  unfold System.startRequest at hstep
  split at hstep
  · rename_i hfresh
    rw [h.fresh_iff] at hfresh
    obtain rfl := Option.some.inj hstep
    refine ⟨_, Bank.Step.startRequest id ledger accountNumber body hfresh,
      h.store.of_same rfl rfl rfl rfl rfl, congrArg (_ ++ ·) h.used, h.submitted, h.channel,
      h.consumer, h.ticks, ?_⟩
    simp [h.requests, RequestPoint.prog]
  · cases hstep

theorem stepExpireKey (h : Models st m) {st' : System} {key : String}
    (hstep : st.expireKey key = some st') :
    ∃ m', m.Step (.expireKey key) m' ∧ Models st' m' := by
  unfold System.expireKey at hstep
  split at hstep
  · obtain rfl := Option.some.inj hstep
    exact ⟨m, Bank.Step.expireKey key, h.store.setCache _, h.used, h.submitted, h.channel,
      h.consumer, h.ticks, h.requests⟩
  · cases hstep

theorem step (h : Models st m) (hm : m.WF ∧ m.Numbered) {a : Action} {st' : System}
    (hstep : st.step a = some st') : ∃ m', m.Step a m' ∧ Models st' m' := by
  cases a with
  | submit fresh body => exact h.stepSubmit hstep
  | receive d => exact h.stepReceive hstep
  | consumer o =>
    obtain ⟨⟨p', s'⟩, hcall, rfl⟩ := Option.map_eq_some_iff.mp hstep
    exact h.stepConsumer hm.1 hm.2 hcall
  | startTick lockValue => exact h.stepStartTick hstep
  | tick i o =>
    obtain ⟨r, hat, rfl⟩ := Option.map_eq_some_iff.mp hstep
    rw [System.stepAt, h.ticks, List.getElem?_map] at hat
    cases hi : m.ticks[i]? with
    | none => simp [hi] at hat
    | some t =>
      simp only [hi, Option.map_some] at hat
      obtain ⟨⟨p', s'⟩, hcall, rfl⟩ := Option.map_eq_some_iff.mp hat
      rw [← h.ticks]
      exact h.stepTick hm.1 hi hcall
  | startRequest id ledger accountNumber body => exact h.stepStartRequest hstep
  | request i o =>
    obtain ⟨r, hat, rfl⟩ := Option.map_eq_some_iff.mp hstep
    rw [System.stepAt, h.requests, List.getElem?_map] at hat
    cases hi : m.requests[i]? with
    | none => simp [hi] at hat
    | some t =>
      simp only [hi, Option.map_some] at hat
      obtain ⟨⟨p', s'⟩, hcall, rfl⟩ := Option.map_eq_some_iff.mp hat
      rw [← h.requests]
      exact h.stepRequest hm.1 hi hcall
  | expireKey key => exact h.stepExpireKey hstep

end Models

theorem represents_init (houses : List HouseAccount) :
    Represents (Store.init houses) (Bank.init houses) := by
  have hbyKey : ∀ {β : Type} (x : β), byKey (fun _ => x) x = fun _ => x := by
    intro β x
    funext key
    by_contra hne
    obtain ⟨u, -, hu⟩ := byKey_ne_other hne
    exact hne hu
  exact ⟨(hbyKey _).symm, (hbyKey _).symm, (hbyKey _).symm, (hbyKey _).symm, rfl, rfl, rfl, rfl,
    rfl⟩

/-- The refinement: every run of the service is a run of the bank. -/
theorem refinement : Machine.Simulation System.machine Bank.machine
    (fun st m => Models st m ∧ m.WF ∧ m.Numbered) := by
  refine Machine.Simulation.of_invariant Bank.wf_invariant ?_ ?_
  · rintro st ⟨houses, rfl⟩
    exact ⟨Bank.init houses, ⟨houses, rfl⟩, represents_init houses, rfl, rfl, rfl, rfl, rfl, rfl⟩
  · intro st m a st' h hm hstep
    exact h.step hm hstep

end Bankie
