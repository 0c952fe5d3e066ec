import Bankie.Audit
import Bankie.Balances
import Bankie.Handlers
import Bankie.Overdraft

/-!
The channel between the command route and the consumer.
What is recorded of the commands stands in the order in which they were taken: no command is
recorded twice or before an earlier one, and nothing is recorded that was not asked for. A
consumer that has panicked is never replaced; what waits in the channel then is lost, and the
route refuses what comes later.
-/
namespace Bankie

open Program Transition

def Action.isReceive : Action → Bool
  | .receive _ => true
  | _ => false

namespace BankAccountCommand

/-- The command is the deposit or the withdrawal that the transaction records. -/
def Records : BankAccountCommand → Transaction → Prop
  | .deposit id amount, t => t.bankAccountId = id ∧ t.amount = amount.amount ∧
      t.currency = amount.currency.toString ∧ t.transactionType = .ok .deposit
  | .withdrawal id amount, t => t.bankAccountId = id ∧ t.amount = amount.amount ∧
      t.currency = amount.currency.toString ∧ t.transactionType = .ok .withdraw
  | _, _ => False

def Sends : BankAccountCommand → Outbox → Prop
  | .deposit id amount, row => ∃ ledger : Uuid, parseEvent row =
      .ok (ledger.toString, .credit ledger id row.transactionId amount, row.transactionId)
  | .withdrawal id amount, row => ∃ ledger : Uuid, parseEvent row =
      .ok (ledger.toString, .debitRelease ledger id row.transactionId amount, row.transactionId)
  | _, _ => False

def Causes : BankAccountCommand → BankAccountEvent → Prop
  | .openAccount id _ accountType kind userId currency, e => ∃ now,
      e = .accountOpened accountType kind currency userId (Helper.createBaseEvent now id)
  | .approveAccount id ledgerId, e => ∃ now,
      e = .accountKycApproved ledgerId.toString (Helper.createBaseEvent now id)
  | _, _ => False

end BankAccountCommand

/-- A log whose entries come from these commands in their order, each from one of its own. -/
def InOrder {α : Type} (causes : BankAccountCommand → α → Prop)
    (commands : List BankAccountCommand) (log : List α) : Prop :=
  ∃ origins : List BankAccountCommand, origins.Sublist commands ∧ List.Forall₂ causes origins log

theorem InOrder.map {α β : Type} {causes : BankAccountCommand → α → Prop}
    {causes' : BankAccountCommand → β → Prop} {commands : List BankAccountCommand} {log : List α}
    (h : InOrder causes commands log) {f : α → β}
    (hf : ∀ command x, x ∈ log → causes command x → causes' command (f x)) :
    InOrder causes' commands (log.map f) := by
  obtain ⟨origins, hsub, hlog⟩ := h
  refine ⟨origins, hsub, ?_⟩
  clear hsub
  induction hlog with
  | nil => exact List.Forall₂.nil
  | cons first rest ih =>
    exact List.Forall₂.cons (hf _ _ List.mem_cons_self first)
      (ih fun command x hx => hf command x (List.mem_cons_of_mem _ hx))

def Opening.command (parent : Option Uuid) (o : Opening) : BankAccountCommand :=
  .openAccount o.id parent o.accountType o.kind o.userId o.currency

/-- The command that the consumer has received and not yet recorded. -/
def ConsumerPoint.InHand : ConsumerPoint → List BankAccountCommand → Prop
  | .load _ command, held => held = [command]
  | .openQuery _ opening, held => ∃ parent, held = [opening.command parent]
  | .openExists _ opening, held => ∃ parent, held = [opening.command parent]
  | .openCommit _ opening, held => ∃ parent, held = [opening.command parent]
  | .approveQuery _ account ledger _, held => held = [.approveAccount account ledger]
  | .approveInit _ account ledger _ _, held => held = [.approveAccount account ledger]
  | .approveCommit _ account ledger _, held => held = [.approveAccount account ledger]
  | .house _ order _ _, held => held = [order.command]
  | .checkAccount _ order _ _ _, held => held = [order.command]
  | .checkLedger _ order _ _ _, held => held = [order.command]
  | .record _ order _ _ _, held => held = [order.command]
  | _, held => held = []

namespace Bank

variable {m m' : Bank} {α : Type} {causes : BankAccountCommand → α → Prop}

/-- The entries of the log, the command in hand and those in the channel come one after the
other in what was submitted. -/
def Ordered (causes : BankAccountCommand → α → Prop) (m : Bank) (log : List α) : Prop :=
  ∃ origins held : List BankAccountCommand, m.consumer.InHand held ∧
    (origins ++ (held ++ m.channel)).Sublist m.submitted ∧ List.Forall₂ causes origins log

theorem Advances.inHand {p q : ConsumerPoint} (h : m.Advances p q)
    {held : List BankAccountCommand} (hheld : p.InHand held) :
    ∃ held' : List BankAccountCommand, q.InHand held' ∧ held'.Sublist held := by
  cases h with
  | loadOpen d parent opening => exact ⟨held, ⟨parent, hheld⟩, List.Sublist.refl held⟩
  | houseUnopened => exact ⟨[], rfl, List.nil_sublist held⟩
  | _ => exact ⟨held, hheld, List.Sublist.refl held⟩

theorem inHand_afterRecord (d : Draws) (order : Order) (ledger : Uuid) (sequence : ℕ) :
    (afterRecord d order ledger sequence).InHand [] := by
  unfold afterRecord
  split <;> rfl

theorem Ordered.of_sublist {log : List α} (hm : m.Ordered causes log)
    (hsubmitted : m'.submitted = m.submitted)
    (hwaiting : ∀ held, m.consumer.InHand held → ∃ held' : List BankAccountCommand,
      m'.consumer.InHand held' ∧ (held' ++ m'.channel).Sublist (held ++ m.channel)) :
    m'.Ordered causes log := by
  obtain ⟨origins, held, hheld, hsub, hlog⟩ := hm
  obtain ⟨held', hheld', hsub'⟩ := hwaiting held hheld
  refine ⟨origins, held', hheld', ?_, hlog⟩
  rw [hsubmitted]
  exact ((List.Sublist.refl origins).append hsub').trans hsub

theorem Ordered.append {log : List α} (hm : m.Ordered causes log) (m' : Bank)
    (hsubmitted : m'.submitted = m.submitted) (hchannel : m'.channel = m.channel)
    (hconsumer : m'.consumer.InHand []) {x : α}
    (hx : ∀ held, m.consumer.InHand held → ∃ command, held = [command] ∧ causes command x) :
    m'.Ordered causes (log ++ [x]) := by
  obtain ⟨origins, held, hheld, hsub, hlog⟩ := hm
  obtain ⟨command, rfl, hcauses⟩ := hx held hheld
  refine ⟨origins ++ [command], [], hconsumer, ?_, ?_⟩
  · rw [hsubmitted, hchannel, List.nil_append, List.append_assoc]
    exact hsub
  · exact List.rel_append hlog (List.Forall₂.cons hcauses List.Forall₂.nil)

theorem Ordered.step {log : List α} (hm : m.Ordered causes log) {a : Action} (h : m.Step a m') :
    m'.Ordered causes log := by
  cases h with
  | submit fresh body hfresh =>
    obtain ⟨origins, held, hheld, hsub, hlog⟩ := hm
    refine ⟨origins, held, hheld, ?_, hlog⟩
    rw [← List.append_assoc, ← List.append_assoc]
    rw [← List.append_assoc] at hsub
    exact hsub.append (List.Sublist.refl _)
  | receive d command rest hidle hchannel hfresh =>
    refine hm.of_sublist rfl fun held hheld => ⟨[command], rfl, ?_⟩
    rw [hidle] at hheld
    obtain rfl : held = [] := hheld
    rw [hchannel]
    exact List.Sublist.refl _
  | advance o p hp =>
    refine hm.of_sublist rfl fun held hheld => ?_
    obtain ⟨held', hheld', hsub⟩ := hp.inHand hheld
    exact ⟨held', hheld', hsub.append (List.Sublist.refl _)⟩
  | giveUp =>
    exact hm.of_sublist rfl fun held _ => ⟨[], rfl, List.sublist_append_right held _⟩
  | openAccount =>
    exact hm.of_sublist rfl fun held _ => ⟨[], rfl, List.sublist_append_right held _⟩
  | initLedger o d account ledger c sequence hp =>
    refine hm.of_sublist rfl fun held hheld => ⟨held, ?_, List.Sublist.refl _⟩
    rw [hp] at hheld
    exact hheld
  | approve =>
    exact hm.of_sublist rfl fun held _ => ⟨[], rfl, List.sublist_append_right held _⟩
  | record o d order ledger sequence house hp =>
    exact hm.of_sublist rfl fun held _ =>
      ⟨[], inHand_afterRecord d order ledger sequence, List.sublist_append_right held _⟩
  | hold =>
    exact hm.of_sublist rfl fun held _ => ⟨[], rfl, List.sublist_append_right held _⟩
  | _ => exact hm.of_sublist rfl fun held hheld => ⟨held, hheld, List.Sublist.refl _⟩

/-- The log of an account is as it was, or the command in hand has its event added. -/
theorem Step.accountLog (hwf : m.WF) {a : Action} (h : m.Step a m') (u : Uuid) :
    m'.accountLog u = m.accountLog u ∨
      ∃ e, m'.accountLog u = m.accountLog u ++ [e] ∧ m'.submitted = m.submitted ∧
        m'.channel = m.channel ∧ m'.consumer = .idle ∧
        ∀ held, m.consumer.InHand held →
          ∃ command : BankAccountCommand, held = [command] ∧ command.Causes e := by
  cases h with
  | openAccount o d opening hp =>
    by_cases hu : u = opening.id
    · subst hu
      have hnone : m.accounts opening.id = none :=
        (hwf.claimed_new opening.id (by simp [Bank.claimed, hp, ConsumerPoint.claims])).2.1
      refine Or.inr ⟨.accountOpened opening.accountType opening.kind opening.currency
        opening.userId (Helper.createBaseEvent d.now opening.id), ?_, rfl, rfl, rfl, ?_⟩
      · rw [Bank.accountLog, Bank.accountLog, hnone, setConsumer_accounts, setAccount_accounts,
          Function.update_self]
        rfl
      · intro held hheld
        rw [hp] at hheld
        obtain ⟨parent, rfl⟩ := hheld
        exact ⟨_, rfl, d.now, rfl⟩
    · refine Or.inl ?_
      rw [Bank.accountLog, Bank.accountLog, setConsumer_accounts, setAccount_accounts,
        Function.update_of_ne hu]
  | approve o d account ledger sequence x hok hp hx =>
    by_cases hu : u = account
    · subst hu
      refine Or.inr ⟨.accountKycApproved ledger.toString (Helper.createBaseEvent d.now u), ?_,
        rfl, rfl, rfl, ?_⟩
      · rw [Bank.accountLog, Bank.accountLog, hx, setConsumer_accounts, setAccount_accounts,
          Function.update_self]
        exact Account.events_approve u ledger d.now x
      · intro held hheld
        rw [hp] at hheld
        obtain rfl : held = _ := hheld
        exact ⟨_, rfl, d.now, rfl⟩
    · refine Or.inl ?_
      rw [Bank.accountLog, Bank.accountLog, setConsumer_accounts, setAccount_accounts,
        Function.update_of_ne hu]
  | _ => exact Or.inl rfl

/-- What is recorded stands in the order of the commands. -/
structure Queued (m : Bank) : Prop where
  movements : m.Ordered (fun command mv => command = mv.order.command) m.movements
  accounts : ∀ u, m.Ordered BankAccountCommand.Causes (m.accountLog u)

theorem queued_init (houses : List HouseAccount) : (init houses).Queued where
  movements := ⟨[], [], rfl, List.Sublist.refl [], List.Forall₂.nil⟩
  accounts _ := ⟨[], [], rfl, List.Sublist.refl [], List.Forall₂.nil⟩

theorem Queued.step (hm : m.Queued) (hwf : m.WF) {a : Action} (h : m.Step a m') : m'.Queued := by
  refine ⟨?_, fun u => ?_⟩
  · rcases h.movements with hsame | ⟨o, d, order, ledger, sequence, house, -, hp, rfl⟩
    · rw [hsame]
      exact hm.movements.step h
    · have hhand : ∀ held, m.consumer.InHand held → ∃ command, held = [command] ∧
          command = (m.movementOf d order ledger house).order.command := by
        intro held hheld
        rw [hp] at hheld
        exact ⟨order.command, hheld, rfl⟩
      exact hm.movements.append ((m.addMovement (m.movementOf d order ledger house)).setConsumer
        (afterRecord d order ledger sequence)) rfl rfl
        (inHand_afterRecord d order ledger sequence) hhand
  · rcases h.accountLog hwf u with hsame | ⟨e, hlog, hsubmitted, hchannel, hidle, hheld⟩
    · rw [hsame]
      exact (hm.accounts u).step h
    · rw [hlog]
      exact (hm.accounts u).append m' hsubmitted hchannel (by rw [hidle]; rfl) hheld

theorem queued_invariant : machine.Invariant (fun m => (m.WF ∧ m.Numbered) ∧ m.Queued) := by
  refine wf_invariant.strengthen ?_ (fun _ _ _ hm hq h => hq.step hm.1 h)
  rintro m ⟨houses, rfl⟩
  exact queued_init houses

theorem Ordered.inOrder {log : List α} (hm : m.Ordered causes log) :
    InOrder causes m.submitted log := by
  obtain ⟨origins, held, -, hsub, hlog⟩ := hm
  exact ⟨origins, (List.sublist_append_left origins _).trans hsub, hlog⟩

end Bank

/-- A movement is recorded and sent as its order asks. -/
theorem Movement.order_records (mv : Movement) (completed : Bool) :
    mv.order.command.Records (mv.transaction completed) ∧
      mv.order.command.Sends (mv.row completed) := by
  obtain ⟨d, account, ledger, house, action, amount, outboxId⟩ := mv
  cases action with
  | deposit =>
    exact ⟨⟨rfl, rfl, rfl, transactionType_transactionOf d account amount .deposit⟩, ledger,
      parseEvent_settlementRow outboxId .deposit ledger account d.transactionId amount completed⟩
  | withdraw =>
    exact ⟨⟨rfl, rfl, rfl, transactionType_transactionOf d account amount .withdraw⟩, ledger,
      parseEvent_settlementRow outboxId .withdraw ledger account d.transactionId amount completed⟩

theorem System.transactions_in_order {st : System} (h : System.machine.Reachable st) :
    InOrder BankAccountCommand.Records st.submitted st.store.transactions := by
  obtain ⟨m, hm, hmodels, -⟩ := refinement.reachable h
  have hqueued := (Bank.queued_invariant.reachable hm).2
  rw [hmodels.submitted, hmodels.store.transactions]
  refine hqueued.movements.inOrder.map ?_
  rintro command mv - rfl
  exact (mv.order_records _).1

/-- In every reachable state the transactions, their outbox rows and the events of each account
come from the commands that the channel has taken, each from one of its own, in their order. -/
theorem recorded_in_order {st : System} (h : System.machine.Reachable st) :
    InOrder BankAccountCommand.Records st.submitted st.store.transactions ∧
      InOrder BankAccountCommand.Sends st.submitted st.store.outbox ∧
      ∀ id : Uuid, InOrder BankAccountCommand.Causes st.submitted
        (st.store.accountEvents id.toString) := by
  refine ⟨System.transactions_in_order h, ?_⟩
  obtain ⟨m, hm, hmodels, -⟩ := refinement.reachable h
  have hqueued := (Bank.queued_invariant.reachable hm).2
  rw [hmodels.submitted, hmodels.store.outbox]
  refine ⟨hqueued.movements.inOrder.map ?_, fun id => ?_⟩
  · rintro command mv - rfl
    exact (mv.order_records _).2
  · rw [hmodels.store.accountEvents_at]
    exact (hqueued.accounts id).inOrder

/-- Two deposits, the second sent when the first was settled. -/
theorem recorded_in_order_funded : ∃ st : System,
    st.store.transactions.map Transaction.amount = [.ofInt 100, .ofInt 50] ∧
      InOrder BankAccountCommand.Records st.submitted st.store.transactions ∧
      InOrder BankAccountCommand.Sends st.submitted st.store.outbox ∧
      ∀ id : Uuid, InOrder BankAccountCommand.Causes st.submitted
        (st.store.accountEvents id.toString) := by
  have hrun : ((System.init []).run (Scenario.funded ++
      Scenario.handle 14 50 5 (.deposit (Scenario.uid 10) (Scenario.usd 50)))).map
        (fun st => st.store.transactions.map Transaction.amount) =
      some [.ofInt 100, .ofInt 50] := by decide +kernel
  obtain ⟨st, hst, hamounts⟩ := Option.map_eq_some_iff.mp hrun
  exact ⟨st, hamounts, recorded_in_order (System.reachable_of_run hst)⟩

namespace System

variable {st st' : System}

theorem receive_eq {d : Draws} (h : st.receive d = some st') : ∃ command,
    st.channel = command :: st'.channel ∧ st'.consumer = processCommand d command ∧
      st'.submitted = st.submitted := by
  unfold receive at h
  split at h
  · rename_i r command rest hconsumer hchannel
    split at h
    · obtain rfl := Option.some.inj h
      exact ⟨command, hchannel, rfl, rfl⟩
    · cases h
  · cases h

theorem step_channel {a : Action} (h : st.step a = some st') (ha : a.isReceive = false) :
    ∃ sent, st'.submitted = st.submitted ++ sent ∧ st'.channel = st.channel ++ sent := by
  have hsame : st'.submitted = st.submitted → st'.channel = st.channel →
      ∃ sent, st'.submitted = st.submitted ++ sent ∧ st'.channel = st.channel ++ sent :=
    fun hsubmitted hchannel => ⟨[], by simp [hsubmitted], by simp [hchannel]⟩
  cases a with
  | submit fresh body =>
    simp only [step, submit] at h
    split at h
    · split at h
      · obtain rfl := Option.some.inj h
        exact hsame rfl rfl
      · obtain rfl := Option.some.inj h
        exact ⟨[extractCommand fresh body], rfl, rfl⟩
    · cases h
  | receive d => cases ha
  | consumer o =>
    obtain ⟨r, -, rfl⟩ := Option.map_eq_some_iff.mp h
    exact hsame rfl rfl
  | startTick lockValue =>
    simp only [step, startTick] at h
    split at h
    · obtain rfl := Option.some.inj h
      exact hsame rfl rfl
    · cases h
  | tick i o =>
    obtain ⟨r, -, rfl⟩ := Option.map_eq_some_iff.mp h
    exact hsame rfl rfl
  | startRequest id ledgerId accountNumber body =>
    simp only [step, startRequest] at h
    split at h
    · obtain rfl := Option.some.inj h
      exact hsame rfl rfl
    · cases h
  | request i o =>
    obtain ⟨r, -, rfl⟩ := Option.map_eq_some_iff.mp h
    exact hsame rfl rfl
  | expireKey key =>
    simp only [step, expireKey] at h
    split at h
    · obtain rfl := Option.some.inj h
      exact hsame rfl rfl
    · cases h

end System

namespace Bank

variable {m m' : Bank}

/-- Without a consumer no account changes and no movement is written. -/
theorem Step.of_dead {a : Action} (h : m.Step a m') {message : String}
    (hdead : m.consumer = .dead message) :
    m'.consumer = .dead message ∧ m'.accounts = m.accounts ∧ m'.movements = m.movements := by
  cases h with
  | receive d command rest hidle => cases hdead.symm.trans hidle
  | advance o p hp =>
    rw [hdead] at hp
    cases hp
  | giveUp o hrunning =>
    rw [hdead] at hrunning
    exact hrunning.elim
  | openAccount o d opening hp => cases hdead.symm.trans hp
  | initLedger o d account ledger c sequence hp => cases hdead.symm.trans hp
  | approve o d account ledger sequence x hok hp => cases hdead.symm.trans hp
  | record o d order ledger sequence house hp => cases hdead.symm.trans hp
  | hold o d order ledger sequence b hp => cases hdead.symm.trans hp
  | _ => exact ⟨hdead, rfl, rfl⟩

end Bank

theorem System.step_dead {st st' : System} {a : Action} {message : String}
    (hdead : st.consumer = .done (.panic message)) (h : st.step a = some st') :
    a.isReceive = false ∧ st'.consumer = .done (.panic message) ∧
      st'.submitted = st.submitted := by
  cases a with
  | submit fresh body =>
    simp only [step, submit, hdead] at h
    split at h
    · obtain rfl := Option.some.inj h
      exact ⟨rfl, rfl, rfl⟩
    · cases h
  | receive d =>
    simp only [step, receive, hdead] at h
    cases h
  | consumer o =>
    simp only [step, hdead] at h
    cases h
  | startTick lockValue =>
    simp only [step, startTick] at h
    split at h
    · obtain rfl := Option.some.inj h
      exact ⟨rfl, hdead, rfl⟩
    · cases h
  | tick i o =>
    obtain ⟨r, -, rfl⟩ := Option.map_eq_some_iff.mp h
    exact ⟨rfl, hdead, rfl⟩
  | startRequest id ledgerId accountNumber body =>
    simp only [step, startRequest] at h
    split at h
    · obtain rfl := Option.some.inj h
      exact ⟨rfl, hdead, rfl⟩
    · cases h
  | request i o =>
    obtain ⟨r, -, rfl⟩ := Option.map_eq_some_iff.mp h
    exact ⟨rfl, hdead, rfl⟩
  | expireKey key =>
    simp only [step, expireKey] at h
    split at h
    · obtain rfl := Option.some.inj h
      exact ⟨rfl, hdead, rfl⟩
    · cases h

theorem System.run_dead {st st' : System} {as : List Action} {message : String}
    (hdead : st.consumer = .done (.panic message)) (h : machine.Steps st as st') :
    as.countP Action.isReceive = 0 ∧ st'.consumer = .done (.panic message) ∧
      st'.channel = st.channel := by
  induction h with
  | nil st => exact ⟨rfl, hdead, rfl⟩
  | cons first rest ih =>
    obtain ⟨ha, hmid, hsubmitted⟩ := step_dead hdead first
    obtain ⟨hcount, hend, hchannel⟩ := ih hmid
    obtain ⟨sent, hsent, hsentChannel⟩ := step_channel first ha
    rw [hsubmitted] at hsent
    obtain rfl : sent = [] := List.self_eq_append_right.mp hsent
    rw [List.append_nil] at hsentChannel
    refine ⟨?_, hend, hchannel.trans hsentChannel⟩
    rw [List.countP_cons_of_neg (by simp [ha]), hcount]

/-- A panic of the consumer is for good: what waits in the channel is never received, no
account changes, no transaction is written, and every further command is refused with
status 400. -/
theorem consumer_lost {st st' : System} {as : List Action} {message : String}
    (h : System.machine.Reachable st) (hdead : st.consumer = .done (.panic message))
    (hrun : System.machine.Steps st as st') :
    as.countP Action.isReceive = 0 ∧ st'.channel = st.channel ∧
      st'.store.accountEvents = st.store.accountEvents ∧
      st'.store.transactions.map Transaction.id = st.store.transactions.map Transaction.id ∧
      st'.store.journalLines = st.store.journalLines ∧
      ∀ command, bankAccountCommandHandler command st' =
        ((AppError.badRequest "channel closed").intoResponse, st') := by
  obtain ⟨m, -, hrel⟩ := refinement.reachable h
  have hdead' : m.consumer = .dead message := by
    have hprog : m.consumer.prog = .done (.panic message) := by rw [← hrel.1.consumer, hdead]
    rcases Models.idle_or_dead_of_done hprog with ⟨-, hok⟩ | ⟨message', hm, heq⟩
    · cases hok
    · cases heq
      exact hm
  obtain ⟨m', hsteps, hmodels', -⟩ := refinement.steps hrun hrel
  obtain ⟨-, haccounts, hmovements⟩ := hsteps.preserves
    (P := fun m₁ => m₁.consumer = .dead message ∧ m₁.accounts = m.accounts ∧
      m₁.movements = m.movements)
    (by
      rintro m₁ a m₂ ⟨hm₁, haccounts, hmovements⟩ hstep
      obtain ⟨hm₂, haccounts', hmovements'⟩ := hstep.of_dead hm₁
      exact ⟨hm₂, haccounts'.trans haccounts, hmovements'.trans hmovements⟩)
    ⟨hdead', rfl, rfl⟩
  obtain ⟨hreceived, hend, hchannel⟩ := System.run_dead hdead hrun
  refine ⟨hreceived, hchannel, ?_, ?_, ?_, fun command => ?_⟩
  · rw [hmodels'.store.accountEvents, hrel.1.store.accountEvents]
    congr 1
    funext u
    rw [Bank.accountLog, Bank.accountLog, haccounts]
  · rw [hmodels'.store.transactions, hrel.1.store.transactions, hmovements, List.map_map,
      List.map_map]
    rfl
  · rw [hmodels'.store.journalLines, hrel.1.store.journalLines, hmovements]
  · rw [bankAccountCommandHandler, System.send, hend]

def System.panicked (st : System) : Option String :=
  match st.consumer with
  | .done (.panic message) => some message
  | _ => none

theorem System.consumer_of_panicked {st : System} {message : String}
    (h : st.panicked = some message) : st.consumer = .done (.panic message) := by
  unfold panicked at h
  split at h
  · rename_i e hconsumer
    rw [hconsumer, Option.some.inj h]
  · cases h

/-- A deposit on an account that was never opened, sent with one on an account that was. -/
def Scenario.consumerLost : List Action :=
  deposited ++ [.submit (uid 13) (.deposit (uid 14) (usd 100)),
    .submit (uid 15) (.deposit (uid 10) (usd 50)), .receive (draws 50)] ++
      List.replicate 2 (.consumer up)

/-- A tick that settles the first deposit, and a further command. -/
def Scenario.afterLoss : List Action :=
  tick 0 16 1 ++ [.submit (uid 17) (.deposit (uid 10) (usd 20))]

/-- The second deposit still waits, and the third is refused. -/
theorem consumer_lost_unopened : ∃ st st' : System,
    st.panicked.isSome ∧ st'.channel.length = 1 ∧
      st'.store.transactions.map (fun t => (t.amount, t.status)) =
        [(.ofInt 100, "completed")] ∧
      Scenario.afterLoss.countP Action.isReceive = 0 ∧ st'.channel = st.channel ∧
      st'.store.accountEvents = st.store.accountEvents ∧
      st'.store.transactions.map Transaction.id = st.store.transactions.map Transaction.id ∧
      st'.store.journalLines = st.store.journalLines ∧
      ∀ command, bankAccountCommandHandler command st' =
        ((AppError.badRequest "channel closed").intoResponse, st') := by
  have hrun : ((System.init []).run Scenario.consumerLost).bind (fun st =>
      (st.run Scenario.afterLoss).map fun st' => (st.panicked.isSome, st'.channel.length,
        st'.store.transactions.map fun t => (t.amount, t.status))) =
      some (true, 1, [(.ofInt 100, "completed")]) := by decide +kernel
  obtain ⟨st, hst, hrest⟩ := Option.bind_eq_some_iff.mp hrun
  obtain ⟨st', hst', hend⟩ := Option.map_eq_some_iff.mp hrest
  obtain ⟨hpanicked, hends⟩ := Prod.ext_iff.mp hend
  obtain ⟨hwaiting, hsettled⟩ := Prod.ext_iff.mp hends
  obtain ⟨message, hmessage⟩ := Option.isSome_iff_exists.mp hpanicked
  exact ⟨st, st', hpanicked, hwaiting, hsettled, consumer_lost (System.reachable_of_run hst)
    (System.consumer_of_panicked hmessage) (System.steps_of_run hst')⟩

end Bankie
