import Bankie.DocumentStore
import Bankie.Refinement

/-!
The service over its documents.
Its programs are the same, and each of their calls is made on the documents, in whatever order
the members are kept. No program tells the order of a payload, so every run over the documents is
a run over the stores, with the same programs at the same calls.
-/
namespace Bankie

open Program Transition EventTable

section Steadiness

/-! Only the job fetches payloads, and it parses them. -/

theorem steady_call {c : Call} (hc : c ≠ .getUnprocessedOutbox) : (call c).Steady Alike := by
  refine Prog.steady_perform fun a a' h => ?_
  cases c with
  | getUnprocessedOutbox => exact absurd rfl hc
  | _ => exact h

theorem steady_callUnwrap {c : Call} (hc : c ≠ .getUnprocessedOutbox) :
    (callUnwrap c).Steady Alike := by
  refine Prog.steady_performUnwrap fun a a' h => ?_
  cases c with
  | getUnprocessedOutbox => exact absurd rfl hc
  | _ => exact h

theorem steady_loadAccountView (id : String) : (loadAccountView id).Steady Alike :=
  steady_call (by simp)

theorem steady_loadLedgerView (id : String) : (loadLedgerView id).Steady Alike :=
  steady_call (by simp)

theorem steady_executeLedger (id : String) (command : LedgerCommand) :
    (executeLedger id command).Steady Alike :=
  steady_call (by simp)

namespace BankAccountLogic

theorem steady_validateLedger (action : LedgerAction) (amount : Money) (view : Option LedgerView) :
    (validateLedger action amount view).Steady Alike := by
  cases view with
  | none => exact Prog.steady_done _
  | some ledgerView =>
    rw [validateLedger]
    split <;> exact Prog.steady_done _

theorem steady_validate (accountId : Uuid) (action : LedgerAction) (amount : Money) :
    (validate accountId action amount).Steady Alike := by
  refine (steady_loadAccountView _).bind fun view => ?_
  cases view with
  | none => exact Prog.steady_done _
  | some accountView =>
    rw [validateAccount]
    split
    · exact Prog.steady_done _
    · split
      · exact Prog.steady_done _
      · exact (steady_loadLedgerView _).bind fun _ => steady_validateLedger action amount _

theorem steady_validateAccountCreation (accountId : Uuid) (userId : String) (currency : Currency)
    (kind : BankAccountKind) :
    (validateAccountCreation accountId userId currency kind).Steady Alike := by
  refine (steady_loadAccountView _).bind fun view => ?_
  cases view with
  | some _ => exact Prog.steady_done _
  | none =>
    refine (steady_call (by simp)).bind fun valid => ?_
    split <;> exact Prog.steady_done _

theorem steady_getBankAccount (accountId : Uuid) : (getBankAccount accountId).Steady Alike := by
  refine (steady_loadAccountView _).bind fun view => ?_
  cases view <;> exact Prog.steady_done _

theorem steady_createTransactionWithJournal (transaction : Transaction) (ledgerId : String)
    (journalEntry : JournalEntry) (journalLines : List JournalLine) :
    (createTransactionWithJournal transaction ledgerId journalEntry journalLines).Steady Alike :=
  (steady_call (by simp)).mapErr _

end BankAccountLogic

theorem steady_createTransactionWithJournal (d : Draws) (bankAccount : BankAccount)
    (amount : Money) (houseAccountLedger : String) (action : LedgerAction) :
    (Helper.createTransactionWithJournal d bankAccount amount houseAccountLedger
      action).Steady Alike := by
  refine (Prog.steady_done _).bind fun checkedId => ?_
  refine (BankAccountLogic.steady_validate checkedId action amount).bind fun _ => ?_
  refine (Prog.steady_done _).bind fun accountId => ?_
  exact (BankAccountLogic.steady_createTransactionWithJournal _ _ _ _).mapErr _

theorem steady_houseOf (currency : Currency) : (BankAccount.houseOf currency).Steady Alike :=
  ((steady_call (by simp)).mapErr _).mapErr _

theorem steady_handle (d : Draws) (a : BankAccount) (command : BankAccountCommand) :
    (a.handle d command).Steady Alike := by
  cases command with
  | openAccount id parent accountType kind userId currency =>
    refine Prog.Steady.bind ?_ fun _ => Prog.steady_done _
    refine (BankAccountLogic.steady_validateAccountCreation _ _ _ _).bind fun valid => ?_
    split <;> exact Prog.steady_done _
  | approveAccount id ledgerId =>
    refine ((BankAccountLogic.steady_getBankAccount id).mapErr _).bind fun bankAccount => ?_
    refine Prog.Steady.bind ?_ fun _ => Prog.steady_done _
    exact ((steady_executeLedger _ _).mapErr _).mapErr _
  | deposit id amount =>
    refine (steady_houseOf _).bind fun houseAccount => ?_
    exact (steady_createTransactionWithJournal d a amount _ .deposit).bind fun _ =>
      Prog.steady_done _
  | withdrawal id amount =>
    refine (steady_houseOf _).bind fun houseAccount => ?_
    refine (steady_createTransactionWithJournal d a amount _ .withdraw).bind fun transactionId => ?_
    refine (Prog.steady_done _).bind fun ledgerId => ?_
    exact ((steady_executeLedger _ _).mapErr _).bind fun _ => Prog.steady_done _

theorem steady_processCommand (d : Draws) (command : BankAccountCommand) :
    (processCommand d command).Steady Alike := by
  refine Prog.Steady.rescue ?_ fun _ => Prog.steady_done _
  refine (steady_call (by simp)).bind fun loaded => ?_
  refine (steady_handle d loaded.1 command).bind fun events => ?_
  cases events with
  | nil => exact Prog.steady_done _
  | cons => exact steady_call (by simp)

theorem steady_houseAccountCreateHandler (ledgerId : Uuid) (houseAccount : HouseAccount) :
    (houseAccountCreateHandler ledgerId houseAccount).Steady Alike := by
  refine (steady_executeLedger _ _).attempt.bind fun initiated => ?_
  cases initiated with
  | error e => exact Prog.steady_done _
  | ok =>
    refine (Prog.Steady.attempt (steady_call (by simp))).bind fun stored => ?_
    cases stored <;> exact Prog.steady_done _

theorem processEvents_stored {rows rows' : List Outbox}
    (h : List.Forall₂ Outbox.Stores rows rows') : processEvents rows = processEvents rows' := by
  induction h with
  | nil => rfl
  | @cons row row' _ _ hrow _ ih =>
    obtain ⟨payload, hpayload, rfl⟩ := hrow
    rw [processEvents, processEvents, ih, processEvent, processEvent,
      parseEvent_reorders row hpayload]

theorem steady_processEvents (rows : List Outbox) : (processEvents rows).Steady Alike := by
  induction rows with
  | nil => exact Prog.steady_done _
  | cons row rows ih =>
    refine Prog.Steady.bind (Prog.Steady.attempt ?_) fun processed => ?_
    · refine (Prog.steady_done _).bind fun parsed => ?_
      exact ((steady_executeLedger _ _).mapErr _).bind fun _ => Prog.steady_done _
    · refine Prog.Steady.bind ?_ fun _ => ih
      cases processed with
      | ok transactionId =>
        exact (Prog.Steady.attempt (steady_call (by simp))).bind fun _ => Prog.steady_done _
      | error e => exact Prog.steady_done _

theorem steady_processLocked (lockValue : String) (rows : List Outbox) :
    (processLocked lockValue rows).Steady Alike := by
  refine Prog.Steady.bind ?_ fun lock => (Prog.steady_done _).bind fun identifier => ?_
  · refine (steady_callUnwrap (by simp)).bind fun result => ?_
    cases result with
    | true => exact (steady_callUnwrap (by simp)).bind fun _ => Prog.steady_done _
    | false => exact Prog.steady_done _
  · refine (steady_processEvents rows).bind fun _ => ?_
    refine (steady_callUnwrap (by simp)).bind fun current => ?_
    cases current with
    | none => exact Prog.steady_done _
    | some currentLockValue =>
      dsimp only
      split
      · exact steady_callUnwrap (by simp)
      · exact Prog.steady_done _

/-- The job fetches payloads, and goes on with what it parses from them. -/
theorem steady_ledgerJob (lockValue : String) : (ledgerJob lockValue).Steady Alike := by
  refine ⟨fun rows rows' h => ?_, fun r => ?_⟩
  · change processLocked lockValue rows = processLocked lockValue rows'
    rw [processLocked, processLocked, processEvents_stored h]
  · cases r with
    | ok rows => exact steady_processLocked lockValue rows
    | error e => exact Prog.steady_done _

end Steadiness

/-- The state of the service over its documents. -/
structure Server where
  documents : DocumentStore
  used : List Uuid
  submitted : List BankAccountCommand
  channel : List BankAccountCommand
  consumer : Code Unit
  ticks : List (Code Unit)
  requests : List (Code Response)

namespace Server

def system (sv : Server) (s : Store) : System where
  store := s
  used := sv.used
  submitted := sv.submitted
  channel := sv.channel
  consumer := sv.consumer
  ticks := sv.ticks
  requests := sv.requests

def ofSystem (d : DocumentStore) (sys : System) : Server where
  documents := d
  used := sys.used
  submitted := sys.submitted
  channel := sys.channel
  consumer := sys.consumer
  ticks := sys.ticks
  requests := sys.requests

def init (houseAccounts : List HouseAccount) : Server :=
  ofSystem (.init houseAccounts) (.init houseAccounts)

def stepAt {α : Type} (st : Storage) (i : ℕ) (o : Oracle) (ps : List (Code α)) (d : DocumentStore) :
    Option (List (Code α) × DocumentStore) :=
  match ps[i]? with
  | none => none
  | some p => (p.step (DocumentStore.exec st) o d).map fun r => (ps.set i r.1, r.2)

def step (st : Storage) (sv : Server) : Action → Option Server
  | .consumer o =>
    (sv.consumer.step (DocumentStore.exec st) o sv.documents).map fun r =>
      { sv with consumer := r.1, documents := r.2 }
  | .tick i o =>
    (stepAt st i o sv.ticks sv.documents).map fun r => { sv with ticks := r.1, documents := r.2 }
  | .request i o =>
    (stepAt st i o sv.requests sv.documents).map fun r =>
      { sv with requests := r.1, documents := r.2 }
  | a => ((sv.system sv.documents.plain).step a).map fun sys =>
      ofSystem (sv.documents.withPlain st sys.store) sys

/-- All runs from no documents and any house accounts. The order of members is settled anew at
each step. -/
def machine : Machine Server Action where
  Init sv := ∃ houseAccounts, sv = init houseAccounts
  Step sv a sv' := ∃ st : Storage, sv.step st a = some sv'

/-- The system has the programs of the server and the store that its documents store. -/
structure Runs (sv : Server) (sys : System) : Prop where
  eq : sys = sv.system sys.store
  stores : sv.documents.Stores sys.store
  current : sys.store.Current
  consumer : sv.consumer.Steady Alike
  ticks : ∀ p ∈ sv.ticks, p.Steady Alike
  requests : ∀ p ∈ sv.requests, p.Steady Alike

theorem runs_init (houseAccounts : List HouseAccount) :
    (init houseAccounts).Runs (System.init houseAccounts) where
  eq := rfl
  stores := DocumentStore.stores_init houseAccounts
  current := Store.current_init houseAccounts
  consumer := Prog.steady_done _
  ticks _ h := by cases h
  requests _ h := by cases h

theorem rel_map {α α' β β' : Type} {R : α → β → Prop} {S : α' → β' → Prop} {x : Option α}
    {y : Option β} (h : Option.Rel R x y) {f : α → α'} {g : β → β'}
    (hfg : ∀ a b, R a b → S (f a) (g b)) : Option.Rel S (x.map f) (y.map g) := by
  cases h with
  | some h => exact Option.Rel.some (hfg _ _ h)
  | none => exact Option.Rel.none

theorem rel_guard {α β γ : Type} {R : α → γ → Prop} {c : Prop} {guard guard' : Decidable c}
    {x : Option α} {y : Option β} {f : β → γ} (h : Option.Rel R x (y.map f)) :
    Option.Rel R (@ite _ c guard x none) ((@ite _ c guard' y none).map f) := by
  by_cases hc : c
  · rw [if_pos hc, if_pos hc]
    exact h
  · rw [if_neg hc, if_neg hc]
    exact Option.Rel.none

section Steps

variable {α : Type} {d : DocumentStore} {s : Store}

/-- The documents store what the store holds, and the store is current. -/
def StoresCurrent (s : Store) (d : DocumentStore) : Prop := d.Stores s ∧ s.Current

theorem exec_stored (st : Storage) (c : Call) (o : Oracle) (s : Store) (d : DocumentStore)
    (h : StoresCurrent s d) :
    Outcome.Related (Alike c) (exec c o s).1 (DocumentStore.exec st c o d).1 ∧
      StoresCurrent (exec c o s).2 (DocumentStore.exec st c o d).2 :=
  h.1.exec h.2 st c o

theorem prog_step (h : StoresCurrent s d) (st : Storage) {p : Code α} (hp : p.Steady Alike)
    (o : Oracle) :
    Option.Rel (fun x y => x.1 = y.1 ∧ x.1.Steady Alike ∧ StoresCurrent x.2 y.2)
      (p.step exec o s) (p.step (DocumentStore.exec st) o d) :=
  Prog.Steady.step (exec_stored st) hp o h

theorem stepAt_stored (h : StoresCurrent s d) (st : Storage) (i : ℕ) (o : Oracle)
    {ps : List (Code α)} (hps : ∀ p ∈ ps, p.Steady Alike) :
    Option.Rel (fun x y => x.1 = y.1 ∧ (∀ p ∈ x.1, p.Steady Alike) ∧ StoresCurrent x.2 y.2)
      (System.stepAt i o ps s) (stepAt st i o ps d) := by
  unfold System.stepAt stepAt
  cases hi : ps[i]? with
  | none => exact Option.Rel.none
  | some p =>
    refine rel_map (prog_step h st (hps p (List.mem_of_getElem? hi)) o) ?_
    rintro x y ⟨heq, hsteady, hstores⟩
    refine ⟨by rw [heq], fun q hq => ?_, hstores⟩
    rcases List.mem_or_eq_of_mem_set hq with hold | rfl
    · exact hps q hold
    · exact hsteady

end Steps

variable {sv : Server} {sys : System}

/-- A step over the documents and the step of the system are enabled together. -/
theorem Runs.step (h : sv.Runs sys) (st : Storage) (a : Action) :
    Option.Rel (fun sys' sv' => sv'.Runs sys') (sys.step a) (sv.step st a) := by
  obtain ⟨hsys, hstores, hcurrent, hconsumer, hticks, hrequests⟩ := h
  generalize sys.store = s at hsys hstores hcurrent
  subst hsys
  obtain ⟨d, used, submitted, channel, consumer, ticks, requests⟩ := sv
  -- a step without a call only keeps the payloads anew
  obtain ⟨hkept, -⟩ := hstores.withPlain hcurrent st hstores.follows
  cases a with
  | submit fresh body =>
    simp only [System.step, Server.step, System.submit, System.Fresh, system]
    refine rel_guard ?_
    rcases consumer with (x | e | e) | ⟨c, k⟩ <;>
      exact Option.Rel.some ⟨rfl, hkept, hcurrent, hconsumer, hticks, hrequests⟩
  | receive draws =>
    simp only [System.step, Server.step, System.receive, System.Fresh, system]
    rcases consumer with (x | e | e) | ⟨c, k⟩
    · cases channel with
      | nil => exact Option.Rel.none
      | cons command rest =>
        exact rel_guard <| Option.Rel.some
          ⟨rfl, hkept, hcurrent, steady_processCommand draws command, hticks, hrequests⟩
    all_goals exact Option.Rel.none
  | consumer o =>
    refine rel_map (prog_step ⟨hstores, hcurrent⟩ st hconsumer o) ?_
    rintro ⟨p, s'⟩ ⟨p', d'⟩ ⟨rfl, hp, hstores', hcurrent'⟩
    exact ⟨rfl, hstores', hcurrent', hp, hticks, hrequests⟩
  | startTick lockValue =>
    simp only [System.step, Server.step, System.startTick, System.Fresh, system]
    refine rel_guard <| Option.Rel.some
      ⟨rfl, hkept, hcurrent, hconsumer, List.forall_mem_append.mpr ⟨hticks, ?_⟩, hrequests⟩
    exact List.forall_mem_singleton.mpr (steady_ledgerJob _)
  | tick i o =>
    refine rel_map (stepAt_stored ⟨hstores, hcurrent⟩ st i o hticks) ?_
    rintro ⟨ps, s'⟩ ⟨ps', d'⟩ ⟨rfl, hps, hstores', hcurrent'⟩
    exact ⟨rfl, hstores', hcurrent', hconsumer, hps, hrequests⟩
  | startRequest id ledgerId accountNumber body =>
    simp only [System.step, Server.step, System.startRequest, System.Fresh, system]
    refine rel_guard <| Option.Rel.some
      ⟨rfl, hkept, hcurrent, hconsumer, hticks, List.forall_mem_append.mpr ⟨hrequests, ?_⟩⟩
    exact List.forall_mem_singleton.mpr (steady_houseAccountCreateHandler _ _)
  | request i o =>
    refine rel_map (stepAt_stored ⟨hstores, hcurrent⟩ st i o hrequests) ?_
    rintro ⟨ps, s'⟩ ⟨ps', d'⟩ ⟨rfl, hps, hstores', hcurrent'⟩
    exact ⟨rfl, hstores', hcurrent', hconsumer, hticks, hps⟩
  | expireKey key =>
    have hcache := hstores.rows.cache
    have hkey : s.cache key = d.plain.cache key := congrFun hcache key
    simp only [System.step, Server.step, System.expireKey, system, hkey]
    split
    · have hexpired : s.Follows
          { s with cache := Function.update s.cache key none }
          { d.plain with cache := Function.update d.plain.cache key none } :=
        { hstores.follows with cache := congrArg (fun c => Function.update c key none) hcache }
      obtain ⟨hstores', hcurrent'⟩ := hstores.withPlain hcurrent st hexpired
      exact Option.Rel.some ⟨rfl, hstores', hcurrent', hconsumer, hticks, hrequests⟩
    · exact Option.Rel.none

theorem simulation : Machine.Simulation machine System.machine Runs where
  init := by
    rintro sv ⟨houseAccounts, rfl⟩
    exact ⟨System.init houseAccounts, ⟨houseAccounts, rfl⟩, runs_init houseAccounts⟩
  step := by
    rintro sv sys a sv' h ⟨st, hstep⟩
    have hrel := h.step st a
    rw [hstep] at hrel
    generalize hsys : sys.step a = o at hrel
    cases hrel with
    | some h' => exact ⟨_, hsys, h'⟩

/-- The runs in which all is stored in one way. -/
def run (st : Storage) (sv : Server) (as : List Action) : Option Server :=
  Machine.runWhile (step st) (fun _ _ => true) sv as

theorem steps_of_run {st : Storage} {sv sv' : Server} {as : List Action}
    (h : sv.run st as = some sv') : machine.Steps sv as sv' :=
  Machine.steps_of_run (M := machine) (fun _ _ _ hstep => ⟨st, hstep⟩) h

end Server

section Disk

/-! A store that turns the members of an object round, or those of its only member. -/

def Json.keys : Json → List String
  | .object fields => fields.map Prod.fst
  | _ => []

def Json.turned : Json → Json
  | .object fields => if (fields.map Prod.fst).Nodup then .object fields.reverse else .object fields
  | j => j

def Json.reversed : Json → Json
  | .object [(tag, body)] => .object [(tag, body.turned)]
  | j => j.turned

theorem Json.turned_reorders (j : Json) : j.Reorders j.turned := by
  cases j with
  | object fields =>
    rw [turned]
    split
    · exact Reorders.members ‹_› fields.reverse_perm.symm
    · exact Reorders.refl _
  | _ => exact Reorders.refl _

theorem Json.reversed_reorders (j : Json) : j.Reorders j.reversed := by
  unfold reversed
  split
  · exact Reorders.member [] [] _ (turned_reorders _)
  · exact turned_reorders j

def Scenario.disk : Storage where
  keep := Json.reversed
  keep_reorders := Json.reversed_reorders

theorem Scenario.funded_documents : ∃ sv : Server,
    Server.machine.Steps (Server.init []) Scenario.funded sv ∧
      (sv.documents.ledgers (Scenario.uid 11).toString).length = 3 := by
  have hrun : ((Server.init []).run Scenario.disk Scenario.funded).map (fun sv =>
      (sv.documents.ledgers (Scenario.uid 11).toString).length) = some 3 := by decide +kernel
  obtain ⟨sv, hsv, hlength⟩ := Option.map_eq_some_iff.mp hrun
  exact ⟨sv, Server.steps_of_run hsv, hlength⟩

end Disk

/-- Every run over the documents is a run over the stores, with the same programs before the
same calls; and where it has come to, the same steps are enabled. -/
theorem stored_service {houseAccounts : List HouseAccount} {as : List Action} {sv : Server}
    (h : Server.machine.Steps (Server.init houseAccounts) as sv) :
    ∃ s, System.machine.Steps (System.init houseAccounts) as (sv.system s) ∧ sv.documents.Stores s ∧
      ∀ st a, (sv.step st a).isSome = ((sv.system s).step a).isSome := by
  obtain ⟨sys, hsteps, hruns⟩ := Server.simulation.steps h (Server.runs_init houseAccounts)
  have hsys := hruns.eq
  refine ⟨sys.store, hsys ▸ hsteps, hruns.stores, fun st a => ?_⟩
  have hrel := hruns.step st a
  rw [hsys] at hrel
  generalize (sv.system sys.store).step a = o at hrel ⊢
  generalize sv.step st a = o' at hrel ⊢
  cases hrel <;> rfl

theorem stored_service_funded : ∃ (sv : Server) (s : Store),
    (sv.documents.ledgers (Scenario.uid 11).toString).length = 3 ∧
      System.machine.Steps (System.init []) Scenario.funded (sv.system s) ∧ sv.documents.Stores s ∧
      ∀ st a, (sv.step st a).isSome = ((sv.system s).step a).isSome := by
  obtain ⟨sv, hsv, hlength⟩ := Scenario.funded_documents
  obtain ⟨s, hservice⟩ := stored_service hsv
  exact ⟨sv, s, hlength, hservice⟩

namespace DocumentStore

/-- The events of the account are read, and its view tells what they come to. -/
def AccountCurrent (d : DocumentStore) (id : String) : Prop :=
  ∃ log view, (d.accounts id).mapM (EventTable.read BankAccountEvent.codec) = .ok log ∧
    readView BankAccountView.codec (d.accountViews.lookup id) = .ok view ∧
    (BankAccount.replay log).Agrees (view.getD default)

/-- So are those of the ledger, and they do not panic. -/
def LedgerCurrent (d : DocumentStore) (id : String) : Prop :=
  ∃ log l view, (d.ledgers id).mapM (EventTable.read LedgerEvent.codec) = .ok log ∧
    Ledger.replay log = .ok l ∧
    readView LedgerView.codec (d.ledgerViews.lookup id) = .ok view ∧ l.Agrees (view.getD default)

end DocumentStore

/-- No document fails to be read, no log panics, and, each row being written with the events, it
tells what the log replays to. -/
theorem documents_current {sv : Server} (h : Server.machine.Reachable sv) (id : String) :
    sv.documents.AccountCurrent id ∧ sv.documents.LedgerCurrent id := by
  obtain ⟨sys, -, hruns⟩ := Server.simulation.reachable h
  have hstores := hruns.stores
  constructor
  · exact ⟨_, _, mapM_read (hstores.accounts id),
      DocumentStore.readView_stored (hstores.accountViews.lookup id), hruns.current.accounts id⟩
  · obtain ⟨l, hl, hagrees⟩ := hruns.current.ledgers id
    exact ⟨_, l, _, mapM_read (hstores.ledgers id), hl,
      DocumentStore.readView_stored (hstores.ledgerViews.lookup id), hagrees⟩

/-- The ledger of the deposit has three events. -/
theorem documents_current_funded : ∃ sv : Server,
    (sv.documents.ledgers (Scenario.uid 11).toString).length = 3 ∧
      sv.documents.LedgerCurrent (Scenario.uid 11).toString := by
  obtain ⟨sv, hsv, hlength⟩ := Scenario.funded_documents
  exact ⟨sv, hlength, (documents_current ⟨Server.init [], _, ⟨[], rfl⟩, hsv⟩
    (Scenario.uid 11).toString).2⟩

/-- The query for the accounts of a user reads documents, and answers what the views tell. -/
theorem user_accounts_read {sv : Server} (h : Server.machine.Reachable sv) (userId : String) :
    ∃ s, System.machine.Reachable (sv.system s) ∧ sv.documents.Stores s ∧
      sv.documents.views.getUserBankAccounts userId = .ok (s.getUserBankAccounts userId) := by
  obtain ⟨sys, hsys, hruns⟩ := Server.simulation.reachable h
  have heq := hruns.eq
  exact ⟨sys.store, heq ▸ hsys, hruns.stores, ViewTables.getUserBankAccounts_stored
    ⟨hruns.stores.accountViews, hruns.stores.ledgerViews⟩ userId⟩

theorem user_accounts_read_funded : ∃ (sv : Server) (s : Store),
    (sv.documents.views.bankAccountViews.entries.map fun row => row.2.keys.head?) =
        [some "updated_at"] ∧
      System.machine.Reachable (sv.system s) ∧ sv.documents.Stores s ∧
      sv.documents.views.getUserBankAccounts "alice" = .ok (s.getUserBankAccounts "alice") := by
  have hrun : ((Server.init []).run Scenario.disk Scenario.funded).map (fun sv =>
      sv.documents.views.bankAccountViews.entries.map fun row => row.2.keys.head?) =
      some [some "updated_at"] := by decide +kernel
  obtain ⟨sv, hsv, hkeys⟩ := Option.map_eq_some_iff.mp hrun
  obtain ⟨s, hread⟩ := user_accounts_read
    ⟨Server.init [], _, ⟨[], rfl⟩, Server.steps_of_run hsv⟩ "alice"
  exact ⟨sv, s, hkeys, hread⟩

end Bankie
