import Bankie.Settling

/-!
How the job drains the outbox.
A tick runs alone, under the lock. It executes the commands of the oldest unprocessed rows,
at most 100 of them, and marks each row whose execute succeeds; a row whose execute fails is
passed over. Each tick takes the next rows, so the ticks execute every row once.
-/
namespace Bankie

open Program

def executes (calls : List (Call × Oracle)) : List (String × LedgerCommand) :=
  calls.filterMap fun e =>
    match e.1 with
    | .executeLedger id command => some (id, command)
    | _ => none

/-- The ledger commands whose call succeeds, each with its time. -/
def applied (calls : List (Call × Oracle)) : List ((String × LedgerCommand) × String) :=
  calls.filterMap fun e =>
    match e.1, e.2.fail with
    | .executeLedger id command, none => some ((id, command), e.2.now)
    | _, _ => none

/-- The executes for these transactions fail, and no other call. -/
def failing (fails : Uuid → Option String) : Call → Option String
  | .executeLedger _ command => command.transactionId.bind fails
  | _ => none

/-- A tick that runs alone: the value of its lock, what its calls meet, and the transactions
whose executes fail. -/
structure Tick where
  lockValue : String
  replies : ℕ → Oracle
  fails : Uuid → Option String

namespace Tick

def run (t : Tick) (s : Store) : Outcome Unit × Store :=
  (ledgerJob t.lockValue).run exec t.replies s

def calls (t : Tick) (s : Store) : List (Call × Oracle) :=
  (ledgerJob t.lockValue).trace exec t.replies s

def Meets (t : Tick) (s : Store) : Prop := ∀ e ∈ t.calls s, e.2.fail = failing t.fails e.1

instance (t : Tick) (s : Store) : Decidable (t.Meets s) :=
  inferInstanceAs (Decidable (∀ e ∈ t.calls s, e.2.fail = failing t.fails e.1))

/-- The oldest unprocessed rows, and those of them whose execute does not fail. -/
def batch (s : Store) : List Outbox := s.unprocessed.take 100

def done (t : Tick) (s : Store) : List Outbox :=
  (batch s).filter (fun row => t.fails row.transactionId = none)

/-- The tick executes the commands of its batch, once each and in order. The rows whose execute
does not fail are settled as if there were no others, and the others are left as they are. -/
structure Settles (t : Tick) (s : Store) : Prop where
  ended : (t.run s).1 = .ok ()
  executes : (executes (t.calls s)).map some = (batch s).map Outbox.command
  applied : (applied (t.calls s)).map (fun x => some x.1) = (t.done s).map Outbox.command
  alone : s.settleAll ((t.done s).zip ((Bankie.applied (t.calls s)).map Prod.snd)) =
    .ok (t.run s).2
  outbox : (t.run s).2.outbox =
    s.outbox.map (Outbox.mark ((t.done s).map Outbox.transactionId))
  transactions : (t.run s).2.transactions =
    s.transactions.map (Transaction.mark ((t.done s).map Outbox.transactionId))
  left : (t.run s).2.unprocessed =
    (batch s).filter (fun row => t.fails row.transactionId ≠ none) ++ s.unprocessed.drop 100
  ledgers : ∀ key, (t.run s).2.ledgerEvents key = s.ledgerEvents key ++
    ((Bankie.applied (t.calls s)).filter (fun x => x.1.1 = key)).flatMap
      (fun x => x.1.2.events x.2)

def NoneFail (t : Tick) : Prop := ∀ tx, t.fails tx = none

/-- The ticks run one after another, and none overlaps another. -/
def after : List Tick → Store → Store
  | [], s => s
  | t :: ts, s => after ts (t.run s).2

def callsOf : List Tick → Store → List (Call × Oracle)
  | [], _ => []
  | t :: ts, s => t.calls s ++ callsOf ts (t.run s).2

def AllMeet : List Tick → Store → Prop
  | [], _ => True
  | t :: ts, s => t.Meets s ∧ AllMeet ts (t.run s).2

/-- Every row was executed exactly once over all ticks, and none is left to execute. -/
structure Drained (ts : List Tick) (s : Store) : Prop where
  executes : (executes (callsOf ts s)).map some = s.unprocessed.map Outbox.command
  applied : (applied (callsOf ts s)).map (fun x => some x.1) = s.unprocessed.map Outbox.command
  left : (after ts s).unprocessed = []
  further : ∀ later, AllMeet later (after ts s) → after later (after ts s) = after ts s

/-- Every tick settles its batch, and where no execute fails a tick for every hundred rows
drains the outbox. -/
structure Drains (ts : List Tick) (s : Store) : Prop where
  settles : ∀ before t later, ts = before ++ t :: later → t.Settles (after before s)
  drained : (∀ t ∈ ts, t.NoneFail) → (s.unprocessed.length + 99) / 100 ≤ ts.length → Drained ts s

end Tick

section Loop

/-- The rows of the store are those of movements on ledgers that take them. -/
structure Settleable (s : Store) (m : Bank) : Prop where
  store : Represents s m
  serves : ∀ mv ∈ m.movements, m.Serves mv.ledger mv.account mv.amount.currency
  nodup : (m.movements.map Movement.tx).Nodup

variable {s : Store} {m : Bank}

theorem Settleable.settle (h : Settleable s m) {mv : Movement} (hmv : mv ∈ m.movements)
    (now : String) : ∃ s₁ m₁, s.executeLedger mv.ledger.toString mv.command now = .ok s₁ ∧
      Settleable (s₁.completeTransaction mv.tx) m₁ ∧ m₁.movements = m.movements := by
  obtain ⟨b, hb, -, howner, hcurrency⟩ := h.serves mv hmv
  obtain ⟨s₁, hs₁, hstore⟩ := h.store.executePosting hb (mv.settlement now)
  rw [howner, hcurrency, mv.settlement_command now] at hs₁
  refine ⟨s₁, _, hs₁, ⟨hstore.completeTransaction mv.tx, fun mv' hmv' => ?_, h.nodup⟩, rfl⟩
  obtain ⟨b', hb', hfacts⟩ := h.serves mv' hmv'
  by_cases hledger : mv'.ledger = mv.ledger
  · obtain rfl := Option.some.inj (hb.symm.trans (hledger ▸ hb'))
    exact ⟨b.post (mv.settlement now), by simp [hledger], hfacts⟩
  · exact ⟨b', by simpa [hledger] using hb', hfacts⟩

/-- How the loop over the rows of movements ends, once the lock is released. -/
structure LoopEnds (fails : Uuid → Option String) (lockValue : String) (mvs : List Movement)
    (s : Store) (m : Bank) (os : ℕ → Oracle) (xs : List (Movement × String)) (s' : Store)
    (m' : Bank) : Prop where
  rows : xs.map Prod.fst = mvs.filter (fun mv => fails mv.tx = none)
  settled : s.settleAll (timedRows xs) = .ok s'
  sound : Settleable s' m'
  movements : m'.movements = m.movements
  run : (settling lockValue mvs).run exec os s =
    (.ok (), s'.setCache (Function.update s'.cache lockKey none))
  executes : executes ((settling lockValue mvs).trace exec os s) =
    mvs.map fun mv => (mv.ledger.toString, mv.command)
  applied : applied ((settling lockValue mvs).trace exec os s) =
    xs.map fun x => ((x.1.ledger.toString, x.1.command), x.2)

theorem Movement.command_transactionId (mv : Movement) : mv.command.transactionId = some mv.tx := by
  rw [command]
  cases mv.action <;> rfl

theorem Settleable.settling_nil (h : Settleable s m) (fails : Uuid → Option String)
    {lockValue : String} (hlock : (s.cache lockKey).map CacheEntry.value = some lockValue)
    {os : ℕ → Oracle}
    (hmeets : ∀ e ∈ (settling lockValue []).trace exec os s, e.2.fail = failing fails e.1) :
    LoopEnds fails lockValue [] s m os [] s m := by
  have hget : (settling lockValue []).Calls (.get lockKey) _ _ := calls_get lockValue
  have hok : (os 0).fail = none := hmeets _ (hget.trace_head os s)
  have hreply : exec (.get lockKey) (os 0) s = (.ok (some lockValue), s) := by
    rw [exec_of_succeeds hok, execute, hlock]
  obtain ⟨hrun, htrace⟩ := hget.run_ok os hreply
  simp only [if_true] at hrun htrace
  have hdel := calls_del lockValue
  rw [htrace] at hmeets
  have hok₁ : (os 1).fail = none :=
    hmeets _ (List.mem_cons_of_mem _ (hdel.trace_head (fun n => os (n + 1)) s))
  obtain ⟨hrun₁, htrace₁⟩ := hdel.run_ok (fun n => os (n + 1))
    (exec_of_succeeds hok₁ s)
  rw [hrun₁] at hrun
  rw [htrace₁] at htrace
  refine ⟨rfl, rfl, h, rfl, hrun, ?_, ?_⟩
  · rw [htrace]
    rfl
  · rw [htrace]
    rfl

theorem settling_fails {fails : Uuid → Option String} {lockValue : String}
    {mv : Movement} {rest : List Movement} {e : String} (hfails : fails mv.tx = some e)
    {os : ℕ → Oracle}
    (hmeets : ∀ e ∈ (settling lockValue (mv :: rest)).trace exec os s,
      e.2.fail = failing fails e.1)
    (hrest : (∀ e ∈ (settling lockValue rest).trace exec (fun n => os (n + 1)) s,
        e.2.fail = failing fails e.1) →
      ∃ xs s' m', LoopEnds fails lockValue rest s m (fun n => os (n + 1)) xs s' m') :
    ∃ xs s' m', LoopEnds fails lockValue (mv :: rest) s m os xs s' m' := by
  have hexecute : (settling lockValue (mv :: rest)).Calls
      (.executeLedger mv.ledger.toString mv.command) _ _ := calls_execute lockValue mv rest
  have hfail : (os 0).fail = some e := by
    rw [hmeets _ (hexecute.trace_head os s)]
    simp [failing, mv.command_transactionId, hfails]
  obtain ⟨hrun, htrace⟩ := hexecute.run_err os (exec_of_fail hfail s)
  rw [htrace] at hmeets
  obtain ⟨xs, s', m', hends⟩ := hrest fun e he => hmeets e (List.mem_cons_of_mem _ he)
  refine ⟨xs, s', m', ?_, hends.settled, hends.sound, hends.movements, hrun.trans hends.run,
    ?_, ?_⟩
  · rw [hends.rows]
    simp [hfails]
  · rw [htrace, executes, List.filterMap_cons, List.map_cons, ← hends.executes]
    rfl
  · rw [htrace, applied, List.filterMap_cons, ← hends.applied]
    simp [hfail, applied]

theorem Settleable.settling_succeeds (h : Settleable s m) {fails : Uuid → Option String}
    {lockValue : String} {mv : Movement} {rest : List Movement} (hmv : mv ∈ m.movements)
    (hfails : fails mv.tx = none) {os : ℕ → Oracle}
    (hmeets : ∀ e ∈ (settling lockValue (mv :: rest)).trace exec os s,
      e.2.fail = failing fails e.1)
    (hrest : ∀ s₁ m₁, Settleable s₁ m₁ → m₁.movements = m.movements → s₁.cache = s.cache →
      (∀ e ∈ (settling lockValue rest).trace exec (fun n => os (n + 2)) s₁,
        e.2.fail = failing fails e.1) →
      ∃ xs s' m', LoopEnds fails lockValue rest s₁ m₁ (fun n => os (n + 2)) xs s' m') :
    ∃ xs s' m', LoopEnds fails lockValue (mv :: rest) s m os xs s' m' := by
  have hexecute : (settling lockValue (mv :: rest)).Calls
      (.executeLedger mv.ledger.toString mv.command) _ _ := calls_execute lockValue mv rest
  have hok : (os 0).fail = none := by
    rw [hmeets _ (hexecute.trace_head os s)]
    simp [failing, mv.command_transactionId, hfails]
  obtain ⟨s₁, m₁, hs₁, hsound, hmovements⟩ := h.settle hmv (os 0).now
  have hreply : exec (.executeLedger mv.ledger.toString mv.command) (os 0) s = (.ok (), s₁) := by
    rw [exec_of_succeeds hok, execute, hs₁]
    rfl
  obtain ⟨hrun, htrace⟩ := hexecute.run_ok os hreply
  rw [htrace] at hmeets
  have hcomplete := calls_complete lockValue mv rest
  have hok₁ : (os 1).fail = none :=
    hmeets _ (List.mem_cons_of_mem _ (hcomplete.trace_head (fun n => os (n + 1)) s₁))
  obtain ⟨hrun₁, htrace₁⟩ := hcomplete.run_ok (fun n => os (n + 1))
    (exec_of_succeeds hok₁ s₁)
  rw [htrace₁] at htrace hmeets
  have hcache : (s₁.completeTransaction mv.tx).cache = s.cache := by
    obtain ⟨-, view, -, -, rfl⟩ := Store.executeLedger_eq_ok.mp hs₁
    rfl
  obtain ⟨xs, s', m', hends⟩ := hrest _ m₁ hsound hmovements hcache fun e he =>
    hmeets e (List.mem_cons_of_mem _ (List.mem_cons_of_mem _ he))
  refine ⟨(mv, (os 0).now) :: xs, s', m', ?_, ?_, hends.sound, hends.movements.trans hmovements,
    (hrun.trans hrun₁).trans hends.run, ?_, ?_⟩
  · rw [List.map_cons, hends.rows]
    simp [hfails]
  · rw [Store.settleAll_cons, hs₁, Outcome.ok_bind]
    exact hends.settled
  · rw [htrace, executes, List.filterMap_cons, List.filterMap_cons, List.map_cons,
      ← hends.executes]
    rfl
  · rw [htrace, applied, List.filterMap_cons, List.filterMap_cons, List.map_cons,
      ← hends.applied]
    simp [hok, applied]

/-- The loop settles the rows whose execute does not fail. -/
theorem Settleable.settling (h : Settleable s m) (fails : Uuid → Option String)
    {lockValue : String} {mvs : List Movement} (hmvs : ∀ mv ∈ mvs, mv ∈ m.movements)
    (hlock : (s.cache lockKey).map CacheEntry.value = some lockValue) {os : ℕ → Oracle}
    (hmeets : ∀ e ∈ (settling lockValue mvs).trace exec os s, e.2.fail = failing fails e.1) :
    ∃ xs s' m', LoopEnds fails lockValue mvs s m os xs s' m' := by
  induction mvs generalizing s m os with
  | nil => exact ⟨[], s, m, h.settling_nil fails hlock hmeets⟩
  | cons mv rest ih =>
    cases hfails : fails mv.tx with
    | some e =>
      exact settling_fails hfails hmeets fun hmeets₁ =>
        ih h (fun mv' hmv' => hmvs mv' (List.mem_cons_of_mem _ hmv')) hlock hmeets₁
    | none =>
      refine h.settling_succeeds (hmvs mv List.mem_cons_self) hfails hmeets
        fun s₁ m₁ hsound hmovements hcache hmeets₁ => ?_
      refine ih hsound (fun mv' hmv' => ?_) (hcache ▸ hlock) hmeets₁
      rw [hmovements]
      exact hmvs mv' (List.mem_cons_of_mem _ hmv')

end Loop

section Tick

variable {s : Store} {m : Bank}

/-- The lock is no part of what is represented. -/
theorem Settleable.setCache (h : Settleable s m) (cache : String → Option CacheEntry) :
    Settleable (s.setCache cache) m where
  store := ⟨h.store.accountEvents, h.store.accountViews, h.store.ledgerEvents,
    h.store.ledgerViews, h.store.journalEntries, h.store.journalLines, h.store.transactions,
    h.store.outbox, h.store.houses⟩
  serves := h.serves
  nodup := h.nodup

theorem Settleable.unprocessed_nodup (h : Settleable s m) :
    (s.unprocessed.map Outbox.transactionId).Nodup := by
  have houtbox : s.outbox.map Outbox.transactionId = m.movements.map Movement.tx := by
    rw [h.store.outbox, List.map_map]
    rfl
  exact (houtbox ▸ h.nodup).sublist (List.filter_sublist.map _)

/-- How a tick ends that finds the lock free. -/
structure TickEnds (t : Tick) (s : Store) (m : Bank) (xs : List (Movement × String))
    (s' : Store) (m' : Bank) : Prop where
  rows : xs.map Prod.fst = m.unprocessed.filter (fun mv => t.fails mv.tx = none)
  settled : s.settleAll (timedRows xs) = .ok s'
  sound : Settleable s' m'
  run : t.run s = (.ok (), s')
  executes : executes (t.calls s) = m.unprocessed.map fun mv => (mv.ledger.toString, mv.command)
  applied : applied (t.calls s) = xs.map fun x => ((x.1.ledger.toString, x.1.command), x.2)

theorem setNx_expire (hfree : s.cache lockKey = none) {lockValue : String}
    {mvs : List Movement} {fails : Uuid → Option String} {os : ℕ → Oracle}
    (hmeets : ∀ e ∈ (TickPoint.setNx lockValue mvs).prog.trace exec os s,
      e.2.fail = failing fails e.1) :
    ∃ cache, (cache lockKey).map CacheEntry.value = some lockValue ∧
      Function.update cache lockKey none = s.cache ∧
      (TickPoint.setNx lockValue mvs).prog.run exec os s =
        (settling lockValue mvs).run exec (fun n => os (n + 2)) (s.setCache cache) ∧
      (TickPoint.setNx lockValue mvs).prog.trace exec os s =
        (.setNx lockKey lockValue, os 0) :: (.expire lockKey lockTimeout, os 1) ::
          (settling lockValue mvs).trace exec (fun n => os (n + 2)) (s.setCache cache) := by
  have hsetNx := calls_setNx lockValue mvs
  have hok : (os 0).fail = none := hmeets _ (hsetNx.trace_head os s)
  have htaken : exec (.setNx lockKey lockValue) (os 0) s =
      (.ok true, s.setCache (Function.update s.cache lockKey (some ⟨lockValue, none⟩))) := by
    rw [exec_of_succeeds hok, execute, hfree]
    rfl
  obtain ⟨hrun, htrace⟩ := hsetNx.run_ok os htaken
  simp only [if_true] at hrun htrace
  rw [htrace] at hmeets
  have hexpire := calls_expire lockValue mvs
  have hok₁ : (os 1).fail = none := hmeets _ (List.mem_cons_of_mem _ (hexpire.trace_head _ _))
  obtain ⟨hrun₁, htrace₁⟩ := hexpire.run_ok (fun n => os (n + 1))
    (exec_of_succeeds hok₁ _)
  rw [hrun₁] at hrun
  rw [htrace₁] at htrace
  refine ⟨_, ?_, ?_, hrun, htrace⟩
  · simp [Store.setCache]
  · rw [Store.setCache, Function.update_idem, Function.update_idem, ← hfree,
      Function.update_eq_self]

/-- The tick fetches, takes the lock, settles and releases the lock. -/
theorem Settleable.tick (h : Settleable s m) (hfree : s.cache lockKey = none) {t : Tick}
    (hmeets : t.Meets s) : ∃ xs s' m', TickEnds t s m xs s' m' := by
  obtain ⟨lockValue, os, fails⟩ := t
  have hfetch := calls_fetch lockValue
  have hok : (os 0).fail = none := hmeets _ (hfetch.trace_head os s)
  have hrows : exec .getUnprocessedOutbox (os 0) s =
      (.ok (m.unprocessed.map (Movement.row false)), s) := by
    rw [exec_of_succeeds hok, execute, h.store.getUnprocessedOutbox]
  obtain ⟨hrun, htrace⟩ := hfetch.run_ok os hrows
  have hcalls : Tick.calls ⟨lockValue, os, fails⟩ s = (.getUnprocessedOutbox, os 0) ::
      (TickPoint.setNx lockValue m.unprocessed).prog.trace exec (fun n => os (n + 1)) s := htrace
  have hmeets₁ : ∀ e ∈ (TickPoint.setNx lockValue m.unprocessed).prog.trace exec
      (fun n => os (n + 1)) s, e.2.fail = failing fails e.1 := by
    intro e he
    refine hmeets e ?_
    rw [hcalls]
    exact List.mem_cons_of_mem _ he
  obtain ⟨cache, hheld, hreleased, hrun₁, htrace₁⟩ := setNx_expire hfree hmeets₁
  have hmeets₂ : ∀ e ∈ (Bankie.settling lockValue m.unprocessed).trace exec
      (fun n => os (n + 3)) (s.setCache cache), e.2.fail = failing fails e.1 := by
    intro e he
    refine hmeets₁ e ?_
    rw [htrace₁]
    exact List.mem_cons_of_mem _ (List.mem_cons_of_mem _ he)
  obtain ⟨xs, s', m', hends⟩ := (h.setCache cache).settling fails
    (fun mv hmv => Bank.mem_of_mem_unprocessed hmv) hheld hmeets₂
  have hcache : s'.cache = cache := (Store.settled_of_settleAll hends.settled).cache
  refine ⟨xs, s'.setCache s.cache, m', hends.rows, ?_, hends.sound.setCache _, ?_, ?_, ?_⟩
  · exact Store.settleAll_setCache hends.settled s.cache
  · rw [← hreleased, ← hcache]
    exact (hrun.trans hrun₁).trans hends.run
  · rw [hcalls, htrace₁, ← hends.executes]
    rfl
  · rw [hcalls, htrace₁, ← hends.applied]
    rfl

theorem Movement.row_command (processed : Bool) (mv : Movement) :
    (mv.row processed).command = some (mv.ledger.toString, mv.command) := by
  rw [Outbox.command, row, parseEvent_settlementRow]
  rfl

theorem Tick.unprocessed_mark (t : Tick) (hnodup : (s.unprocessed.map Outbox.transactionId).Nodup) :
    (s.outbox.map (Outbox.mark ((t.done s).map Outbox.transactionId))).filter
        (fun row => row.processed = false) =
      (batch s).filter (fun row => t.fails row.transactionId ≠ none) ++
        s.unprocessed.drop 100 := by
  have hsplit : s.unprocessed = batch s ++ s.unprocessed.drop 100 :=
    (List.take_append_drop 100 s.unprocessed).symm
  rw [Outbox.unprocessed_map_mark]
  change s.unprocessed.filter _ = _
  rw [hsplit, List.map_append, List.nodup_append] at hnodup
  obtain ⟨-, -, hapart⟩ := hnodup
  conv_lhs => rw [hsplit, List.filter_append]
  congr 1
  · -- a row of the batch is marked unless its own execute fails
    refine List.filter_congr fun row hrow => decide_eq_decide.mpr ⟨fun hleft hfails => ?_, ?_⟩
    · exact hleft (List.mem_map_of_mem
        (List.mem_filter.mpr ⟨hrow, decide_eq_true hfails⟩))
    · intro hfails hmarked
      obtain ⟨row', hrow', hsame⟩ := List.mem_map.mp hmarked
      exact hfails (hsame ▸ of_decide_eq_true (List.mem_filter.mp hrow').2)
  · refine List.filter_eq_self.mpr fun row hrow => decide_eq_true fun hmarked => ?_
    obtain ⟨row', hrow', hsame⟩ := List.mem_map.mp hmarked
    exact hapart _ (List.mem_map_of_mem (List.mem_of_mem_filter hrow')) _
      (List.mem_map_of_mem hrow) hsame

namespace TickEnds

variable {t : Tick} {xs : List (Movement × String)} {s' : Store} {m' : Bank}

theorem batch_eq (h : Settleable s m) : Tick.batch s = m.unprocessed.map (Movement.row false) :=
  h.store.getUnprocessedOutbox

theorem done_eq (h : Settleable s m) (hends : TickEnds t s m xs s' m') :
    t.done s = xs.map fun x => x.1.row false := by
  rw [Tick.done, batch_eq h, List.filter_map]
  exact (congrArg (List.map (Movement.row false)) hends.rows.symm).trans List.map_map

theorem settles (h : Settleable s m) (hends : TickEnds t s m xs s' m') : t.Settles s := by
  have hdone := done_eq h hends
  have hids : (t.done s).map Outbox.transactionId = xs.map fun x => x.1.tx := by
    rw [hdone, List.map_map]
    rfl
  have hsettled := Store.settled_of_settleAll hends.settled
  have hnodup : (s.unprocessed.map Outbox.transactionId).Nodup := h.unprocessed_nodup
  refine ⟨congrArg Prod.fst hends.run, ?_, ?_, ?_, ?_, ?_, ?_, fun key => ?_⟩
  · rw [hends.executes, batch_eq h, List.map_map, List.map_map]
    exact List.map_congr_left fun mv _ => (mv.row_command false).symm
  · rw [hends.applied, hdone, List.map_map, List.map_map]
    exact List.map_congr_left fun x _ => (x.1.row_command false).symm
  · have hzip : (t.done s).zip ((Bankie.applied (t.calls s)).map Prod.snd) = timedRows xs := by
      rw [hdone, hends.applied, List.map_map, List.zip_map']
      rfl
    rw [hzip, hends.settled, hends.run]
  · rw [hends.run, hids]
    exact hsettled.outbox
  · rw [hends.run, hids]
    exact hsettled.transactions
  · rw [Store.unprocessed, hends.run, hsettled.outbox, ← hids]
    exact t.unprocessed_mark hnodup
  · rw [hends.run, hsettled.ledgers key, hends.applied, List.filter_map, List.flatMap_map]
    rfl

end TickEnds

end Tick

section Ticks

open Tick

variable {s : Store} {m : Bank}

/-- A tick settles its batch, and the next one finds the lock free. -/
theorem Settleable.next (h : Settleable s m) (hfree : s.cache lockKey = none) {t : Tick}
    (hmeets : t.Meets s) : t.Settles s ∧ ∃ m', Settleable (t.run s).2 m' ∧
      (t.run s).2.cache lockKey = none := by
  obtain ⟨xs, s', m', hends⟩ := h.tick hfree hmeets
  refine ⟨hends.settles h, m', ?_, ?_⟩
  · rw [hends.run]
    exact hends.sound
  · rw [hends.run, (Store.settled_of_settleAll hends.settled).cache]
    exact hfree

theorem Settleable.after (h : Settleable s m) (hfree : s.cache lockKey = none)
    (before later : List Tick) (hmeets : AllMeet (before ++ later) s) :
    AllMeet later (after before s) ∧ ∃ m', Settleable (Tick.after before s) m' ∧
      (Tick.after before s).cache lockKey = none := by
  induction before generalizing s m with
  | nil => exact ⟨hmeets, m, h, hfree⟩
  | cons t before ih =>
    obtain ⟨-, m', hnext, hfree'⟩ := h.next hfree hmeets.1
    exact ih hnext hfree' hmeets.2

theorem Tick.NoneFail.done {t : Tick} (hnone : t.NoneFail) (s : Store) : t.done s = batch s :=
  List.filter_eq_self.mpr fun row _ => decide_eq_true (hnone row.transactionId)

theorem Tick.NoneFail.meets {t : Tick} (hnone : t.NoneFail)
    (hreplies : ∀ n, (t.replies n).fail = none) (s : Store) : t.Meets s := by
  intro e he
  obtain ⟨n, hn⟩ := Prog.trace_oracle he
  rw [hn, hreplies n]
  cases e.1 with
  | executeLedger id command =>
    cases hid : command.transactionId with
    | none => simp [failing, hid]
    | some tx => simp [failing, hid, hnone tx]
  | _ => rfl

theorem Tick.Settles.left_of_noneFail {t : Tick} (h : t.Settles s) (hnone : t.NoneFail) :
    (t.run s).2.unprocessed = s.unprocessed.drop 100 := by
  have hfailed : (batch s).filter (fun row => t.fails row.transactionId ≠ none) = [] :=
    List.filter_eq_nil_iff.mpr fun row _ hrow => of_decide_eq_true hrow (hnone row.transactionId)
  rw [h.left, hfailed, List.nil_append]

/-- How far the ticks have come. -/
structure Windows (ts : List Tick) (s : Store) : Prop where
  left : (after ts s).unprocessed = s.unprocessed.drop (100 * ts.length)
  executes : (executes (callsOf ts s)).map some =
    (s.unprocessed.take (100 * ts.length)).map Outbox.command
  applied : (applied (callsOf ts s)).map (fun x => some x.1) =
    (s.unprocessed.take (100 * ts.length)).map Outbox.command

theorem Settleable.windows (h : Settleable s m) (hfree : s.cache lockKey = none)
    {ts : List Tick} (hmeets : AllMeet ts s) (hnone : ∀ t ∈ ts, t.NoneFail) : Windows ts s := by
  induction ts generalizing s m with
  | nil => exact ⟨rfl, rfl, rfl⟩
  | cons t ts ih =>
    obtain ⟨hsettles, m', hnext, hfree'⟩ := h.next hfree hmeets.1
    have hquiet : t.NoneFail := hnone t List.mem_cons_self
    have hrest := ih hnext hfree' hmeets.2 fun t' ht' => hnone t' (List.mem_cons_of_mem _ ht')
    have hleft := hsettles.left_of_noneFail hquiet
    have hlength : 100 * (t :: ts).length = 100 + 100 * ts.length := by
      rw [List.length_cons]
      omega
    refine ⟨?_, ?_, ?_⟩
    · rw [Tick.after, hrest.left, hleft, List.drop_drop, hlength]
    · rw [callsOf, Bankie.executes, List.filterMap_append, List.map_append, hlength, List.take_add,
        List.map_append]
      exact congr (congrArg _ hsettles.executes) (hleft ▸ hrest.executes)
    · rw [callsOf, Bankie.applied, List.filterMap_append, List.map_append, hlength, List.take_add,
        List.map_append]
      exact congr (congrArg _ (hsettles.applied.trans (congrArg _ (hquiet.done s))))
        (hleft ▸ hrest.applied)

theorem Tick.Settles.unchanged {t : Tick} (h : t.Settles s) (hnone : s.unprocessed = []) :
    (t.run s).2 = s := by
  have hdone : t.done s = [] := by
    rw [Tick.done, batch, hnone]
    rfl
  have halone := h.alone
  rw [hdone] at halone
  exact (Outcome.ok.inj halone).symm

theorem Settleable.further (h : Settleable s m) (hfree : s.cache lockKey = none)
    (hnone : s.unprocessed = []) {later : List Tick} (hmeets : AllMeet later s) :
    Tick.after later s = s := by
  induction later with
  | nil => rfl
  | cons t later ih =>
    have hsame := (h.next hfree hmeets.1).1.unchanged hnone
    rw [Tick.after, hsame]
    exact ih (hsame ▸ hmeets.2)

theorem Settleable.drained (h : Settleable s m) (hfree : s.cache lockKey = none)
    {ts : List Tick} (hmeets : AllMeet ts s) (hnone : ∀ t ∈ ts, t.NoneFail)
    (hlength : s.unprocessed.length ≤ 100 * ts.length) : Drained ts s := by
  have hwindows := h.windows hfree hmeets hnone
  have hleft : (Tick.after ts s).unprocessed = [] := by
    rw [hwindows.left, List.drop_of_length_le hlength]
  refine ⟨?_, ?_, hleft, fun later hlater => ?_⟩
  · rw [hwindows.executes, List.take_of_length_le hlength]
  · rw [hwindows.applied, List.take_of_length_le hlength]
  · obtain ⟨-, m', hafter, hfree'⟩ :=
      h.after hfree ts [] (by rwa [List.append_nil])
    exact hafter.further hfree' hleft hlater

theorem Settleable.drains (h : Settleable s m) (hfree : s.cache lockKey = none)
    {ts : List Tick} (hmeets : AllMeet ts s) : Drains ts s := by
  refine ⟨?_, fun hnone hlength => h.drained hfree hmeets hnone (by omega)⟩
  rintro before t later rfl
  obtain ⟨hlater, m', hafter, hfree'⟩ := h.after hfree before (t :: later) hmeets
  exact (hafter.next hfree' hlater.1).1

end Ticks

/-- From every reachable state in which the lock is free at the start, ticks that run one after
another drain the outbox: each finds the lock as free as the first. -/
theorem job_drains {st : System} (h : System.machine.Reachable st)
    (hfree : st.store.cache lockKey = none) {ts : List Tick} (hmeets : Tick.AllMeet ts st.store) :
    Tick.Drains ts st.store := by
  obtain ⟨m, hreach, hmodels, -⟩ := refinement.reachable h
  obtain ⟨hwf, hnum⟩ := Bank.wf_invariant.reachable hreach
  have hsound : Settleable st.store m := ⟨hmodels.store, hwf.movements, hnum.tx_nodup⟩
  exact hsound.drains hfree hmeets

def Scenario.depositedThrice : List Action :=
  deposited ++ handle 13 50 5 (.deposit (uid 10) (usd 50)) ++
    handle 14 60 5 (.deposit (uid 10) (usd 20))

/-- A tick in which the execute of the second of them fails, and one in which none fails. -/
def Scenario.interrupted : Tick where
  lockValue := "first"
  replies n := if n = 5 then ⟨some "connection closed", "2024-01-01T00:00:00Z"⟩ else up
  fails tx := if tx = uid 50 then some "connection closed" else none

def Scenario.undisturbed : Tick := ⟨"second", fun _ => up, fun _ => none⟩

theorem Scenario.undisturbed_noneFail : undisturbed.NoneFail := fun _ => rfl

/-- The row whose execute fails is left to the second tick, after which none is left. -/
theorem job_drains_deposited : ∃ st : System, st.store.unprocessed.length = 3 ∧
    Tick.Drains [Scenario.interrupted, Scenario.undisturbed] st.store ∧
      (Scenario.interrupted.run st.store).2.unprocessed.map Outbox.transactionId =
        [Scenario.uid 50] ∧
      (Tick.after [Scenario.interrupted, Scenario.undisturbed] st.store).unprocessed = [] ∧
    Tick.Drained [Scenario.undisturbed] st.store := by
  have hrun : ((System.init []).run Scenario.depositedThrice).map (fun st =>
      (st.store.unprocessed.length, st.store.cache lockKey,
        decide (Scenario.interrupted.Meets st.store),
        (Scenario.interrupted.run st.store).2.unprocessed.map Outbox.transactionId,
        decide ((Tick.after [Scenario.interrupted, Scenario.undisturbed]
          st.store).unprocessed = []))) =
      some (3, none, true, [Scenario.uid 50], true) := by
    decide +kernel
  obtain ⟨st, hst, hfacts⟩ := Option.map_eq_some_iff.mp hrun
  simp only [Prod.mk.injEq, decide_eq_true_eq] at hfacts
  obtain ⟨hlength, hfree, hmeets, hopen, hempty⟩ := hfacts
  have hreach := System.reachable_of_run hst
  have hnext := Scenario.undisturbed_noneFail.meets (fun _ => rfl)
  have hdrains : Tick.Drains [Scenario.undisturbed] st.store :=
    job_drains hreach hfree ⟨hnext st.store, trivial⟩
  refine ⟨st, hlength, job_drains hreach hfree ⟨hmeets, hnext _, trivial⟩, hopen, hempty,
    hdrains.drained (fun t ht => ?_) ?_⟩
  · rw [List.mem_singleton.mp ht]
    exact Scenario.undisturbed_noneFail
  · rw [hlength]
    decide

end Bankie
