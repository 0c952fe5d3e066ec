import Bankie.Audit
import Bankie.Direction
import Bankie.RoundedFolds

/-!
The row of one ledger, execute by execute.
Elsewhere a ledger execute is one step. Here it is the four accesses that the framework makes
for it, and the executes of the consumer and of the job meet at the same ledger. The runs with
single steps are those in which each execute makes its four accesses alone.
-/
namespace Bankie

open Program Transition

/-- The ledger as the framework executes it, with commands that carry their time. -/
def ledgerAggregate : Projection.Aggregate LedgerEvent LedgerView (String × LedgerCommand) where
  handle log c := do
    let ledger ← Ledger.replay log
    match ledger.handle c.1 c.2 with
    | .error e => .err e
    | .ok events => .ok events
  update := LedgerView.update
  blank := default

/-- With unbounded digits the executes that round are these. -/
theorem ledgerAggregateWith_unbounded : ledgerAggregateWith .unbounded = ledgerAggregate := by
  have hreplay : Ledger.replayWith .unbounded = Ledger.replay :=
    funext Ledger.replayWith_unbounded
  have hupdate : LedgerView.updateWith .unbounded = LedgerView.update :=
    funext₂ LedgerView.updateWith_unbounded
  rw [ledgerAggregateWith, hreplay, hupdate]
  rfl

/-- Where a ledger and its row are stored. -/
def Store.ledgerTable (s : Store) (id : String) : Projection.Table LedgerEvent LedgerView where
  log := s.ledgerEvents id
  row := s.ledgerViews.lookup id

theorem LedgerCommand.events_ne_nil (now : String) (c : LedgerCommand) : c.events now ≠ [] := by
  cases c <;> exact List.cons_ne_nil _ _

/-- An execute that runs alone comes to what the single step does. -/
theorem executeLedger_alone {s s' : Store} {id now : String} {command : LedgerCommand}
    (h : s.executeLedger id command now = .ok s') :
    (Projection.Execute.load (now, command)).alone ledgerAggregate 4 (s.ledgerTable id) =
      (.returned (.ok ()), s'.ledgerTable id) := by
  obtain ⟨ledger, view, hledger, hview, rfl⟩ := Store.executeLedger_eq_ok.mp h
  have hhandle : ledgerAggregate.handle (s.ledgerTable id).log (now, command) =
      .ok (command.events now) := by
    change (Ledger.replay (s.ledgerEvents id) >>= _) = _
    rw [hledger, Outcome.ok_bind]
    rfl
  rw [Projection.Execute.alone_load hhandle (command.events_ne_nil now) hview]
  simp [Store.ledgerTable]

theorem executeLedger_first {s s' : Store} {id now : String} {command : LedgerCommand}
    (h : s.executeLedger id command now = .ok s') (hempty : s.ledgerTable id = ⟨[], none⟩) :
    (s'.ledgerTable id).Current ledgerAggregate := by
  obtain ⟨ledger, view, -, hview, rfl⟩ := Store.executeLedger_eq_ok.mp h
  obtain ⟨hlog, hrow⟩ := Projection.Table.mk.inj hempty
  rw [hrow] at hview
  refine ⟨view, by simp [Store.ledgerTable], ?_⟩
  simp only [Store.ledgerTable, Function.update_self, hlog, List.nil_append]
  exact hview

namespace Store

variable {s s' : Store} {id : String}

/-- Only an execute of the ledger writes to its table. -/
theorem ledgerTable_exec (c : Call) (o : Oracle) (s : Store) (id : String) :
    (exec c o s).2.ledgerTable id = s.ledgerTable id ∨
      ∃ now command, s.executeLedger id command now = .ok (exec c o s).2 := by
  unfold exec
  split
  · exact Or.inl rfl
  · cases c with
    | executeLedger id' command =>
      rw [execute]
      cases h : s.executeLedger id' command o.now with
      | ok s' =>
        by_cases hid : id = id'
        · subst hid
          exact Or.inr ⟨_, _, h⟩
        · obtain ⟨ledger, view, -, -, rfl⟩ := executeLedger_eq_ok.mp h
          refine Or.inl ?_
          simp [commitOrRollback, ledgerTable, hid]
      | err e => exact Or.inl rfl
      | panic e => exact Or.inl rfl
    | commitAccount id' sequence events =>
      rw [execute, commitAccount]
      split <;> exact Or.inl rfl
    | createTransactionWithJournal t ledgerId entry lines =>
      rw [execute]
      split
      · rename_i h
        have htable := congrArg (ledgerTable · id) (createTransactionWithJournal_frame h)
        exact Or.inl htable
      · exact Or.inl rfl
      · exact Or.inl rfl
    | createHouseAccount account =>
      rw [execute, createHouseAccount]
      split <;> exact Or.inl rfl
    | setNx key value =>
      rw [execute]
      split <;> exact Or.inl rfl
    | _ => exact Or.inl rfl

end Store

/-- The table of a ledger is blank, or executes of four accesses have made it. -/
theorem System.ledgerTable_reached {st : System} (h : machine.Reachable st) (id : String) :
    st.store.ledgerTable id = ⟨[], none⟩ ∨
      (st.store.ledgerTable id).Reached ledgerAggregate := by
  obtain ⟨st₀, as, ⟨houses, rfl⟩, hrun⟩ := h
  refine hrun.preserves (P := fun st => st.store.ledgerTable id = ⟨[], none⟩ ∨
    (st.store.ledgerTable id).Reached ledgerAggregate) ?_ (Or.inl rfl)
  intro st a st' hst hstep
  rcases System.step_store hstep with hsame | ⟨c, o, hcall⟩ | ⟨cache, hcache⟩
  · rwa [hsame]
  · rw [hcall]
    rcases Store.ledgerTable_exec c o st.store id with hsame | ⟨now, command, hexecute⟩
    · rwa [hsame]
    · refine Or.inr ?_
      rcases hst with hempty | hreached
      · exact (executeLedger_first hexecute hempty).reached
      · exact hreached.execute (executeLedger_alone hexecute)
  · rwa [hcache]

/-- In every reachable state of the service the row of a ledger is what its log comes to. -/
theorem ledgerTable_current {st : System} (h : System.machine.Reachable st) {id : String}
    (hlog : st.store.ledgerEvents id ≠ []) :
    (st.store.ledgerTable id).Current ledgerAggregate := by
  rcases System.ledgerTable_reached h id with hempty | hreached
  · exact absurd (Projection.Table.mk.inj hempty).1 hlog
  · exact hreached.current

/-- In runs where no execute reads the row before all is written that was committed before
its own events, the row is what the log comes to once all executes have returned. -/
theorem ledgerRow_current {st : Projection.State LedgerEvent LedgerView (String × LedgerCommand)}
    (h : ((Projection.machine ledgerAggregate).restrict Projection.State.InOrder).Reachable st)
    (hsucceeded : ∀ x ∈ st.executes, x.Succeeded) :
    ∃ v, st.table.row = some v ∧ LedgerView.project st.table.log = .ok v :=
  Projection.current_of_succeeded h hsucceeded

section Scenario

/-- The hold of a withdrawal of 30 by the consumer, and the credit of a deposit of 50 by the
job, on the ledger that shows 100. -/
def Scenario.holdAndCredit : List (Projection.Move (String × LedgerCommand)) :=
  [.start ("2024-01-02T00:00:00Z", .debitHold (uid 11) (uid 10) (uid 60) (usd 30)),
    .start ("2024-01-02T00:00:01Z", .credit (uid 11) (uid 10) (uid 61) (usd 50))]

theorem ledgerRow_current_overlapping :
    ∃ (t : Projection.Table LedgerEvent LedgerView) (v : LedgerView),
    t.log.length = 6 ∧ t.row = some v ∧ LedgerView.project t.log = .ok v := by
  have hrun : (((System.init []).run Scenario.funded).bind fun st =>
      (Machine.runWhile (Projection.State.next ledgerAggregate)
        (fun st a => decide (st.InOrder a)) ⟨st.store.ledgerTable (Scenario.uid 11).toString, []⟩
        (Scenario.holdAndCredit ++ [0, 0, 1, 1, 0, 0, 1, 1].map Projection.Move.step)).map
          fun st' => (decide (st.store.ledgerEvents (Scenario.uid 11).toString ≠ []),
            decide (∀ x ∈ st'.executes, x.Succeeded), st'.table.log.length)) =
      some (true, true, 6) := by decide +kernel
  obtain ⟨st, hst, hrest⟩ := Option.bind_eq_some_iff.mp hrun
  obtain ⟨st', hst', hfacts⟩ := Option.map_eq_some_iff.mp hrest
  obtain ⟨hlog, hsucceeded, hlength⟩ : _ ∧ _ ∧ _ := by simpa only [Prod.mk.injEq] using hfacts
  have hcurrent := ledgerTable_current (System.reachable_of_run hst) (of_decide_eq_true hlog)
  obtain ⟨v, hv⟩ := ledgerRow_current ⟨_, _, ⟨hcurrent, rfl⟩,
    Machine.steps_of_runWhile (fun _ _ _ hstep => hstep) (fun _ _ hg => of_decide_eq_true hg)
      hst'⟩ (of_decide_eq_true hsucceeded)
  exact ⟨st'.table, v, hlength, hv⟩

/-- Both read the row at 100 and both return, but the row that is written last has lost the
hold: it shows 150, and the log comes to 120. -/
theorem not_ledgerRow_current :
    ∃ st, (Projection.machine ledgerAggregate).Reachable st ∧
      (∀ x ∈ st.executes, x.Succeeded) ∧
        ¬ ∃ v, st.table.row = some v ∧ LedgerView.project st.table.log = .ok v := by
  have hrun : (((System.init []).run Scenario.funded).bind fun st =>
      (Machine.runWhile (Projection.State.next ledgerAggregate) (fun _ _ => true)
        ⟨st.store.ledgerTable (Scenario.uid 11).toString, []⟩
        (Scenario.holdAndCredit ++ [0, 0, 1, 1, 0, 1, 0, 1].map Projection.Move.step)).map
          fun st' => (decide (st.store.ledgerEvents (Scenario.uid 11).toString ≠ []),
            decide (∀ x ∈ st'.executes, x.Succeeded),
            st'.table.row.map fun v => v.available.amount,
            (LedgerView.project st'.table.log).toOption.map fun v => v.available.amount)) =
      some (true, true, some (.ofInt 150), some (.ofInt 120)) := by decide +kernel
  obtain ⟨st, hst, hrest⟩ := Option.bind_eq_some_iff.mp hrun
  obtain ⟨st', hst', hfacts⟩ := Option.map_eq_some_iff.mp hrest
  obtain ⟨hlog, hsucceeded, hrow, hproject⟩ : _ ∧ _ ∧ _ ∧ _ := by
    simpa only [Prod.mk.injEq] using hfacts
  have hcurrent := ledgerTable_current (System.reachable_of_run hst) (of_decide_eq_true hlog)
  refine ⟨st', ⟨_, _, ⟨hcurrent, rfl⟩, Machine.steps_of_run (fun _ _ _ hstep => hstep) hst'⟩,
    of_decide_eq_true hsucceeded, ?_⟩
  rintro ⟨v, hv, hv'⟩
  rw [hv] at hrow
  rw [hv'] at hproject
  have hne : (some (.ofInt 150) : Option Decimal) ≠ some (.ofInt 120) := by decide
  exact hne (hrow.symm.trans hproject)

end Scenario

end Bankie
