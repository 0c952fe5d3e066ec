import Bankie.Reconcile

/-!
When a debit is released only after it was held.
The outbox row of a withdrawal is committed before its funds are held, and the job runs
outside the command channel. So a tick may release what the consumer is just about to hold.
Quiet runs in which no tick does so hold every debit before they release it, and then
positive amounts leave no pending balance below zero, as long as no addition rounds.
-/
namespace Bankie

open Program Transition

def LedgerEvent.ReleasesDebit : LedgerEvent → Prop
  | .ledgerInitiated .. => False
  | .ledgerUpdated _ _ type _ _ _ => type = "debit_release"

/-- The first event holds the transaction and the amount of the second. -/
def LedgerEvent.HoldsFor : LedgerEvent → LedgerEvent → Prop
  | .ledgerUpdated amount tx type _ _ _, .ledgerUpdated amount' tx' _ _ _ _ =>
    type = "debit_hold" ∧ tx = tx' ∧ amount = amount'
  | _, _ => False

instance : DecidablePred LedgerEvent.ReleasesDebit
  | .ledgerInitiated .. => .isFalse id
  | .ledgerUpdated _ _ type _ _ _ => inferInstanceAs (Decidable (type = "debit_release"))

instance (e e' : LedgerEvent) : Decidable (e.HoldsFor e') :=
  match e, e' with
  | .ledgerUpdated .., .ledgerUpdated .. => inferInstanceAs (Decidable (_ ∧ _ ∧ _))
  | .ledgerInitiated .., _ => .isFalse id
  | .ledgerUpdated .., .ledgerInitiated .. => .isFalse id

/-- In every ledger log a `debit_release` has its `debit_hold` before it. -/
def Store.ReleasesHeld (s : Store) : Prop :=
  ∀ ledgerId, Preceded LedgerEvent.ReleasesDebit LedgerEvent.HoldsFor (s.ledgerEvents ledgerId)

/-- The amount of a command, where it has one, is positive. -/
def BankAccountCommand.Positive : BankAccountCommand → Prop
  | .deposit _ amount => Decimal.zero < amount.amount
  | .withdrawal _ amount => Decimal.zero < amount.amount
  | _ => True

instance : DecidablePred BankAccountCommand.Positive
  | .deposit _ amount => inferInstanceAs (Decidable (Decimal.zero < amount.amount))
  | .withdrawal _ amount => inferInstanceAs (Decidable (Decimal.zero < amount.amount))
  | .openAccount .. => .isTrue trivial
  | .approveAccount .. => .isTrue trivial

/-- No tick executes the row of the transaction that the consumer is about to hold. -/
def System.SettlesHeld (st : System) : Action → Prop
  | .tick i _ => ∀ p ∈ st.ticks[i]?, ∀ tx ∈ executing p, executing st.consumer ≠ some tx
  | _ => True

instance (st : System) (a : Action) : Decidable (st.SettlesHeld a) :=
  match a with
  | .tick i _ => inferInstanceAs (Decidable (∀ p ∈ st.ticks[i]?, _))
  | .submit .. => .isTrue trivial
  | .receive _ => .isTrue trivial
  | .consumer _ => .isTrue trivial
  | .startTick _ => .isTrue trivial
  | .startRequest .. => .isTrue trivial
  | .request .. => .isTrue trivial
  | .expireKey _ => .isTrue trivial

/-- The first posting holds the transaction and the amount of the second. -/
def Posting.HoldsFor (q p : Posting) : Prop :=
  q.kind = .hold ∧ q.transactionId = p.transactionId ∧ q.amount = p.amount

/-- Every release in a book has its hold before it. -/
def Book.ReleasesHeld (b : Book) : Prop :=
  Preceded (fun p => p.kind = .release) Posting.HoldsFor b.postings

section Logs

theorem Posting.holdsFor_of_mem {p : Posting} {ledger account : Uuid} {c : Currency}
    {e : LedgerEvent} (he : e ∈ p.events ledger account c) (hrelease : e.ReleasesDebit) :
    p.kind = .release ∧ ∀ q : Posting, q.HoldsFor p →
      ∃ e' ∈ q.events ledger account c, e'.HoldsFor e := by
  obtain ⟨kind, tx, amount, time⟩ := p
  cases kind with
  | hold =>
    obtain rfl := List.mem_singleton.mp he
    exact absurd hrelease (show "debit_hold" ≠ "debit_release" by decide)
  | release =>
    obtain rfl := List.mem_singleton.mp he
    refine ⟨rfl, ?_⟩
    rintro ⟨kind', tx', amount', time'⟩ ⟨rfl, rfl, rfl⟩
    exact ⟨_, List.mem_singleton_self _, rfl, rfl, rfl⟩
  | credit =>
    rcases List.mem_cons.mp he with rfl | he
    · exact absurd hrelease (show "credit_hold" ≠ "debit_release" by decide)
    · obtain rfl := List.mem_singleton.mp he
      exact absurd hrelease (show "credit_release" ≠ "debit_release" by decide)

theorem Book.preceded_events (b : Book) (h : b.ReleasesHeld) (ledger : Uuid) :
    Preceded LedgerEvent.ReleasesDebit LedgerEvent.HoldsFor (b.events ledger) := by
  obtain ⟨holder, owner, c, w, postings⟩ := b
  induction postings using List.reverseRecOn with
  | nil =>
    refine preceded_nil.append fun e he hrelease => ?_
    obtain rfl := List.mem_singleton.mp he
    exact hrelease.elim
  | append_singleton postings p ih =>
    obtain ⟨hinit, hlast⟩ := preceded_concat.mp h
    change Preceded _ _ ((Book.mk holder owner c w postings).post p |>.events ledger)
    rw [events_post]
    refine (ih hinit).append fun e he hrelease => ?_
    obtain ⟨hkind, hmeets⟩ := Posting.holdsFor_of_mem he hrelease
    obtain ⟨q, hq, hholds⟩ := hlast hkind
    obtain ⟨e', he', hfor⟩ := hmeets q hholds
    exact ⟨e', List.mem_append_right _ (List.mem_flatMap.mpr ⟨q, hq, he'⟩), hfor⟩

end Logs

namespace Bank

variable {m m' : Bank}

/-- The guard of the runs, on the bank. -/
def SettlesHeld (m : Bank) : Action → Prop
  | .tick i _ => ∀ lockValue mv rest, m.ticks[i]? = some (.execute lockValue mv rest) →
      ¬ m.Holds m.consumer mv
  | _ => True

def ReleasesHeld (m : Bank) : Prop := ∀ ledger b, m.books ledger = some b → b.ReleasesHeld

theorem ReleasesHeld.step (hm : m.ReleasesHeld) (hsettled : m.Settled) {a : Action}
    (hguard : m.SettlesHeld a) (h : m.Step a m') : m'.ReleasesHeld := by
  intro ledger b' hb'
  rcases h.book_cases hb' with hb | hempty | ⟨b, p, hb, rfl, hposts⟩
  · exact hm ledger b' hb
  · rw [Book.ReleasesHeld, hempty]
    exact preceded_nil
  · refine preceded_concat.mpr ⟨hm ledger b hb, fun hkind => ?_⟩
    cases hposts with
    | hold => cases hkind
    | settle i o lockValue mv rest hok hi =>
      have haction : mv.action = .withdraw := by
        cases haction : mv.action with
        | deposit => simp [Movement.settlement, haction] at hkind
        | withdraw => rfl
      have hmv := hsettled.wf.rows _ (List.mem_of_getElem? hi) mv List.mem_cons_self
      rcases hsettled.holdsAll mv hmv haction with ⟨b₁, hb₁, q, hq, hhold, htx, hamount⟩ | hholds
      · obtain rfl := Option.some.inj (hb.symm.trans hb₁)
        exact ⟨q, hq, hhold, htx, hamount⟩
      · exact absurd hholds (hguard lockValue mv rest hi)

theorem releasesHeld_invariant : ((machine.restrict Quiet).restrict SettlesHeld).Invariant
    (fun m => m.Settled ∧ m.ReleasesHeld) := by
  refine (settled_invariant.restrict SettlesHeld).strengthen ?_
    (fun _ _ _ hm hr h => hr.step hm h.1 h.2.2)
  rintro m ⟨houses, rfl⟩ ledger b hb
  cases hb

/-- Where every release was held, positive amounts leave nothing negative pending. -/
theorem pending_nonneg (hm : m.Settled) (htraced : m.Traced) (hr : m.ReleasesHeld)
    (hpositive : ∀ mv ∈ m.movements, 0 ≤ mv.amount.amount.toRat) {ledger : Uuid} {b : Book}
    (hb : m.books ledger = some b) : 0 ≤ b.pending := by
  rw [hm.balanced.pending ledger b hb]
  refine List.sum_nonneg fun x hx => ?_
  obtain ⟨mv, hmv, rfl⟩ := List.mem_map.mp hx
  have hamount := hpositive mv hmv
  unfold Movement.pendingShare
  split
  · cases haction : mv.action with
    | deposit => exact le_refl 0
    | withdraw =>
      have hheld : mv.tx ∈ b.settled → mv.tx ∈ b.held := by
        intro hin
        obtain ⟨p, hp, htx⟩ := List.mem_map.mp hin
        obtain ⟨hp, hkind⟩ := List.mem_filter.mp hp
        obtain ⟨mv', hmv', -, hmakes⟩ := htraced.postings ledger b hb p hp
        obtain rfl := hm.numbered.movement_eq hmv' hmv (hmakes.transactionId.symm.trans htx)
        have hrelease : p.kind = .release := by
          rw [hmakes.settlement (of_decide_eq_true hkind), Movement.settlement, haction]
        obtain ⟨q, hq, hhold, hqtx, -⟩ := (hr ledger b hb).exists_mem hp hrelease
        exact List.mem_map.mpr ⟨q, List.mem_filter.mpr ⟨hq, decide_eq_true hhold⟩,
          hqtx.trans htx⟩
      by_cases hin : mv.tx ∈ b.settled
      · simp [hin, hheld hin]
      · by_cases hhold : mv.tx ∈ b.held <;> simp [hin, hhold, hamount]
  · exact le_refl 0

end Bank

section Guards

theorem executing_hold (d : Draws) (order : Order) (ledger : Uuid) (sequence : ℕ) :
    executing (ConsumerPoint.hold d order ledger sequence).prog = some d.transactionId := by
  rw [executing, (calls_hold d order ledger sequence).nextCall]
  rfl

theorem Models.settlesHeld {st : System} {m : Bank} (h : Models st m) {a : Action}
    (hguard : st.SettlesHeld a) : m.SettlesHeld a := by
  cases a with
  | tick i o =>
    rintro lockValue mv rest hi ⟨d, order, ledger, sequence, hp, -, htx, -⟩
    refine hguard (TickPoint.execute lockValue mv rest).prog ?_ mv.tx (executing_prog rfl) ?_
    · rw [h.ticks, List.getElem?_map, hi]
      rfl
    · rw [h.consumer, hp, executing_hold, htx]
  | _ => trivial

end Guards

/-- Positive amounts leave no balance of an exact fold negative, once every release was held. -/
theorem Models.pending_nonneg {st : System} {m : Bank} (h : Models st m)
    (hreach : ((Bank.machine.restrict Bank.Quiet).restrict Bank.SettlesHeld).Reachable m)
    (hpositive : ∀ command ∈ st.submitted, command.Positive) (ledgerId : String) :
    ∃ v, LedgerView.project (st.store.ledgerEvents ledgerId) = .ok v ∧
      0 ≤ v.pending.amount.toRat := by
  obtain ⟨hsettled, hheld⟩ := Bank.releasesHeld_invariant.reachable hreach
  have hrun := hreach.unrestrict.unrestrict
  obtain ⟨-, htraced⟩ := Bank.traced_invariant.reachable hrun
  obtain ⟨-, hasked⟩ := Bank.asked_invariant.reachable hrun
  by_cases hlog : st.store.ledgerEvents ledgerId = []
  · rw [hlog]
    exact ⟨default, rfl, Decimal.toRat_zero.ge⟩
  · obtain ⟨ledger, b, rfl, hb, hevents⟩ := h.store.exists_book hlog
    have hamounts : ∀ mv ∈ m.movements, 0 ≤ mv.amount.amount.toRat := by
      intro mv hmv
      have horder := hpositive mv.order.command (h.submitted ▸ hasked.orders mv hmv)
      have hlt : Decimal.zero < mv.amount.amount := by
        rw [Order.command] at horder
        split at horder <;> exact horder
      rw [Decimal.lt_iff_toRat, Decimal.toRat_zero] at hlt
      exact hlt.le
    refine ⟨b.view ledger, by rw [hevents, b.project_view], ?_⟩
    rw [(b.view_holds ledger).1.2.2.2]
    exact Bank.pending_nonneg hsettled htraced hheld hamounts hb

/-- In quiet runs whose ticks settle no withdrawal that the consumer is just about to hold,
every release follows its hold; and positive amounts leave no pending balance negative where no
addition rounds: not in the view or the aggregate that the log folds to, nor in the stored row,
once executes that read it in order have come to that log. -/
theorem releasesHeld (A : Addition) {st : System}
    (h : ((System.lagging.restrict System.Quiet).restrict System.SettlesHeld).Reachable st) :
    st.store.ReleasesHeld ∧ ((∀ command ∈ st.submitted, command.Positive) →
      ∀ ledgerId, NoneRounds (st.store.ledgerEvents ledgerId) →
        (∃ v, LedgerView.projectWith A (st.store.ledgerEvents ledgerId) = .ok v ∧
          ¬ v.pending.amount < .zero) ∧
        (∃ l, Ledger.replayWith A (st.store.ledgerEvents ledgerId) = .ok l ∧
          ¬ l.pending.amount < .zero) ∧
        ∀ executes : Projection.State LedgerEvent LedgerView (String × LedgerCommand),
          ((Projection.machine (ledgerAggregateWith A)).restrict
            Projection.State.InOrder).Reachable executes →
          executes.table.log = st.store.ledgerEvents ledgerId →
          (∀ x ∈ executes.executes, x.Succeeded) →
            ∃ v, executes.table.row = some v ∧ ¬ v.pending.amount < .zero) := by
  have hsim : Machine.Simulation
      ((System.lagging.restrict System.Quiet).restrict System.SettlesHeld)
      ((Bank.machine.restrict Bank.Quiet).restrict Bank.SettlesHeld)
      (fun st m => Models st m ∧ m.WF ∧ m.Numbered) :=
    quiet_refinement.restrict fun _ _ _ hrel hguard => hrel.1.settlesHeld hguard
  obtain ⟨m, hreach, hmodels, -⟩ := hsim.reachable h
  obtain ⟨hsettled, hheld⟩ := Bank.releasesHeld_invariant.reachable hreach
  refine ⟨fun ledgerId => ?_, fun hpositive ledgerId hexact => ?_⟩
  · by_cases hlog : st.store.ledgerEvents ledgerId = []
    · rw [hlog]
      exact preceded_nil
    · obtain ⟨ledger, b, -, hb, hevents⟩ := hmodels.store.exists_book hlog
      rw [hevents]
      exact b.preceded_events (hheld ledger b hb) ledger
  · obtain ⟨v, hv, hpending⟩ := hmodels.pending_nonneg hreach hpositive ledgerId
    have hsame : ∀ p : Money, p.Same v.pending → ¬ p.amount < .zero := by
      intro p hp
      rw [Decimal.lt_iff_toRat, Decimal.toRat_zero, hp.2]
      exact not_lt.mpr hpending
    obtain ⟨⟨v', hv', hshows⟩, l, hl, hledger⟩ := hexact.folds A hv
    refine ⟨⟨v', hv', hsame _ hshows.pending⟩, ⟨l, hl, hsame _ hledger.pending⟩,
      fun executes hexecutes hlog hsucceeded => ?_⟩
    obtain ⟨row, hrow, hproject⟩ := Projection.current_of_succeeded hexecutes hsucceeded
    rw [hlog] at hproject
    obtain rfl : v' = row := Outcome.ok.inj (hv'.symm.trans hproject)
    exact ⟨v', hrow, hsame _ hshows.pending⟩

theorem releasesHeld_spent : ∃ (st : System) (v : LedgerView) (l : Ledger),
    (st.store.ledgerEvents (Scenario.uid 11).toString).length = 5 ∧ st.store.ReleasesHeld ∧
      LedgerView.projectWith .rounded (st.store.ledgerEvents (Scenario.uid 11).toString) = .ok v ∧
      Ledger.replayWith .rounded (st.store.ledgerEvents (Scenario.uid 11).toString) = .ok l ∧
      ¬ v.pending.amount < .zero ∧ ¬ l.pending.amount < .zero := by
  have hrun : (((System.init []).runWhile (fun st a => decide (st.Quiet a ∧ st.SettlesHeld a))
      (Scenario.spent ++ Scenario.tick 1 15 1)).map fun st =>
        ((st.store.ledgerEvents (Scenario.uid 11).toString).length,
          decide (∀ command ∈ st.submitted, command.Positive),
          decide (FitsEach (st.store.ledgerEvents (Scenario.uid 11).toString)))) =
      some (5, true, true) := by
    decide +kernel
  obtain ⟨st, hst, hfacts⟩ := Option.map_eq_some_iff.mp hrun
  obtain ⟨hlength, hpositive, hfits⟩ : _ ∧ _ ∧ _ := by simpa only [Prod.mk.injEq] using hfacts
  have hreach := System.reachable_lagging_restrict
    (System.reachable_of_runWhile (fun _ _ hg => of_decide_eq_true hg) hst)
  obtain ⟨hheld, hbalances⟩ := releasesHeld .rounded hreach.restrict_restrict
  obtain ⟨⟨v, hv, hview⟩, ⟨l, hl, hledger⟩, -⟩ := hbalances (of_decide_eq_true hpositive)
    (Scenario.uid 11).toString (FitsEach.noneRounds (of_decide_eq_true hfits))
  exact ⟨st, v, l, hlength, hheld, hv, hl, hview, hledger⟩

/-- The tick that starts between the write of a withdrawal and its hold releases it. -/
def Scenario.early : List Action :=
  Scenario.funded ++ Scenario.handle 14 50 5 (.withdrawal (Scenario.uid 10) (Scenario.usd 30)) ++
  .startTick (Scenario.uid 15) :: List.replicate 4 (.tick 1 up)

theorem not_releasesHeld : ∃ st, (System.lagging.restrict System.Quiet).Reachable st ∧
    ¬ st.store.ReleasesHeld ∧ (∀ command ∈ st.submitted, command.Positive) ∧
      ∃ ledgerId v, LedgerView.projectWith .rounded (st.store.ledgerEvents ledgerId) = .ok v ∧
        v.pending.amount < .zero := by
  have hrun : (((System.init []).runWhile (fun st a => decide (st.Quiet a))
      Scenario.early).map fun st : System =>
        (decide (∃ e ∈ (st.store.ledgerEvents (Scenario.uid 11).toString)[3]?, e.ReleasesDebit ∧
          ∀ y ∈ (st.store.ledgerEvents (Scenario.uid 11).toString).take 3, ¬ y.HoldsFor e),
        decide (∀ command ∈ st.submitted, command.Positive),
        decide (∃ v ∈ (LedgerView.projectWith .rounded
          (st.store.ledgerEvents (Scenario.uid 11).toString)).toOption,
            v.pending.amount < .zero))) = some (true, true, true) := by
    decide +kernel
  obtain ⟨st, hst, hfacts⟩ := Option.map_eq_some_iff.mp hrun
  obtain ⟨hlog, hpositive, hview⟩ : _ ∧ _ ∧ _ := by simpa only [Prod.mk.injEq] using hfacts
  obtain ⟨e, he, hrelease, hnone⟩ := of_decide_eq_true hlog
  obtain ⟨v, hv, hpending⟩ := of_decide_eq_true hview
  refine ⟨st, Scenario.quiet_reachable hst, fun hheld => ?_, of_decide_eq_true hpositive, _, v,
    Outcome.toOption_eq_some hv, hpending⟩
  obtain ⟨y, hy, hholds⟩ := hheld (Scenario.uid 11).toString 3 e he hrelease
  exact hnone y hy hholds

end Bankie
