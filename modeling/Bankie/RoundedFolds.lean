import Bankie.Folds
import Bankie.Projection
import Bankie.Rounding

/-!
The folds of a ledger log under any addition.
Each event adds to the two balances, and the view adds these once more. An addition that is
exact where the decimal type holds the sum folds a log to its exact balances, as long as every
beginning of the log has balances that the type holds.
-/
namespace Bankie

open Program

def Money.addWith (A : Addition) (a b : Money) : Outcome Money :=
  if a.currency ≠ b.currency then .panic "Cannot add Money with different currencies"
  else do
    let amount ← A.add a.amount b.amount
    return ⟨amount, a.currency⟩

def Ledger.applyWith (A : Addition) (self : Ledger) : LedgerEvent → Outcome Ledger
  | .ledgerInitiated amount baseEvent => .ok
    { id := baseEvent.aggregateId
      accountId := baseEvent.parentId
      amount := amount
      available := amount
      pending := Money.new .zero amount.currency
      timestamp := baseEvent.createdAt }
  | .ledgerUpdated amount _ _ availableDelta pendingDelta baseEvent => do
    let available ← self.available.addWith A availableDelta
    let pending ← self.pending.addWith A pendingDelta
    return { id := baseEvent.aggregateId
             accountId := baseEvent.parentId
             amount := amount
             available := available
             pending := pending
             timestamp := baseEvent.createdAt }

def Ledger.replayWith (A : Addition) (log : List LedgerEvent) : Outcome Ledger :=
  log.foldlM (applyWith A) default

def LedgerView.updateWith (A : Addition) (self : LedgerView) : LedgerEvent → Outcome LedgerView
  | .ledgerInitiated amount baseEvent => .ok
    { id := baseEvent.aggregateId
      accountId := baseEvent.parentId
      createdAt := baseEvent.createdAt
      updatedAt := baseEvent.createdAt
      available := amount
      pending := Money.new .zero amount.currency
      current := amount }
  | .ledgerUpdated _ _ _ availableDelta pendingDelta baseEvent => do
    let available ← self.available.addWith A availableDelta
    let pending ← self.pending.addWith A pendingDelta
    let current ← available.addWith A pending
    return { self with
             id := baseEvent.aggregateId
             accountId := baseEvent.parentId
             available := available
             pending := pending
             current := current
             updatedAt := baseEvent.createdAt }

def LedgerView.projectWith (A : Addition) (log : List LedgerEvent) : Outcome LedgerView :=
  log.foldlM (updateWith A) default

/-- The ledger as the framework executes it under an addition, with commands that carry their
time. -/
def ledgerAggregateWith (A : Addition) :
    Projection.Aggregate LedgerEvent LedgerView (String × LedgerCommand) where
  handle log c := do
    let ledger ← Ledger.replayWith A log
    match ledger.handle c.1 c.2 with
    | .error e => .err e
    | .ok events => .ok events
  update := LedgerView.updateWith A
  blank := default

section Unbounded

/-! With unbounded digits these are the folds of the exact arithmetic. -/

theorem Money.addWith_unbounded (a b : Money) : a.addWith .unbounded b = a.add b := by
  unfold addWith add
  split <;> rfl

theorem Ledger.applyWith_unbounded (l : Ledger) (e : LedgerEvent) :
    l.applyWith .unbounded e = l.apply e := by
  cases e with
  | ledgerInitiated => rfl
  | ledgerUpdated => simp only [applyWith, apply, Money.addWith_unbounded]

theorem LedgerView.updateWith_unbounded (v : LedgerView) (e : LedgerEvent) :
    v.updateWith .unbounded e = v.update e := by
  cases e with
  | ledgerInitiated => rfl
  | ledgerUpdated => simp only [updateWith, update, Money.addWith_unbounded]

theorem Ledger.replayWith_unbounded (log : List LedgerEvent) :
    replayWith .unbounded log = replay log := by
  have happly : applyWith .unbounded = apply := funext₂ applyWith_unbounded
  rw [replayWith, happly, replay]

end Unbounded

def Money.Same (a b : Money) : Prop := a.currency = b.currency ∧ a.amount.toRat = b.amount.toRat

theorem Money.Same.refl (a : Money) : a.Same a := ⟨rfl, rfl⟩

theorem Money.Same.addWith {A : Addition} {a a' b b' c : Money} (ha : a'.Same a)
    (hb : b'.Same b) (hc : a.add b = .ok c) (hheld : Representable c.amount.toRat) :
    ∃ c', a'.addWith A b' = .ok c' ∧ c'.Same c := by
  unfold Money.add at hc
  split at hc
  · cases hc
  · rename_i hcurrency
    obtain rfl := Outcome.ok.inj hc
    have hsum : (a.amount + b.amount).toRat = a'.amount.toRat + b'.amount.toRat := by
      rw [Decimal.toRat_add, ha.2, hb.2]
    rw [hsum] at hheld
    obtain ⟨d, hd, hvalue⟩ := A.add_eq a'.amount b'.amount hheld
    refine ⟨⟨d, a'.currency⟩, ?_, ha.1, hvalue.trans hsum.symm⟩
    rw [Money.addWith, if_neg (by rwa [ha.1, hb.1]), hd]
    rfl

/-- The type holds each balance of the view. -/
structure LedgerView.Held (v : LedgerView) : Prop where
  available : Representable v.available.amount.toRat
  pending : Representable v.pending.amount.toRat
  current : Representable v.current.amount.toRat

/-- No addition in the balances of the log needs more digits than the type holds. -/
def NoneRounds (log : List LedgerEvent) : Prop :=
  ∀ before, before <+: log → ∀ v, LedgerView.project before = .ok v → v.Held

/-- The view shows these balances, by value. -/
structure LedgerView.Shows (v w : LedgerView) : Prop where
  available : v.available.Same w.available
  pending : v.pending.Same w.pending
  current : v.current.Same w.current

/-- The aggregate has the balances of this view, by value. -/
structure Ledger.Shows (l : Ledger) (v : LedgerView) : Prop where
  available : l.available.Same v.available
  pending : l.pending.Same v.pending

/-- An event moves the view under the addition as it moves the exact one. -/
theorem LedgerView.Shows.updateWith {A : Addition} {v v' w : LedgerView} (h : v'.Shows v)
    {e : LedgerEvent} (hw : v.update e = .ok w) (hheld : w.Held) :
    ∃ w', v'.updateWith A e = .ok w' ∧ w'.Shows w := by
  cases e with
  | ledgerInitiated amount b =>
    obtain rfl := Outcome.ok.inj hw
    exact ⟨_, rfl, .refl _, .refl _, .refl _⟩
  | ledgerUpdated amount tx kind availableDelta pendingDelta b =>
    simp only [LedgerView.update, Outcome.bind_eq_ok] at hw
    obtain ⟨a, ha, p, hp, c, hc, hw⟩ := hw
    obtain rfl := Outcome.ok.inj hw
    obtain ⟨a', ha', hsame⟩ := h.available.addWith (A := A) (.refl _) ha hheld.available
    obtain ⟨p', hp', hsame'⟩ := h.pending.addWith (A := A) (.refl _) hp hheld.pending
    obtain ⟨c', hc', hsame''⟩ := hsame.addWith (A := A) hsame' hc hheld.current
    refine ⟨{ v' with
      id := b.aggregateId
      accountId := b.parentId
      available := a'
      pending := p'
      current := c'
      updatedAt := b.createdAt }, ?_, hsame, hsame', hsame''⟩
    rw [LedgerView.updateWith, ha', Outcome.ok_bind, hp', Outcome.ok_bind, hc']
    rfl

theorem Ledger.Shows.applyWith {A : Addition} {l : Ledger} {v w : LedgerView} (h : l.Shows v)
    {e : LedgerEvent} (hw : v.update e = .ok w) (hheld : w.Held) :
    ∃ l', l.applyWith A e = .ok l' ∧ l'.Shows w := by
  cases e with
  | ledgerInitiated amount b =>
    obtain rfl := Outcome.ok.inj hw
    exact ⟨_, rfl, .refl _, .refl _⟩
  | ledgerUpdated amount tx kind availableDelta pendingDelta b =>
    simp only [LedgerView.update, Outcome.bind_eq_ok] at hw
    obtain ⟨a, ha, p, hp, c, hc, hw⟩ := hw
    obtain rfl := Outcome.ok.inj hw
    obtain ⟨a', ha', hsame⟩ := h.available.addWith (A := A) (.refl _) ha hheld.available
    obtain ⟨p', hp', hsame'⟩ := h.pending.addWith (A := A) (.refl _) hp hheld.pending
    refine ⟨{
      id := b.aggregateId
      accountId := b.parentId
      amount := amount
      available := a'
      pending := p'
      timestamp := b.createdAt }, ?_, hsame, hsame'⟩
    rw [Ledger.applyWith, ha', Outcome.ok_bind, hp']
    rfl

/-- Where no addition rounds, both folds of a log under the addition show its exact balances. -/
theorem NoneRounds.folds (A : Addition) {log : List LedgerEvent} (h : NoneRounds log)
    {v : LedgerView} (hv : LedgerView.project log = .ok v) :
    (∃ v', LedgerView.projectWith A log = .ok v' ∧ v'.Shows v) ∧
      ∃ l, Ledger.replayWith A log = .ok l ∧ l.Shows v := by
  induction log using List.reverseRecOn generalizing v with
  | nil =>
    obtain rfl := Outcome.ok.inj hv
    exact ⟨⟨_, rfl, .refl _, .refl _, .refl _⟩, _, rfl, .refl _, .refl _⟩
  | append_singleton log e ih =>
    have hlast : v.Held := h _ (List.prefix_refl _) v hv
    rw [LedgerView.project, List.foldlM_append, Outcome.bind_eq_ok] at hv
    obtain ⟨u, hu, hstep⟩ := hv
    have hbefore : NoneRounds log := fun before hbefore =>
      h before (hbefore.trans (List.prefix_append _ _))
    obtain ⟨⟨u', hu', hshows⟩, l, hl, hledger⟩ := ih hbefore hu
    rw [List.foldlM_cons, Outcome.bind_eq_ok] at hstep
    obtain ⟨w, hw, hend⟩ := hstep
    obtain rfl := Outcome.ok.inj hend
    obtain ⟨w', hw', hshows'⟩ := hshows.updateWith (A := A) hw hlast
    obtain ⟨l', hl', hledger'⟩ := hledger.applyWith (A := A) hw hlast
    refine ⟨⟨w', ?_, hshows'⟩, l', ?_, hledger'⟩
    · rw [LedgerView.projectWith, List.foldlM_append]
      change LedgerView.projectWith A log >>= _ = _
      rw [hu', Outcome.ok_bind, List.foldlM_cons, hw']
      rfl
    · rw [Ledger.replayWith, List.foldlM_append]
      change Ledger.replayWith A log >>= _ = _
      rw [hl, Outcome.ok_bind, List.foldlM_cons, hl']
      rfl

/-- Every beginning of the log has balances that fit as they are written. -/
def FitsEach (log : List LedgerEvent) : Prop :=
  ∀ before ∈ log.inits, ∀ v ∈ (LedgerView.project before).toOption,
    v.available.amount.Fits ∧ v.pending.amount.Fits ∧ v.current.amount.Fits

instance (log : List LedgerEvent) : Decidable (FitsEach log) :=
  inferInstanceAs (Decidable (∀ before ∈ log.inits, _))

theorem FitsEach.noneRounds {log : List LedgerEvent} (h : FitsEach log) : NoneRounds log := by
  intro before hbefore v hv
  obtain ⟨havailable, hpending, hcurrent⟩ :=
    h before ((List.mem_inits _ _).mpr hbefore) v (by rw [hv]; rfl)
  exact ⟨havailable.representable, hpending.representable, hcurrent.representable⟩

end Bankie
