import Bankie.Handling

/-!
What the checks of an order let through.
A missing row is only logged, and a comparison across currencies is false both ways. So the
checks pass whatever the missing rows would have refused, and are sound exactly where the
rows that they look for are there.
-/
namespace Bankie

open Program

namespace Store

/-- What passed checks are to mean: an approved account in the currency of the amount, with a
ledger in that currency that has the funds. -/
def Admits (s : Store) (accountId : Uuid) (action : LedgerAction) (amount : Money) : Prop :=
  ∃ v ∈ s.accountViews.lookup accountId.toString, v.status = .approved ∧
    v.currency = amount.currency ∧ ∃ l ∈ s.ledgerViews.lookup v.ledgerId,
      l.available.currency = amount.currency ∧
        (action = .withdraw → amount.amount.toRat ≤ l.available.amount.toRat)

/-- What the checks let through: a row that is not there refuses nothing. -/
def Lets (s : Store) (accountId : Uuid) (action : LedgerAction) (amount : Money) : Prop :=
  ∀ v ∈ s.accountViews.lookup accountId.toString, v.status = .approved ∧
    v.currency = amount.currency ∧ ∀ l ∈ s.ledgerViews.lookup v.ledgerId,
      action = .withdraw → ¬ l.available.Lt amount

/-- The account has its row; and if that passes, its ledger has a row, in the currency of the
amount. -/
def Shown (s : Store) (accountId : Uuid) (amount : Money) : Prop :=
  ∃ v ∈ s.accountViews.lookup accountId.toString,
    v.status = .approved → v.currency = amount.currency →
      ∃ l ∈ s.ledgerViews.lookup v.ledgerId, l.available.currency = amount.currency

end Store

section Rules

variable {O : Oracle → Prop} {s : Store} {accountId : Uuid} {action : LedgerAction}
  {amount : Money} {Q : Outcome Unit → Store → Prop}

theorem validateAccount_spec (view : Option BankAccountView)
    (hok : (∀ v ∈ view, v.status = .approved ∧ v.currency = amount.currency ∧
      ∀ l ∈ s.ledgerViews.lookup v.ledgerId, action = .withdraw → ¬ l.available.Lt amount) →
        Q (.ok ()) s)
    (herr : (MayFail O ∨ ¬ ∀ v ∈ view, v.status = .approved ∧ v.currency = amount.currency ∧
      ∀ l ∈ s.ledgerViews.lookup v.ledgerId, action = .withdraw → ¬ l.available.Lt amount) →
        ∀ e, Q (.err e) s) :
    (BankAccountLogic.validateAccount action amount view).wp exec O Q s := by
  cases view with
  | none => exact hok fun _ hv => by cases hv
  | some v =>
    rw [BankAccountLogic.validateAccount]
    split
    · rename_i hstatus
      exact herr (Or.inr fun hall => hstatus (hall v rfl).1) _
    · rename_i hstatus
      split
      · rename_i hcurrency
        exact herr (Or.inr fun hall => hcurrency (hall v rfl).2.1) _
      · rename_i hcurrency
        refine Prog.wp_bind (wp_call (fun hfail e => herr (Or.inl hfail) e) fun now => ?_)
        refine validateLedger_spec _ _ _ (fun hfunds => hok fun v' hv' => ?_)
          fun hfunds => herr (Or.inr fun hall => hfunds (hall v rfl).2.2)
        obtain rfl := Option.some.inj hv'
        exact ⟨not_not.mp hstatus, not_not.mp hcurrency, hfunds⟩

/-- The checks end in an error, or they let the amount through. -/
theorem validate_lets (hok : s.Lets accountId action amount → Q (.ok ()) s)
    (herr : (MayFail O ∨ ¬ s.Lets accountId action amount) → ∀ e, Q (.err e) s) :
    (BankAccountLogic.validate accountId action amount).wp exec O Q s :=
  Prog.wp_bind (wp_call (fun hfail e => herr (Or.inl hfail) e) fun _ =>
    validateAccount_spec _ hok herr)

end Rules

section Soundness

variable {s : Store} {accountId : Uuid} {action : LedgerAction} {amount : Money}

/-- The run of the checks on these contents. -/
def Store.validates (s : Store) (accountId : Uuid) (action : LedgerAction) (amount : Money)
    (os : ℕ → Oracle) : Outcome Unit :=
  ((BankAccountLogic.validate accountId action amount).run exec os s).1

theorem Store.lets_of_validates {os : ℕ → Oracle}
    (h : s.validates accountId action amount os = .ok ()) : s.Lets accountId action amount := by
  have hwp : (BankAccountLogic.validate accountId action amount).wp exec (fun _ => True)
      (fun r _ => r = .ok () → s.Lets accountId action amount) s :=
    validate_lets (fun hlets _ => hlets) fun _ _ herr => by cases herr
  exact Prog.wp_run hwp (fun _ => trivial) h

theorem Store.Lets.validates (h : s.Lets accountId action amount) {os : ℕ → Oracle}
    (hos : ∀ n, (os n).Succeeds) : s.validates accountId action amount os = .ok () := by
  have hwp : (BankAccountLogic.validate accountId action amount).wp exec Oracle.Succeeds
      (fun r _ => r = .ok ()) s := by
    refine validate_lets (fun _ => rfl) fun hfails => ?_
    rcases hfails with ⟨o, ho, hne⟩ | hno
    · exact absurd ho hne
    · exact absurd h hno
  exact Prog.wp_run hwp hos

theorem Money.le_of_not_lt {a b : Money} (hc : a.currency = b.currency) (h : ¬ a.Lt b) :
    b.amount.toRat ≤ a.amount.toRat := by
  rw [Money.lt_iff] at h
  exact not_lt.mp fun hlt => h ⟨hc, hlt⟩

theorem Store.Lets.admits (h : s.Lets accountId action amount) (hshown : s.Shown accountId amount) :
    s.Admits accountId action amount := by
  obtain ⟨v, hv, hledger⟩ := hshown
  obtain ⟨hstatus, hcurrency, hfunds⟩ := h v hv
  obtain ⟨l, hl, hlc⟩ := hledger hstatus hcurrency
  exact ⟨v, hv, hstatus, hcurrency, l, hl, hlc,
    fun haction => Money.le_of_not_lt hlc (hfunds l hl haction)⟩

theorem Store.lets_of_not_shown (h : ¬ s.Shown accountId amount) :
    s.Lets accountId action amount := by
  intro v hv
  by_contra hno
  refine h ⟨v, hv, fun hstatus hcurrency => ?_⟩
  by_contra hmissing
  refine hno ⟨hstatus, hcurrency, fun l hl _ hlt => hmissing ⟨l, hl, ?_⟩⟩
  exact ((Money.lt_iff _ _).mp hlt).1

theorem Store.Admits.shown (h : s.Admits accountId action amount) : s.Shown accountId amount := by
  obtain ⟨v, hv, -, -, l, hl, hlc, -⟩ := h
  exact ⟨v, hv, fun _ _ => ⟨l, hl, hlc⟩⟩

end Soundness

/-- The checks are sound exactly where the rows that they look for are there, and that of the
ledger is in the currency of the amount. -/
theorem validate_sound_iff (s : Store) (accountId : Uuid) (action : LedgerAction)
    (amount : Money) :
    (∀ os, s.validates accountId action amount os = .ok () →
      s.Admits accountId action amount) ↔ s.Shown accountId amount := by
  constructor
  · intro hsound
    by_contra hno
    have hlets : s.Lets accountId action amount := Store.lets_of_not_shown hno
    let up : Oracle := ⟨none, ""⟩
    exact hno (hsound (fun _ => up) (hlets.validates fun _ => rfl)).shown
  · intro hshown os hok
    exact (Store.lets_of_validates hok).admits hshown

def Scenario.unledgered : Store :=
  { Store.init [] with
    accountViews := (∅ : AList fun _ : String => BankAccountView).insert (uid 10).toString
      { (default : BankAccountView) with
        id := (uid 10).toString
        ledgerId := (uid 11).toString
        status := .approved } }

/-- A withdrawal of a million passes the checks of an account whose ledger has no row. -/
theorem not_validate_sound : ∃ s accountId action amount os,
    Store.validates s accountId action amount os = .ok () ∧
      ¬ s.Admits accountId action amount := by
  refine ⟨Scenario.unledgered, Scenario.uid 10, .withdraw, Scenario.usd 1000000,
    fun _ => Scenario.up, by decide +kernel, ?_⟩
  rintro ⟨v, -, -, -, l, hl, -⟩
  have hnone : Scenario.unledgered.ledgerViews.lookup v.ledgerId = none :=
    AList.lookup_empty v.ledgerId
  cases hnone.symm.trans hl

end Bankie
