import Bankie.Books
import Mathlib.Tactic.NormNum

/-!
Conservation on one ledger.
Executing a command folds the events that the handler returns into the aggregate and into
the view. Whatever the order of the commands, the balances are the sums of what was
credited, held and released: a step lemma for one command, and a run lemma for a list.
-/
namespace Bankie

open Program

namespace LedgerCommand

/-- A credit, a hold or a release in this currency. -/
def MovesIn (c : Currency) : LedgerCommand → Prop
  | .init .. => False
  | .credit _ _ _ amount => amount.currency = c
  | .debitHold _ _ _ amount => amount.currency = c
  | .debitRelease _ _ _ amount => amount.currency = c

def creditAmount : LedgerCommand → ℚ
  | .credit _ _ _ amount => amount.amount.toRat
  | _ => 0

def holdAmount : LedgerCommand → ℚ
  | .debitHold _ _ _ amount => amount.amount.toRat
  | _ => 0

def releaseAmount : LedgerCommand → ℚ
  | .debitRelease _ _ _ amount => amount.amount.toRat
  | _ => 0

theorem MovesIn.exists_posting {c : Currency} {command : LedgerCommand}
    (h : command.MovesIn c) (now : String) :
    ∃ ledger account, ∃ p : Posting, command = p.command ledger account c ∧ p.time = now ∧
      p.available = command.creditAmount - command.holdAmount ∧
      p.pending = command.holdAmount - command.releaseAmount := by
  cases command with
  | init => exact h.elim
  | credit id accountId tx amount =>
    obtain rfl : amount.currency = c := h
    refine ⟨id, accountId, ⟨.credit, tx, amount.amount, now⟩, rfl, rfl, ?_, ?_⟩
    · simp [Posting.available, creditAmount, holdAmount]
    · simp [Posting.pending, holdAmount, releaseAmount]
  | debitHold id accountId tx amount =>
    obtain rfl : amount.currency = c := h
    refine ⟨id, accountId, ⟨.hold, tx, amount.amount, now⟩, rfl, rfl, ?_, ?_⟩
    · simp [Posting.available, creditAmount, holdAmount]
    · simp [Posting.pending, holdAmount, releaseAmount]
  | debitRelease id accountId tx amount =>
    obtain rfl : amount.currency = c := h
    refine ⟨id, accountId, ⟨.release, tx, amount.amount, now⟩, rfl, rfl, ?_, ?_⟩
    · simp [Posting.available, creditAmount, holdAmount]
    · simp [Posting.pending, holdAmount, releaseAmount]

end LedgerCommand

/-- TimedCommands with the times at which they are handled. -/
abbrev TimedCommands := List (String × LedgerCommand)

namespace TimedCommands

def credits (commands : TimedCommands) : ℚ := (commands.map (fun p => p.2.creditAmount)).sum

def holds (commands : TimedCommands) : ℚ := (commands.map (fun p => p.2.holdAmount)).sum

def releases (commands : TimedCommands) : ℚ := (commands.map (fun p => p.2.releaseAmount)).sum

def MoveIn (commands : TimedCommands) (c : Currency) : Prop := ∀ p ∈ commands, p.2.MovesIn c

theorem credits_cons (p : String × LedgerCommand) (commands : TimedCommands) :
    credits (p :: commands) = p.2.creditAmount + commands.credits := List.sum_cons

theorem holds_cons (p : String × LedgerCommand) (commands : TimedCommands) :
    holds (p :: commands) = p.2.holdAmount + commands.holds := List.sum_cons

theorem releases_cons (p : String × LedgerCommand) (commands : TimedCommands) :
    releases (p :: commands) = p.2.releaseAmount + commands.releases := List.sum_cons

end TimedCommands

namespace Ledger

/-- One command: what the handler returns is folded into the ledger and into its view. -/
def execute (s : Ledger × LedgerView) (timed : String × LedgerCommand) :
    Outcome (Ledger × LedgerView) :=
  match s.1.handle timed.1 timed.2 with
  | .error e => .err e
  | .ok events => do
    let ledger ← events.foldlM Ledger.apply s.1
    let view ← events.foldlM LedgerView.update s.2
    return (ledger, view)

/-- The commands end, without an error or a panic, with these balances of the ledger and of
its view. -/
def EndsWith (s : Ledger × LedgerView) (commands : TimedCommands) (c : Currency)
    (available pending current : ℚ) : Prop :=
  ∃ l v, commands.foldlM execute s = .ok (l, v) ∧
    Balances c l.available l.pending available pending ∧
    Balances c v.available v.pending available pending ∧
    v.current.currency = c ∧ v.current.amount.toRat = current

theorem execute_command {l : Ledger} {v : LedgerView} {c : Currency} {a p : ℚ}
    (hl : l.Holds c a p) (hv : v.Holds c a p) (now : String) {command : LedgerCommand}
    (hcommand : command.MovesIn c) :
    ∃ l' v', execute (l, v) (now, command) = .ok (l', v') ∧
      l'.Holds c (a + (command.creditAmount - command.holdAmount))
        (p + (command.holdAmount - command.releaseAmount)) ∧
      v'.Holds c (a + (command.creditAmount - command.holdAmount))
        (p + (command.holdAmount - command.releaseAmount)) := by
  obtain ⟨ledger, account, q, hq, htime, havailable, hpending⟩ := hcommand.exists_posting now
  obtain ⟨l', hl', hholds⟩ := q.apply_events hl ledger account
  obtain ⟨v', hv', hholds', -, -⟩ := q.update_events hv ledger account
  have hevents : command.events now = q.events ledger account c := by
    rw [Posting.events, ← hq, htime]
  rw [havailable, hpending] at hholds hholds'
  refine ⟨l', v', ?_, hholds, hholds'⟩
  rw [execute, handle]
  simp only [hevents, hl', hv', Outcome.ok_bind]
  rfl

theorem execute_commands {l : Ledger} {v : LedgerView} {c : Currency} {a p : ℚ}
    (hl : l.Holds c a p) (hv : v.Holds c a p) {commands : TimedCommands} (h : commands.MoveIn c) :
    ∃ l' v', commands.foldlM execute (l, v) = .ok (l', v') ∧
      l'.Holds c (a + (commands.credits - commands.holds))
        (p + (commands.holds - commands.releases)) ∧
      v'.Holds c (a + (commands.credits - commands.holds))
        (p + (commands.holds - commands.releases)) := by
  induction commands generalizing l v a p with
  | nil =>
    refine ⟨l, v, rfl, ?_, ?_⟩
    · simpa [TimedCommands.credits, TimedCommands.holds, TimedCommands.releases] using hl
    · simpa [TimedCommands.credits, TimedCommands.holds, TimedCommands.releases] using hv
  | cons timed commands ih =>
    obtain ⟨l₁, v₁, hexec, hl₁, hv₁⟩ :=
      execute_command hl hv timed.1 (h timed List.mem_cons_self)
    obtain ⟨l', v', hrest, hl', hv'⟩ :=
      ih hl₁ hv₁ (fun q hq => h q (List.mem_cons_of_mem _ hq))
    have havailable : a + (timed.2.creditAmount - timed.2.holdAmount) +
        (TimedCommands.credits commands - TimedCommands.holds commands) =
        a + (timed.2.creditAmount + TimedCommands.credits commands -
          (timed.2.holdAmount + TimedCommands.holds commands)) := by ring
    have hpending : p + (timed.2.holdAmount - timed.2.releaseAmount) +
        (TimedCommands.holds commands - TimedCommands.releases commands) =
        p + (timed.2.holdAmount + TimedCommands.holds commands -
          (timed.2.releaseAmount + TimedCommands.releases commands)) := by ring
    rw [TimedCommands.credits_cons, TimedCommands.holds_cons, TimedCommands.releases_cons]
    rw [havailable, hpending] at hl' hv'
    refine ⟨l', v', ?_, hl', hv'⟩
    rw [List.foldlM_cons, hexec, Outcome.ok_bind, hrest]

/-- The commands after an `Init`, whatever the ledger held before it. -/
theorem endsWith_init (s : Ledger × LedgerView) (now : String) (id accountId : Uuid)
    (initial : Money) {commands : TimedCommands} (h : commands.MoveIn initial.currency) :
    EndsWith s ((now, .init id accountId initial) :: commands) initial.currency
      (initial.amount.toRat + commands.credits - commands.holds)
      (commands.holds - commands.releases)
      (initial.amount.toRat + commands.credits - commands.releases) := by
  obtain ⟨l, v, hinit, hl, hv⟩ : ∃ l v,
      execute s (now, .init id accountId initial) = .ok (l, v) ∧
        l.Holds initial.currency initial.amount.toRat 0 ∧
        v.Holds initial.currency initial.amount.toRat 0 := by
    refine ⟨_, _, rfl, ⟨rfl, rfl, rfl, ?_⟩, ⟨rfl, rfl, rfl, ?_⟩, rfl, ?_⟩
    · exact Decimal.toRat_zero
    · exact Decimal.toRat_zero
    · exact (add_zero _).symm
  obtain ⟨l', v', hrest, hl', hv', hcurrency, hcurrent⟩ := execute_commands hl hv h
  rw [← add_sub_assoc, zero_add] at hl' hv'
  refine ⟨l', v', ?_, hl', hv', hcurrency, ?_⟩
  · rw [List.foldlM_cons, hinit, Outcome.ok_bind, hrest]
  · rw [hcurrent]
    ring

theorem EndsWith.unique {s : Ledger × LedgerView} {commands : TimedCommands} {c c' : Currency}
    {a p q a' p' q' : ℚ} (h : EndsWith s commands c a p q) (h' : EndsWith s commands c' a' p' q') :
    a = a' ∧ p = p' ∧ q = q' := by
  obtain ⟨l, v, hrun, -, ⟨-, -, ha, hp⟩, -, hq⟩ := h
  obtain ⟨l', v', hrun', -, ⟨-, -, ha', hp'⟩, -, hq'⟩ := h'
  obtain ⟨rfl, rfl⟩ := Prod.mk.inj (Outcome.ok.inj (hrun.symm.trans hrun'))
  exact ⟨ha.symm.trans ha', hp.symm.trans hp', hq.symm.trans hq'⟩

/-- Conservation: the balances are the initial amount and the sums over the commands, in
any order, and a hold that is released again leaves only its debit. -/
theorem balances_conserved (s : Ledger × LedgerView) (now : String) (id accountId : Uuid)
    (initial : Money) (commands : TimedCommands) (h : commands.MoveIn initial.currency) :
    EndsWith s ((now, .init id accountId initial) :: commands) initial.currency
        (initial.amount.toRat + commands.credits - commands.holds)
        (commands.holds - commands.releases)
        (initial.amount.toRat + commands.credits - commands.releases) ∧
      (∀ commands' : TimedCommands, commands'.Perm commands → ∀ a p q,
        EndsWith s ((now, .init id accountId initial) :: commands) initial.currency a p q →
        EndsWith s ((now, .init id accountId initial) :: commands') initial.currency a p q) ∧
      ∀ (xs ys zs : TimedCommands) (t u : String) (id₁ account₁ tx₁ id₂ account₂ tx₂ : Uuid)
        (amount : Money), commands = xs ++ (t, .debitHold id₁ account₁ tx₁ amount) ::
          (ys ++ (u, .debitRelease id₂ account₂ tx₂ amount) :: zs) → ∀ a p q,
        EndsWith s ((now, .init id accountId initial) :: (xs ++ (ys ++ zs)))
          initial.currency a p q →
        EndsWith s ((now, .init id accountId initial) :: commands) initial.currency
          (a - amount.amount.toRat) p (q - amount.amount.toRat) := by
  have hcommands := endsWith_init s now id accountId initial h
  refine ⟨hcommands, ?_, ?_⟩
  · intro commands' hperm a p q hends
    obtain ⟨rfl, rfl, rfl⟩ := hends.unique hcommands
    have hmoves : commands'.MoveIn initial.currency := fun x hx => h x (hperm.mem_iff.mp hx)
    have hsame := endsWith_init s now id accountId initial hmoves
    have hcredits : commands'.credits = commands.credits := (hperm.map _).sum_eq
    have hholds : commands'.holds = commands.holds := (hperm.map _).sum_eq
    have hreleases : commands'.releases = commands.releases := (hperm.map _).sum_eq
    rw [hcredits, hholds, hreleases] at hsame
    exact hsame
  · rintro xs ys zs t u id₁ account₁ tx₁ id₂ account₂ tx₂ amount rfl a p q hends
    have hothers : TimedCommands.MoveIn (xs ++ (ys ++ zs)) initial.currency := by
      intro x hx
      apply h x
      simp only [List.mem_append, List.mem_cons] at hx ⊢
      tauto
    obtain ⟨rfl, rfl, rfl⟩ :=
      hends.unique (endsWith_init s now id accountId initial hothers)
    convert hcommands using 1 <;>
      simp only [TimedCommands.credits, TimedCommands.holds, TimedCommands.releases,
        LedgerCommand.creditAmount, LedgerCommand.holdAmount, LedgerCommand.releaseAmount,
        List.map_append, List.map_cons, List.sum_append, List.sum_cons] <;>
      ring

/-- A withdrawal of 30 from 100, held and then released. -/
theorem balances_conserved_withdrawal :
    EndsWith (default, default)
      [("", .init (Uuid.ofNat 1) (Uuid.ofNat 2) ⟨.ofInt 100, .usd⟩),
        ("", .debitHold (Uuid.ofNat 1) (Uuid.ofNat 2) (Uuid.ofNat 3) ⟨.ofInt 30, .usd⟩),
        ("", .debitRelease (Uuid.ofNat 1) (Uuid.ofNat 2) (Uuid.ofNat 3) ⟨.ofInt 30, .usd⟩)]
      .usd 70 0 70 := by
  have h := (balances_conserved (default, default) "" (Uuid.ofNat 1) (Uuid.ofNat 2)
    ⟨.ofInt 100, .usd⟩
    [("", .debitHold (Uuid.ofNat 1) (Uuid.ofNat 2) (Uuid.ofNat 3) ⟨.ofInt 30, .usd⟩),
      ("", .debitRelease (Uuid.ofNat 1) (Uuid.ofNat 2) (Uuid.ofNat 3) ⟨.ofInt 30, .usd⟩)]
    (by simp [TimedCommands.MoveIn, LedgerCommand.MovesIn])).1
  norm_num [TimedCommands.credits, TimedCommands.holds, TimedCommands.releases,
    LedgerCommand.creditAmount, LedgerCommand.holdAmount, LedgerCommand.releaseAmount,
    Decimal.toRat, Decimal.ofInt] at h
  exact h

end Ledger

end Bankie
