import Bankie.Reconcile

/-!
What it is to settle outbox rows.
A row is settled by its ledger command and by the mark of its transaction, at the time that
the clock shows. Settling a list of rows appends the events of their commands to the ledgers,
in order, marks the rows and their transactions, and touches nothing else.
-/
namespace Bankie

open Program

/-- The ledger command of a row, and the ledger that it is for. -/
def Outbox.command (row : Outbox) : Option (String × LedgerCommand) :=
  (parseEvent row).toOption.map fun parsed => (parsed.1, parsed.2.1)

def Outbox.mark (ids : List Uuid) (row : Outbox) : Outbox :=
  if row.transactionId ∈ ids then { row with processed := true } else row

def Transaction.mark (ids : List Uuid) (t : Transaction) : Transaction :=
  if t.id ∈ ids then { t with status := "completed" } else t

namespace Store

def unprocessed (s : Store) : List Outbox := s.outbox.filter (fun row => row.processed = false)

def settle (s : Store) (row : Outbox) (now : String) : Outcome Store := do
  let parsed ← parseEvent row
  let s ← s.executeLedger parsed.1 parsed.2.1 now
  return s.completeTransaction parsed.2.2

def settleAll (s : Store) (rows : List (Outbox × String)) : Outcome Store :=
  rows.foldlM (fun s x => s.settle x.1 x.2) s

def setCache (cache : String → Option CacheEntry) (s : Store) : Store := { s with cache := cache }

end Store

section Marks

@[simp] theorem Outbox.map_mark_nil (rows : List Outbox) : rows.map (mark []) = rows :=
  List.map_id rows

@[simp] theorem Transaction.map_mark_nil (ts : List Transaction) : ts.map (mark []) = ts :=
  List.map_id ts

theorem Outbox.mark_mark (u : Uuid) (ids : List Uuid) (row : Outbox) :
    (row.mark [u]).mark ids = row.mark (u :: ids) := by
  by_cases hu : row.transactionId = u
  · by_cases hids : row.transactionId ∈ ids <;> simp [mark, hu]
  · by_cases hids : row.transactionId ∈ ids <;> simp [mark, hu, hids]

theorem Transaction.mark_mark (u : Uuid) (ids : List Uuid) (t : Transaction) :
    (t.mark [u]).mark ids = t.mark (u :: ids) := by
  by_cases hu : t.id = u
  · by_cases hids : t.id ∈ ids <;> simp [mark, hu]
  · by_cases hids : t.id ∈ ids <;> simp [mark, hu, hids]

theorem Outbox.mark_processed (ids : List Uuid) (row : Outbox) :
    (row.mark ids).processed = false ↔ row.processed = false ∧ row.transactionId ∉ ids := by
  by_cases hids : row.transactionId ∈ ids <;> simp [mark, hids]

theorem Outbox.unprocessed_map_mark (ids : List Uuid) (rows : List Outbox) :
    (rows.map (mark ids)).filter (fun row => row.processed = false) =
      (rows.filter (fun row => row.processed = false)).filter
        (fun row => row.transactionId ∉ ids) := by
  have hfilter : rows.filter ((fun row => decide (row.processed = false)) ∘ mark ids) =
      (rows.filter (fun row => row.processed = false)).filter
        (fun row => row.transactionId ∉ ids) := by
    rw [List.filter_filter]
    refine List.filter_congr fun row _ => ?_
    simp only [Function.comp_apply, mark_processed, ← Bool.decide_and]
    exact decide_eq_decide.mpr and_comm
  rw [List.filter_map, hfilter]
  refine (List.map_congr_left fun row hrow => ?_).trans (List.map_id _)
  exact if_neg (of_decide_eq_true (List.mem_filter.mp hrow).2)

theorem Store.completeTransaction_outbox (tx : Uuid) (s : Store) :
    (s.completeTransaction tx).outbox = s.outbox.map (Outbox.mark [tx]) := by
  simp [completeTransaction, Outbox.mark]

theorem Store.completeTransaction_transactions (tx : Uuid) (s : Store) :
    (s.completeTransaction tx).transactions = s.transactions.map (Transaction.mark [tx]) := by
  simp [completeTransaction, Transaction.mark]

end Marks

section Settle

variable {s s' : Store} {now : String}

theorem Store.executeLedger_setCache {id : String} {command : LedgerCommand}
    (h : s.executeLedger id command now = .ok s') (cache : String → Option CacheEntry) :
    (s.setCache cache).executeLedger id command now = .ok (s'.setCache cache) := by
  obtain ⟨ledger, view, hledger, hview, rfl⟩ := executeLedger_eq_ok.mp h
  exact executeLedger_eq_ok.mpr ⟨ledger, view, hledger, hview, rfl⟩

theorem Movement.settle_row (processed : Bool) (mv : Movement) (s : Store) (now : String) :
    s.settle (mv.row processed) now =
      (s.executeLedger mv.ledger.toString mv.command now >>=
        fun s => .ok (s.completeTransaction mv.tx)) := by
  rw [Store.settle, row, parseEvent_settlementRow]
  rfl

def timedRows (xs : List (Movement × String)) : List (Outbox × String) :=
  xs.map fun x => (x.1.row false, x.2)

theorem Store.settleAll_cons (s : Store) (mv : Movement) (now : String)
    (xs : List (Movement × String)) :
    s.settleAll (timedRows ((mv, now) :: xs)) =
      (s.executeLedger mv.ledger.toString mv.command now >>=
        fun s => (s.completeTransaction mv.tx).settleAll (timedRows xs)) := by
  rw [settleAll, timedRows, List.map_cons, List.foldlM_cons, mv.settle_row, bind_assoc]
  rfl

/-- What settling rows writes. -/
structure Store.Settled (s : Store) (xs : List (Movement × String)) (s' : Store) : Prop where
  outbox : s'.outbox = s.outbox.map (Outbox.mark (xs.map fun x => x.1.tx))
  transactions : s'.transactions = s.transactions.map (Transaction.mark (xs.map fun x => x.1.tx))
  ledgers : ∀ key, s'.ledgerEvents key = s.ledgerEvents key ++
    (xs.filter fun x => x.1.ledger.toString = key).flatMap fun x => x.1.command.events x.2
  cache : s'.cache = s.cache

theorem Store.settled_of_settleAll {xs : List (Movement × String)}
    (h : s.settleAll (timedRows xs) = .ok s') : s.Settled xs s' := by
  induction xs generalizing s with
  | nil =>
    obtain rfl := Outcome.ok.inj h
    exact ⟨by simp, by simp, by simp, rfl⟩
  | cons x xs ih =>
    obtain ⟨mv, now⟩ := x
    rw [settleAll_cons, Outcome.bind_eq_ok] at h
    obtain ⟨s₁, h₁, hrest⟩ := h
    obtain ⟨-, view, -, -, rfl⟩ := executeLedger_eq_ok.mp h₁
    obtain ⟨houtbox, htransactions, hledgers, hcache⟩ := ih hrest
    refine ⟨?_, ?_, fun key => ?_, hcache⟩
    · rw [houtbox, completeTransaction_outbox, List.map_map]
      exact List.map_congr_left fun row _ => Outbox.mark_mark ..
    · rw [htransactions, completeTransaction_transactions, List.map_map]
      exact List.map_congr_left fun t _ => Transaction.mark_mark ..
    · rw [hledgers]
      by_cases hkey : mv.ledger.toString = key
      · subst hkey
        simp [completeTransaction]
      · have hne : key ≠ mv.ledger.toString := fun heq => hkey heq.symm
        simp [completeTransaction, hkey, hne]

theorem Store.settleAll_setCache {xs : List (Movement × String)}
    (h : s.settleAll (timedRows xs) = .ok s') (cache : String → Option CacheEntry) :
    (s.setCache cache).settleAll (timedRows xs) = .ok (s'.setCache cache) := by
  induction xs generalizing s with
  | nil =>
    obtain rfl := Outcome.ok.inj h
    rfl
  | cons x xs ih =>
    obtain ⟨mv, now⟩ := x
    rw [settleAll_cons, Outcome.bind_eq_ok] at h
    obtain ⟨s₁, h₁, hrest⟩ := h
    rw [settleAll_cons, executeLedger_setCache h₁ cache, Outcome.ok_bind]
    exact ih hrest

end Settle

end Bankie
