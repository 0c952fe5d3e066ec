import Bankie.Lists
import Bankie.Program
import Bankie.Transition

/-!
An event log and a view row that follows it.
An execute loads the log, appends its events if no other has appended since, and then reads
the row, applies its own events to it and writes it back. Appends are serialised by the
sequence numbers of the log; between the append and the write nothing orders the executes.
-/
namespace Bankie.Projection

open Program Transition

variable {E V C : Type}

/-- Commands that emit events on what the log replays to, and a view of the events. -/
structure Aggregate (E V C : Type) where
  handle : List E → C → Outcome (List E)
  update : V → E → Outcome V
  blank : V

def Aggregate.project (A : Aggregate E V C) (log : List E) : Outcome V :=
  log.foldlM A.update A.blank

structure Table (E V : Type) where
  log : List E
  row : Option V

/-- The row is there, and it is what the log comes to. -/
def Table.Current (A : Aggregate E V C) (t : Table E V) : Prop :=
  ∃ v, t.row = some v ∧ A.project t.log = .ok v

/-- An execute, by the access that it makes next. The sequence is the number of events that
it has loaded. -/
inductive Execute (E V C : Type) where
  | load (command : C)
  | append (sequence : ℕ) (events : List E)
  | readRow (sequence : ℕ) (events : List E)
  | writeRow (sequence : ℕ) (events : List E) (row : V)
  | returned (result : Outcome Unit)

namespace Execute

/-- What is committed and not yet in the row: the events, and how many came before them. -/
def unwritten : Execute E V C → Option (ℕ × List E)
  | readRow sequence events => some (sequence, events)
  | writeRow sequence events _ => some (sequence, events)
  | _ => none

def Succeeded : Execute E V C → Prop
  | returned (.ok _) => True
  | _ => False

instance (x : Execute E V C) : Decidable x.Succeeded :=
  match x with
  | returned (.ok _) => .isTrue trivial
  | returned (.err _) => .isFalse id
  | returned (.panic _) => .isFalse id
  | load _ => .isFalse id
  | append _ _ => .isFalse id
  | readRow _ _ => .isFalse id
  | writeRow _ _ _ => .isFalse id

/-- One access to the table. A command without events has nothing to commit; an update has
no way to fail but a panic. -/
def step (A : Aggregate E V C) (t : Table E V) :
    Execute E V C → Option (Execute E V C × Table E V)
  | load command =>
    match A.handle t.log command with
    | .ok [] => some (returned (.ok ()), t)
    | .ok events => some (append t.log.length events, t)
    | .err e => some (returned (.err e), t)
    | .panic e => some (returned (.panic e), t)
  | append sequence events =>
    if sequence < t.log.length then some (returned (.err "aggregate conflict"), t)
    else some (readRow sequence events, { t with log := t.log ++ events })
  | readRow sequence events =>
    match events.foldlM A.update (t.row.getD A.blank) with
    | .ok row => some (writeRow sequence events row, t)
    | .err e => some (returned (.panic e), t)
    | .panic e => some (returned (.panic e), t)
  | writeRow _ _ row => some (returned (.ok ()), { t with row := some row })
  | returned _ => none

end Execute

/-- Any number of executes over one table. -/
structure State (E V C : Type) where
  table : Table E V
  executes : List (Execute E V C)

inductive Move (C : Type) where
  | start (command : C)
  | step (i : ℕ)

def State.next (A : Aggregate E V C) (st : State E V C) : Move C → Option (State E V C)
  | .start command => some { st with executes := st.executes ++ [.load command] }
  | .step i =>
    match st.executes[i]? with
    | none => none
    | some x => (x.step A st.table).map (fun r => ⟨r.2, st.executes.set i r.1⟩)

/-- All interleavings of executes from a table whose row is what its log comes to. -/
def machine (A : Aggregate E V C) : Machine (State E V C) (Move C) where
  Init st := st.table.Current A ∧ st.executes = []
  Step st a st' := st.next A a = some st'

def Execute.reads : Execute E V C → Option ℕ
  | readRow sequence _ => some sequence
  | _ => none

/-- An execute reads the row only when all that was committed before its events is in it. -/
def State.InOrder (st : State E V C) : Move C → Prop
  | .start _ => True
  | .step i => ∀ sequence ∈ st.executes[i]?.bind Execute.reads,
      ∀ x ∈ st.executes, ∀ u ∈ x.unwritten, sequence ≤ u.1

instance (st : State E V C) (a : Move C) : Decidable (st.InOrder a) :=
  match a with
  | .start _ => .isTrue trivial
  | .step i => inferInstanceAs (Decidable (∀ sequence ∈ st.executes[i]?.bind Execute.reads,
      ∀ x ∈ st.executes, ∀ u ∈ x.unwritten, sequence ≤ u.1))

/-- The steps of an execute, for as long as it runs alone. -/
def Execute.alone (A : Aggregate E V C) :
    ℕ → Execute E V C → Table E V → Execute E V C × Table E V
  | 0, x, t => (x, t)
  | n + 1, x, t =>
    match x.step A t with
    | none => (x, t)
    | some (x', t') => x'.alone A n t'

theorem Execute.alone_succ {A : Aggregate E V C} {x x' : Execute E V C} {t t' : Table E V}
    (h : x.step A t = some (x', t')) (n : ℕ) : x.alone A (n + 1) t = x'.alone A n t' := by
  rw [alone, h]

/-- An execute that runs alone appends its events and updates the row with them. -/
theorem Execute.alone_load {A : Aggregate E V C} {t : Table E V} {command : C} {events : List E}
    {v : V} (hhandle : A.handle t.log command = .ok events) (hne : events ≠ [])
    (hrow : events.foldlM A.update (t.row.getD A.blank) = .ok v) :
    (load command).alone A 4 t = (returned (.ok ()), ⟨t.log ++ events, some v⟩) := by
  have hload : (load command).step A t = some (append t.log.length events, t) := by
    obtain ⟨e, es, rfl⟩ := List.exists_cons_of_ne_nil hne
    rw [step, hhandle]
  have happend : (append t.log.length events : Execute E V C).step A t =
      some (readRow t.log.length events, { t with log := t.log ++ events }) :=
    if_neg (lt_irrefl _)
  have hread : (readRow t.log.length events : Execute E V C).step A
      { t with log := t.log ++ events } =
        some (writeRow t.log.length events v, { t with log := t.log ++ events }) := by
    rw [step, hrow]
  rw [alone_succ hload, alone_succ happend, alone_succ hread, alone_succ rfl]
  rfl

section Tiles

/-- The batches follow one another from this position and make up the list. -/
def Tiles : ℕ → List (ℕ × List E) → List E → Prop
  | _, [], rest => rest = []
  | start, (n, events) :: queue, rest =>
    n = start ∧ events ≠ [] ∧ ∃ rest', rest = events ++ rest' ∧
      Tiles (start + events.length) queue rest'

theorem Tiles.concat {start : ℕ} {queue : List (ℕ × List E)} {rest : List E}
    (h : Tiles start queue rest) {events : List E} (hne : events ≠ []) :
    Tiles start (queue ++ [(start + rest.length, events)]) (rest ++ events) := by
  induction queue generalizing start rest with
  | nil =>
    obtain rfl : rest = [] := h
    exact ⟨rfl, hne, [], by simp, rfl⟩
  | cons b queue ih =>
    obtain ⟨n, es⟩ := b
    obtain ⟨rfl, hes, rest', rfl, hrest⟩ := h
    refine ⟨rfl, hes, rest' ++ events, by simp, ?_⟩
    have htail := ih hrest
    rwa [Nat.add_assoc, ← List.length_append] at htail

theorem Tiles.le {start : ℕ} {queue : List (ℕ × List E)} {rest : List E}
    (h : Tiles start queue rest) {b : ℕ × List E} (hb : b ∈ queue) : start ≤ b.1 := by
  induction queue generalizing start rest with
  | nil => cases hb
  | cons c queue ih =>
    obtain ⟨n, es⟩ := c
    obtain ⟨rfl, -, rest', -, hrest⟩ := h
    rcases List.mem_cons.mp hb with rfl | htail
    · exact le_rfl
    · exact (Nat.le_add_right _ _).trans (ih hrest htail)

theorem Tiles.head {start : ℕ} {queue : List (ℕ × List E)} {rest : List E}
    (h : Tiles start queue rest) {events : List E} (hb : (start, events) ∈ queue) :
    ∃ queue' rest', queue = (start, events) :: queue' ∧ rest = events ++ rest' ∧
      Tiles (start + events.length) queue' rest' := by
  cases queue with
  | nil => cases hb
  | cons c queue =>
    obtain ⟨n, es⟩ := c
    obtain ⟨rfl, hes, rest', rfl, hrest⟩ := h
    rcases List.mem_cons.mp hb with heq | htail
    · obtain rfl := (Prod.mk.inj heq).2
      exact ⟨queue, rest', rfl, rfl, hrest⟩
    · have hpos := List.length_pos_iff.mpr hes
      have hle := hrest.le htail
      simp only at hle
      omega

end Tiles

section Follows

variable {A : Aggregate E V C} {st st' : State E V C}

/-- The row is what the written events come to, and the rest of the log is queued in the
executes, in the order of their appends. -/
structure Follows (A : Aggregate E V C) (st : State E V C) (written rest : List E)
    (queue : List (ℕ × List E)) : Prop where
  log : st.table.log = written ++ rest
  row : ∃ v, st.table.row = some v ∧ A.project written = .ok v
  tiles : Tiles written.length queue rest
  queued : (st.executes.filterMap Execute.unwritten).Perm queue
  loaded : ∀ n events, .append n events ∈ st.executes →
    n ≤ st.table.log.length ∧ events ≠ []
  read : ∀ n events v, .writeRow n events v ∈ st.executes →
    n = written.length ∧ A.project (written ++ events) = .ok v

def State.Panicked (st : State E V C) : Prop := ∃ e, .returned (.panic e) ∈ st.executes

/-- The row follows the log, unless some execute was lost. -/
def State.Follows (A : Aggregate E V C) (st : State E V C) : Prop :=
  st.Panicked ∨ ∃ written rest queue, Projection.Follows A st written rest queue

variable {written rest : List E} {queue : List (ℕ × List E)} {i : ℕ} {x y : Execute E V C}

theorem perm_set (h : st.executes[i]? = some x) (hsame : y.unwritten = x.unwritten) :
    ((st.executes.set i y).filterMap Execute.unwritten).Perm
      (st.executes.filterMap Execute.unwritten) := by
  obtain ⟨others, hold, hnew⟩ := exists_perm_filterMap Execute.unwritten h
  have hperm := hnew y
  rw [hsame] at hperm
  exact hperm.trans hold.symm

theorem Follows.move (h : Follows A st written rest queue) (hi : st.executes[i]? = some x)
    (hsame : y.unwritten = x.unwritten)
    (hloaded : ∀ n events, y = .append n events →
      n ≤ st.table.log.length ∧ events ≠ [])
    (hread : ∀ n events v, y = .writeRow n events v →
      n = written.length ∧ A.project (written ++ events) = .ok v) :
    Follows A ⟨st.table, st.executes.set i y⟩ written rest queue := by
  refine ⟨h.log, h.row, h.tiles, (perm_set hi hsame).trans h.queued, ?_, ?_⟩
  · intro n events hmem
    rcases List.mem_or_eq_of_mem_set hmem with hold | hnew
    · exact h.loaded n events hold
    · exact hloaded n events hnew.symm
  · intro n events v hmem
    rcases List.mem_or_eq_of_mem_set hmem with hold | hnew
    · exact h.read n events v hold
    · exact hread n events v hnew.symm

theorem Follows.start (h : Follows A st written rest queue) (command : C) :
    Follows A { st with executes := st.executes ++ [.load command] } written rest queue := by
  refine ⟨h.log, h.row, h.tiles, ?_, ?_, ?_⟩
  · have hnone : (Execute.load command : Execute E V C).unwritten = none := rfl
    rw [List.filterMap_append, List.filterMap_cons_none hnone, List.filterMap_nil,
      List.append_nil]
    exact h.queued
  · intro n events hmem
    rcases List.mem_append.mp hmem with hold | hnew
    · exact h.loaded n events hold
    · cases List.mem_singleton.mp hnew
  · intro n events v hmem
    rcases List.mem_append.mp hmem with hold | hnew
    · exact h.read n events v hold
    · cases List.mem_singleton.mp hnew

theorem Follows.append (h : Follows A st written rest queue) {n : ℕ} {events : List E}
    (hi : st.executes[i]? = some (.append n events)) (hn : ¬ n < st.table.log.length) :
    Follows A ⟨{ st.table with log := st.table.log ++ events },
        st.executes.set i (.readRow n events)⟩ written (rest ++ events)
      (queue ++ [(written.length + rest.length, events)]) := by
  obtain ⟨hle, hne⟩ := h.loaded n events (List.mem_of_getElem? hi)
  have hposition : n = written.length + rest.length := by
    rw [← List.length_append, ← h.log]
    omega
  subst hposition
  obtain ⟨others, hold, hnew⟩ := exists_perm_filterMap Execute.unwritten hi
  refine ⟨?_, h.row, h.tiles.concat hne, ?_, ?_, ?_⟩
  · simp only [h.log, List.append_assoc]
  · refine (hnew _).trans ?_
    have hqueue : others.Perm queue := hold.symm.trans h.queued
    exact ((List.perm_append_singleton _ queue).trans (hqueue.symm.cons _)).symm
  · intro n' events' hmem
    rcases List.mem_or_eq_of_mem_set hmem with hbefore | hafter
    · obtain ⟨hle', hne'⟩ := h.loaded n' events' hbefore
      refine ⟨hle'.trans ?_, hne'⟩
      rw [List.length_append]
      exact Nat.le_add_right _ _
    · cases hafter
  · intro n' events' v hmem
    rcases List.mem_or_eq_of_mem_set hmem with hbefore | hafter
    · exact h.read n' events' v hbefore
    · cases hafter

theorem Follows.mem_queue (h : Follows A st written rest queue) {b : ℕ × List E}
    (hx : x ∈ st.executes) (hb : x.unwritten = some b) : b ∈ queue :=
  h.queued.mem_iff.mp (List.mem_filterMap.mpr ⟨x, hx, hb⟩)

/-- Whoever reads in order is the head of the queue, and what it makes of the row is right. -/
theorem Follows.readRow (h : Follows A st written rest queue) {n : ℕ} {events : List E} {v : V}
    (hi : st.executes[i]? = some (.readRow n events)) (horder : st.InOrder (.step i))
    (hv : events.foldlM A.update (st.table.row.getD A.blank) = .ok v) :
    Follows A ⟨st.table, st.executes.set i (.writeRow n events v)⟩ written rest queue := by
  have hqueued : (n, events) ∈ queue := h.mem_queue (List.mem_of_getElem? hi) rfl
  refine h.move hi rfl (fun _ _ hy => by cases hy) fun n' events' v' hy => ?_
  obtain ⟨rfl, rfl, rfl⟩ := Execute.writeRow.inj hy
  have hfirst : n = written.length := by
    refine le_antisymm ?_ (h.tiles.le hqueued)
    cases hqueue : queue with
    | nil =>
      rw [hqueue] at hqueued
      cases hqueued
    | cons b queue' =>
      -- the head of the queue is in some execute, and the guard compares with that
      have hb : b ∈ st.executes.filterMap Execute.unwritten :=
        h.queued.mem_iff.mpr (hqueue ▸ List.mem_cons_self)
      obtain ⟨x, hx, hxb⟩ := List.mem_filterMap.mp hb
      have htiles := h.tiles
      rw [hqueue] at htiles
      exact (horder n (by rw [hi]; rfl) x hx b hxb).trans (by rw [← htiles.1])
  refine ⟨hfirst, ?_⟩
  obtain ⟨v₀, hrow, hproject⟩ := h.row
  rw [hrow, Option.getD_some] at hv
  rw [Aggregate.project, List.foldlM_append]
  change A.project written >>= _ = _
  rw [hproject, Outcome.ok_bind, hv]

/-- A row that is written back takes its events off the queue. -/
theorem Follows.writeRow (h : Follows A st written rest queue) {n : ℕ} {events : List E} {v : V}
    (hi : st.executes[i]? = some (.writeRow n events v)) :
    ∃ rest' queue', Follows A ⟨{ st.table with row := some v },
      st.executes.set i (.returned (.ok ()))⟩ (written ++ events) rest' queue' := by
  have hmem := List.mem_of_getElem? hi
  obtain ⟨rfl, hproject⟩ := h.read n events v hmem
  obtain ⟨queue', rest', rfl, rfl, htiles⟩ := h.tiles.head (h.mem_queue hmem rfl)
  have hne : events ≠ [] := h.tiles.2.1
  obtain ⟨others, hold, hnew⟩ := exists_perm_filterMap Execute.unwritten hi
  have hqueue : others.Perm queue' := (hold.symm.trans h.queued).cons_inv
  have hqueued : ((st.executes.set i (.returned (.ok ()))).filterMap Execute.unwritten).Perm
      queue' := (hnew (.returned (.ok ()))).trans hqueue
  refine ⟨rest', queue', ?_, ⟨v, rfl, hproject⟩, ?_, hqueued, ?_, ?_⟩
  · rw [h.log, List.append_assoc]
  · rw [List.length_append]
    exact htiles
  · intro n' events' hin
    rcases List.mem_or_eq_of_mem_set hin with hbefore | hafter
    · exact h.loaded n' events' hbefore
    · cases hafter
  · intro n' events' v' hin
    -- no other execute is between its read and its write: it would be behind in the queue
    rcases List.mem_or_eq_of_mem_set hin with hbefore | hafter
    · have hstart := (h.read n' events' v' hbefore).1
      have hbehind := htiles.le (hqueued.mem_iff.mp
        (List.mem_filterMap.mpr ⟨.writeRow n' events' v', hin, rfl⟩))
      have hpos := List.length_pos_iff.mpr hne
      simp only at hbehind
      omega
    · cases hafter

theorem State.Panicked.set (h : st.Panicked) (hi : st.executes[i]? = some x)
    (hx : ∀ r, x ≠ .returned r) (t : Table E V) (y : Execute E V C) :
    State.Panicked ⟨t, st.executes.set i y⟩ := by
  obtain ⟨e, hmem⟩ := h
  obtain ⟨as, bs, hexecutes, hset⟩ := exists_split hi
  refine ⟨e, ?_⟩
  rw [hset y]
  rw [hexecutes, List.mem_append, List.mem_cons] at hmem
  rcases hmem with has | heq | hbs
  · exact List.mem_append_left _ has
  · exact absurd heq.symm (hx _)
  · exact List.mem_append_right _ (List.mem_cons_of_mem _ hbs)

theorem Follows.access (h : Follows A st written rest queue) (hi : st.executes[i]? = some x)
    (horder : st.InOrder (.step i)) {t : Table E V} (hstep : x.step A st.table = some (y, t)) :
    State.Follows A ⟨t, st.executes.set i y⟩ := by
  cases x with
  | load command =>
    rw [Execute.step] at hstep
    split at hstep <;> cases hstep
    · exact Or.inr ⟨_, _, _, h.move hi rfl (fun _ _ hy => by cases hy) fun _ _ _ hy => by cases hy⟩
    · rename_i events hne _
      refine Or.inr ⟨_, _, _, h.move hi rfl (fun n events' hy => ?_) fun _ _ _ hy => by cases hy⟩
      obtain ⟨rfl, rfl⟩ := Execute.append.inj hy
      exact ⟨le_rfl, hne⟩
    · exact Or.inr ⟨_, _, _, h.move hi rfl (fun _ _ hy => by cases hy) fun _ _ _ hy => by cases hy⟩
    · exact Or.inr ⟨_, _, _, h.move hi rfl (fun _ _ hy => by cases hy) fun _ _ _ hy => by cases hy⟩
  | append n events =>
    rw [Execute.step] at hstep
    split at hstep <;> cases hstep
    · exact Or.inr ⟨_, _, _, h.move hi rfl (fun _ _ hy => by cases hy) fun _ _ _ hy => by cases hy⟩
    · rename_i hn
      exact Or.inr ⟨_, _, _, h.append hi hn⟩
  | readRow n events =>
    have hlength := (List.getElem?_eq_some_iff.mp hi).1
    rw [Execute.step] at hstep
    split at hstep <;> cases hstep
    · rename_i v hv
      exact Or.inr ⟨_, _, _, h.readRow hi horder hv⟩
    · exact Or.inl ⟨_, List.mem_set hlength _⟩
    · exact Or.inl ⟨_, List.mem_set hlength _⟩
  | writeRow n events v =>
    rw [Execute.step] at hstep
    cases hstep
    obtain ⟨rest', queue', hfollows⟩ := h.writeRow hi
    exact Or.inr ⟨_, rest', queue', hfollows⟩
  | returned r => cases hstep

/-- In order, no execute loses what another has committed. -/
theorem State.Follows.step (h : st.Follows A) {a : Move C} (horder : st.InOrder a)
    (hstep : st.next A a = some st') : st'.Follows A := by
  cases a with
  | start command =>
    cases hstep
    rcases h with ⟨e, hmem⟩ | ⟨written, rest, queue, hfollows⟩
    · exact Or.inl ⟨e, List.mem_append_left _ hmem⟩
    · exact Or.inr ⟨written, rest, queue, hfollows.start command⟩
  | step i =>
    rw [State.next] at hstep
    split at hstep
    · cases hstep
    · rename_i x hi
      obtain ⟨⟨y, t⟩, hx, rfl⟩ := Option.map_eq_some_iff.mp hstep
      rcases h with hpanicked | ⟨written, rest, queue, hfollows⟩
      · refine Or.inl (hpanicked.set hi (fun r heq => ?_) t y)
        subst heq
        cases hx
      · exact hfollows.access hi horder hx

theorem follows_invariant : ((machine A).restrict State.InOrder).Invariant (State.Follows A) where
  init st hst := by
    obtain ⟨⟨v, hrow, hproject⟩, hnone⟩ := hst
    refine Or.inr ⟨st.table.log, [], [], by rw [List.append_nil], ⟨v, hrow, hproject⟩, rfl,
      ?_, ?_, ?_⟩
    · rw [hnone]
      exact List.Perm.refl _
    · intro n events hmem
      rw [hnone] at hmem
      cases hmem
    · intro n events v hmem
      rw [hnone] at hmem
      cases hmem
  step _ _ _ hst hstep := hst.step hstep.1 hstep.2

/-- Once every execute of a run in order has returned, the row is what the log comes to. -/
theorem current_of_succeeded (h : ((machine A).restrict State.InOrder).Reachable st)
    (hsucceeded : ∀ x ∈ st.executes, x.Succeeded) : st.table.Current A := by
  rcases follows_invariant.reachable h with ⟨e, hmem⟩ | ⟨written, rest, queue, hfollows⟩
  · exact (hsucceeded _ hmem).elim
  · have hnone : st.executes.filterMap Execute.unwritten = [] := by
      refine List.filterMap_eq_nil_iff.mpr fun x hx => ?_
      have hx := hsucceeded x hx
      cases x with
      | returned r => rfl
      | _ => exact hx.elim
    have hqueue : queue = [] := by
      have hperm := hfollows.queued
      rw [hnone] at hperm
      exact hperm.nil_eq.symm
    obtain rfl : rest = [] := by
      have htiles := hfollows.tiles
      rw [hqueue] at htiles
      exact htiles
    obtain ⟨v, hrow, hproject⟩ := hfollows.row
    refine ⟨v, hrow, ?_⟩
    rw [hfollows.log, List.append_nil]
    exact hproject

end Follows

section Reached

variable {A : Aggregate E V C} {t t' : Table E V}

theorem State.inOrder_last {xs : List (Execute E V C)} (hxs : ∀ x ∈ xs, x.Succeeded)
    (y : Execute E V C) (t : Table E V) :
    State.InOrder ⟨t, xs ++ [y]⟩ (Move.step (C := C) xs.length) := by
  intro sequence hsequence x hx u hu
  rcases List.mem_append.mp hx with hold | hlast
  · have hsucceeded := hxs x hold
    cases x with
    | returned r => cases hu
    | _ => exact hsucceeded.elim
  · obtain rfl := List.mem_singleton.mp hlast
    simp only [List.getElem?_concat_length, Option.bind_some] at hsequence
    cases x with
    | readRow n events =>
      obtain rfl := Option.some.inj hsequence
      obtain rfl := Option.some.inj hu
      exact le_rfl
    | _ => cases hsequence

/-- The steps of an execute that runs alone are a run in order. -/
theorem Execute.steps_alone {xs : List (Execute E V C)} (hxs : ∀ x ∈ xs, x.Succeeded) {n : ℕ}
    {y y' : Execute E V C} (h : y.alone A n t = (y', t')) :
    ∃ as, ((machine A).restrict State.InOrder).Steps ⟨t, xs ++ [y]⟩ as ⟨t', xs ++ [y']⟩ := by
  induction n generalizing y t with
  | zero =>
    obtain ⟨rfl, rfl⟩ := Prod.mk.inj h
    exact ⟨[], Machine.Steps.nil _⟩
  | succ n ih =>
    cases hstep : y.step A t with
    | none =>
      rw [alone, hstep] at h
      obtain ⟨rfl, rfl⟩ := Prod.mk.inj h
      exact ⟨[], Machine.Steps.nil _⟩
    | some r =>
      rw [alone_succ hstep] at h
      obtain ⟨as, hrest⟩ := ih h
      refine ⟨.step xs.length :: as,
        Machine.Steps.cons ⟨State.inOrder_last hxs y t, ?_⟩ hrest⟩
      change State.next A _ _ = _
      simp [State.next, hstep]

/-- The table is what executes in order, which have all succeeded, have made of one that was
current. -/
def Table.Reached (A : Aggregate E V C) (t : Table E V) : Prop :=
  ∃ st, ((machine A).restrict State.InOrder).Reachable st ∧ (∀ x ∈ st.executes, x.Succeeded) ∧
    st.table = t

theorem Table.Current.reached (h : t.Current A) : t.Reached A :=
  ⟨⟨t, []⟩, ⟨_, [], ⟨h, rfl⟩, Machine.Steps.nil _⟩, List.forall_mem_nil _, rfl⟩

theorem Table.Reached.current (h : t.Reached A) : t.Current A := by
  obtain ⟨st, hreach, hsucceeded, rfl⟩ := h
  exact current_of_succeeded hreach hsucceeded

theorem Table.Reached.execute (h : t.Reached A) {command : C}
    (halone : (Execute.load command).alone A 4 t = (.returned (.ok ()), t')) : t'.Reached A := by
  obtain ⟨⟨t, xs⟩, hreach, hsucceeded, rfl⟩ := h
  obtain ⟨as, hsteps⟩ := Execute.steps_alone hsucceeded halone
  have hstart : ((machine A).restrict State.InOrder).Step ⟨t, xs⟩ (.start command)
      ⟨t, xs ++ [.load command]⟩ := ⟨trivial, rfl⟩
  refine ⟨_, hreach.steps (Machine.Steps.cons hstart hsteps), fun x hx => ?_, rfl⟩
  rcases List.mem_append.mp hx with hold | hlast
  · exact hsucceeded x hold
  · rw [List.mem_singleton.mp hlast]
    trivial

end Reached

end Bankie.Projection
