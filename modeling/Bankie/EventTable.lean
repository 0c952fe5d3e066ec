import Bankie.Documents
import Mathlib.Data.List.Basic

/-!
Event tables.
The events of an aggregate are stored as documents. Loading reads the documents and applies the
events in order.
-/
namespace Bankie.EventTable

open Program

variable {E A : Type}

/-- How events are stored, and how they are applied. -/
structure Aggregate (E A : Type) where
  event : Codec E
  apply : A → E → Outcome A
  blank : A

def Aggregate.replay (g : Aggregate E A) (log : List E) : Outcome A :=
  log.foldlM g.apply g.blank

/-- The order that the members of a document are kept in is not settled by the code. -/
structure Storage where
  keep : Json → Json
  keep_reorders : ∀ j : Json, j.Reorders (keep j)

def read {α : Type} (c : Codec α) (j : Json) : Outcome α :=
  match c.decode j with
  | some a => .ok a
  | none => .err "deserialization error"

def load (g : Aggregate E A) (table : List Json) : Outcome A := do
  let events ← table.mapM (read g.event)
  g.replay events

def append (st : Storage) (g : Aggregate E A) (new : List E) (table : List Json) : List Json :=
  table ++ new.map fun e => st.keep (g.event.encode e)

/-- The documents store the log. -/
def Stores (g : Aggregate E A) : List E → List Json → Prop :=
  List.Forall₂ g.event.Stores

theorem read_stored {α : Type} {c : Codec α} {a : α} {j : Json} (h : c.Stores a j) :
    read c j = .ok a := by
  rw [read, h.decode]

theorem mapM_read {α : Type} {c : Codec α} {as : List α} {js : List Json}
    (h : List.Forall₂ c.Stores as js) : js.mapM (read c) = .ok as := by
  induction h with
  | nil => rfl
  | cons hfirst _ ih =>
    rw [List.mapM_cons, read_stored hfirst, Outcome.ok_bind, ih]
    rfl

theorem Stores.load_eq {g : Aggregate E A} {log : List E} {table : List Json}
    (h : Stores g log table) : load g table = g.replay log := by
  rw [load, mapM_read h, Outcome.ok_bind]

theorem Stores.append {g : Aggregate E A} {log : List E} {table : List Json}
    (h : Stores g log table) (st : Storage) (new : List E) :
    Stores g (log ++ new) (append st g new table) := by
  refine List.rel_append h (List.forall₂_map_right_iff.mpr ?_)
  exact List.forall₂_same.mpr fun e _ => st.keep_reorders (g.event.encode e)

end Bankie.EventTable
