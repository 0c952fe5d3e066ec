import Bankie.Domain
import Bankie.Lists
import Mathlib.Data.List.AList

/-!
Documents, and the values that are stored as documents.
A database may keep the members of an object in any order. A codec reads back what it has
written, however the members have been ordered; codecs of records and of variants are put
together from those of their parts, the way derived serializers are.
-/
namespace Bankie

section Lookup

variable {κ β : Type} [BEq κ] [LawfulBEq κ] {l l' : List (κ × β)} {key : κ} {b : β}

theorem lookup_of_mem (hkeys : (l.map Prod.fst).Nodup) (h : (key, b) ∈ l) :
    l.lookup key = some b := by
  obtain ⟨before, after, rfl⟩ := List.append_of_mem h
  refine List.lookup_eq_some_iff.mpr ⟨before, after, rfl, fun p hp => ?_⟩
  rw [List.map_append, List.map_cons, List.nodup_append] at hkeys
  have hne := hkeys.2.2 p.1 (List.mem_map_of_mem hp) key List.mem_cons_self
  exact bne_iff_ne.mpr (Ne.symm hne)

theorem mem_of_lookup (h : l.lookup key = some b) : (key, b) ∈ l := by
  obtain ⟨before, after, rfl, -⟩ := List.lookup_eq_some_iff.mp h
  exact List.mem_append_right _ List.mem_cons_self

theorem lookup_perm (hkeys : (l.map Prod.fst).Nodup) (h : l.Perm l') (key : κ) :
    l.lookup key = l'.lookup key := by
  have hkeys' : (l'.map Prod.fst).Nodup := (h.map Prod.fst).nodup_iff.mp hkeys
  cases hb : l.lookup key with
  | some b => exact (lookup_of_mem hkeys' (h.subset (mem_of_lookup hb))).symm
  | none =>
    cases hb' : l'.lookup key with
    | none => rfl
    | some b =>
      rw [lookup_of_mem hkeys (h.symm.subset (mem_of_lookup hb'))] at hb
      cases hb

end Lookup

namespace Json

/-- The second document has what the first one has, with the members of its objects in any
order. -/
inductive Reorders : Json → Json → Prop where
  | refl (j : Json) : Reorders j j
  | trans {j₁ j₂ j₃ : Json} (first : Reorders j₁ j₂) (second : Reorders j₂ j₃) : Reorders j₁ j₃
  | members {fields fields' : List (String × Json)} (hkeys : (fields.map Prod.fst).Nodup)
      (h : fields.Perm fields') : Reorders (.object fields) (.object fields')
  | member {j j' : Json} (before after : List (String × Json)) (key : String)
      (h : Reorders j j') :
      Reorders (.object (before ++ (key, j) :: after)) (.object (before ++ (key, j') :: after))
  | item {j j' : Json} (before after : List Json) (h : Reorders j j') :
      Reorders (.array (before ++ j :: after)) (.array (before ++ j' :: after))

/-- What a reader of the outermost layer is told by a reordered document. -/
def Similar : Json → Json → Prop
  | .object fields, j' => ∃ fields', j' = .object fields' ∧
      (fields.map Prod.fst).Perm (fields'.map Prod.fst) ∧
      ∀ key, Option.Rel Reorders (fields.lookup key) (fields'.lookup key)
  | .array items, j' => ∃ items', j' = .array items' ∧ List.Forall₂ Reorders items items'
  | j, j' => j' = j

theorem rel_refl (o : Option Json) : Option.Rel Reorders o o := by
  cases o with
  | none => exact Option.Rel.none
  | some j => exact Option.Rel.some (Reorders.refl j)

theorem forall₂_refl (items : List Json) : List.Forall₂ Reorders items items :=
  List.forall₂_same.mpr fun j _ => Reorders.refl j

theorem rel_trans {o₁ o₂ o₃ : Option Json} (h : Option.Rel Reorders o₁ o₂)
    (h' : Option.Rel Reorders o₂ o₃) : Option.Rel Reorders o₁ o₃ := by
  cases h with
  | none => exact h'
  | some hj =>
    cases h' with
    | some hj' => exact Option.Rel.some (Reorders.trans hj hj')

theorem forall₂_trans {items₁ items₂ items₃ : List Json} (h : List.Forall₂ Reorders items₁ items₂)
    (h' : List.Forall₂ Reorders items₂ items₃) : List.Forall₂ Reorders items₁ items₃ := by
  induction h generalizing items₃ with
  | nil => exact h'
  | cons hj _ ih =>
    cases h' with
    | cons hj' hrest => exact List.Forall₂.cons (Reorders.trans hj hj') (ih hrest)

theorem Similar.refl (j : Json) : j.Similar j := by
  cases j with
  | object fields => exact ⟨fields, rfl, List.Perm.refl _, fun key => rel_refl _⟩
  | array items => exact ⟨items, rfl, forall₂_refl items⟩
  | _ => rfl

theorem Similar.trans {j₁ j₂ j₃ : Json} (h : j₁.Similar j₂) (h' : j₂.Similar j₃) :
    j₁.Similar j₃ := by
  cases j₁ with
  | object fields =>
    obtain ⟨fields', rfl, hkeys, hlookup⟩ := h
    obtain ⟨fields'', rfl, hkeys', hlookup'⟩ := h'
    exact ⟨fields'', rfl, hkeys.trans hkeys', fun key => rel_trans (hlookup key) (hlookup' key)⟩
  | array items =>
    obtain ⟨items', rfl, hitems⟩ := h
    obtain ⟨items'', rfl, hitems'⟩ := h'
    exact ⟨items'', rfl, forall₂_trans hitems hitems'⟩
  | _ =>
    obtain rfl := h
    exact h'

/-- Reordering does not show in the outermost layer, and goes on below it. -/
theorem Reorders.similar {j j' : Json} (h : j.Reorders j') : j.Similar j' := by
  induction h with
  | refl j => exact Similar.refl j
  | trans _ _ ih ih' => exact ih.trans ih'
  | @members fields fields' hkeys h =>
    refine ⟨fields', rfl, h.map Prod.fst, fun key => ?_⟩
    rw [lookup_perm hkeys h key]
    exact rel_refl _
  | @member j j' before after key h =>
    refine ⟨_, rfl, by simp, fun key' => ?_⟩
    rw [List.lookup_append, List.lookup_append, List.lookup_cons, List.lookup_cons]
    cases before.lookup key' with
    | some j => exact rel_refl _
    | none =>
      cases key' == key with
      | true => exact Option.Rel.some h
      | false => exact rel_refl _
  | @item j j' before after h =>
    exact ⟨_, rfl, List.rel_append (forall₂_refl before)
      (List.Forall₂.cons h (forall₂_refl after))⟩

/-- The tag of a variant, with its body unless it has none. -/
def variant : Json → Option (String × Option Json)
  | .string tag => some (tag, none)
  | .object [(tag, body)] => some (tag, some body)
  | _ => none

theorem Reorders.variant {j j' : Json} (h : j.Reorders j') :
    Option.Rel (fun v v' => v.1 = v'.1 ∧ Option.Rel Reorders v.2 v'.2) j.variant j'.variant := by
  have hsimilar := h.similar
  cases j with
  | object fields =>
    obtain ⟨fields', rfl, hkeys, hlookup⟩ := hsimilar
    have hlength : fields.length = fields'.length := by simpa using hkeys.length_eq
    match fields, fields', hlength with
    | [], [], _ => exact Option.Rel.none
    | [(tag, body)], [(tag', body')], _ =>
      have htag := hlookup tag
      rw [List.lookup_cons_self, List.lookup_cons] at htag
      cases heq : tag == tag' with
      | true =>
        rw [heq] at htag
        cases htag with
        | some hbody => exact Option.Rel.some ⟨beq_iff_eq.mp heq, Option.Rel.some hbody⟩
      | false =>
        rw [heq] at htag
        cases htag
    | _ :: _ :: _, _ :: _ :: _, _ => exact Option.Rel.none
  | array items =>
    obtain ⟨items', rfl, -⟩ := hsimilar
    exact Option.Rel.none
  | string tag =>
    obtain rfl := hsimilar
    exact Option.Rel.some ⟨rfl, Option.Rel.none⟩
  | _ =>
    obtain rfl := hsimilar
    exact Option.Rel.none

/-- A member of an object, as `->` takes it. -/
def member (j : Json) (key : String) : Option Json :=
  match j with
  | .object fields => fields.lookup key
  | _ => none

/-- A text, as `->>` takes it. -/
def text : Json → Option String
  | .string s => some s
  | .number n => some (toString n)
  | .bool b => some (toString b)
  | _ => none

/-- The text of a member, as `->>` takes it. -/
def memberText (j : Json) (key : String) : Option String := (j.member key).bind text

theorem Reorders.member_of_key {j j' : Json} (h : j.Reorders j') (key : String) :
    Option.Rel Reorders (j.member key) (j'.member key) := by
  have hsimilar := h.similar
  cases j with
  | object fields =>
    obtain ⟨fields', rfl, -, hlookup⟩ := hsimilar
    exact hlookup key
  | array items =>
    obtain ⟨items', rfl, -⟩ := hsimilar
    exact Option.Rel.none
  | _ =>
    obtain rfl := hsimilar
    exact Option.Rel.none

theorem Reorders.text {j j' : Json} (h : j.Reorders j') : j.text = j'.text := by
  have hsimilar := h.similar
  cases j with
  | object fields =>
    obtain ⟨fields', rfl, -, -⟩ := hsimilar
    rfl
  | array items =>
    obtain ⟨items', rfl, -⟩ := hsimilar
    rfl
  | _ =>
    obtain rfl := hsimilar
    rfl

theorem Reorders.memberText {j j' : Json} (h : j.Reorders j') (key : String) :
    j.memberText key = j'.memberText key := by
  have hmember := h.member_of_key key
  unfold Json.memberText
  revert hmember
  generalize j.member key = o
  generalize j'.member key = o'
  rintro (hj | _)
  · exact hj.text
  · rfl

theorem Reorders.memberText_of_member {j j' : Json} (h : j.Reorders j') (key key' : String) :
    (j.member key).bind (fun inner => inner.memberText key') =
      (j'.member key).bind fun inner => inner.memberText key' := by
  have hmember := h.member_of_key key
  revert hmember
  generalize j.member key = o
  generalize j'.member key = o'
  rintro (hj | _)
  · exact hj.memberText key'
  · rfl

theorem get_eq_member (j : Json) (key : String) : j.get key = (j.member key).getD .null := by
  cases j <;> rfl

theorem Reorders.get {j j' : Json} (h : j.Reorders j') (key : String) :
    (j.get key).Reorders (j'.get key) := by
  have hmember := h.member_of_key key
  rw [get_eq_member, get_eq_member]
  revert hmember
  generalize j.member key = o
  generalize j'.member key = o'
  rintro (hj | _)
  · exact hj
  · exact Reorders.refl .null

theorem Reorders.asStr {j j' : Json} (h : j.Reorders j') : j.asStr = j'.asStr := by
  have hsimilar := h.similar
  cases j with
  | object fields =>
    obtain ⟨fields', rfl, -, -⟩ := hsimilar
    rfl
  | array items =>
    obtain ⟨items', rfl, -⟩ := hsimilar
    rfl
  | _ =>
    obtain rfl := hsimilar
    rfl

end Json

/-- A way to store values of a type as documents. -/
structure Codec (α : Type) where
  encode : α → Json
  decode : Json → Option α
  decode_encode : ∀ a, decode (encode a) = some a
  decode_reorders : ∀ j j', j.Reorders j' → decode j = decode j'

/-- The fields of a record, with their names and in their order. -/
structure Fields (α : Type) where
  names : List String
  encode : α → List (String × Json)
  read : (String → Option Json) → Option α
  readItems : List Json → Option α
  names_encode : ∀ a, (encode a).map Prod.fst = names
  read_encode : ∀ a f, (∀ field ∈ encode a, f field.1 = some field.2) → read f = some a
  read_rel : ∀ f f', (∀ key, Option.Rel Json.Reorders (f key) (f' key)) → read f = read f'
  readItems_rel : ∀ items items', List.Forall₂ Json.Reorders items items' →
    readItems items = readItems items'

namespace Fields

variable {α β : Type}

def nil : Fields Unit where
  names := []
  encode _ := []
  read _ := some ()
  readItems
    | [] => some ()
    | _ :: _ => none
  names_encode _ := rfl
  read_encode _ _ _ := rfl
  read_rel _ _ _ := rfl
  readItems_rel items items' h := by
    cases h <;> rfl

def cons (name : String) (c : Codec α) (rest : Fields β) : Fields (α × β) where
  names := name :: rest.names
  encode p := (name, c.encode p.1) :: rest.encode p.2
  read f := do
    let a ← (f name).bind c.decode
    let b ← rest.read f
    return (a, b)
  readItems
    | [] => none
    | j :: items => do
      let a ← c.decode j
      let b ← rest.readItems items
      return (a, b)
  names_encode p := congrArg (name :: ·) (rest.names_encode p.2)
  read_encode p f h := by
    obtain ⟨hfirst, hrest⟩ := List.forall_mem_cons.mp h
    rw [hfirst, Option.bind_some, c.decode_encode, rest.read_encode p.2 f hrest]
    rfl
  read_rel f f' h := by
    have hfirst : (f name).bind c.decode = (f' name).bind c.decode := by
      have hname := h name
      revert hname
      generalize f name = o
      generalize f' name = o'
      rintro (hj | _)
      · exact c.decode_reorders _ _ hj
      · rfl
    rw [hfirst, rest.read_rel f f' h]
  readItems_rel items items' h := by
    cases h with
    | nil => rfl
    | cons hj hrest =>
      change (c.decode _ >>= _) = (c.decode _ >>= _)
      rw [c.decode_reorders _ _ hj, rest.readItems_rel _ _ hrest]

end Fields

namespace Codec

variable {α β : Type}

def Stores (c : Codec α) (a : α) (j : Json) : Prop := (c.encode a).Reorders j

/-- A document that stores a value is read back as the value. -/
theorem Stores.decode {c : Codec α} {a : α} {j : Json} (h : c.Stores a j) :
    c.decode j = some a := by
  rw [← c.decode_reorders _ _ h, c.decode_encode]

def scalar (encode : α → Json) (decode : Json → Option α)
    (decode_encode : ∀ a, decode (encode a) = some a)
    (hobject : ∀ fields, decode (.object fields) = none)
    (harray : ∀ items, decode (.array items) = none) : Codec α where
  encode := encode
  decode := decode
  decode_encode := decode_encode
  decode_reorders j j' h := by
    have hsimilar := h.similar
    cases j with
    | object fields =>
      obtain ⟨fields', rfl, -⟩ := hsimilar
      rw [hobject, hobject]
    | array items =>
      obtain ⟨items', rfl, -⟩ := hsimilar
      rw [harray, harray]
    | _ =>
      obtain rfl := hsimilar
      rfl

def string : Codec String :=
  scalar .string Json.asStr (fun _ => rfl) (fun _ => rfl) (fun _ => rfl)

/-- An enumeration is stored as the name of its value; a reader also takes a variant with an
empty body. -/
def units [DecidableEq α] (all : List α) (name : α → String) (hall : ∀ a, a ∈ all)
    (hname : ∀ a b, name a = name b → a = b) : Codec α where
  encode a := .string (name a)
  decode j :=
    match j.variant with
    | some (tag, none) => all.find? fun a => name a = tag
    | some (tag, some .null) => all.find? fun a => name a = tag
    | _ => none
  decode_encode a := by
    change all.find? (fun b => name b = name a) = some a
    cases hfind : all.find? (fun b => name b = name a) with
    | none => exact absurd (decide_eq_true rfl) (List.find?_eq_none.mp hfind a (hall a))
    | some b =>
      have hfound := List.find?_some hfind
      rw [hname b a (of_decide_eq_true hfound)]
  decode_reorders j j' h := by
    have hvariant := h.variant
    revert hvariant
    generalize j.variant = v
    generalize j'.variant = v'
    rintro (⟨htag, hbody⟩ | _)
    · rename_i p p'
      obtain ⟨tag, body⟩ := p
      obtain ⟨tag', body'⟩ := p'
      obtain rfl : tag = tag' := htag
      cases hbody with
      | none => rfl
      | @some j j' hj =>
        have hsimilar := hj.similar
        cases j with
        | object fields =>
          obtain ⟨fields', rfl, -⟩ := hsimilar
          rfl
        | array items =>
          obtain ⟨items', rfl, -⟩ := hsimilar
          rfl
        | _ =>
          obtain rfl := hsimilar
          rfl
    · rfl

/-- A record is read from an object that has each of its fields, none of them twice, and other
members or not. -/
def readMembers (fields : Fields β) (members : List (String × Json)) : Option β :=
  if ∀ name ∈ fields.names, (members.map Prod.fst).count name ≤ 1 then
    fields.read fun key => members.lookup key
  else none

theorem readMembers_eq {fields : Fields β} {members : List (String × Json)} {b : β}
    (hkeys : (members.map Prod.fst).Nodup) (h : ∀ field ∈ fields.encode b, field ∈ members) :
    readMembers fields members = some b := by
  rw [readMembers, if_pos fun name _ => List.nodup_iff_count_le_one.mp hkeys name]
  exact fields.read_encode b _ fun field hfield => lookup_of_mem hkeys (h field hfield)

theorem readMembers_similar {fields : Fields β} {members members' : List (String × Json)}
    (hkeys : (members.map Prod.fst).Perm (members'.map Prod.fst))
    (hlookup : ∀ key, Option.Rel Json.Reorders (members.lookup key) (members'.lookup key)) :
    readMembers fields members = readMembers fields members' := by
  rw [readMembers, readMembers, fields.read_rel _ _ hlookup]
  refine if_congr (forall₂_congr fun name _ => ?_) rfl rfl
  rw [hkeys.count_eq]

/-- A record is stored as an object; a reader also takes the array of its fields. -/
def record (fields : Fields β) (hnames : fields.names.Nodup) (unpack : α → β) (pack : β → α)
    (hpack : ∀ a, pack (unpack a) = a) : Codec α where
  encode a := .object (fields.encode (unpack a))
  decode
    | .object members => (readMembers fields members).map pack
    | .array items => (fields.readItems items).map pack
    | _ => none
  decode_encode a := by
    have hkeys : ((fields.encode (unpack a)).map Prod.fst).Nodup := by
      rw [fields.names_encode]
      exact hnames
    change (readMembers fields _).map pack = some a
    rw [readMembers_eq hkeys fun _ hfield => hfield, Option.map_some, hpack]
  decode_reorders j j' h := by
    have hsimilar := h.similar
    cases j with
    | object members =>
      obtain ⟨members', rfl, hkeys, hlookup⟩ := hsimilar
      exact congrArg (Option.map pack) (readMembers_similar hkeys hlookup)
    | array items =>
      obtain ⟨items', rfl, hitems⟩ := hsimilar
      exact congrArg (Option.map pack) (fields.readItems_rel _ _ hitems)
    | _ =>
      obtain rfl := hsimilar
      rfl

/-- The record of the fields themselves. -/
def tuple (fields : Fields α) (hnames : fields.names.Nodup) : Codec α :=
  record fields hnames id id fun _ => rfl

/-- A document with more members than its record is read as the record. -/
theorem tuple_decode {fields : Fields α} {hnames : fields.names.Nodup}
    {members : List (String × Json)} {a : α} (hkeys : (members.map Prod.fst).Nodup)
    (h : ∀ field ∈ fields.encode a, field ∈ members) :
    (tuple fields hnames).decode (.object members) = some a := by
  change (readMembers fields members).map id = some a
  rw [readMembers_eq hkeys h]
  rfl

/-- The reader of an enumeration whose variants have bodies. -/
def readVariant (read : String → Json → Option α) (j : Json) : Option α :=
  match j.variant with
  | some (tag, some body) => read tag body
  | _ => none

theorem readVariant_reorders {read : String → Json → Option α}
    (hread : ∀ tag j j', j.Reorders j' → read tag j = read tag j') {j j' : Json}
    (h : j.Reorders j') : readVariant read j = readVariant read j' := by
  have hvariant := h.variant
  unfold readVariant
  revert hvariant
  generalize j.variant = v
  generalize j'.variant = v'
  rintro (⟨htag, hbody⟩ | _)
  · rename_i p p'
    obtain ⟨tag, body⟩ := p
    obtain ⟨tag', body'⟩ := p'
    obtain rfl : tag = tag' := htag
    cases hbody with
    | none => rfl
    | some hj => exact hread tag _ _ hj
  · rfl

/-- An enumeration whose variants have bodies is stored as one member, named by the variant. -/
def variants (tag : α → String) (body : α → Json) (read : String → Json → Option α)
    (hread : ∀ a, read (tag a) (body a) = some a)
    (hreorders : ∀ tag j j', j.Reorders j' → read tag j = read tag j') : Codec α where
  encode a := .object [(tag a, body a)]
  decode := readVariant read
  decode_encode a := hread a
  decode_reorders _ _ h := readVariant_reorders hreorders h

section Tables

variable {c : Codec α}

def StoresRows (c : Codec α) (rows : List (Sigma fun _ : String => Json))
    (entries : List (Sigma fun _ : String => α)) : Prop :=
  List.Forall₂ (fun row entry => row.1 = entry.1 ∧ c.Stores entry.2 row.2) rows entries

def StoresTable (c : Codec α) (docs : AList fun _ : String => Json)
    (table : AList fun _ : String => α) : Prop :=
  c.StoresRows docs.entries table.entries

theorem StoresRows.filter {rows : List (Sigma fun _ : String => Json)}
    {entries : List (Sigma fun _ : String => α)} (h : c.StoresRows rows entries)
    {p : Json → Bool} {q : α → Bool} (hpq : ∀ a j, c.Stores a j → p j = q a) :
    c.StoresRows (rows.filter fun row => p row.2) (entries.filter fun entry => q entry.2) :=
  List.rel_filter (fun _ _ hrow => Bool.eq_iff_iff.mp (hpq _ _ hrow.2)) h

theorem StoresRows.lookup {rows : List (Sigma fun _ : String => Json)}
    {entries : List (Sigma fun _ : String => α)} (h : c.StoresRows rows entries) (id : String) :
    Option.Rel c.Stores (entries.dlookup id) (rows.dlookup id) := by
  induction h with
  | nil => exact Option.Rel.none
  | @cons row entry _ _ hrow _ ih =>
    obtain ⟨key, j⟩ := row
    obtain ⟨key', a⟩ := entry
    obtain rfl : key = key' := hrow.1
    by_cases hid : id = key
    · subst hid
      rw [List.dlookup_cons_eq, List.dlookup_cons_eq]
      exact Option.Rel.some hrow.2
    · rw [List.dlookup_cons_ne _ _ hid, List.dlookup_cons_ne _ _ hid]
      exact ih

theorem StoresRows.kerase {rows : List (Sigma fun _ : String => Json)}
    {entries : List (Sigma fun _ : String => α)} (h : c.StoresRows rows entries) (id : String) :
    c.StoresRows (rows.kerase id) (entries.kerase id) := by
  induction h with
  | nil => exact List.Forall₂.nil
  | @cons row entry _ _ hrow hrest ih =>
    by_cases hid : id = row.1
    · rw [List.kerase_cons_eq hid, List.kerase_cons_eq (hid.trans hrow.1)]
      exact hrest
    · rw [List.kerase_cons_ne hid, List.kerase_cons_ne fun heq => hid (heq.trans hrow.1.symm)]
      exact List.Forall₂.cons hrow ih

variable {docs : AList fun _ : String => Json} {table : AList fun _ : String => α}

theorem StoresTable.lookup (h : c.StoresTable docs table) (id : String) :
    Option.Rel c.Stores (table.lookup id) (docs.lookup id) :=
  StoresRows.lookup h id

theorem StoresTable.insert (h : c.StoresTable docs table) (id : String) {a : α} {j : Json}
    (hj : c.Stores a j) : c.StoresTable (docs.insert id j) (table.insert id a) := by
  unfold StoresTable
  rw [AList.entries_insert, AList.entries_insert]
  exact List.Forall₂.cons ⟨rfl, hj⟩ (StoresRows.kerase h id)

/-- An id finds the one row that stores its entry, or no row where there is no entry. -/
theorem StoresTable.filter_eq (h : c.StoresTable docs table) (id : String) :
    (table.lookup id = none ∧ docs.entries.filter (fun row => row.1 = id) = []) ∨
      ∃ a j, table.lookup id = some a ∧ c.Stores a j ∧
        docs.entries.filter (fun row => row.1 = id) = [⟨id, j⟩] := by
  have hrel := h.lookup id
  generalize ha : table.lookup id = o at hrel
  generalize hj : docs.lookup id = o' at hrel
  cases hrel with
  | none =>
    refine Or.inl ⟨rfl, List.filter_eq_nil_iff.mpr fun row hrow heq => ?_⟩
    have hkey : id ∈ docs.entries.map Sigma.fst := of_decide_eq_true heq ▸ List.mem_map_of_mem hrow
    exact AList.lookup_eq_none.mp hj hkey
  | some hstores =>
    refine Or.inr ⟨_, _, rfl, hstores, ?_⟩
    exact filter_key Sigma.fst docs.nodupKeys (AList.mem_lookup_iff.mp hj)

end Tables

end Codec

end Bankie
