/-!
# TOML tables

The values of TOML and the rules by which a document builds its tables. A table can be begun by a
header, by a longer header that passes through it, or by a dotted key, and which of these it was
decides what may be added to it later. No key is given a value twice.

Main results:

* `Table.lookup_put` — what is put under a key is found under it.
* `Table.insertNew_eq_none_iff` — only a key that is there already is refused.
-/

namespace VisualBasic.Toml

/-- How a table was begun. -/
inductive Origin where
  /-- By a header of its own, or as the document. -/
  | header
  /-- By the header of a table inside it. -/
  | implied
  /-- By a dotted key that passes through it. -/
  | dotted
  /-- Between braces, where it is also complete. -/
  | inline
  deriving DecidableEq, Repr, Inhabited

/-- Whether something made in the way of `made` may be added to a table of this origin or to a table
inside it. -/
def Origin.admits (origin made : Origin) : Bool :=
  match origin with
  | header => made != dotted
  | implied | dotted => true
  | inline => false

inductive Value where
  | text (s : String)
  | integer (n : Int)
  | float
  | boolean
  /-- A date, a time of day, or both. -/
  | time
  | array (items : List Value)
  | table (origin : Origin) (entries : List (String × Value))
  /-- An array whose tables are begun by headers. -/
  | tables (elements : List (List (String × Value)))
  deriving Inhabited

/-- The keys of a table with their values. -/
abbrev Table := List (String × Value)

/-- A dotted key: the keys of the tables on the way, and the last key. -/
structure Key where
  path : List String
  last : String
  deriving DecidableEq, Repr, Inhabited

/-- A key and the value that it is given. -/
abbrev Pair := Key × Value

/-- A header with the pairs below it. -/
structure Section where
  header : Key
  /-- Whether the header adds an element to an array of tables. -/
  isElement : Bool
  pairs : List Pair

namespace Table

/-- The table with a value under a key, in place of an earlier one. -/
def put (key : String) (value : Value) : Table → Table
  | [] => [(key, value)]
  | (k, v) :: rest => if key == k then (k, value) :: rest else (k, v) :: put key value rest

/-- Adds a key that is not there yet. -/
def insertNew (key : String) (value : Value) (t : Table) : Option Table :=
  if (t.lookup key).isSome then none else some (t ++ [(key, value)])

/-- Changes the table at the end of a path by `change`, which is told how that table was begun.
Tables that are missing on the way are made with the origin `made`. In an array of tables the way
goes through the last one. -/
def alter (made : Origin) (change : Origin → Table → Option Table) :
    List String → Origin → Table → Option Table
  | [], origin, t => change origin t
  | key :: path, _, t =>
    match t.lookup key with
    | none => do
      let inner ← alter made change path made []
      return t.put key (.table made inner)
    | some (.table origin inner) =>
      if origin.admits made then do
        let inner ← alter made change path origin inner
        return t.put key (.table origin inner)
      else
        none
    | some (.tables elements) => do
      let last ← elements.getLast?
      let last ← alter made change path .header last
      return t.put key (.tables (elements.dropLast ++ [last]))
    | some _ => none

/-- Adds a pair. A dotted key adds to a table that dotted keys have made. -/
def addPair (t : Table) (pair : Pair) : Option Table :=
  let (key, value) := pair
  alter .dotted
    (fun origin inner =>
      if key.path.isEmpty || origin == .dotted then inner.insertNew key.last value else none)
    key.path .header t

/-- Adds the table of a section, or one more element to an array of tables. A table may have been
implied before, but it has one header. -/
def addSection (t : Table) (s : Section) : Option Table :=
  alter .implied
    (fun _ parent =>
      match s.isElement, parent.lookup s.header.last with
      | false, none => do
        return parent.put s.header.last (.table .header (← s.pairs.foldlM addPair []))
      | false, some (.table .implied inner) => do
        return parent.put s.header.last (.table .header (← s.pairs.foldlM addPair inner))
      | true, none => do
        return parent.put s.header.last (.tables [← s.pairs.foldlM addPair []])
      | true, some (.tables elements) => do
        return parent.put s.header.last (.tables (elements ++ [← s.pairs.foldlM addPair []]))
      | _, _ => none)
    s.header.path .header t

/-- The table between braces that is made of the pairs. -/
def inline? (pairs : List Pair) : Option Value :=
  (pairs.foldlM addPair []).map (.table .inline)

/-- The table of a document: the pairs before the first header, and the sections. -/
def ofSections? (pairs : List Pair) (sections : List Section) : Option Table := do
  sections.foldlM addSection (← pairs.foldlM addPair [])

theorem lookup_put (key : String) (value : Value) (t : Table) :
    (t.put key value).lookup key = some value := by
  induction t with
  | nil => simp [put]
  | cons entry rest ih =>
    obtain ⟨k, v⟩ := entry
    rw [put]
    split
    · next same => simp [List.lookup_cons, same]
    · next other => simpa [List.lookup_cons, other] using ih

theorem insertNew_eq_none_iff {key : String} {value : Value} {t : Table} :
    t.insertNew key value = none ↔ (t.lookup key).isSome = true := by
  unfold insertNew
  split <;> simp_all

end Table

end VisualBasic.Toml
