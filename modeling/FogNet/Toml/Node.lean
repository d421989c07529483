import FogNet.Number.Binary64

/-!
# Documents as trees of tables

The contents of a TOML document. Tables remember how they came about, since that decides what may
still be added to them:

* a table with a header, and an inline table, is complete where it is written,
* a table that only occurs inside the header of another one may get a header of its own later,
* a table made by a dotted key grows by further dotted keys.

## Main statements

* `lookup_setEntry` — what a table answers after an entry was set
* `insert_path_nil` — a plain key is added once
-/

namespace FogNet.Toml

/-- How a table came about. -/
inductive Form where
  /-- By a header of its own, or as the whole document. -/
  | header
  /-- By the header of a table inside it. -/
  | implied
  /-- By a dotted key. -/
  | dotted
  /-- As an inline table. -/
  | inline
  /-- By a dotted key of an inline table. -/
  | inlineDotted
  deriving DecidableEq, Repr

namespace Form

/-- Whether dotted keys may go through the table. -/
def isOpen : Form → Bool
  | implied | dotted | inlineDotted => true
  | header | inline => false

def isDotted : Form → Bool
  | dotted | inlineDotted => true
  | header | implied | inline => false

/-- Whether the table is a single value of its document. -/
def isInline : Form → Bool
  | inline | inlineDotted => true
  | header | implied | dotted => false

end Form

/-- A value of a document. -/
inductive Node where
  | string (s : String)
  | integer (i : Int)
  | float (x : Binary64)
  | boolean (b : Bool)
  /-- A date or a time. Which one it is is not kept. -/
  | date
  | array (items : List Node)
  /-- Keys with their values, in the order in which they were written. -/
  | table (form : Form) (entries : List (String × Node))
  /-- The tables of one repeated header, in their order. -/
  | tables (list : List (List (String × Node)))
  deriving Inhabited

abbrev Table := List (String × Node)

namespace Table

/-! ## Entries -/

def lookup (key : String) : Table → Option Node
  | [] => none
  | e :: rest => if e.1 = key then some e.2 else lookup key rest

/-- Sets the value of a key: in its place, or as the last entry. -/
def setEntry (key : String) (node : Node) : Table → Table
  | [] => [(key, node)]
  | e :: rest => if e.1 = key then (key, node) :: rest else e :: setEntry key node rest

def remove (key : String) (t : Table) : Table := t.filter fun e => e.1 != key

theorem lookup_setEntry (key other : String) (node : Node) : ∀ t : Table,
    lookup other (setEntry key node t) = if other = key then some node else lookup other t
  | [] => by
    by_cases h : other = key
    · simp [setEntry, lookup, h]
    · simp [setEntry, lookup, h, Ne.symm h]
  | e :: rest => by
    unfold setEntry
    by_cases he : e.1 = key
    · by_cases h : other = key
      · simp [lookup, he, h]
      · simp [lookup, he, h, Ne.symm h]
    · by_cases h : other = key
      · subst h
        simp [lookup, he, lookup_setEntry]
      · by_cases ho : e.1 = other
        · simp [lookup, h, ho]
        · simp [lookup, he, h, ho, lookup_setEntry]

/-! ## Changing a table inside a table -/

/-- Changes the last of some tables. -/
def changeLast (f : Table → Option Table) : List Table → Option (List Table)
  | [] => none
  | [t] => (f t).map fun t => [t]
  | t :: rest => (changeLast f rest).map (t :: ·)

/--
Changes the table at the end of a path by `f`, which is told how that table came about. Tables that
are missing on the way are made in the form `fresh`; of repeated tables the last one is meant. There
is no way through other values, and dotted keys do not go through complete tables.
-/
def change (fresh : Form) (f : Form → Table → Option Table) :
    (path : List String) → Form → Table → Option Table
  | [], form, t => f form t
  | key :: path, _, t =>
    match lookup key t with
    | none => (change fresh f path fresh []).map fun s => setEntry key (.table fresh s) t
    | some (.table form s) =>
      if form.isInline && !fresh.isInline || fresh.isDotted && !form.isOpen then none
      else (change fresh f path form s).map fun s => setEntry key (.table form s) t
    | some (.tables list) =>
      (changeLast (change fresh f path .header) list).map fun l => setEntry key (.tables l) t
    | some _ => none

/--
Adds a value at a dotted key: path and last part. The last part must be new, and a table reached by
a path must have come about by dotted keys.
-/
def insert (fresh : Form) (path : List String) (key : String) (node : Node) (form : Form)
    (t : Table) : Option Table :=
  change fresh
    (fun form t =>
      if form.isDotted == path.isEmpty then none
      else if (lookup key t).isSome then none
      else some (setEntry key node t))
    path form t

/-- A plain key is added once. -/
theorem insert_path_nil (fresh : Form) (key : String) (node : Node) {form : Form} (t : Table)
    (h : form.isDotted = false) :
    insert fresh [] key node form t
      = if (lookup key t).isSome then none else some (setEntry key node t) := by
  simp [insert, change, h]

end Table

end FogNet.Toml
