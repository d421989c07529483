import FogNet.Toml.Document

/-!
# From nodes to values

A decoder reads a value of some type from a node, or nothing where the node is of another shape.

A record is a table with its fields as keys, or an array with its fields in a fixed order. A table
has no other keys; what comes after the last field of an array is not looked at. So the fields are
taken one after another, in that order, and the record is complete when no named field is left.

## Main statements

* `take_placed`, `take_named` — what taking a field answers, and what it leaves
* `natural_lt` — a number that is read fits into its width
-/

namespace FogNet.Toml

abbrev Decoder (α : Type) := Node → Option α

namespace Decoder

variable {α : Type}

def string : Decoder String
  | .string s => some s
  | _ => none

/-- A natural number of at most so many bits. -/
def natural (bits : Nat) : Decoder Nat
  | .integer i => if 0 ≤ i ∧ i.toNat < Nat.pow 2 bits then some i.toNat else none
  | _ => none

/-- A double, which may be written as an integer. -/
def double : Decoder Binary64
  | .float x => some x
  | .integer i => some (signed (decide (i < 0)) (Binary64.ofDecimal i.natAbs 0))
  | _ => none

/-- An array, or the tables of a repeated header. -/
def list (read : Decoder α) : Decoder (List α)
  | .array items => items.mapM read
  | .tables list => list.mapM fun t => read (.table .header t)
  | _ => none

/-- Whether there is nothing in an array or a table. -/
def isVoid : Node → Bool
  | .array items => items.isEmpty
  | .table _ entries => entries.isEmpty
  | .tables list => list.isEmpty
  | _ => false

/--
The word that a node chooses: a string, or the first key of a table that has nothing in it. An
inline table has one key only.
-/
def choice? : Node → Option String
  | .string s => some s
  | .table form ((key, node) :: rest) =>
    if form.isInline && !rest.isEmpty then none
    else if isVoid node then some key
    else none
  | _ => none

/-- One of some words. -/
def oneOf (words : List (String × α)) : Decoder α := fun node =>
  (choice? node).bind fun word => (words.find? fun e => e.1 == word).map Prod.snd

theorem natural_lt {bits n : Nat} {node : Node} (h : natural bits node = some n) :
    n < Nat.pow 2 bits := by
  unfold natural at h
  split at h
  · next i =>
    split at h
    · next hi =>
      rw [← Option.some.inj h]
      exact hi.2
    · cases h
  · cases h

end Decoder

/-! ## Records -/

/-- The fields of a record that are not taken yet. -/
inductive Fields where
  | named (t : Table)
  | placed (items : List Node)

namespace Fields

def ofNode? : Node → Option Fields
  | .table _ entries => some (.named entries)
  | .array items => some (.placed items)
  | .tables list => some (.placed (list.map (.table .header)))
  | _ => none

/-- The node of the next field, if the record has it. -/
def take (key : String) : Fields → Option Node × Fields
  | .named t => (t.lookup key, .named (t.remove key))
  | .placed [] => (none, .placed [])
  | .placed (node :: rest) => (some node, .placed rest)

/-- Whether no field is left that should have been taken. -/
def isDone : Fields → Bool
  | .named t => t.isEmpty
  | .placed _ => true

theorem take_named (key : String) (t : Table) :
    take key (.named t) = (t.lookup key, .named (t.remove key)) := rfl

theorem take_placed (key : String) (items : List Node) :
    take key (.placed items) = (items.head?, .placed items.tail) := by
  cases items <;> rfl

end Fields

/-- Reads some fields of a record. -/
abbrev FieldReader (α : Type) := StateT Fields Option α

namespace FieldReader

variable {α : Type}

/-- A field that may be missing. -/
def optional (key : String) (read : Decoder α) : FieldReader (Option α) := do
  match ← modifyGet (Fields.take key) with
  | none => return none
  | some node => return some (← liftM (read node))

/-- A field that has a value when it is missing. -/
def withDefault (key : String) (read : Decoder α) (default : α) : FieldReader α :=
  return (← optional key read).getD default

/-- A field that must not be missing. -/
def required (key : String) (read : Decoder α) : FieldReader α := do
  match ← optional key read with
  | some a => return a
  | none => failure

end FieldReader

/-- A record with the fields that a reader takes. -/
def Decoder.record {α : Type} (read : FieldReader α) : Decoder α := fun node => do
  let (a, rest) ← read.run (← Fields.ofNode? node)
  if rest.isDone then return a else failure

end FogNet.Toml
