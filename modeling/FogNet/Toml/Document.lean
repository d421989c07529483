import FogNet.Toml.Date

/-!
# Values and documents

A document is a sequence of lines: headers, which say which table comes next, and keys with their
values, which go into the table of the last header.

## Termination

A value is read to a certain depth, and its items and pairs by a reader for the values one level
below. Items, pairs and lines are counted down from the number of characters there are, of which
each takes at least one.

## Main statements

* `readValue_zero` — nothing is nested deeper than the depth allows
* `Draft.assign_here` — a plain key goes into the table of the last header
-/

namespace FogNet.Toml

/-- How many parts a key may have, and how deep values may be nested. -/
def maxDepth : Nat := 79

/-! ## Values -/

/-- Items up to the closing bracket. -/
def readItems? (read : List Char → Option (Node × List Char)) :
    (count : Nat) → List Char → Option (List Node × List Char)
  | 0, _ => none
  | count + 1, cs =>
    match skipBreaks false cs with
    | none => none
    -- Also after a comma: the last item may have one.
    | some (']' :: rest) => some ([], rest)
    | some cs =>
      match read cs with
      | none => none
      | some (node, rest) =>
        match skipBreaks false rest with
        | some (',' :: rest) =>
          (readItems? read count rest).map fun (nodes, rest) => (node :: nodes, rest)
        | some (']' :: rest) => some ([node], rest)
        | _ => none

/-- A key and its value. -/
def readPair? (read : List Char → Option (Node × List Char)) (cs : List Char) :
    Option ((List String × String × Node) × List Char) :=
  match readKey? maxDepth cs with
  | some ((path, key), '=' :: rest) =>
    (read (skipBlanks rest)).map fun (node, rest) => ((path, key, node), rest)
  | _ => none

/-- Pairs up to the closing brace, which are added to a table. -/
def readPairs? (read : List Char → Option (Node × List Char)) :
    (count : Nat) → Table → List Char → Option (Table × List Char)
  | 0, _, _ => none
  | count + 1, t, cs =>
    match readPair? read cs with
    | none => none
    | some ((path, key, node), rest) =>
      match Table.insert .inlineDotted path key node .inline t with
      | none => none
      | some t =>
        match skipBlanks rest with
        | ',' :: rest => readPairs? read count t rest
        | '\x7d' :: rest => some (t, rest)
        | _ => none

/-- What comes after the opening brace of a table. -/
def readInline? (read : List Char → Option (Node × List Char)) (cs : List Char) :
    Option (Table × List Char) :=
  match skipBlanks cs with
  | '\x7d' :: rest => some ([], rest)
  | cs => readPairs? read cs.length [] cs

/-- A value that holds arrays and tables to a certain depth. -/
def readValue? : (depth : Nat) → List Char → Option (Node × List Char)
  | depth, '[' :: rest =>
    match depth with
    | 0 => none
    | depth + 1 =>
      (readItems? (readValue? depth) rest.length rest).map fun (items, rest) =>
        (.array items, rest)
  | depth, '\x7b' :: rest =>
    match depth with
    | 0 => none
    | depth + 1 =>
      (readInline? (readValue? depth) rest).map fun (entries, rest) =>
        (.table .inline entries, rest)
  | _, 't' :: 'r' :: 'u' :: 'e' :: rest => some (.boolean true, rest)
  | _, 'f' :: 'a' :: 'l' :: 's' :: 'e' :: rest => some (.boolean false, rest)
  | _, '"' :: rest => (readString? ('"' :: rest)).map fun (s, rest) => (.string s, rest)
  | _, '\'' :: rest => (readString? ('\'' :: rest)).map fun (s, rest) => (.string s, rest)
  | _, cs =>
    match afterDate? cs with
    | some rest => some (.date, rest)
    | none => readNumber? cs

/-! ## Documents -/

/-- A document as far as it is read. -/
structure Draft where
  root : Table
  /-- Where the table of the last header is. -/
  path : List String

namespace Draft

def empty : Draft := ⟨[], []⟩

/-- Adds a value to the table of the last header. -/
def assign (path : List String) (key : String) (node : Node) (d : Draft) : Option Draft :=
  (Table.change .implied (Table.insert .dotted path key node) d.path .header d.root).map fun root =>
    { d with root }

/--
Begins the table of a header: a new one, or one that so far occurs in the headers of other tables
only. It becomes the last one of its table.
-/
def beginTable (path : List String) (key : String) (d : Draft) : Option Draft :=
  let begin : Form → Table → Option Table := fun _ t =>
    match t.lookup key with
    | none => some (t.setEntry key (.table .header []))
    -- Its own header makes it a table that no second header may begin.
    | some (.table .implied entries) =>
      some ((t.remove key).setEntry key (.table .header entries))
    | some _ => none
  (Table.change .implied begin path .header d.root).map fun root => ⟨root, path ++ [key]⟩

/-- Begins one more table of a repeated header. -/
def beginNext (path : List String) (key : String) (d : Draft) : Option Draft :=
  let begin : Form → Table → Option Table := fun _ t =>
    match t.lookup key with
    | none => some (t.setEntry key (.tables [[]]))
    | some (.tables list) => some (t.setEntry key (.tables (list ++ [[]])))
    | some _ => none
  (Table.change .implied begin path .header d.root).map fun root => ⟨root, path ++ [key]⟩

/-- Reads a line. -/
def readLine? (d : Draft) (cs : List Char) : Option (Draft × List Char) := do
  let (d, rest) ←
    match skipBlanks cs with
    | '[' :: '[' :: rest =>
      match readKey? maxDepth rest with
      | some ((path, key), ']' :: ']' :: rest) => (d.beginNext path key).map fun d => (d, rest)
      | _ => none
    | '[' :: rest =>
      match readKey? maxDepth rest with
      | some ((path, key), ']' :: rest) => (d.beginTable path key).map fun d => (d, rest)
      | _ => none
    | [] => some (d, [])
    | c :: rest =>
      if c == '#' || c == '\n' || c == '\r' then some (d, c :: rest)
      else
        match readPair? (readValue? maxDepth) (c :: rest) with
        | some ((path, key, node), rest) => (d.assign path key node).map fun d => (d, rest)
        | none => none
  let rest ← endLine? rest
  return (d, rest)

/-- Reads at most so many lines, and no less than there are. -/
def readLines? : (count : Nat) → Draft → List Char → Option Table
  | _, d, [] => some d.root
  | 0, _, _ => none
  | count + 1, d, cs =>
    match d.readLine? cs with
    | none => none
    | some (d, rest) => readLines? count d rest

end Draft

/-- The table that a document stands for. A byte order mark may come first. -/
def parse? (text : String) : Option Table :=
  let cs :=
    match text.toList with
    | '\uFEFF' :: rest => rest
    | cs => cs
  Draft.empty.readLines? cs.length cs

/-! ## Laws -/

/-- Nothing is nested deeper than the depth allows. -/
theorem readValue_zero (rest : List Char) :
    readValue? 0 ('[' :: rest) = none ∧ readValue? 0 ('\x7b' :: rest) = none := ⟨rfl, rfl⟩

/-- Before the first header a plain key goes into the table of the document, once. -/
theorem Draft.assign_here (root : Table) (key : String) (node : Node) :
    Draft.assign [] key node ⟨root, []⟩
      = if (root.lookup key).isSome then none else some ⟨root.setEntry key node, []⟩ := by
  simp only [assign, Table.change, @Table.insert_path_nil .dotted key node .header root rfl]
  split <;> rfl

end FogNet.Toml
