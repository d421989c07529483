import FogNet.Toml.Node

/-!
# Blanks, strings and keys of a document

The smallest parts of a TOML document, read from a list of characters. A reader answers what it read
and what is left, or nothing where the text is not as it should be.

## Main statements

* `readBasic_plain`, `readLiteral_plain` — a string without special characters stands for itself
-/

namespace FogNet.Toml

/-! ## Characters -/

def isBlank (c : Char) : Bool := c == ' ' || c == '\t'

/-- Whether a character may stand in a comment: no control character but the tab. -/
def isPrintable (c : Char) : Bool := c == '\t' || (0x20 ≤ c.toNat && c.toNat != 0x7F)

/-- Whether a character may stand in a key without quotes. -/
def isBare (c : Char) : Bool := c.isAlphanum || c == '-' || c == '_'

/-- The value of a hexadecimal digit. -/
def hexDigit? (c : Char) : Option Nat :=
  if '0' ≤ c ∧ c ≤ '9' then some (c.toNat - '0'.toNat)
  else if 'a' ≤ c ∧ c ≤ 'f' then some (c.toNat - 'a'.toNat + 10)
  else if 'A' ≤ c ∧ c ≤ 'F' then some (c.toNat - 'A'.toNat + 10)
  else none

/-- The character with a hexadecimal code. -/
def charOfHex? (digits : List Char) : Option Char := do
  let values ← digits.mapM hexDigit?
  let code := values.foldl (fun n d => 16 * n + d) 0
  if h : code.isValidChar then some (Char.ofNatAux code h) else none

/-! ## Blanks and line ends -/

def skipBlanks (cs : List Char) : List Char := cs.dropWhile isBlank

/-- What follows a line end. -/
def afterNewline? : List Char → Option (List Char)
  | '\n' :: rest => some rest
  | '\r' :: '\n' :: rest => some rest
  | _ => none

/-- What follows a comment, if there is one here. -/
def skipComment (cs : List Char) : List Char :=
  match cs with
  | '#' :: rest => rest.dropWhile isPrintable
  | cs => cs

/-- What follows the rest of a line that holds at most blanks and a comment. -/
def endLine? (cs : List Char) : Option (List Char) :=
  match skipComment (skipBlanks cs) with
  | [] => some []
  | rest => afterNewline? rest

/-- Skips blanks, line ends and whole comments; `inComment` tells whether one is open. -/
def skipBreaks : (inComment : Bool) → List Char → Option (List Char)
  | false, [] => some []
  | true, [] => none
  | _, '\n' :: rest => skipBreaks false rest
  | _, '\r' :: '\n' :: rest => skipBreaks false rest
  | false, c :: rest =>
    if c == '#' then skipBreaks true rest
    else if isBlank c then skipBreaks false rest
    else if c == '\r' then none
    else some (c :: rest)
  | true, c :: rest => if isPrintable c then skipBreaks true rest else none

/-! ## Strings -/

/-- Puts a character before what was read. -/
def prepend (c : Char) (r : Option (List Char × List Char)) : Option (List Char × List Char) :=
  r.map fun (read, rest) => (c :: read, rest)

/-- The character that a letter after a backslash stands for. -/
def simpleEscape? : Char → Option Char
  | 'b' => some (Char.ofNat 8)
  | 't' => some '\t'
  | 'n' => some '\n'
  | 'f' => some (Char.ofNat 12)
  | 'r' => some '\r'
  | '"' => some '"'
  | '\\' => some '\\'
  | _ => none

/-- The character that stands after a backslash, and how many characters it takes to write it. -/
def escape? : List Char → Option (Char × Nat)
  | 'u' :: rest => if rest.length < 4 then none else (charOfHex? (rest.take 4)).map fun c => (c, 5)
  | 'U' :: rest => if rest.length < 8 then none else (charOfHex? (rest.take 8)).map fun c => (c, 9)
  | c :: _ => (simpleEscape? c).map fun c => (c, 1)
  | [] => none

/-- What comes after the opening quote of a string; `skip` characters of it are read already. -/
def readBasic : (skip : Nat) → List Char → Option (List Char × List Char)
  | _, [] => none
  | skip + 1, _ :: rest => readBasic skip rest
  | 0, c :: rest =>
    if c == '"' then some ([], rest)
    else if c == '\\' then
      match escape? rest with
      | none => none
      | some (x, length) => prepend x (readBasic length rest)
    else if isPrintable c then prepend c (readBasic 0 rest)
    else none

/-- What comes after the opening quote of a string without escapes. -/
def readLiteral : List Char → Option (List Char × List Char)
  | [] => none
  | c :: rest =>
    if c == '\'' then some ([], rest)
    else if isPrintable c then prepend c (readLiteral rest)
    else none

/-- Whether only blanks stand before the next line end. -/
def endsLine (cs : List Char) : Bool := (afterNewline? (skipBlanks cs)).isSome

/-- How a string over several lines is to be read on. -/
inductive Reading where
  | plain
  /-- Some characters are read already. -/
  | skip (count : Nat)
  /-- Blanks and line ends are left out, after a backslash at the end of a line. -/
  | trim

/-- What comes after the opening quotes of a string over several lines. -/
def readLongBasic : Reading → List Char → Option (List Char × List Char)
  | _, [] => none
  | .skip (count + 1), _ :: rest => readLongBasic (.skip count) rest
  | .trim, '\n' :: rest => readLongBasic .trim rest
  | .trim, '\r' :: '\n' :: rest => readLongBasic .trim rest
  | .trim, ' ' :: rest => readLongBasic .trim rest
  | .trim, '\t' :: rest => readLongBasic .trim rest
  | _, '"' :: '"' :: '"' :: '"' :: '"' :: rest => some (['"', '"'], rest)
  | _, '"' :: '"' :: '"' :: '"' :: rest => some (['"'], rest)
  | _, '"' :: '"' :: '"' :: rest => some ([], rest)
  | _, '\r' :: '\n' :: rest => prepend '\n' (readLongBasic .plain rest)
  | _, '\n' :: rest => prepend '\n' (readLongBasic .plain rest)
  | _, c :: rest =>
    if c == '\\' then
      if endsLine rest then readLongBasic .trim rest
      else
        match escape? rest with
        | none => none
        | some (x, length) => prepend x (readLongBasic (.skip length) rest)
    else if isPrintable c then prepend c (readLongBasic .plain rest)
    else none

/-- What comes after the opening quotes of a string over several lines without escapes. -/
def readLongLiteral : List Char → Option (List Char × List Char)
  | [] => none
  | '\'' :: '\'' :: '\'' :: '\'' :: '\'' :: rest => some (['\'', '\''], rest)
  | '\'' :: '\'' :: '\'' :: '\'' :: rest => some (['\''], rest)
  | '\'' :: '\'' :: '\'' :: rest => some ([], rest)
  | '\r' :: '\n' :: rest => prepend '\n' (readLongLiteral rest)
  | '\n' :: rest => prepend '\n' (readLongLiteral rest)
  | c :: rest => if isPrintable c then prepend c (readLongLiteral rest) else none

/-- Leaves out a line end at the beginning. -/
def skipNewline (cs : List Char) : List Char := (afterNewline? cs).getD cs

/-- The text of what was read. -/
def asText (r : Option (List Char × List Char)) : Option (String × List Char) :=
  r.map fun (read, rest) => (String.ofList read, rest)

/-- A string of any of the four kinds. -/
def readString? : List Char → Option (String × List Char)
  | '"' :: '"' :: '"' :: rest => asText (readLongBasic .plain (skipNewline rest))
  | '\'' :: '\'' :: '\'' :: rest => asText (readLongLiteral (skipNewline rest))
  | '"' :: rest => asText (readBasic 0 rest)
  | '\'' :: rest => asText (readLiteral rest)
  | _ => none

/-! ## Keys -/

/-- One part of a key. -/
def readPart? : List Char → Option (String × List Char)
  | '"' :: rest => asText (readBasic 0 rest)
  | '\'' :: rest => asText (readLiteral rest)
  | cs =>
    match cs.takeWhile isBare with
    | [] => none
    | part => some (String.ofList part, cs.dropWhile isBare)

/-- The parts of a key, at most `limit`, which blanks may surround; the last part is apart. -/
def readKey? : (limit : Nat) → List Char → Option ((List String × String) × List Char)
  | 0, _ => none
  | limit + 1, cs =>
    match readPart? (skipBlanks cs) with
    | none => none
    | some (part, rest) =>
      match skipBlanks rest with
      | '.' :: rest => (readKey? limit rest).map fun ((path, last), rest) =>
          ((part :: path, last), rest)
      | rest => some (([], part), rest)

/-! ## Laws -/

theorem readLiteral_plain : ∀ {s : List Char} (rest : List Char),
    (∀ c ∈ s, isPrintable c = true ∧ c ≠ '\'') →
      readLiteral (s ++ '\'' :: rest) = some (s, rest)
  | [], _, _ => rfl
  | c :: s, rest, h => by
    have hc := h c List.mem_cons_self
    have ih := readLiteral_plain rest fun x hx => h x (List.mem_cons_of_mem _ hx)
    simp [readLiteral, hc.1, hc.2, ih, prepend]

theorem readBasic_plain : ∀ {s : List Char} (rest : List Char),
    (∀ c ∈ s, isPrintable c = true ∧ c ≠ '"' ∧ c ≠ '\\') →
      readBasic 0 (s ++ '"' :: rest) = some (s, rest)
  | [], _, _ => rfl
  | c :: s, rest, h => by
    have hc := h c List.mem_cons_self
    have ih := readBasic_plain rest fun x hx => h x (List.mem_cons_of_mem _ hx)
    simp [readBasic, hc.1, hc.2.1, hc.2.2, ih, prepend]

end FogNet.Toml
