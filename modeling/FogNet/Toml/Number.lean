import FogNet.Toml.Scan

/-!
# Numbers of a document

Integers, in decimal or in another base, and floats. Digits may be parted by single underscores. An
integer has 64 bits; a float must not be too large, but may be written as an infinity or a NaN.

## Main statements

* `readDigits_plain` — digits without underscores are read up to the first other character
* `integer_inRange` — integers outside of 64 bits are refused
-/

namespace FogNet.Toml

/-! ## Digits -/

def isDecimal (c : Char) : Bool := c.isDigit

def isHex (c : Char) : Bool := (hexDigit? c).isSome

def isOctal (c : Char) : Bool := '0' ≤ c && c ≤ '7'

def isBinary (c : Char) : Bool := c == '0' || c == '1'

/-- Whether a digit comes next. -/
def startsWith (isDigit : Char → Bool) : List Char → Bool
  | [] => false
  | c :: _ => isDigit c

/--
The digits that come next, and what follows them. An underscore is left out where `after` another
digit it has a digit behind it.
-/
def readDigits (isDigit : Char → Bool) : (after : Bool) → List Char → List Char × List Char
  | _, [] => ([], [])
  | after, c :: rest =>
    if isDigit c then
      let (digits, rest) := readDigits isDigit true rest
      (c :: digits, rest)
    else if after && c == '_' && startsWith isDigit rest then readDigits isDigit false rest
    else ([], c :: rest)

/-- The number that some digits stand for. -/
def valueOf (base : Nat) (digits : List Char) : Nat :=
  digits.foldl (fun n c => base * n + (hexDigit? c).getD 0) 0

/-! ## Integers -/

/-- An integer that fits into 64 bits. -/
def integer? (i : Int) : Option Node :=
  if -0x8000000000000000 ≤ i ∧ i < 0x8000000000000000 then some (.integer i) else none

/-- The digits of an integer that is written in another base. -/
def readBase? (base : Nat) (isDigit : Char → Bool) (cs : List Char) :
    Option (Node × List Char) :=
  match readDigits isDigit false cs with
  | ([], _) => none
  | (digits, rest) => (integer? (valueOf base digits)).map fun node => (node, rest)

/-! ## Floats -/

/-- Whether there is a minus, and what follows the sign. -/
def readSign : List Char → Bool × List Char
  | '-' :: rest => (true, rest)
  | '+' :: rest => (false, rest)
  | cs => (false, cs)

def signed (minus : Bool) (x : Binary64) : Binary64 := if minus then x.neg else x

/-- Digits, at least one. -/
def readSome? (cs : List Char) : Option (List Char × List Char) :=
  match readDigits isDecimal false cs with
  | ([], _) => none
  | read => some read

/-- The digits before the point; there are no zeros in front of them. -/
def readWhole? : List Char → Option (List Char × List Char)
  | '0' :: rest => some (['0'], rest)
  | cs => readSome? cs

/-- The digits after a point, if there is one. -/
def readFraction? : List Char → Option (List Char × List Char)
  | '.' :: rest => readSome? rest
  | cs => some ([], cs)

/-- The power of ten, if one is written. -/
def readExponent? : List Char → Option (Option Int × List Char)
  | [] => some (none, [])
  | c :: rest =>
    if c == 'e' || c == 'E' then
      let (minus, rest) := readSign rest
      (readSome? rest).map fun (digits, rest) =>
        let n := valueOf 10 digits
        (some (if minus then -n else n), rest)
    else some (none, c :: rest)

/-- A float of the given digits; only downwards it may be infinite. -/
def float? (minus : Bool) (digits : List Char) (exponent : Int) : Option Node :=
  let x := signed minus (Binary64.ofDecimal (valueOf 10 digits) exponent)
  if x = Binary64.infinity then none else some (.float x)

/-- What comes after the sign of a number in decimal digits. -/
def readDecimal? (minus : Bool) (cs : List Char) : Option (Node × List Char) := do
  let (whole, rest) ← readWhole? cs
  let (fraction, rest) ← readFraction? rest
  let (exponent, rest) ← readExponent? rest
  let node ←
    if fraction.isEmpty && exponent.isNone then
      let n := valueOf 10 whole
      integer? (if minus then -n else n)
    else float? minus (whole ++ fraction) (exponent.getD 0 - fraction.length)
  return (node, rest)

/-- A number of any kind. -/
def readNumber? : List Char → Option (Node × List Char)
  | '0' :: 'x' :: rest => readBase? 16 isHex rest
  | '0' :: 'o' :: rest => readBase? 8 isOctal rest
  | '0' :: 'b' :: rest => readBase? 2 isBinary rest
  | cs =>
    match readSign cs with
    | (minus, 'i' :: 'n' :: 'f' :: rest) => some (.float (signed minus .infinity), rest)
    | (minus, 'n' :: 'a' :: 'n' :: rest) => some (.float (signed minus .quietNaN), rest)
    | (minus, rest) => readDecimal? minus rest

/-! ## Laws -/

/-- Digits without underscores are read up to the first other character. -/
theorem readDigits_plain (isDigit : Char → Bool) : ∀ {s rest : List Char} (after : Bool),
    (∀ c ∈ s, isDigit c = true) → (∀ c t, rest = c :: t → isDigit c = false ∧ c ≠ '_') →
      readDigits isDigit after (s ++ rest) = (s, rest)
  | [], [], _, _, _ => rfl
  | [], c :: t, after, _, hrest => by
    obtain ⟨hc, hu⟩ := hrest c t rfl
    simp [readDigits, hc, hu]
  | c :: s, rest, after, hs, hrest => by
    have ih := readDigits_plain isDigit true (fun x hx => hs x (List.mem_cons_of_mem _ hx)) hrest
    simp [readDigits, hs c List.mem_cons_self, ih]

/-- Integers outside of 64 bits are refused. -/
theorem integer_inRange {i : Int} {node : Node} (h : integer? i = some node) :
    -0x8000000000000000 ≤ i ∧ i < 0x8000000000000000 := by
  unfold integer? at h
  split at h
  · assumption
  · cases h

end FogNet.Toml
