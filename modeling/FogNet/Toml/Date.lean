import FogNet.Toml.Number

/-!
# Dates of a document

A date, a time, or a date with a time, which may have an offset. Dates are checked, but not kept:
nothing that is read from a document holds one.

## Main statements

* `daysIn_le` — no month has more than 31 days
-/

namespace FogNet.Toml

/-! ## Parts -/

/-- The number of exactly so many digits. -/
def readExactly? (count : Nat) (cs : List Char) : Option (Nat × List Char) :=
  let digits := cs.take count
  if digits.length = count ∧ digits.all isDecimal = true then
    some (valueOf 10 digits, cs.drop count)
  else none

/-- A number of two digits within bounds. -/
def readTwo? (low high : Nat) (cs : List Char) : Option (Nat × List Char) :=
  (readExactly? 2 cs).filter fun r => low ≤ r.1 && r.1 ≤ high

/-- What follows a certain character. -/
def after? (c : Char) : List Char → Option (List Char)
  | [] => none
  | d :: rest => if d == c then some rest else none

def isLeapYear (year : Nat) : Bool := year % 4 == 0 && (year % 100 != 0 || year % 400 == 0)

def daysIn (year month : Nat) : Nat :=
  if month = 2 then (if isLeapYear year then 29 else 28)
  else if month ∈ [4, 6, 9, 11] then 30
  else 31

theorem daysIn_le (year month : Nat) : daysIn year month ≤ 31 := by
  unfold daysIn
  repeat' split
  all_goals omega

/-! ## Dates and times -/

/-- What follows a year, a month and a day. -/
def afterDay? (cs : List Char) : Option (List Char) := do
  let (year, cs) ← readExactly? 4 cs
  let (month, cs) ← readTwo? 1 12 (← after? '-' cs)
  let (_, cs) ← readTwo? 1 (daysIn year month) (← after? '-' cs)
  return cs

/-- Leaves out decimal places. -/
def skipPlaces : List Char → List Char
  | '.' :: c :: rest => if isDecimal c then rest.dropWhile isDecimal else '.' :: c :: rest
  | cs => cs

/-- What follows hours and minutes. -/
def afterMinutes? (cs : List Char) : Option (List Char) := do
  let (_, cs) ← readTwo? 0 23 cs
  let (_, cs) ← readTwo? 0 59 (← after? ':' cs)
  return cs

/-- What follows a time of the day; a minute may have a leap second. -/
def afterTime? (cs : List Char) : Option (List Char) := do
  let (_, cs) ← readTwo? 0 60 (← after? ':' (← afterMinutes? cs))
  return skipPlaces cs

/-- Leaves out an offset, if there is one. -/
def skipOffset : List Char → List Char
  | [] => []
  | c :: rest =>
    if c == 'Z' || c == 'z' then rest
    else if c == '+' || c == '-' then (afterMinutes? rest).getD (c :: rest)
    else c :: rest

/-- What follows a date, if one comes next. -/
def afterDate? (cs : List Char) : Option (List Char) :=
  match afterDay? cs with
  | none => afterTime? cs
  | some [] => some []
  | some (c :: rest) =>
    if c == 'T' || c == 't' || c == ' ' then
      match afterTime? rest with
      | some rest => some (skipOffset rest)
      | none => some (c :: rest)
    else some (c :: rest)

end FogNet.Toml
