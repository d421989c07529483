import FogNet.Number.Binary64

/-!
# The shortest decimal that reads back

A double is written with the fewest digits that still denote it: on the grids of 1, 2, 3, …
significant digits the two neighbours of the exact value are tried, and the first grid with a
neighbour inside the rounding interval of the double wins. Of two such neighbours the nearer one is
taken, and the greater one of a tie. The digits are then written without an exponent.
-/

namespace FogNet.Number

/-! ## The rounding interval -/

/--
The reals that round to a finite positive double, over the common denominator `den`: from `low` to
`high`, with the ends exactly if `closed`.
-/
structure Interval where
  low : Nat
  value : Nat
  high : Nat
  den : Nat
  closed : Bool

/--
Half a unit of the last place to both sides. Below a power of two the doubles lie twice as dense,
so there the lower half is a quarter. The ends belong to the double with the even significand.
-/
def Interval.ofFinite (significand : Nat) (exponent : Int) : Interval :=
  -- In quarters of the last place, so that a quarter below is whole.
  let lower := if significand = 0x10000000000000 ∧ exponent ≠ -1074 then 1 else 2
  let scale (n : Nat) : Nat := (dyadic n (exponent - 2)).1
  { low := scale (4 * significand - lower)
    value := scale (4 * significand)
    high := scale (4 * significand + 2)
    den := (dyadic 1 (exponent - 2)).2
    closed := decide (significand % 2 = 0) }

/-- Whether `num / den` lies in the interval, where `den` need not be the interval's own. -/
def Interval.holds (i : Interval) (num den : Nat) : Bool :=
  if i.closed then decide (i.low * den ≤ num * i.den) && decide (num * i.den ≤ i.high * den)
  else decide (i.low * den < num * i.den) && decide (num * i.den < i.high * den)

/-! ## The grids -/

/-- `n * 10 ^ e` as a fraction. -/
def decimalFraction (n : Nat) (e : Int) : Nat × Nat :=
  match e with
  | .ofNat k => (n * Nat.pow 10 k, 1)
  | .negSucc k => (n, Nat.pow 10 (k + 1))

/-- The neighbour of the value on the grid of multiples of `10 ^ e`, if one reads back. -/
def Interval.onGrid (i : Interval) (e : Int) : Option Nat :=
  let (unit, parts) := decimalFraction 1 e
  let below := i.value * parts / (i.den * unit)
  let holds (n : Nat) : Bool :=
    let (num, den) := decimalFraction n e
    i.holds num den
  let twice := 2 * (i.value * parts)
  let middle := (2 * below + 1) * (i.den * unit)
  match holds below, holds (below + 1) with
  -- Both read back: the nearer one, and the greater one of a tie.
  | true, true => some (if twice < middle then below else below + 1)
  | true, false => some below
  | false, true => some (below + 1)
  | false, false => none

/-- The first of `grids` grids, from `10 ^ e` downwards, with a neighbour that reads back. -/
def Interval.search (i : Interval) : (grids : Nat) → (e : Int) → Nat × Int
  | 0, e => (i.value / i.den, e)
  | grids + 1, e =>
    match i.onGrid e with
    | some n => (n, e)
    | none => i.search grids (e - 1)

/-- An exponent of ten with `num / den < 10 ^ e`, at most three above the least. -/
def decimalCeiling (num den : Nat) : Int :=
  ((Nat.log2 num : Int) - (Nat.log2 den : Int)) * 30103 / 100000 + 2

/-- Digits and exponent of ten of the shortest decimal for a finite positive double. -/
def shortestDigits (significand : Nat) (exponent : Int) : Nat × Int :=
  let i := Interval.ofFinite significand exponent
  i.search 22 (decimalCeiling i.value i.den)

/-! ## Positional text -/

/-- `digits * 10 ^ e` without an exponent and without trailing zeros after a point. -/
def positional (digits : Nat) (e : Int) : String :=
  match e with
  | .ofNat k => toString (digits * Nat.pow 10 k)
  | .negSucc k =>
    let whole := digits / Nat.pow 10 (k + 1)
    let part := Nat.toDigits 10 (digits % Nat.pow 10 (k + 1))
    let part := List.replicate (k + 1 - part.length) '0' ++ part
    let part := (part.reverse.dropWhile (· == '0')).reverse
    if part.isEmpty then toString whole
    else toString whole ++ "." ++ String.ofList part

/-- The shortest text of a double, never with an exponent; a whole number has no point. -/
def shortest (x : Float) : String :=
  let b := Binary64.ofFloat x
  let sign := if b.negative then "-" else ""
  match b.magnitude with
  | .nan => "NaN"
  | .infinite => sign ++ "inf"
  | .finite 0 _ => sign ++ "0"
  | .finite m e =>
    let (digits, exponent) := shortestDigits m e
    sign ++ positional digits exponent

end FogNet.Number
