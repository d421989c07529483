import FogNet.Number.Binary64

/-!
# Numbers with a fixed count of decimal places

The exact value of the double is rounded to the last place, and a tie goes to the even digit.
-/

namespace FogNet.Number

/-- A natural number as decimal text of at least `width` digits. -/
def padded (width n : Nat) : String :=
  let digits := Nat.toDigits 10 n
  String.ofList (List.replicate (width - digits.length) '0' ++ digits)

/-- `units` counts steps of `10 ^ -places`. -/
def ofUnits (places units : Nat) : String :=
  if places = 0 then toString units
  else 
    let unit := Nat.pow 10 places
    toString (units / unit) ++ "." ++ padded places (units % unit)

/-- A double with `places` decimal places; a NaN has no sign. -/
def fixed (places : Nat) (x : Float) : String :=
  let b := Binary64.ofFloat x
  let sign := if b.negative then "-" else ""
  match b.magnitude with
  | .nan => "NaN"
  | .infinite => sign ++ "inf"
  | .finite m e =>
    let (num, den) := dyadic m e
    sign ++ ofUnits places (roundHalfEven (num * Nat.pow 10 places) den)

end FogNet.Number
