import FogNet.Number.Binary64

/-!
# Durations

A duration, and a point in simulated time, is a count of nanoseconds. Its whole seconds fit in 64
bits, so sums can leave the range: `add?` answers nothing then. Durations that come from a number
of seconds are rounded to the nearest nanosecond.

## Main statements

* `add?_eq_some_iff` — a sum exists exactly inside the range, and is the sum of the nanoseconds
-/

namespace FogNet

/-- A span of simulated time, in nanoseconds. -/
abbrev Duration := Nat

namespace Duration

def nanosPerSecond : Nat := 1000000000

/-- The first count of nanoseconds whose whole seconds no longer fit in 64 bits. -/
def limit : Nat := 0x10000000000000000 * nanosPerSecond

def ofSeconds (seconds : Nat) : Duration := seconds * nanosPerSecond

def ofMillis (millis : Nat) : Duration := millis * 1000000

/-- The sum of two durations, if it is in range. -/
def add? (a b : Duration) : Option Duration :=
  if a + b < limit then some (a + b) else none

theorem add?_eq_some_iff {a b c : Duration} : add? a b = some c ↔ a + b < limit ∧ c = a + b := by
  unfold add?
  split
  · next h => simp [h, eq_comm]
  · next h => simp [h]

/-- Seconds as a double: the whole seconds plus the rest over a billion. -/
def toSeconds (d : Duration) : Float :=
  Float.ofNat (d / nanosPerSecond) + Float.ofNat (d % nanosPerSecond) / 1000000000.0

/--
The nearest duration to a number of seconds, a tie going to the even nanosecond. There is none for
a NaN, for a number below zero and for one outside the range; minus zero counts as zero.
-/
def ofSecondsFloat? (seconds : Float) : Option Duration :=
  let b := Binary64.ofFloat seconds
  match b.magnitude with
  | .nan => none
  | .infinite => none
  | .finite m e =>
    if b.negative && m != 0 then none
    else
      let (num, den) := dyadic m e
      let nanos := roundHalfEven (num * nanosPerSecond) den
      if nanos < limit then some nanos else none

end Duration

end FogNet
