/-!
# Double precision numbers, exactly

A double is kept as its 64 bits where it is only stored and shown, so that the sign of a NaN and of
a zero stay visible, and as a `Float` where it takes part in arithmetic. Exact questions about a
double (its decimal digits, its nanoseconds) are asked of its `Magnitude`: a natural significand
times a power of two.

## Main statements

* `roundHalfEven_mul` — a quotient without remainder is not changed by rounding
* `roundHalfEven_error` — a rounded quotient is within half a unit of the quotient
* `roundHalfEven_even` — a tie goes to the even neighbour
-/

namespace FogNet

/-! ## Rounding a quotient -/

/-- The integer nearest to `num / den`; a tie goes to the even one. -/
def roundHalfEven (num den : Nat) : Nat :=
  let q := num / den
  let r := num % den
  if 2 * r < den then q
  else if den < 2 * r then q + 1
  else if q % 2 = 0 then q
  else q + 1

theorem roundHalfEven_mul (n : Nat) {den : Nat} (h : 0 < den) :
    roundHalfEven (n * den) den = n := by
  simp only [roundHalfEven, Nat.mul_mod_left, Nat.mul_div_cancel _ h]
  rw [if_pos (by omega)]

/-- A rounded quotient is within half a unit of the quotient. -/
theorem roundHalfEven_error (num : Nat) {den : Nat} (h : 0 < den) :
    2 * num ≤ 2 * (roundHalfEven num den * den) + den
      ∧ 2 * (roundHalfEven num den * den) ≤ 2 * num + den := by
  have hdiv : num / den * den + num % den = num := by
    rw [Nat.mul_comm]; exact Nat.div_add_mod num den
  have hmod := Nat.mod_lt num h
  have hsucc : (num / den + 1) * den = num / den * den + den := Nat.succ_mul _ _
  simp only [roundHalfEven]
  split
  · omega
  · split
    · rw [hsucc]; omega
    · split
      · omega
      · rw [hsucc]; omega

/-- A tie goes to the even neighbour. -/
theorem roundHalfEven_even {num den : Nat} (h : 2 * (num % den) = den) :
    roundHalfEven num den % 2 = 0 := by
  simp only [roundHalfEven]
  rw [if_neg (by omega), if_neg (by omega)]
  split <;> omega

/-! ## The parts of a double -/

/-- What a double stands for, apart from its sign. -/
inductive Magnitude where
  | nan
  | infinite
  /-- The number `significand * 2 ^ exponent`. -/
  | finite (significand : Nat) (exponent : Int)
  deriving DecidableEq, Repr

/-- A double as the 64 bits of its binary interchange format. -/
structure Binary64 where
  bits : UInt64
  deriving DecidableEq, Repr, Inhabited

namespace Binary64

def ofFloat (x : Float) : Binary64 := ⟨x.toBits⟩

def toFloat (x : Binary64) : Float := Float.ofBits x.bits

/-- Whether the sign bit is set. -/
def negative (x : Binary64) : Bool := 0x8000000000000000 ≤ x.bits.toNat

/-- The same number with the other sign. -/
def neg (x : Binary64) : Binary64 := ⟨x.bits ^^^ 0x8000000000000000⟩

/-- The eleven exponent bits. -/
def exponentField (x : Binary64) : Nat := x.bits.toNat / 0x10000000000000 % 0x800

/-- The fifty-two fraction bits. -/
def fractionField (x : Binary64) : Nat := x.bits.toNat % 0x10000000000000

def magnitude (x : Binary64) : Magnitude :=
  if x.exponentField = 2047 then
    if x.fractionField = 0 then .infinite else .nan
  else if x.exponentField = 0 then .finite x.fractionField (-1074)
  else .finite (0x10000000000000 + x.fractionField) ((x.exponentField : Int) - 1075)

/-- The double of infinite magnitude above all others. -/
def infinity : Binary64 := ⟨0x7FF0000000000000⟩

/-- The quiet NaN without sign. -/
def quietNaN : Binary64 := ⟨0x7FF8000000000000⟩

/--
The double nearest to `digits * 10 ^ exponent`.

Exponents that are out of reach for the given digits are answered at once, so that no power of ten
is larger than the digits call for.
-/
def ofDecimal (digits : Nat) (exponent : Int) : Binary64 :=
  let size : Int := (Nat.toDigits 10 digits).length
  if digits = 0 then ⟨0⟩
  else if 310 < size + exponent then infinity
  else if size + exponent < -330 then ⟨0⟩
  else ofFloat (Float.ofScientific digits (decide (exponent < 0)) exponent.natAbs)

/-- The sixteen hexadecimal digits of the bits. -/
def hex (x : Binary64) : String :=
  let digits := Nat.toDigits 16 x.bits.toNat
  String.ofList (List.replicate (16 - digits.length) '0' ++ digits)

end Binary64

/-- The fraction `significand * 2 ^ exponent`, as numerator and denominator. -/
def dyadic (significand : Nat) (exponent : Int) : Nat × Nat :=
  match exponent with
  | .ofNat e => (significand * Nat.pow 2 e, 1)
  | .negSucc e => (significand, Nat.pow 2 (e + 1))

theorem dyadic_den_pos (significand : Nat) (exponent : Int) :
    0 < (dyadic significand exponent).2 := by
  unfold dyadic
  split
  · exact Nat.one_pos
  · exact Nat.two_pow_pos _

end FogNet
