/-!
# Words

CPU is counted in words of 64 bits. A sum that is too large for a word loses its carry, so just the
remainder of it is kept. Nothing is noticed of that where it happens: a device that has far too much
to do may look as if it had little.

## Main statements

* `wrap_of_lt` — what fits is kept as it is
* `wrap_wrap_add`, `wrap_add_wrap` — it does not matter when a carry is lost
* `wrap_sub` — nor does it matter for what is taken off the remainder
-/

namespace FogNet

/-- What a word keeps of a number. -/
def wrap (n : Nat) : Nat := n % UInt64.size

theorem wrap_of_lt {n : Nat} (h : n < UInt64.size) : wrap n = n := Nat.mod_eq_of_lt h

theorem wrap_lt (n : Nat) : wrap n < UInt64.size := Nat.mod_lt n (by decide)

theorem wrap_le (n : Nat) : wrap n ≤ n := Nat.mod_le n _

theorem wrap_wrap_add (n m : Nat) : wrap (wrap n + m) = wrap (n + m) := Nat.mod_add_mod ..

theorem wrap_add_wrap (n m : Nat) : wrap (n + wrap m) = wrap (n + m) := Nat.add_mod_mod ..

theorem wrap_sub {n m : Nat} (h : m ≤ wrap n) : wrap (n - m) = wrap n - m := by
  have hsplit : n = wrap n + UInt64.size * (n / UInt64.size) := (Nat.mod_add_div n _).symm
  have hless : wrap n - m < UInt64.size := Nat.lt_of_le_of_lt (Nat.sub_le _ _) (wrap_lt n)
  calc wrap (n - m) = wrap ((wrap n - m) + UInt64.size * (n / UInt64.size)) := by
        congr 1
        omega
    _ = wrap (wrap n - m) := Nat.add_mul_mod_self_left ..
    _ = wrap n - m := wrap_of_lt hless

end FogNet
