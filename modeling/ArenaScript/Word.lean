/-!
# Machine words

Addresses, sizes and offsets are words of 64 bits, kept as natural numbers below
`Word.modulus`.  The operations here are those of the machine: what does not fit
wraps around.
-/

namespace ArenaScript.Word

def modulus : Nat := 18446744073709551616

def wrap (n : Nat) : Nat := if n < modulus then n else n % modulus

def add (a b : Nat) : Nat := wrap (a + b)

def mul (a b : Nat) : Nat := wrap (a * b)

def roundUp (n step : Nat) : Nat :=
  if n % step = 0 then n else add n (step - n % step)

theorem wrap_eq_mod (n : Nat) : wrap n = n % modulus := by
  unfold wrap
  split
  · exact (Nat.mod_eq_of_lt ‹_›).symm
  · rfl

theorem wrap_lt (n : Nat) : wrap n < modulus := by
  rw [wrap_eq_mod]
  exact Nat.mod_lt _ (by decide)

theorem wrap_of_lt {n : Nat} (h : n < modulus) : wrap n = n := by
  simp [wrap, h]

theorem add_of_lt {a b : Nat} (h : a + b < modulus) : add a b = a + b :=
  wrap_of_lt h

end ArenaScript.Word
