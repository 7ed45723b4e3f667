/-!
# Double-precision numbers, exactly

A finite double is `± mantissa · 2 ^ exponent`.  This module takes doubles apart
and rounds a quotient of naturals to the nearest double (ties go to the even
mantissa), all in exact arithmetic.
-/

namespace ArenaScript.Number

inductive Binary64 where
  | notANumber
  | infinite (negative : Bool)
  | finite (negative : Bool) (mantissa : Nat) (exponent : Int)
  deriving DecidableEq, Repr

namespace Binary64

def leastExponent : Int := -1074

def ofBits (bits : UInt64) : Binary64 :=
  let bits := bits.toNat
  let negative := bits / Nat.pow 2 63 == 1
  let field := bits / Nat.pow 2 52 % 2048
  let fraction := bits % Nat.pow 2 52
  if field == 2047 then
    if fraction == 0 then .infinite negative else .notANumber
  else if field == 0 then .finite negative fraction leastExponent
  else .finite negative (fraction + Nat.pow 2 52) (Int.ofNat field - 1075)

def scaleDown (num den : Nat) (e : Int) : Nat × Nat :=
  (num * Nat.pow 2 (-e).toNat, den * Nat.pow 2 e.toNat)

/-- The natural nearest to `num / den`, the even one of two equally near. -/
def nearestEven (num den : Nat) : Nat :=
  let q := num / den
  let twice := 2 * (num % den)
  if twice < den then q
  else if den < twice then q + 1
  else if q % 2 = 0 then q else q + 1

def fittingExponent (num den : Nat) : Int :=
  let e : Int := Int.ofNat num.log2 - Int.ofNat den.log2 - 52
  let (n, d) := scaleDown num den e
  max leastExponent (if n < d * Nat.pow 2 52 then e - 1 else e)

def roundRatio (num den : Nat) : UInt64 :=
  let e := fittingExponent num den
  let (n, d) := scaleDown num den e
  let mantissa := nearestEven n d
  if mantissa < Nat.pow 2 52 then mantissa.toUInt64
  else
    let bits := (e + 1075).toNat * Nat.pow 2 52 + (mantissa - Nat.pow 2 52)
    if bits < 2047 * Nat.pow 2 52 then bits.toUInt64 else
      (2047 * Nat.pow 2 52).toUInt64

end Binary64

end ArenaScript.Number
