import ArenaScript.Number.Double
import ArenaScript.Number.Integer
/-!
# Doubles as decimal text

A double is written with the fewest digits that read back as the same double; of
several such texts the nearest to the exact value is taken.  The text is always
positional.  Reading rounds to the nearest double.
-/

namespace ArenaScript.Number

/-! ## Fewest digits -/

structure Decimal where
  coefficient : Nat
  exponent : Int
  deriving DecidableEq, Repr

/-- The reals that round to one double, as numerators over a common denominator:
the two ends, the value between them, and whether the ends belong. -/
structure Interval where
  low : Nat
  value : Nat
  high : Nat
  den : Nat
  closed : Bool
  deriving DecidableEq, Repr

namespace Interval

/-- The reals that round to `mantissa · 2 ^ exponent`.  Just above a power of
two the gap below is half as wide, unless the exponent is the least one. -/
def ofMantissa (mantissa : Nat) (exponent : Int) : Interval :=
  let narrow := mantissa == Nat.pow 2 52 && exponent != Binary64.leastExponent
  let up := Nat.pow 2 (exponent - 2).toNat
  { low := (4 * mantissa - (if narrow then 1 else 2)) * up
    value := 4 * mantissa * up
    high := (4 * mantissa + 2) * up
    den := Nat.pow 2 (2 - exponent).toNat
    closed := mantissa % 2 == 0 }

/-- Whether `c · 10 ^ s` lies in the interval. -/
def contains (i : Interval) (c : Nat) (s : Int) : Bool :=
  let point := c * Nat.pow 10 s.toNat * i.den
  let unit := Nat.pow 10 (-s).toNat
  if i.closed then i.low * unit ≤ point && point ≤ i.high * unit
  else i.low * unit < point && point < i.high * unit

def magnitude (i : Interval) : Int :=
  if i.den ≤ i.value then Int.ofNat (Nat.toDigits 10 (i.value / i.den)).length
  else
    let count := (Nat.toDigits 10 (i.den / i.value)).length
    if i.value * Nat.pow 10 (count - 1) < i.den then 1 - Int.ofNat count else
      2 - Int.ofNat count

/-- The nearest decimal of the interval among the value's two neighbours on the
grid of `10 ^ s`; of two equally near ones the larger. -/
def nearestOnGrid (i : Interval) (s : Int) : Option Decimal :=
  let unit := Nat.pow 10 (-s).toNat
  let step := Nat.pow 10 s.toNat * i.den
  let below := i.value * unit / step
  let rest := i.value * unit % step
  match i.contains below s, i.contains (below + 1) s with
  | true, true => some ⟨if 2 * rest < step then below else below + 1, s⟩
  | true, false => some ⟨below, s⟩
  | false, true => some ⟨below + 1, s⟩
  | false, false => none

def shortestFrom (i : Interval) (count : Nat) : Nat → Decimal
  | 0 => ⟨i.value / i.den, 0⟩
  | rounds + 1 =>
      match i.nearestOnGrid (i.magnitude - Int.ofNat count) with
      | some found => found
      | none => i.shortestFrom (count + 1) rounds

/-- The shortest decimal of the interval; seventeen digits always suffice. -/
def shortest (i : Interval) : Decimal := i.shortestFrom 1 17

end Interval

/-! ## Positional text -/

def Decimal.trim (d : Decimal) : Nat → Decimal
  | 0 => d
  | rounds + 1 =>
      if d.coefficient != 0 && d.coefficient % 10 == 0 then
        Decimal.trim ⟨d.coefficient / 10, d.exponent + 1⟩ rounds
      else d

def zeros (count : Nat) : String := String.ofList (List.replicate count '0')

def Decimal.positional (d : Decimal) : String :=
  let digits := Nat.toDigits 10 d.coefficient
  if 0 ≤ d.exponent then String.ofList digits ++ zeros d.exponent.toNat
  else
    let places := (-d.exponent).toNat
    if places < digits.length then
      String.ofList (digits.take (digits.length - places)) ++ "." ++
        String.ofList (digits.drop (digits.length - places))
    else "0." ++ zeros (places - digits.length) ++ String.ofList digits

def Double.text (d : Double) : String :=
  match Binary64.ofBits d.bits with
  | .notANumber => "NaN"
  | .infinite negative => if negative then "-inf" else "inf"
  | .finite negative mantissa exponent =>
      let magnitude :=
        if mantissa = 0 then "0"
        else ((Interval.ofMantissa mantissa exponent).shortest.trim
          20).positional
      if negative then "-" ++ magnitude else magnitude

/-! ## Reading -/

/-- The double nearest to `coefficient · 10 ^ exponent`.  Beyond the range of
doubles the power is never formed. -/
def Decimal.toDouble (negative : Bool) (d : Decimal) : Double :=
  let places : Int :=
    Int.ofNat (Nat.toDigits 10 d.coefficient).length + d.exponent
  if d.coefficient = 0 || places < -330 then .ofRatio negative 0 1
  else if 320 < places then Double.infinity.signed negative
  else
    .ofRatio negative (d.coefficient * Nat.pow 10 d.exponent.toNat)
      (Nat.pow 10 (-d.exponent).toNat)

def exponentPart? : List Char → Option Int
  | [] => some 0
  | c :: rest =>
      if c == 'e' || c == 'E' then
        match rest with
        | '+' :: digits => (natural? 10 digits).map Int.ofNat
        | '-' :: digits => (natural? 10 digits).map fun n => -Int.ofNat n
        | digits => (natural? 10 digits).map Int.ofNat
      else none

def decimalPart? (cs : List Char) : Option Decimal :=
  let whole := cs.takeWhile Char.isDigit
  let rest := cs.dropWhile Char.isDigit
  let (fraction, rest) :=
    match rest with
    | '.' :: rest => (rest.takeWhile Char.isDigit, rest.dropWhile Char.isDigit)
    | rest => ([], rest)
  if whole.isEmpty && fraction.isEmpty then none
  else do
    let exponent ← exponentPart? rest
    let coefficient ← digits? 10 0 (whole ++ fraction)
    pure ⟨coefficient, exponent - Int.ofNat fraction.length⟩

/-- The double of the given sign whose magnitude is written; the names of the
special values are read in any case, and the sign counts for them too. -/
def magnitude? (negative : Bool) (cs : List Char) : Option Double :=
  match String.ofList (cs.map Char.toLower) with
  | "inf" | "infinity" => some (Double.infinity.signed negative)
  | "nan" => some (Double.nan.signed negative)
  | _ => (decimalPart? cs).map (Decimal.toDouble negative)

def double? (text : String) : Option Double :=
  match text.toList with
  | '-' :: rest => magnitude? true rest
  | '+' :: rest => magnitude? false rest
  | cs => magnitude? false cs

end ArenaScript.Number
