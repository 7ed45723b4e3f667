import ArenaScript.Number.Binary64
/-!
# Doubles as they are stored

A double is a word of 64 bits.  Keeping the bits, and not only the number they
stand for, tells all the words apart that stand for no number: each such word
has a sign and a payload, and both survive storing, changing the sign, and every
operation that has the word as an operand.

An operation on two numbers that gives no number gives the word `indefinite`.
An operation on a word that is no number gives that word back, the first one if
both are; on its way through the operation it becomes quiet, that is, the
highest bit of its fraction is set.
-/

namespace ArenaScript.Number

structure Double where
  bits : UInt64
  deriving DecidableEq, Repr, Inhabited

namespace Double

def signBit : UInt64 := 0x8000000000000000

def quietBit : UInt64 := 0x0008000000000000

def infinity : Double := ⟨0x7ff0000000000000⟩

def nan : Double := ⟨0x7ff8000000000000⟩

/-- What an operation on numbers gives where there is no result. -/
def indefinite : Double := ⟨0xfff8000000000000⟩

def isNaN (d : Double) : Bool := infinity.bits < (d.bits &&& ~~~signBit)

def quiet (d : Double) : Double := ⟨d.bits ||| quietBit⟩

def neg (d : Double) : Double := ⟨d.bits ^^^ signBit⟩

instance : Neg Double := ⟨neg⟩

def signed (negative : Bool) (d : Double) : Double := if negative then -d else d

/-! ## Numbers -/

def toFloat (d : Double) : Float := Float.ofBits d.bits

def ofFloat (v : Float) : Double := ⟨v.toBits⟩

def ofRatio (negative : Bool) (num den : Nat) : Double :=
  signed negative ⟨Binary64.roundRatio num den⟩

/-! ## Operations -/

/-- The first operand that is no number, made quiet, or the result `number` of
an operation on numbers. -/
def propagate (a b number : Double) : Double :=
  if a.isNaN then a.quiet
  else if b.isNaN then b.quiet
  else number

def lift₂ (op : Float → Float → Float) (a b : Double) : Double :=
  let v := op a.toFloat b.toFloat
  propagate a b (if v.isNaN then indefinite else ofFloat v)

instance : Add Double := ⟨lift₂ (· + ·)⟩
instance : Sub Double := ⟨lift₂ (· - ·)⟩
instance : Mul Double := ⟨lift₂ (· * ·)⟩
instance : Div Double := ⟨lift₂ (· / ·)⟩

/-- What is left of `a` after taking away `b` as often as it fits, truncating
toward zero.  The result has the sign of `a`; there is none for an infinite `a`
or a zero `b`. -/
def remainder (a b : Double) : Double :=
  propagate a b <|
    match Binary64.ofBits a.bits, Binary64.ofBits b.bits with
    | .finite negative m e, .finite _ n f =>
        if n = 0 then indefinite
        else
          let low := min e f
          let rest :=
            (m * Nat.pow 2 (e - low).toNat) % (n * Nat.pow 2 (f - low).toNat)
          let (num, den) := Binary64.scaleDown rest 1 (-low)
          ofRatio negative num den
    | .finite .., .infinite _ => a
    | _, _ => indefinite

instance : Mod Double := ⟨remainder⟩

def order (a b : Double) : Option Ordering :=
  let a := a.toFloat
  let b := b.toFloat
  if a < b then some .lt
  else if b < a then some .gt
  else if a == b then some .eq
  else none

/-! ## Singles

A single is a word of 32 bits with 23 bits of fraction, the upper 23 of a
double's 52. -/

def isSingleNaN (word : UInt32) : Bool := 0x7f800000 < (word &&& 0x7fffffff)

/-- Bits of the single nearest to a double.  A word that is no number keeps its
sign and the upper part of its payload, and becomes quiet. -/
def toSingle (d : Double) : UInt32 :=
  if d.isNaN then
    let sign := (d.bits >>> 32 &&& 0x80000000).toUInt32
    let payload := (d.bits >>> 29 &&& 0x007fffff).toUInt32
    sign ||| (0x7fc00000 : UInt32) ||| payload
  else d.toFloat.toFloat32.toBits

/-- The double of a single.  A word that is no number keeps its sign and its
payload, and becomes quiet. -/
def ofSingle (word : UInt32) : Double :=
  if isSingleNaN word then
    let sign := (word &&& 0x80000000).toUInt64 <<< 32
    let payload := (word &&& 0x007fffff).toUInt64 <<< 29
    quiet ⟨sign ||| infinity.bits ||| payload⟩
  else ofFloat (Float32.ofBits word).toFloat

end Double

end ArenaScript.Number
