import ArenaScript.Number.Double
import ArenaScript.Types.Kind
/-!
# Scalars

A scalar is a core value lifted out of the arena.  In the arena it is stored
little-endian, in as many bytes as its kind has; casting to a kind truncates and
wraps the way such a store does.
-/

namespace ArenaScript

open Number (Double)

inductive Scalar where
  | bool (b : Bool)
  | int (v : Int64)
  | uint (v : UInt64)
  | float (v : Double)
  deriving DecidableEq, Repr

/-! ## Little-endian bytes -/

def lowBytes (v : Nat) : Nat → List UInt8
  | 0 => []
  | count + 1 => v.toUInt8 :: lowBytes (v / 256) count

def ofLowBytes : List UInt8 → Nat
  | [] => 0
  | b :: rest => b.toNat + 256 * ofLowBytes rest

namespace Scalar

/-! ## Views -/

def toInt64 : Scalar → Int64
  | .bool b => if b then 1 else 0
  | .int v => v
  | .uint v => v.toInt64
  | .float v => v.toFloat.toInt64

def toUInt64 : Scalar → UInt64
  | .bool b => if b then 1 else 0
  | .int v => v.toUInt64
  | .uint v => v
  | .float v => v.toFloat.toUInt64

def toDouble : Scalar → Double
  | .bool b => .ofFloat (if b then 1.0 else 0.0)
  | .int v => .ofFloat v.toFloat
  | .uint v => .ofFloat v.toFloat
  | .float v => v

def toBool : Scalar → Bool
  | .bool b => b
  | .int v => v != 0
  | .uint v => v != 0
  | .float v => v.toFloat != 0.0

/-! ## Casts -/

def cast (s : Scalar) : CoreKind → Scalar
  | .bool => .bool s.toBool
  | .int8 => .int s.toInt64.toInt8.toInt64
  | .int16 => .int s.toInt64.toInt16.toInt64
  | .int32 => .int s.toInt64.toInt32.toInt64
  | .int64 => .int s.toInt64
  | .uint8 => .uint s.toUInt64.toUInt8.toUInt64
  | .uint16 => .uint s.toUInt64.toUInt16.toUInt64
  | .uint32 => .uint s.toUInt64.toUInt32.toUInt64
  | .uint64 | .str | .void => .uint s.toUInt64
  | .float32 => .float (.ofSingle s.toDouble.toSingle)
  | .float64 => .float s.toDouble

/-- The word whose low bytes are stored for this scalar, once it has been cast
to `kind`. -/
def storedWord (kind : CoreKind) : Scalar → Nat
  | .bool b => if b then 1 else 0
  | .int v => v.toUInt64.toNat
  | .uint v => v.toNat
  | .float v => if kind == .float32 then v.toSingle.toNat else v.bits.toNat

def encode (s : Scalar) (kind : CoreKind) : List UInt8 :=
  lowBytes ((s.cast kind).storedWord kind) kind.size

/-- The scalar of `kind` stored in the first bytes; missing bytes read as
zero. -/
def decode (kind : CoreKind) (bytes : List UInt8) : Scalar :=
  let word := ofLowBytes (bytes.take kind.size)
  match kind with
  | .void => .uint 0
  | .bool => .bool (word != 0)
  | .int8 => .int word.toUInt8.toInt8.toInt64
  | .int16 => .int word.toUInt16.toInt16.toInt64
  | .int32 => .int word.toUInt32.toInt32.toInt64
  | .int64 => .int word.toUInt64.toInt64
  | .uint8 | .uint16 | .uint32 | .uint64 | .str => .uint word.toUInt64
  | .float32 => .float (.ofSingle word.toUInt32)
  | .float64 => .float ⟨word.toUInt64⟩

end Scalar

end ArenaScript
