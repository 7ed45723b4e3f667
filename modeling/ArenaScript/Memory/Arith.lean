import ArenaScript.Fault
import ArenaScript.Memory.Scalar
/-!
# Arithmetic on scalars

Integers wrap at the width of their kind; division and remainder truncate toward
zero, and by zero they fail.  Shift counts are taken modulo 64.
-/

namespace ArenaScript

open Number (Double)

inductive Arith where
  | add | sub | mul | div | rem | and | or | xor | shl | shr
  deriving DecidableEq, Repr

namespace Arith

def numeric : List (String × Arith) :=
  [("+", .add), ("-", .sub), ("*", .mul), ("/", .div), ("%", .rem)]

def bitwise : List (String × Arith) :=
  [("&", .and), ("|", .or), ("^", .xor), ("<<", .shl), (">>", .shr)]

def onFloats (kind : CoreKind) : Arith → Double → Double → Except Failure Double
  | .add, a, b => .ok (a + b)
  | .sub, a, b => .ok (a - b)
  | .mul, a, b => .ok (a * b)
  | .div, a, b => .ok (a / b)
  | .rem, a, b => .ok (a % b)
  | _, _, _ => .error (Failure.typeConversion kind.name "integer")

def onSigned : Arith → Int64 → Int64 → Except Failure Int64
  | .add, a, b => .ok (a + b)
  | .sub, a, b => .ok (a - b)
  | .mul, a, b => .ok (a * b)
  | .div, a, b => if b = 0 then .error Failure.divisionByZero else .ok (a / b)
  | .rem, a, b => if b = 0 then .error Failure.divisionByZero else .ok (a % b)
  | .and, a, b => .ok (a &&& b)
  | .or, a, b => .ok (a ||| b)
  | .xor, a, b => .ok (a ^^^ b)
  | .shl, a, b => .ok (a <<< b)
  | .shr, a, b => .ok (a >>> b)

def onUnsigned : Arith → UInt64 → UInt64 → Except Failure UInt64
  | .add, a, b => .ok (a + b)
  | .sub, a, b => .ok (a - b)
  | .mul, a, b => .ok (a * b)
  | .div, a, b => if b = 0 then .error Failure.divisionByZero else .ok (a / b)
  | .rem, a, b => if b = 0 then .error Failure.divisionByZero else .ok (a % b)
  | .and, a, b => .ok (a &&& b)
  | .or, a, b => .ok (a ||| b)
  | .xor, a, b => .ok (a ^^^ b)
  | .shl, a, b => .ok (a <<< b)
  | .shr, a, b => .ok (a >>> b)

def apply (op : Arith) (kind : CoreKind) (l r : Scalar) :
    Except Failure Scalar :=
  if kind.isFloat then
    (op.onFloats kind l.toDouble r.toDouble).map fun v =>
      (Scalar.float v).cast kind
  else if kind.isSigned then
    (op.onSigned l.toInt64 r.toInt64).map fun v => (Scalar.int v).cast kind
  else (op.onUnsigned l.toUInt64 r.toUInt64).map fun v =>
    (Scalar.uint v).cast kind

end Arith

namespace Scalar

def negate (kind : CoreKind) (s : Scalar) : Scalar :=
  let negated :=
    match s with
    | .float v => Scalar.float (-v)
    | .int v => Scalar.int (-v)
    | other => Scalar.uint (-other.toUInt64)
  negated.cast kind

def complement (kind : CoreKind) (s : Scalar) : Scalar :=
  (Scalar.uint (~~~s.toUInt64)).cast kind

end Scalar

inductive Comparison where
  | eq | ne | lt | le | gt | ge
  deriving DecidableEq, Repr

namespace Comparison

def all : List (String × Comparison) :=
  [("==", .eq), ("!=", .ne), ("<", .lt), ("<=", .le), (">", .gt), (">=", .ge)]

def holds : Comparison → Option Ordering → Bool
  | .eq, o => o == some .eq
  | .ne, o => o != some .eq
  | .lt, o => o == some .lt
  | .le, o => o == some .lt || o == some .eq
  | .gt, o => o == some .gt
  | .ge, o => o == some .gt || o == some .eq

end Comparison

def Scalar.order (kind : CoreKind) (l r : Scalar) : Option Ordering :=
  if kind.isFloat then l.toDouble.order r.toDouble
  else if kind.isSigned then some (compare l.toInt64 r.toInt64)
  else some (compare l.toUInt64 r.toUInt64)

end ArenaScript
