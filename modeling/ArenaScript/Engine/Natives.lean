import ArenaScript.Engine.Construction
import ArenaScript.Engine.Format
/-!
# What native functions do

Natives see places, never references to places: before a native runs, its
arguments are looked through where its parameters ask for that.
-/

namespace ArenaScript

/-- The address `n` elements of `size` bytes away from `base`, provided it and
all numbers on the way to it fit in 64 bits with a sign. -/
def offsetAddress (base : Nat) (n : Int) (size : Nat) : Except Failure Nat :=
  let fits (v : Int) : Bool :=
    -9223372036854775808 ≤ v && v < 9223372036854775808
  let delta := n * Int.ofNat size
  let addr := Int.ofNat base + delta
  if fits (Int.ofNat size) && fits delta && fits (Int.ofNat base) &&
    fits addr && 0 ≤ addr then
    .ok addr.toNat
  else .error (Failure.invalidMemoryAccess base size)

def elementAddress (base : Nat) (index : Int) (len size : Nat) :
    Except Failure Nat :=
  if 0 ≤ index && index < Int.ofNat len then
    .ok (Word.add base (Word.mul index.toNat size))
  else
    .error ((Failure.invalidMemoryAccess base size).withHint
      ("index " ++ toString index ++ " out of bounds for length " ++
        toString len))

namespace Engine

def adaptArgs (s : Engine) :
    List Param → List Value → Except Failure (List Value)
  | _, [] => .ok []
  | [], rest => .ok rest
  | param :: params, arg :: args => do
      let adapted ←
        match (s.types.get param.type).referenceTarget? with
        | some target =>
            if arg.type = target || (s.types.get arg.type).referenceTarget? =
              some target then
              s.placeOf arg target
            else .ok arg
        | none =>
            if (s.types.get arg.type).referenceTarget? = some param.type then
              s.stripRef arg
            else .ok arg
      let rest ← s.adaptArgs params args
      pure (adapted :: rest)

def formatAll (s : Engine) (values : List Value) : Except Failure String :=
  (values.mapM s.format).map String.join

def readInt (s : Engine) (value : Value) : Except Failure Int64 :=
  (s.readScalar value).map Scalar.toInt64

def constantOrder (s : Engine) (l r : Value) : Except Failure Ordering := do
  let l ← s.readScalar l
  let r ← s.readScalar r
  pure (compare l.toInt64 r.toInt64)

def arithAt (s : Engine) (op : Arith) (kind : CoreKind) (l r : Value) :
    Except Failure Scalar := do
  let l ← s.arena.readScalar l.addr kind
  let r ← s.arena.readScalar r.addr kind
  op.apply kind l r

def orderAt (s : Engine) (kind : CoreKind) (l r : Value) :
    Except Failure (Option Ordering) := do
  let l ← s.arena.readScalar l.addr kind
  let r ← s.arena.readScalar r.addr kind
  pure (l.order kind r)

def stringOrder (s : Engine) (l r : Value) : Except Failure Ordering := do
  let l ← s.readStr l
  let r ← s.readStr r
  pure (compare l r)

def addressOrder (s : Engine) (l r : Value) : Except Failure Ordering := do
  let l ← s.arena.readWord l.addr
  let r ← s.arena.readWord r.addr
  pure (compare l r)

def shifted (s : Engine) (value offset : Value) (size : Nat)
    (backwards : Bool) : Except Failure Nat := do
  let base ← s.arena.readWord value.addr
  let n ← s.readInt offset
  offsetAddress base (if backwards then -n else n).toInt size

end Engine

namespace Calls

def runNative (c : Calls) (native : Native) (args : List Value) :
    Eval (Option Value) := do
  let a := args.getD 0 default
  let b := args.getD 1 default
  match native with
  | .print newline =>
      let text ← Eval.inspect fun s => s.formatAll args
      modify fun s =>
        { s with
          sink := if newline then s.sink.println text else s.sink.print text }
      pure none
  | .copyBytes size =>
      Eval.onArena (Arena.copy b.addr a.addr size)
      pure none
  | .assignBytes size =>
      Eval.onArena (Arena.copy b.addr a.addr size)
      pure (some a)
  | .copyMembers =>
      memberwise c.copyConstruct a b
      pure none
  | .assignMembers =>
      memberwise c.assign a b
      pure (some a)
  | .compareConstants comparison =>
      let order ← Eval.inspect fun s => s.constantOrder a b
      some <$> Eval.allocBool (comparison.holds (some order))
  | .convert source target =>
      let scalar ← Eval.inspect fun s => s.arena.readScalar b.addr source
      Eval.onArena (Arena.writeScalar a.addr target (scalar.cast target))
      pure none
  | .arith op kind type =>
      let scalar ← Eval.inspect fun s => s.arithAt op kind a b
      some <$> Eval.allocScalar type scalar
  | .arithAssign op kind =>
      let scalar ← Eval.inspect fun s => s.arithAt op kind a b
      Eval.onArena (Arena.writeScalar a.addr kind scalar)
      pure (some a)
  | .compare comparison kind =>
      let order ← Eval.inspect fun s => s.orderAt kind a b
      some <$> Eval.allocBool (comparison.holds order)
  | .negate kind type =>
      let scalar ← Eval.inspect fun s => s.arena.readScalar a.addr kind
      some <$> Eval.allocScalar type (scalar.negate kind)
  | .complement kind type =>
      let scalar ← Eval.inspect fun s => s.arena.readScalar a.addr kind
      some <$> Eval.allocScalar type (scalar.complement kind)
  | .not =>
      let v ← Eval.inspect fun s => s.readBool a
      some <$> Eval.allocBool (!v)
  | .connect connective =>
      let v ← Eval.inspect fun s => s.readBool a
      let w ← Eval.inspect fun s => s.readBool b
      some <$> Eval.allocBool (connective.apply v w)
  | .concat =>
      let v ← Eval.inspect fun s => s.readStr a
      let w ← Eval.inspect fun s => s.readStr b
      some <$> Eval.allocStr (v ++ w)
  | .compareStrings comparison =>
      let order ← Eval.inspect fun s => s.stringOrder a b
      some <$> Eval.allocBool (comparison.holds (some order))
  | .stringSize =>
      let text ← Eval.inspect fun s => s.readStr a
      some <$> Eval.allocScalar .int32 (.int (Int64.ofNat text.length))
  | .arrayData address => some <$> Eval.allocAddress address a.addr
  | .arraySize len => some <$> Eval.allocScalar .int32 (.int (Int64.ofNat len))
  | .arrayIndex elem len size =>
      let index ← Eval.inspect fun s => s.readInt b
      let addr ← Eval.ofExcept (elementAddress a.addr index.toInt len size)
      pure (some ⟨elem, addr⟩)
  | .copyReference =>
      Eval.onArena (Arena.copy b.addr a.addr 8)
      pure none
  | .bindReference =>
      Eval.onArena (Arena.writeWord a.addr b.addr)
      pure none
  | .follow target =>
      let addr ← Eval.inspect fun s => s.arena.readWord a.addr
      pure (some ⟨target, addr⟩)
  | .assignThrough target =>
      let addr ← Eval.inspect fun s => s.arena.readWord a.addr
      c.assign ⟨target, addr⟩ b
      pure (some ⟨target, addr⟩)
  | .shiftAddress type size backwards =>
      let addr ← Eval.inspect fun s => s.shifted a b size backwards
      some <$> Eval.allocAddress type addr
  | .addressIndex target size =>
      let addr ← Eval.inspect fun s => s.shifted a b size false
      pure (some ⟨target, addr⟩)
  | .compareAddresses comparison =>
      let order ← Eval.inspect fun s => s.addressOrder a b
      some <$> Eval.allocBool (comparison.holds (some order))

end Calls

end ArenaScript
