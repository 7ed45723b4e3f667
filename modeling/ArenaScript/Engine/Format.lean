import ArenaScript.Engine.Values
import ArenaScript.Number.Decimal
/-!
# Values as text

The text a program prints for a value.  Numbers are decimal, enumeration
constants are named, references show what they refer to, arrays show their
elements, and objects show where they are.
-/

namespace ArenaScript.Engine

def elementTexts (text : Nat → Except Failure String) (index : Nat) :
    Nat → Except Failure (List String)
  | 0 => .ok []
  | count + 1 => do
      let first ← text index
      let rest ← elementTexts text (index + 1) count
      pure (first :: rest)

def constantText (entry : TypeEntry) (body : Structural) (v : Int64) : String :=
  match body.variantName? v with
  | some name => name
  | none => entry.name ++ "(" ++ toString v.toInt ++ ")"

def coreText (s : Engine) (value : Value) : CoreKind → Except Failure String
  | .void => .ok ""
  | .str => s.readStr value
  | .bool => (s.readBool value).map fun b => if b then "true" else "false"
  | kind =>
      (s.readScalar value).map fun scalar =>
        if kind.isFloat then scalar.toDouble.text
        else if kind.isSigned then toString scalar.toInt64.toInt
        else toString scalar.toUInt64.toNat

def textOf (s : Engine) (value : Value) : Nat → Except Failure String
  | 0 => .ok ""
  | depth + 1 =>
      let entry := s.types.get value.type
      match entry.shape with
      | .core kind => s.coreText value kind
      | .structural body =>
          if body.kind == .enumKind then
            (s.readScalar value).map fun scalar =>
              constantText entry body scalar.toInt64
          else .ok ("<" ++ entry.name ++ " at " ++ hexText value.addr ++ ">")
      | .template .ref _ => do
          let target ← s.stripRef value
          if (s.types.get target.type).referenceTarget?.isSome then
            pure ("<" ++ s.types.name target.type ++ ">")
          else s.textOf target depth
      | .template .address _ => (s.arena.readWord value.addr).map hexText
      | .template .array _ =>
          match entry.array? with
          | some (elem, len) => do
              let size := s.types.sizeOf elem
              let element (i : Nat) :=
                s.textOf (value.view elem (Word.mul i size)) depth
              let texts ← elementTexts element 0 len
              pure ("[" ++ ", ".intercalate texts ++ "]")
          | none => .ok ""
      | .callable _ =>
          (s.arena.readWord (Word.add value.addr (entry.size - 8))).map
            fun raw =>
              match s.functions.checked? raw with
              | some id => "<function " ++ (s.functions.get id).name ++ ">"
              | none => "<function>"

def format (s : Engine) (value : Value) : Except Failure String :=
  s.textOf value (value.type.index + 1)

end ArenaScript.Engine
