import ArenaScript.Engine.Calls
/-!
# Operators

An operator is looked for among the members of its first operand's type, then
among the operators in scope.  If the operands do not fit as they are, what they
refer to is tried.
-/

namespace ArenaScript

namespace Engine

def operatorFor? (s : Engine) (symbol : String) (receiver : Value)
    (args : List Value) : Option FunctionId :=
  let types := args.map Value.type
  match s.functions.resolve s.types
    ((s.membersOf receiver.type).findOperator symbol) (.member types) with
  | some id => some id
  | none =>
      s.functions.resolve s.types (s.operatorCandidates symbol) (.free types)

end Engine

namespace Calls

def tryOperator (c : Calls) (symbol : String) : List Value → Eval (Option Value)
  | [] => pure none
  | receiver :: others => do
      Eval.ensureInitialized receiver.type
      match ← Eval.read fun s =>
        s.operatorFor? symbol receiver (receiver :: others) with
      | some id =>
          match ← c.invoke id (receiver :: others) with
          | some value => pure (some value)
          | none => some <$> Eval.read Engine.voidValue
      | none => pure none

def noOperator {α : Type} (symbol : String) (args : List Value) : Eval α :=
  Eval.inspect fun s =>
    .error (Failure.noMatchingOverload ("operator" ++ symbol)
      (s.typeNames args))

def binaryOperator (c : Calls) (symbol : String) (l r : Value) :
    Eval Value := do
  match ← c.tryOperator symbol [l, r] with
  | some value => pure value
  | none =>
      let dl ← Eval.stripRef l
      let dr ← Eval.stripRef r
      if (dl, dr) ≠ (l, r) then
        match ← c.tryOperator symbol [dl, dr] with
        | some value => pure value
        | none => noOperator symbol [l, r]
      else noOperator symbol [l, r]

def dereference (v d : Value) : Eval Value := do
  match ← Eval.read fun s => (s.types.get d.type).addressTarget? with
  | some target =>
      let addr ← Eval.inspect fun s => s.arena.readWord d.addr
      pure ⟨target, addr⟩
  | none =>
      if d ≠ v then pure d
      else Eval.inspect fun s =>
        .error (Failure.typeConversion (s.types.name v.type) "Address")

def unaryOperator (c : Calls) (symbol : String) (v : Value) : Eval Value := do
  match ← c.tryOperator symbol [v] with
  | some value => pure value
  | none =>
      let d ← Eval.stripRef v
      let again ← if d ≠ v then c.tryOperator symbol [d] else pure none
      match again with
      | some value => pure value
      | none =>
          if symbol == "&" then
            let type ← Eval.addressTo d.type
            Eval.allocAddress type d.addr
          else if symbol == "*" then dereference v d
          else noOperator symbol [v]

def assign (c : Calls) (dst src : Value) : Eval Unit := do
  let _ ← c.binaryOperator "=" dst src
  pure ()

end Calls

end ArenaScript
