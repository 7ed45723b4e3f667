import ArenaScript.Engine.Operand
import ArenaScript.Expression.Reduction
/-!
# Expressions

An expression is reduced operator by operator; operands are evaluated when the
first operator needs them, and the right side of `&&` or `||` not at all if the
left side decides.
-/

namespace ArenaScript.Calls

def reduceCall (c : Calls) (callee : Operand) (node : Node) : Eval Operand := do
  let args ← node.children.mapM c.evaluate
  match ← c.callOperand callee args with
  | some value => pure (.value value)
  | none => .value <$> Eval.read Engine.voidValue

def reduceIndex (c : Calls) (target : Operand) (node : Node) :
    Eval Operand := do
  let target ← c.operandValue target
  match node.child? 0 with
  | some index =>
      let index ← c.evaluate index
      .value <$> c.binaryOperator "[]" target index
  | none => Eval.fail (Failure.unexpectedNode .index)

def reduceTrailing (c : Calls) (node : Node) (operand : Operand) :
    Eval Operand := do
  match node.kind with
  | .call => c.reduceCall operand node
  | .index => c.reduceIndex operand node
  | kind => Eval.fail (Failure.unexpectedNode kind)

def isPending : Operand → Bool
  | .pending _ => true
  | _ => false

/-- `&&` and `||`.  A right side that has been reduced already is combined with
the left one even if the left one decides. -/
def logical (c : Calls) (isAnd : Bool) (left right : Operand) : Eval Value := do
  let symbol := if isAnd then "&&" else "||"
  let l ← Eval.stripRef (← c.operandValue left)
  if l.type ≠ .bool then
    let r ← c.operandValue right
    c.binaryOperator symbol l r
  else
    let lv ← Eval.inspect fun s => s.readBool l
    if lv != isAnd && isPending right then Eval.allocBool lv
    else
      let r ← Eval.stripRef (← c.operandValue right)
      if r.type ≠ .bool then c.binaryOperator symbol l r
      else
        let rv ← Eval.inspect fun s => s.readBool r
        Eval.allocBool (if isAnd then lv && rv else lv || rv)

def reduceJoining (c : Calls) (symbol : String) (left right : Operand) :
    Eval Operand := do
  match symbol with
  | "." => c.memberAccess left right
  | "::" => c.scopeResolution left right
  | "&&" => .value <$> c.logical true left right
  | "||" => .value <$> c.logical false left right
  | symbol =>
      let l ← c.operandValue left
      let r ← c.operandValue right
      .value <$> c.binaryOperator symbol l r

def reduceStep (c : Calls) : Reduction.Step Operand → Eval Operand
  | .leading op operand => do
      let value ← c.operandValue operand
      .value <$> c.unaryOperator op.node.text value
  | .trailing operand op => c.reduceTrailing op.node operand
  | .joining left op right => c.reduceJoining op.node.text left right

def reduceExpression (c : Calls) (node : Node) : Eval Value := do
  match Reduction.items Operand.pending node.children with
  | .error symbol => Eval.fail (Failure.invalidOperatorPosition symbol)
  | .ok items =>
      match ← Reduction.reduce c.reduceStep items with
      | .value operand => c.operandValue operand
      | .misplaced symbol => Eval.fail (Failure.invalidOperatorPosition symbol)
      | .empty => Eval.read Engine.voidValue

def evaluateStep (c : Calls) (node : Node) : Eval Value := do
  if node.kind == .expression then c.reduceExpression node
  else c.resolvedValue (← c.resolveOperand node)

end ArenaScript.Calls
