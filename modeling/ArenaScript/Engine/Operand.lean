import ArenaScript.Engine.Invocation
import ArenaScript.Number.Decimal
/-!
# Operands

While an expression is reduced, an operand need not be a value yet: it may be a
node that has not been looked at, a type, a set of functions, or a method of
some receiver.
-/

namespace ArenaScript

inductive Operand where
  | pending (node : Node)
  | value (v : Value)
  | type (t : TypeId)
  | functions (name : String) (explicit : List TemplateArg)
  | overloads (name : String) (candidates : List FunctionId)
  | method (receiver : Value) (name : String)

namespace Calls

/-! ## Literals and names -/

/-- An integer literal is an `Int32` if it fits and an `Int64` otherwise. -/
def integerLiteral (text : String) : Eval Value := do
  match Number.literal? text with
  | some v =>
      Eval.allocScalar (if Number.fitsInt32 v then .int32 else .int64) (.int v)
  | none => Eval.fail (Failure.typeConversion text "Int64")

def floatLiteral (text : String) : Eval Value := do
  match Number.double? text with
  | some v => Eval.allocScalar .float64 (.float v)
  | none => Eval.fail (Failure.typeConversion text "Float64")

def templateOperand (binding : TemplateBinding) : Eval Operand := do
  match binding.arg with
  | .int n =>
      .value <$> Eval.allocScalar (binding.valueType.getD .int32) (.int n)
  | .type t => pure (.type t)

def resolveIdentifier (name : String) : Eval Operand := do
  match ← Eval.inspect fun s => s.lookupVariable name with
  | some v => pure (.value v)
  | none =>
      let scope ← Eval.currentScope
      match ← Eval.read fun s => s.scopes.findTemplateParam scope name with
      | some binding => templateOperand binding
      | none =>
          match ← Eval.read fun s => s.scopes.resolveTypeName scope name with
          | some type => pure (.type type)
          | none =>
              let found ← Eval.read fun s =>
                !(s.functionCandidates name).isEmpty ||
                  !(s.templateFunctionCandidates name).isEmpty
              if found then pure (.functions name [])
              else Eval.fail (Failure.unresolvedIdentifier name)

def resolveTemplateName (c : Calls) (node : Node) : Eval Operand := do
  let scope ← Eval.currentScope
  let isType ← Eval.read fun s =>
    (TemplateKind.ofName? node.text).isSome ||
      (s.scopes.findTemplateType scope node.text).isSome
  if isType then .type <$> c.resolveType node scope
  else .functions node.text <$> node.children.mapM (c.resolveTemplateArg scope)

/-- Turns a node into an operand; the result is never pending. -/
def resolveOperand (c : Calls) (node : Node) : Eval Operand := do
  match node.kind with
  | .integerLiteral => .value <$> integerLiteral node.text
  | .floatLiteral => .value <$> floatLiteral node.text
  | .stringLiteral => .value <$> Eval.allocStr node.text
  | .boolLiteral => .value <$> Eval.allocBool (node.text == "true")
  | .expression => .value <$> c.evaluate node
  | .identifier => resolveIdentifier node.text
  | .typeName =>
      if node.children.isEmpty then resolveIdentifier node.text else
        c.resolveTemplateName node
  | kind => Eval.fail (Failure.unexpectedNode kind)

/-! ## Values -/

def single (name hint : String) : List FunctionId → Eval FunctionId
  | [id] => pure id
  | _ => Eval.fail ((Failure.unresolvedIdentifier name).withHint hint)

def functionValue (name : String) (candidates : List FunctionId) :
    Eval Value := do
  let id ← single name "a function value needs exactly one overload" candidates
  Eval.allocAddress .function id.index

def methodValue (receiver : Value) (name : String) : Eval Value := do
  let candidates ← Eval.read fun s =>
    (s.membersOf receiver.type).findFunction name
  let id ← single name "a method value needs exactly one overload" candidates
  let out ← Eval.allocate .method
  Eval.onArena (Arena.writeWord out.addr receiver.addr)
  Eval.onArena (Arena.writeWord (Word.add out.addr 8) id.index)
  pure out

def explicitInstances (c : Calls) (name : String)
    (explicit : List TemplateArg) : Eval (List FunctionId) := do
  if explicit.isEmpty then
    Eval.read fun s => (s.functionCandidates name).filterMap fun
      | .function id => some id
      | .constructor _ => none
  else
    let templates ← Eval.read fun s => s.templateFunctionCandidates name
    templates.mapM fun template => c.instantiateFunction template explicit

def resolvedValue (c : Calls) : Operand → Eval Value
  | .pending node => Eval.fail (Failure.unexpectedNode node.kind)
  | .value v => pure v
  | .type t =>
      Eval.inspect fun s =>
        .error ((Failure.typeConversion (s.types.name t) "value").withHint
          "call the type to construct a value")
  | .functions name explicit => do
    functionValue name (← c.explicitInstances name explicit)
  | .overloads name candidates => functionValue name candidates
  | .method receiver name => methodValue receiver name

def resolved (c : Calls) : Operand → Eval Operand
  | .pending node => c.resolveOperand node
  | operand => pure operand

def operandValue (c : Calls) (operand : Operand) : Eval Value := do
  c.resolvedValue (← c.resolved operand)

/-! ## Members -/

/-- The member `name` of the receiver: a field, which is a part of the receiver,
or a method.  A reference without such a member is looked through, at most
`depth` times. -/
def memberFrom (name : String) (receiver : Value) : Nat → Eval Operand
  | 0 => Eval.fail (Failure.unresolvedIdentifier name)
  | depth + 1 => do
      match ← Eval.read fun s =>
        (s.types.get receiver.type).structural?.bind (·.field? name) with
      | some field => pure (.value (receiver.view field.type field.offset))
      | none =>
          Eval.ensureInitialized receiver.type
          let members ← Eval.read fun s => s.membersOf receiver.type
          if !(members.findFunction name).isEmpty ||
              !(members.findTemplateFunctions name).isEmpty then
            pure (.method receiver name)
          else if ← Eval.read fun s =>
            (s.types.get receiver.type).referenceTarget?.isSome then
            let target ← Eval.stripRef receiver
            memberFrom name target depth
          else
            Eval.inspect fun s =>
              .error (Failure.unresolvedIdentifier
                (s.types.name receiver.type ++ "." ++ name))

def memberOf (receiver : Value) (name : String) : Eval Operand :=
  memberFrom name receiver (receiver.type.index + 1)

def memberAccess (c : Calls) (left right : Operand) : Eval Operand := do
  let receiver ← c.operandValue left
  match right with
  | .pending member => memberOf receiver member.text
  | _ => Eval.fail (Failure.unexpectedNode .operator)

def memberOfType (type : TypeId) (name : String) : Eval Operand := do
  match ← Eval.read fun s =>
    (s.types.get type).structural?.bind (·.variant? name) with
  | some v => .value <$> Eval.allocScalar type (.int v)
  | none =>
      Eval.ensureInitialized type
      let members ← Eval.read fun s => s.membersOf type
      match members.findFunction name, members.types.get? name with
      | [], some nested => pure (.type nested)
      | [], none =>
          Eval.inspect fun s =>
            .error (Failure.unresolvedIdentifier
              (s.types.name type ++ "::" ++ name))
      | candidates, _ => pure (.overloads name candidates)

def scopeResolution (c : Calls) (left right : Operand) : Eval Operand := do
  match ← c.resolved left, right with
  | .type type, .pending member => memberOfType type member.text
  | .type _, _ => Eval.fail (Failure.unexpectedNode .operator)
  | _, _ =>
      Eval.fail ((Failure.unexpectedNode .operator).withHint
        "the left side of `::` must name a type")

/-! ## Calls -/

def callValue (c : Calls) (value : Value) (args : List Value) :
    Eval (Option Value) := do
  let value ← Eval.stripRef value
  if value.type = .function then
    let raw ← Eval.inspect fun s => s.arena.readWord value.addr
    match ← Eval.read fun s => s.functions.checked? raw with
    | some id => c.invoke id args
    | none => Eval.fail (Failure.invalidMemoryAccess value.addr 8)
  else if value.type = .method then
    let receiver ← Eval.inspect fun s => s.arena.readWord value.addr
    let second := Word.add value.addr 8
    let raw ← Eval.inspect fun s => s.arena.readWord second
    match ← Eval.read fun s => s.functions.checked? raw with
    | some id =>
        match ← Eval.read fun s => (s.functions.get id).owner with
        | some owner => c.invoke id (⟨owner, receiver⟩ :: args)
        | none => c.invoke id args
    | none => Eval.fail (Failure.invalidMemoryAccess second 8)
  else
    match ← c.tryOperator "()" (value :: args) with
    | some result => pure (some result)
    | none =>
        Eval.inspect fun s =>
          .error ((Failure.typeConversion (s.types.name value.type)
            "function").withHint "the value has no operator()")

/-- The receiver of the innermost method call. -/
def implicitReceiver : Eval (Option Value) :=
  Eval.inspect fun s =>
    match s.currentCall?.bind CallRecord.owner with
    | none => .ok none
    | some _ => do
        match ← s.lookupVariable "self" with
        | some this => some <$> s.stripRef this
        | none => pure none

/-- Calls a type of that name where nothing else has it. -/
def callTypeNamed (c : Calls) (name : String) (args : List Value) :
    Eval (Option Value) := do
  let scope ← Eval.currentScope
  match ← Eval.read fun s => s.scopes.findTemplateParam scope name with
  | some ⟨.type type, _⟩ => some <$> c.constructNew type args
  | _ =>
      match ← Eval.read fun s => s.scopes.resolveTypeName scope name with
      | some type => some <$> c.constructNew type args
      | none => Eval.fail (Failure.unresolvedIdentifier name)

/-- Calls a function template of that name, or a method of the innermost
receiver; `seen` tells whether other candidates have been refused. -/
def callTemplateOrMethod (c : Calls) (name : String)
    (explicit : List TemplateArg) (args : List Value) (seen : Bool) :
    Eval (Option Value) := do
  let templates ← Eval.read fun s => s.templateFunctionCandidates name
  match ← c.tryTemplates (.free (args.map Value.type)) explicit args
    templates with
  | some result => pure result
  | none =>
      let receiver ← implicitReceiver
      let member ← Eval.read fun s =>
        receiver.filter fun receiver =>
          let members := s.membersOf receiver.type
          !(members.findFunction name).isEmpty ||
            !(members.findTemplateFunctions name).isEmpty
      match member with
      | some receiver => c.callMethod receiver name args
      | none =>
          if seen || !templates.isEmpty then
            Eval.inspect fun s =>
              .error (Failure.noMatchingOverload name (s.typeNames args))
          else c.callTypeNamed name args

/-- Calls by name: a variable that holds something callable, overloads and types
in scope, function templates, then methods of the innermost receiver. -/
def callNamed (c : Calls) (name : String) (explicit : List TemplateArg)
    (args : List Value) : Eval (Option Value) := do
  if explicit.isEmpty then
    match ← Eval.inspect fun s => s.lookupVariable name with
    | some value => c.callValue value args
    | none =>
        let candidates ← Eval.read fun s => s.functionCandidates name
        match ← selectCallee candidates args with
        | some callee => c.invokeCallee callee args
        | none =>
            c.callTemplateOrMethod name explicit args (!candidates.isEmpty)
  else c.callTemplateOrMethod name explicit args false

def callOverloads (c : Calls) (name : String) (candidates : List FunctionId)
    (args : List Value) : Eval (Option Value) := do
  let types := args.map Value.type
  let found ← Eval.read fun s =>
    (s.functions.resolve s.types candidates (.free types)).or
      (s.functions.resolve s.types candidates (.member types))
  match found with
  | some id => c.invoke id args
  | none =>
      Eval.inspect fun s =>
        .error (Failure.noMatchingOverload name (s.typeNames args))

def callResolved (c : Calls) (callee : Operand) (args : List Value) :
    Eval (Option Value) := do
  match callee with
  | .pending node => Eval.fail (Failure.unexpectedNode node.kind)
  | .type type => some <$> c.constructNew type args
  | .functions name explicit => c.callNamed name explicit args
  | .overloads name candidates => c.callOverloads name candidates args
  | .method receiver name => c.callMethod receiver name args
  | .value value => c.callValue value args

def callOperand (c : Calls) (callee : Operand) (args : List Value) :
    Eval (Option Value) := do
  match callee with
  | .pending node =>
      if node.kind == .identifier then c.callNamed node.text [] args
      else c.callResolved (← c.resolveOperand node) args
  | callee => c.callResolved callee args

end Calls

end ArenaScript
