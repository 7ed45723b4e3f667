import ArenaScript.Engine.Construction
import ArenaScript.Number.Integer
/-!
# Declarations

A declaration registers into the scope it executes in.  Each declaration node is
processed once, so that entering a block again does not register its
declarations a second time.  Templates are kept as they are; an instance binds
the arguments in a scope of its own under the scope of the declaration and
declares the body there.
-/

namespace ArenaScript

def definitionParts (node : Node) : Option Node × Option Node :=
  match node.children with
  | first :: rest =>
      if first.kind == .typeName then (some first, rest.head?) else
        (none, some first)
  | [] => (none, none)

def operatorSymbol? (name : String) : Option String :=
  let word := "operator".toList
  let cs := name.toList
  if cs.take word.length == word && word.length < cs.length then
    some (String.ofList (cs.drop word.length))
  else none

namespace Engine

def renderInstance (s : Engine) (d : TemplateDef) (args : List TemplateArg) :
    String :=
  d.name ++ "<" ++ s.types.renderArgs args ++ ">"

end Engine

namespace Eval

def markDeclared (node : Node) : Eval Bool :=
  modifyGet fun s =>
    let key : NodeKey := ⟨s.currentTree, node.id⟩
    if s.declared.contains key then (false, s)
    else (true, { s with declared := key :: s.declared })

def registerShell (name : String) (kind : StructKind) (members : ScopeId) :
    Eval TypeId := fun s =>
  match s.types.register name (.shell kind) members with
  | .ok (id, types) => .ok id { s with types }
  | .error e => .error (.failed e) s

def registerTypeName (scope : ScopeId) (name : String) (type : TypeId) :
    Eval Unit := fun s =>
  match (s.scopes.get scope).registerType name type with
  | .ok changed =>
      .ok () { s with scopes := s.scopes.modify scope fun _ => changed }
  | .error _ => .error (.failed (Failure.redefinition name)) s

def registerTemplateName (scope : ScopeId) (name : String) (id : TemplateId) :
    Eval Unit := fun s =>
  match (s.scopes.get scope).registerTemplateType name id with
  | .ok changed =>
      .ok () { s with scopes := s.scopes.modify scope fun _ => changed }
  | .error _ => .error (.failed (Failure.redefinition name)) s

def completeType (type : TypeId) (fields : List Field)
    (variants : List (String × Int64)) : Eval Unit := fun s =>
  match s.types.complete type fields variants with
  | .ok types => .ok () { s with types }
  | .error e => .error (.failed e) s

def bindTemplateScope (d : TemplateDef) (args : List TemplateArg) :
    Eval ScopeId := do
  let shapeOk := args.length == d.params.length &&
    (d.params.zip args).all fun (param, arg) => param.admits arg
  if shapeOk then
    let scope ← createScope .template (some d.scope)
    (d.params.zip args).forM fun (param, arg) =>
      let valueType :=
        match param.kind with
        | .value type => some type
        | .type => none
      updateScope scope (·.bindTemplateParam param.name { arg, valueType })
    pure scope
  else
    inspect fun s =>
      .error ((Failure.unknownType (s.renderInstance d args)).withHint
        (quoted d.name ++ " takes " ++ toString d.params.length ++
          " template argument(s)"))

end Eval

namespace Calls

/-! ## Functions -/

def buildParam (c : Calls) (scope : ScopeId) (param : Node) : Eval Param := do
  match param.findChild? .typeName with
  | some node => do
      let type ← c.resolveType node scope
      pure { name := param.text, type }
  | none =>
      Eval.fail ((Failure.unknownType param.text).withHint
        "parameters need a type")

def buildParams (c : Calls) (scope : ScopeId) :
    List Node → Eval (List Param × Bool)
  | [] => pure ([], false)
  | param :: rest => do
      if param.text == "..." then
        pure ([{ name := param.text, type := .void }], true)
      else
        let first ← c.buildParam scope param
        let (others, variadic) ← c.buildParams scope rest
        pure (first :: others, variadic)

def implicitSelf (owner : Option TypeId) (params : Node) :
    Eval (List Param) := do
  match owner with
  | some type =>
      if Deduction.hasExplicitSelf params then pure []
      else
        let ref ← Eval.referenceTo type
        pure [{ name := "self", type := ref }]
  | none => pure []

def buildFunction (c : Calls) (node : Node) (scope : ScopeId)
    (owner : Option TypeId) : Eval FunctionId := do
  let name := (operatorSymbol? node.text).getD node.text
  match node.findChild? .parameters with
  | none => Eval.fail (Failure.unexpectedNode .function)
  | some paramsNode =>
      let self ← implicitSelf owner paramsNode
      let (declared, variadic) ← c.buildParams scope paramsNode.children
      let ret ←
        match node.findChild? .typeName with
        | some type => c.resolveType type scope
        | none => pure .void
      let returnsRef ← Eval.read fun s =>
        (s.types.get ret).referenceTarget?.isSome
      let tree ← Eval.read Engine.currentTree
      Eval.addFunction (Function.make name (self ++ declared) ret
        { variadic, returnsRef, constructs := name == "construct" } owner
        (.interpreted tree node scope))

/-! ## Templates -/

def buildTemplateParam (c : Calls) (scope : ScopeId) (param : Node) :
    Eval TemplateParam := do
  match param.findChild? .typeName with
  | some node => do
      let type ← c.resolveType node scope
      pure { name := param.text, kind := .value type }
  | none => pure { name := param.text, kind := .type }

def declareTemplate (c : Calls) (node params : Node) (scope : ScopeId)
    (item : TemplateItem) : Eval TemplateId := do
  let params ← params.children.mapM (c.buildTemplateParam scope)
  modifyGet fun s =>
    let (id, templates) := s.templates.add
      { name := node.text, params, tree := s.currentTree, node, scope, item }
    (id, { s with templates })

def instantiateFunction (c : Calls) (template : TemplateId)
    (args : List TemplateArg) : Eval FunctionId := do
  match ← Eval.read fun s => s.templates.instance? template args with
  | some id => pure id
  | none =>
      let d ← Eval.read fun s => s.templates.get template
      let owner :=
        match d.item with
        | .function owner => owner
        | .record _ => none
      let scope ← Eval.bindTemplateScope d args
      let functionScope ← Eval.createScope .function (some scope)
      let id ← Eval.withTree d.tree (c.buildFunction d.node functionScope owner)
      modify fun s =>
        { s with templates := s.templates.addInstance template args id }
      pure id

def defineFunction (c : Calls) (node : Node) (scope : ScopeId)
    (owner : Option TypeId) : Eval Unit := do
  match node.findChild? .templateParameters with
  | some params =>
      let id ← c.declareTemplate node params scope (.function owner)
      Eval.updateScope scope (·.registerTemplateFunction node.text id)
  | none =>
      let functionScope ← Eval.scopeFor node .function scope
      let id ← c.buildFunction node functionScope owner
      match operatorSymbol? node.text with
      | some symbol => Eval.updateScope scope (·.registerOperator symbol id)
      | none => Eval.updateScope scope (·.registerFunction node.text id)

/-! ## Classes and unions -/

def buildField (c : Calls) (scope : ScopeId) (node : Node) : Eval Field := do
  match definitionParts node with
  | (some typeNode, init) =>
      let type ← c.resolveType typeNode scope
      let tree ← Eval.read Engine.currentTree
      pure { name := node.text, type, offset := 0,
             initializer := init.map (⟨tree, ·⟩) }
  | (none, _) =>
      Eval.fail ((Failure.unknownType node.text).withHint
        "fields need a declared type")

/-- Makes a new type known: a template instance remembers its origin, any other
type is bound by name in the scope of its declaration. -/
def announce (node : Node) (scope : ScopeId) (type : TypeId) :
    Option (TemplateId × List TemplateArg) → Eval Unit
  | some (template, args) =>
      modify fun s => { s with types := s.types.setOrigin type template args }
  | none => Eval.registerTypeName scope node.text type

def defineClass (c : Calls) (node : Node) (scope classScope : ScopeId)
    (name : String) (kind : StructKind)
    (origin : Option (TemplateId × List TemplateArg)) : Eval TypeId := do
  let type ← Eval.registerShell name kind classScope
  announce node scope type origin
  Eval.updateScope classScope fun s => { s with owner := some type }
  let fields ←
    (node.children.filter (·.kind == .variableDefinition)).mapM
      (c.buildField classScope)
  Eval.completeType type fields []
  (node.children.filter (·.kind == .function)).forM fun child =>
    c.defineFunction child classScope (some type)
  pure type

def declareClass (c : Calls) (node : Node) (scope : ScopeId)
    (kind : StructKind) : Eval Unit := do
  if ← Eval.markDeclared node then
    match node.findChild? .templateParameters with
    | some params =>
        let id ← c.declareTemplate node params scope (.record kind)
        Eval.registerTemplateName scope node.text id
    | none =>
        let classScope ← Eval.scopeFor node .classBody scope
        let _ ← c.defineClass node scope classScope node.text kind none
        pure ()

/-- The class `template<args>`, declared on first use. -/
def instantiateClass (c : Calls) (template : TemplateId)
    (args : List TemplateArg) : Eval TypeId := do
  let d ← Eval.read fun s => s.templates.get template
  let name ← Eval.read fun s => s.renderInstance d args
  match ← Eval.read fun s => s.types.findByName? name with
  | some type => pure type
  | none =>
      let kind :=
        match d.item with
        | .record kind => kind
        | .function _ => .classKind
      let scope ← Eval.bindTemplateScope d args
      let classScope ← Eval.createScope .classBody (some scope)
      Eval.withTree d.tree
        (c.defineClass d.node scope classScope name kind
          (some (template, args)))

/-! ## Enumerations -/

def evaluateInteger (c : Calls) (node : Node) (target : String) :
    Eval Int64 := do
  let value ← c.evaluate node
  let value ← Eval.stripRef value
  Eval.inspect fun s =>
    if s.isIntegral value.type then (s.readScalar value).map Scalar.toInt64
    else .error (Failure.typeConversion (s.types.name value.type) target)

def buildConstants (c : Calls) (next : Int64) :
    List Node → Eval (List (String × Int64))
  | [] => pure []
  | node :: rest => do
      let value ←
        match node.child? 0 with
        | some expression => c.evaluateInteger expression "Int32"
        | none => pure next
      let others ← c.buildConstants (value + 1) rest
      pure ((node.text, value) :: others)

def declareEnum (c : Calls) (node : Node) (scope : ScopeId) : Eval Unit := do
  if ← Eval.markDeclared node then
    let enumScope ← Eval.scopeFor node .classBody scope
    let type ← Eval.registerShell node.text .enumKind enumScope
    Eval.registerTypeName scope node.text type
    Eval.updateScope enumScope fun s => { s with owner := some type }
    let constants ← c.buildConstants 0
      (node.children.filter (·.kind == .enumValue))
    Eval.completeType type [] constants

/-! ## All declarations -/

def declare (c : Calls) (node : Node) (scope : ScopeId) : Eval Unit := do
  match node.kind with
  | .function =>
      if ← Eval.markDeclared node then c.defineFunction node scope none
  | .classDecl => c.declareClass node scope .classKind
  | .unionDecl => c.declareClass node scope .unionKind
  | .enumDecl => c.declareEnum node scope
  | kind => Eval.fail (Failure.unexpectedNode kind)

/-! ## Type names -/

/-- A template argument: a type, an integer literal, a template parameter, or an
expression with an integer value. -/
def resolveTemplateArg (c : Calls) (scope : ScopeId) (node : Node) :
    Eval TemplateArg := do
  match node.kind with
  | .integerLiteral =>
      match Number.decimal? node.text with
      | some n => pure (.int n)
      | none => Eval.fail (Failure.typeConversion node.text "Int64")
  | .identifier | .typeName =>
      if node.children.isEmpty then
        match ← Eval.read fun s =>
          s.scopes.findTemplateParam scope node.text with
        | some binding => pure binding.arg
        | none => .type <$> c.resolveType node scope
      else if node.kind == .typeName then .type <$> c.resolveType node scope
      else Eval.fail (Failure.unexpectedNode node.kind)
  | .expression => .int <$> c.evaluateInteger node "Int64"
  | kind => Eval.fail (Failure.unexpectedNode kind)

def resolveTypeStep (c : Calls) (node : Node) (scope : ScopeId) :
    Eval TypeId := do
  let name := node.text
  if node.children.isEmpty then
    match ← Eval.read fun s => s.scopes.findTemplateParam scope name with
    | some ⟨.type type, _⟩ => pure type
    | some ⟨.int _, _⟩ =>
        Eval.fail ((Failure.unknownType name).withHint
          "a value template parameter is not a type")
    | none =>
        match ← Eval.read fun s => s.scopes.resolveTypeName scope name with
        | some type => pure type
        | none => Eval.fail (Failure.unknownType name)
  else
    let args ← node.children.mapM (c.resolveTemplateArg scope)
    match TemplateKind.ofName? name with
    | some kind => Eval.instantiateBuiltin kind args
    | none =>
        match ← Eval.read fun s => s.scopes.findTemplateType scope name with
        | some template => c.instantiateClass template args
        | none => Eval.fail (Failure.unknownType name)

end Calls

end ArenaScript
