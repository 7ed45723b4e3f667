import ArenaScript.Engine.Expression
/-!
# Statements

A statement ends normally or transfers control.  Blocks and loop iterations run
in frames of their own, so that what they allocate is released when they end.
-/

namespace ArenaScript

/-- What a loop does after an iteration that ended with `flow`: go on, or end in
its turn. -/
def loopExit : Flow → Option Flow
  | .normal | .continued => none
  | .broken levels =>
      some (if levels ≤ 1 then .normal else .broken (levels - 1))
  | .returned => some .returned

def required (node : Node) (index : Nat) : Eval Node :=
  match node.child? index with
  | some child => pure child
  | none => Eval.fail (Failure.unexpectedNode node.kind)

namespace Engine

/-- Whether `value` is a temporary of type `type`, allocated since the mark was
at `mark`, that ends where the mark is now. -/
def isFreshTemporary (s : Engine) (value : Value) (type : TypeId) (mark : Nat) :
    Bool :=
  value.type == type && mark ≤ value.addr &&
    Word.add value.addr (s.types.sizeOf type) == s.arena.mark

/-- Locates a module seen from `importer`: in the importer's directory, then,
for a relative request, in the search paths. -/
def findModulePath (s : Engine) (request : String) (importer : Option String) :
    Except Failure String :=
  match s.source with
  | none =>
      .error ((Failure.moduleNotFound request).withHint
        "no module parser is configured")
  | some source =>
      let dirs := (importer.bind Path.parent?).getD "." ::
        if Path.isAbsolute request then [] else s.searchPaths
      let paths := dirs.flatMap fun dir =>
        (Path.candidates request dir).map Path.normalize
      match paths.find? source.contains with
      | some path => .ok path
      | none =>
          .error ((Failure.moduleNotFound request).withHint
            ("searched " ++ ", ".intercalate paths))

end Engine

namespace Calls

/-! ## Blocks, branches and conditions -/

def executeBlock (c : Calls) (node : Node) : Eval Flow := do
  let scope ← Eval.scopeFor node .block (← Eval.currentScope)
  c.withFrame scope .block none (c.executeAll node.children)

/-- A branch that is a block gets a frame; any other runs as a single
statement. -/
def executeBranch (c : Calls) (node : Node) : Eval Flow :=
  if node.kind == .block then c.executeBlock node else c.execute node

/-- A condition is a `Bool`, or refers to one. -/
def condition (c : Calls) (node : Node) : Eval Bool := do
  let value ← Eval.stripRef (← c.evaluate node)
  Eval.inspect fun s => s.readBool value

def executeIf (c : Calls) (node : Node) : Eval Flow := do
  let cond ← required node 0
  let accepted ← required node 1
  if ← c.condition cond then c.executeBranch accepted
  else
    match node.child? 2 with
    | some otherwise => c.executeBranch otherwise
    | none => pure .normal

/-! ## Loops -/

/-- Repeats `iteration` until it gives the flow with which the loop ends, at
most `rounds` times. -/
def repeatUntil (iteration : Eval (Option Flow)) : Nat → Eval Flow
  | 0 => Eval.exhausted
  | rounds + 1 => do
      match ← iteration with
      | some flow => pure flow
      | none => repeatUntil iteration rounds

/-- One iteration in a frame of its own: the condition, the body, and then the
step unless the body has ended the loop. -/
def iteration (c : Calls) (scope : ScopeId) (cond body : Node)
    (step : Option Node) : Eval (Option Flow) :=
  c.withFrame scope .block none do
    if ← c.condition cond then
      let exit := loopExit (← c.executeBranch body)
      match exit, step with
      | none, some step =>
          let _ ← c.evaluate step
          pure none
      | exit, _ => pure exit
    else pure (some .normal)

def executeWhile (c : Calls) (node : Node) : Eval Flow := do
  let cond ← required node 0
  let body ← required node 1
  let scope ← Eval.scopeFor node .loop (← Eval.currentScope)
  repeatUntil (c.iteration scope cond body none) c.rounds

def executeFor (c : Calls) (node : Node) : Eval Flow := do
  let init ← required node 0
  let cond ← required node 1
  let step ← required node 2
  let body ← required node 3
  let scope ← Eval.scopeFor node .loop (← Eval.currentScope)
  c.withFrame scope .block none do
    let _ ← c.execute init
    repeatUntil (c.iteration scope cond body (some step)) c.rounds

/-! ## Jumps -/

def executeReturn (c : Calls) (node : Node) : Eval Flow := do
  match node.child? 0 with
  | none => pure .returned
  | some expression =>
      let value ← c.evaluate expression
      match ← Eval.read fun s => s.currentCall?.bind CallRecord.returnSlot with
      | some slot =>
          c.copyConstruct slot value
          pure .returned
      | none =>
          if value.type = .void then pure .returned
          else
            Eval.inspect fun s =>
              .error ((Failure.typeConversion (s.types.name value.type)
                "Void").withHint "this function does not return a value")

def executeBreak (node : Node) : Eval Flow :=
  if node.text == "" then pure (.broken 1)
  else
    match Number.unsigned? 4294967296 node.text with
    | some levels => pure (.broken (max levels 1))
    | none => Eval.fail (Failure.typeConversion node.text "UInt32")

/-! ## Variables -/

def topSlot (slot : Slot) : Eval Value :=
  Eval.inspect fun s =>
    match s.arena.top? with
    | some frame => .ok (frame.resolve slot)
    | none => .error (Failure.unexpectedNode .variableDefinition)

def defineDefault (c : Calls) (type : TypeId) : Eval Slot := do
  let slot ← Eval.reserve type false
  c.defaultConstruct (← topSlot slot)
  pure slot

/-- A fresh temporary of exactly the variable's type at the top of the frame
becomes the variable; anything else is copied. -/
def defineFrom (c : Calls) (name : String) (declared : Option TypeId)
    (init : Node) : Eval Slot := do
  let before ← Eval.read fun s => s.arena.mark
  let value ← c.evaluate init
  let type ← Eval.read fun s => declared.getD (s.types.decay value.type)
  if type = .void then
    Eval.fail ((Failure.typeConversion "Void" name).withHint
      "the initializer has no value")
  else if ← Eval.read fun s => s.isFreshTemporary value type before then
    Eval.reserve type true
  else
    let slot ← Eval.reserve type false
    c.copyConstruct (← topSlot slot) value
    pure slot

def executeDefinition (c : Calls) (node : Node) : Eval Unit := do
  let (typeNode, init) := definitionParts node
  let declared ←
    match typeNode with
    | some typeNode => some <$> c.resolveType typeNode (← Eval.currentScope)
    | none => pure none
  let slot ←
    match declared, init with
    | some type, none => c.defineDefault type
    | declared, some init => c.defineFrom node.text declared init
    | none, none =>
        Eval.fail ((Failure.unknownType node.text).withHint
          "a variable needs a type or an initializer")
  match ← Eval.read fun s => s.arena.top? with
  | some _ => Eval.updateArena (·.modifyTop (·.bind node.text slot))
  | none => Eval.fail (Failure.unexpectedNode .variableDefinition)

/-! ## Imports -/

/-- Links a module's scope into the current one.  A module that is not loaded
yet is loaded only from a root frame; imports inside functions and blocks have
been loaded with their module. -/
def executeImport (c : Calls) (node : Node) : Eval Flow := do
  let request := node.text
  let importer ← Eval.read Engine.currentModulePath?
  let path ← Eval.inspect fun s => s.findModulePath request importer
  let atRoot ← Eval.read fun s => s.arena.top?.all (·.kind.isRoot)
  let id ←
    match ← Eval.read fun s => s.modules.find? path with
    | some id => pure id
    | none =>
        if atRoot then c.loadModule request importer
        else Eval.fail (Failure.nestedImport request)
  let scope ← Eval.read fun s => (s.modules.get id).scope
  let current ← Eval.currentScope
  Eval.updateScope current (·.addImport scope)
  pure .normal

/-! ## All statements -/

def executeKind (c : Calls) (node : Node) : Eval Flow := do
  match node.kind with
  | .function | .classDecl | .unionDecl | .enumDecl =>
      c.declare node (← Eval.currentScope)
      pure .normal
  | .importModule => c.executeImport node
  | .variableDefinition =>
      c.executeDefinition node
      pure .normal
  | .block => c.executeBlock node
  | .ifElse => c.executeIf node
  | .whileLoop => c.executeWhile node
  | .forLoop => c.executeFor node
  | .returnStmt => c.executeReturn node
  | .breakStmt => executeBreak node
  | .continueStmt => pure .continued
  | .expressionStatement =>
      node.children.forM fun child => do
        let _ ← c.evaluate child
        pure ()
      pure .normal
  | kind =>
      if kind.isOperand then
        let _ ← c.evaluate node
        pure .normal
      else Eval.fail (Failure.unexpectedNode kind)

/-- Runs a statement.  A failure that has no position yet gets that of the
statement, and the module its tree belongs to. -/
def executeStep (c : Calls) (node : Node) : Eval Flow := do
  if !node.pos.isDummy then modify fun s => { s with lastPos := node.pos }
  Eval.mapFailure (fun s e => e.withLocation node.pos s.currentModulePath?)
    (c.executeKind node)

end Calls

end ArenaScript
