import ArenaScript.Engine.Declaration
import ArenaScript.Engine.Natives
/-!
# Calling functions

A call of a function that a program declares allocates the place of the result
in the caller's frame, copies the arguments into a frame of its own and runs the
body there.  The number of such calls that may be active at once is limited.
-/

namespace ArenaScript

namespace Calls

def bindArgument (c : Calls) (param : Param) (arg : Value) : Eval Unit := do
  let slot ← Eval.reserve param.type false
  let place ← Eval.read fun s =>
    (⟨slot.type, Word.add s.arena.base slot.offset⟩ : Value)
  c.copyConstruct place arg
  Eval.updateArena (·.modifyTop (·.bind param.name slot))

def executeAll (c : Calls) : List Node → Eval Flow
  | [] => pure .normal
  | node :: rest => do
      match ← c.execute node with
      | .normal => c.executeAll rest
      | flow => pure flow

def runBody (c : Calls) (node : Node) (params : List Param)
    (args : List Value) : Eval Unit := do
  (params.zip args).forM fun (param, arg) => c.bindArgument param arg
  match node.findChild? .block with
  | some body =>
      let _ ← c.executeAll body.children
      pure ()
  | none => Eval.fail (Failure.unexpectedNode .function)

def deeper {α : Type} (x : Eval α) : Eval α := fun s =>
  match x { s with callDepth := s.callDepth + 1 } with
  | .ok a s => .ok a { s with callDepth := s.callDepth - 1 }
  | .error e s => .error e { s with callDepth := s.callDepth - 1 }

def allocateResult (ret : TypeId) : Eval (Option Value) := do
  if ret = .void then pure none else some <$> Eval.allocate ret

def invokeInterpreted (c : Calls) (id : FunctionId) (f : Function)
    (tree : TreeId) (node : Node) (scope : ScopeId) (args : List Value) :
    Eval (Option Value) := do
  Eval.inspect fun s =>
    if s.maxCallDepth ≤ s.callDepth then
      .error (Failure.callDepthExceeded s.maxCallDepth)
    else .ok ()
  let returnSlot ← allocateResult f.ret
  let call : CallRecord := { function := id, owner := f.owner, returnSlot }
  deeper <| Eval.withTree tree <| c.withFrame scope .function (some call) <|
    c.runBody node f.fixedParams args
  pure returnSlot

def invokeStep (c : Calls) (id : FunctionId) (args : List Value) :
    Eval (Option Value) := do
  let f ← Eval.read fun s => s.functions.get id
  if args.length < f.fixedParams.length then
    Eval.inspect fun s =>
      .error (Failure.noMatchingOverload f.name (s.typeNames args))
  else
    match f.body with
    | .native native =>
        let args ← Eval.inspect fun s => s.adaptArgs f.fixedParams args
        c.runNative native args
    | .interpreted tree node scope =>
        c.invokeInterpreted id f tree node scope args

/-! ## Choosing what to call -/

/-- Whether a callee accepts the arguments.  Every type can be constructed from
nothing. -/
def accepts (args : List Value) : Callee → Eval Bool
  | .function id =>
      Eval.read fun s =>
        (s.functions.get id).fits s.types (.free (args.map Value.type))
  | .constructor type => do
      if args.isEmpty then pure true else
        (·.isSome) <$> constructorFor type args

def firstAccepting (args : List Value) :
    List Callee → Eval (Option (Callee × List Callee))
  | [] => pure none
  | callee :: rest => do
      if ← accepts args callee then pure (some (callee, rest)) else
        firstAccepting args rest

/-- The first callee that accepts the arguments.  The ones after it are asked as
well, up to the next that accepts them; this may initialize types. -/
def selectCallee (candidates : List Callee) (args : List Value) :
    Eval (Option Callee) := do
  match ← firstAccepting args candidates with
  | some (callee, rest) =>
      let _ ← firstAccepting args rest
      pure (some callee)
  | none => pure none

def invokeCallee (c : Calls) (callee : Callee) (args : List Value) :
    Eval (Option Value) := do
  match callee with
  | .function id => c.invoke id args
  | .constructor type => some <$> c.constructNew type args

def tryTemplates (c : Calls) (site : CallSite) (explicit : List TemplateArg)
    (args : List Value) :
    List TemplateId → Eval (Option (Option Value))
  | [] => pure none
  | template :: rest => do
      match ← Eval.read fun s =>
          Deduction.arguments? s.types s.templates template site.args
            explicit with
      | some targs =>
          let id ← c.instantiateFunction template targs
          if ← Eval.read fun s => (s.functions.get id).fits s.types site then
            some <$> c.invoke id args
          else c.tryTemplates site explicit args rest
      | none => c.tryTemplates site explicit args rest

def callMethod (c : Calls) (receiver : Value) (name : String)
    (args : List Value) : Eval (Option Value) := do
  Eval.ensureInitialized receiver.type
  let full := receiver :: args
  let site := CallSite.member (full.map Value.type)
  let members ← Eval.read fun s => s.membersOf receiver.type
  match ← Eval.read fun s =>
    s.functions.resolve s.types (members.findFunction name) site with
  | some id => c.invoke id full
  | none =>
      match ← c.tryTemplates site [] full
        (members.findTemplateFunctions name) with
      | some result => pure result
      | none =>
          Eval.inspect fun s =>
            .error (Failure.noMatchingOverload
              (s.types.name receiver.type ++ "." ++ name) (s.typeNames args))

end Calls

end ArenaScript
