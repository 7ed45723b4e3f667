import ArenaScript.Engine.Values
/-!
# Looking up names

Variables live in frames and are found by walking the live frames.  Declarations
live in scopes: types are resolved along the lexical chain, while function names
gather candidates from the scopes of every live frame.
-/

namespace ArenaScript

inductive Callee where
  | function (id : FunctionId)
  | constructor (type : TypeId)
  deriving DecidableEq, Repr

namespace Engine

/-! ## Variables -/

/-- The frames from the innermost one to the nearest function or root frame. -/
def reachableFrames : List Frame → List Frame
  | [] => []
  | frame :: rest =>
      if frame.kind == .function || frame.kind.isRoot then [frame]
      else frame :: reachableFrames rest

def localIn (frames : List Frame) (name : String) : Option Value :=
  frames.findSome? fun frame => (frame.local? name).map frame.resolve

/-- The live root frame of a module scope, or of the universe: the outermost one
of that scope. -/
def rootFrame? (s : Engine) (scope : ScopeId) : Option Frame :=
  s.arena.frames.reverse.find? fun frame => frame.kind.isRoot &&
    frame.scope == scope

/-- Scopes whose globals are visible from `scope`: its own module, the modules
imported on the way out, and the universe. -/
def globalScopes (s : Engine) (scope : ScopeId) : List ScopeId :=
  (s.scopes.enclosingModule scope).toList ++
    (s.scopes.ancestors scope).flatMap (fun id => (s.scopes.get id).imports) ++
      [.universe]

def globalFrames (s : Engine) (scope : ScopeId) : List Frame :=
  (s.globalScopes scope).filterMap s.rootFrame?

def fieldThroughSelf (s : Engine) (frame : Frame) (name : String) :
    Except Failure (Option Value) :=
  match frame.call.bind CallRecord.owner, frame.local? "self" with
  | some owner, some slot =>
      match (s.types.get owner).structural?.bind (·.field? name) with
      | some field => do
          let receiver ← s.stripRef (frame.resolve slot)
          pure (some (receiver.view field.type field.offset))
      | none => .ok none
  | _, _ => .ok none

/-- Finds a variable: the locals of the running function, then, in a method, the
fields of `self`, then globals. -/
def lookupVariable (s : Engine) (name : String) :
    Except Failure (Option Value) :=
  let frames := reachableFrames s.arena.frames
  match localIn frames name with
  | some value => .ok (some value)
  | none => do
      let field ←
        match frames.getLast? with
        | some frame => s.fieldThroughSelf frame name
        | none => .ok none
      match field with
      | some value => pure (some value)
      | none => pure (localIn (s.globalFrames s.currentScope) name)

/-! ## Declarations -/

def visibleScopes (s : Engine) : List ScopeId :=
  ((s.arena.frames.map Frame.scope).eraseDups.flatMap
    s.scopes.closure).eraseDups

def gather {α : Type} [BEq α] (s : Engine) (f : Scope → List α) : List α :=
  (s.visibleScopes.flatMap fun id => f (s.scopes.get id)).eraseDups

def functionCandidates (s : Engine) (name : String) : List Callee :=
  s.gather fun scope =>
    (scope.findFunction name).map .function ++
      ((scope.types.get? name).map Callee.constructor).toList

def operatorCandidates (s : Engine) (symbol : String) : List FunctionId :=
  s.gather fun scope => scope.findOperator symbol

def templateFunctionCandidates (s : Engine) (name : String) : List TemplateId :=
  s.gather fun scope => scope.findTemplateFunctions name

def membersOf (s : Engine) (type : TypeId) : Scope :=
  s.scopes.get (s.types.get type).members

end Engine

end ArenaScript
