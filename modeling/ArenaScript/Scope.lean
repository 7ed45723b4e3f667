import ArenaScript.Bindings
import ArenaScript.Types.Kind
/-!
# Lexical scopes

Scopes hold declarations: types, functions, operators, templates and bound
template parameters.  They form a tree through parent links, and a scope
can import the scopes of modules.  Variables are not kept here; they live in the
frames of the arena.
-/

namespace ArenaScript

inductive ScopeKind where
  | universe
  | moduleScope
  | function
  | block
  | loop
  | classBody
  /-- The member table of a built-in type. -/
  | members
  | template
  deriving DecidableEq, Repr, Inhabited

namespace ScopeKind

def all : List ScopeKind :=
  [.universe, .moduleScope, .function, .block, .loop, .classBody, .members,
    .template]

def name : ScopeKind → String
  | .universe => "Universe"
  | .moduleScope => "Module"
  | .function => "Function"
  | .block => "Block"
  | .loop => "Loop"
  | .classBody => "Class"
  | .members => "Members"
  | .template => "Template"

def ofName? (text : String) : Option ScopeKind := all.find? (·.name == text)

end ScopeKind

structure TemplateBinding where
  arg : TemplateArg
  valueType : Option TypeId
  deriving DecidableEq, Repr

structure Scope where
  kind : ScopeKind
  parent : Option ScopeId
  types : Bindings TypeId := .empty
  functions : Overloads FunctionId := .empty
  operators : Overloads FunctionId := .empty
  templateFunctions : Overloads TemplateId := .empty
  templateTypes : Bindings TemplateId := .empty
  templateParams : Bindings TemplateBinding := .empty
  imports : List ScopeId := []
  /-- The class type this scope is the body of. -/
  owner : Option TypeId := none
  deriving Repr

namespace Scope

def addImport (s : Scope) (other : ScopeId) : Scope :=
  if s.imports.contains other then s else
    { s with imports := s.imports ++ [other] }

/-- Binds a type name.  A name bound to another type stays as it is, and that
type is reported. -/
def registerType (s : Scope) (name : String) (type : TypeId) :
    Except TypeId Scope :=
  match s.types.get? name with
  | some existing =>
      if existing = type then .ok { s with types := s.types.put name type } else
        .error existing
  | none => .ok { s with types := s.types.put name type }

def registerFunction (s : Scope) (name : String) (id : FunctionId) : Scope :=
  { s with functions := Overloads.push s.functions name id }

def registerOperator (s : Scope) (symbol : String) (id : FunctionId) : Scope :=
  { s with operators := Overloads.push s.operators symbol id }

def registerTemplateFunction (s : Scope) (name : String) (id : TemplateId) :
    Scope :=
  { s with templateFunctions := Overloads.push s.templateFunctions name id }

def registerTemplateType (s : Scope) (name : String) (id : TemplateId) :
    Except TemplateId Scope :=
  match s.templateTypes.get? name with
  | some existing =>
      if existing = id then
        .ok { s with templateTypes := s.templateTypes.put name id }
      else .error existing
  | none => .ok { s with templateTypes := s.templateTypes.put name id }

def bindTemplateParam (s : Scope) (name : String) (binding : TemplateBinding) :
    Scope :=
  { s with templateParams := s.templateParams.put name binding }

def findFunction (s : Scope) (name : String) : List FunctionId :=
  Overloads.get s.functions name

def findOperator (s : Scope) (symbol : String) : List FunctionId :=
  Overloads.get s.operators symbol

def findTemplateFunctions (s : Scope) (name : String) : List TemplateId :=
  Overloads.get s.templateFunctions name

end Scope

/-- All scopes.  The scope of a syntax node is created on first use and kept by
node and parent: a loop body entered many times has one scope, and the same body
inside two template instances has one for each. -/
structure ScopeTable where
  scopes : Array Scope
  byNode : List ((NodeKey × ScopeId) × ScopeId)
  deriving Repr

namespace ScopeTable

def empty : ScopeTable :=
  { scopes := #[{ kind := .universe, parent := none }], byNode := [] }

instance : Inhabited ScopeTable := ⟨empty⟩

def size (t : ScopeTable) : Nat := t.scopes.size

def create (t : ScopeTable) (kind : ScopeKind) (parent : Option ScopeId) :
    ScopeId × ScopeTable :=
  (⟨t.size⟩, { t with scopes := t.scopes.push { kind, parent } })

def get (t : ScopeTable) (id : ScopeId) : Scope :=
  t.scopes.getD id.index { kind := .universe, parent := none }

def modify (t : ScopeTable) (id : ScopeId) (f : Scope → Scope) : ScopeTable :=
  { t with scopes := t.scopes.modify id.index f }

def scopeFor (t : ScopeTable) (key : NodeKey) (kind : ScopeKind)
    (parent : ScopeId) : ScopeId × ScopeTable :=
  match t.byNode.lookup (key, parent) with
  | some id => (id, t)
  | none =>
      let (id, t) := t.create kind (some parent)
      (id, { t with byNode := ((key, parent), id) :: t.byNode })

def ancestorsFrom (t : ScopeTable) (id : ScopeId) : Nat → List ScopeId
  | 0 => [id]
  | rounds + 1 =>
      match (t.get id).parent with
      | some parent => id :: t.ancestorsFrom parent rounds
      | none => [id]

/-- `id` and its ancestors, innermost first.  A parent is older than its child,
so the handle itself bounds the length of the chain. -/
def ancestors (t : ScopeTable) (id : ScopeId) : List ScopeId :=
  t.ancestorsFrom id id.index

def enclosingModule (t : ScopeTable) (id : ScopeId) : Option ScopeId :=
  (t.ancestors id).find? fun s => (t.get s).kind == .moduleScope

def enclosingClass (t : ScopeTable) (id : ScopeId) : Option TypeId :=
  (t.ancestors id).findSome? fun s => (t.get s).owner

/-- `id`, its ancestors, and after each of them the modules it imports. -/
def closure (t : ScopeTable) (id : ScopeId) : List ScopeId :=
  (t.ancestors id).flatMap fun s => s :: (t.get s).imports

/-! ## Names -/

def resolveTypeName (t : ScopeTable) (id : ScopeId) (name : String) :
    Option TypeId :=
  (t.closure id).findSome? fun s => (t.get s).types.get? name

def findTemplateParam (t : ScopeTable) (id : ScopeId) (name : String) :
    Option TemplateBinding :=
  (t.ancestors id).findSome? fun s => (t.get s).templateParams.get? name

def findTemplateType (t : ScopeTable) (id : ScopeId) (name : String) :
    Option TemplateId :=
  (t.closure id).findSome? fun s => (t.get s).templateTypes.get? name

end ScopeTable

end ArenaScript
