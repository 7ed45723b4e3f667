import ArenaScript.Function
/-!
# Templates a program declares

A template is its declaration node and the scope it was declared in.
An instance binds the parameters in a scope of its own and declares the body
there; each argument list of a function template is instantiated once.
-/

namespace ArenaScript

/-- A template parameter stands for a type, or for an integer of a declared
type. -/
inductive TemplateParamKind where
  | type
  | value (type : TypeId)
  deriving DecidableEq, Repr

structure TemplateParam where
  name : String
  kind : TemplateParamKind
  deriving DecidableEq, Repr

def TemplateParam.admits (p : TemplateParam) (arg : TemplateArg) : Bool :=
  match p.kind, arg with
  | .type, .type _ => true
  | .value _, .int _ => true
  | _, _ => false

inductive TemplateItem where
  | function (owner : Option TypeId)
  | record (kind : StructKind)
  deriving DecidableEq, Repr

structure TemplateDef where
  name : String
  params : List TemplateParam
  tree : TreeId
  node : Node
  scope : ScopeId
  item : TemplateItem
  deriving Repr

instance : Inhabited TemplateDef :=
  ⟨{ name := "", params := [], tree := default, node := default,
     scope := default
     item := .function none }⟩

structure TemplateTable where
  defs : Array TemplateDef
  instances : List ((TemplateId × List TemplateArg) × FunctionId)
  deriving Repr

namespace TemplateTable

def empty : TemplateTable := ⟨#[], []⟩

instance : Inhabited TemplateTable := ⟨empty⟩

def add (t : TemplateTable) (d : TemplateDef) : TemplateId × TemplateTable :=
  (⟨t.defs.size⟩, { t with defs := t.defs.push d })

def get (t : TemplateTable) (id : TemplateId) : TemplateDef :=
  t.defs.getD id.index default

def instance? (t : TemplateTable) (id : TemplateId) (args : List TemplateArg) :
    Option FunctionId :=
  t.instances.lookup (id, args)

def addInstance (t : TemplateTable) (id : TemplateId) (args : List TemplateArg)
    (function : FunctionId) : TemplateTable :=
  { t with instances := ((id, args), function) :: t.instances }

end TemplateTable

end ArenaScript
