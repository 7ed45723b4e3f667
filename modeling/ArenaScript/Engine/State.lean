import ArenaScript.Memory.Arena
import ArenaScript.Memory.Strings
import ArenaScript.Overload
import ArenaScript.Path
import ArenaScript.Template.Deduction
/-!
# The state of an engine

One engine owns every table a program touches.  Evaluation is a state-passing
computation that may stop early, with a failure of the program or because the
fuel of the evaluator is used up; in both cases the state reached so far is
kept.
-/

namespace ArenaScript

/-! ## Output -/

inductive SinkKind where
  | stdout
  | buffer
  | silent
  deriving DecidableEq, Repr, Inhabited

/-- Where a program prints to.  The text for the standard output is collected as
well; it is up to the host to write it. -/
structure Sink where
  kind : SinkKind
  written : String := ""
  deriving DecidableEq, Repr, Inhabited

namespace Sink

def print (s : Sink) (text : String) : Sink :=
  match s.kind with
  | .silent => s
  | _ => { s with written := s.written ++ text }

def println (s : Sink) (text : String) : Sink := (s.print text).print "\n"

def output (s : Sink) : String :=
  match s.kind with
  | .buffer => s.written
  | _ => ""

def clear (s : Sink) : Sink :=
  match s.kind with
  | .buffer => { s with written := "" }
  | _ => s

end Sink

/-! ## Modules -/

/-- Where modules come from.  Parsing gives the root node of a module, or a
message. -/
structure ModuleSource where
  contains : String → Bool
  parse : String → Except String Node

namespace ModuleSource

/-- What the last entry for a path says; two texts that write the same path
count as one. -/
def find? {α : Type} (entries : List (String × α)) (path : String) : Option α :=
  (entries.reverse.find? fun entry => Path.same entry.1 path).map (·.2)

/-- Modules kept in memory: the roots of those that can be parsed, and messages
for those that cannot. -/
def inMemory (modules : List (String × Node))
    (broken : List (String × String)) : ModuleSource where
  contains path := (find? modules path).isSome || (find? broken path).isSome
  parse path :=
    match find? broken path, find? modules path with
    | some message, _ => .error message
    | none, some root => .ok root
    | none, none => .error ("no such file: " ++ path)

end ModuleSource

structure ModuleEntry where
  path : String
  tree : TreeId
  scope : ScopeId
  deriving Repr, Inhabited

structure ModuleTable where
  modules : Array ModuleEntry
  deriving Repr

namespace ModuleTable

def empty : ModuleTable := ⟨#[]⟩

instance : Inhabited ModuleTable := ⟨empty⟩

def add (t : ModuleTable) (m : ModuleEntry) : ModuleId × ModuleTable :=
  (⟨t.modules.size⟩, ⟨t.modules.push m⟩)

/-- The module with this handle; every handle in use comes from `add`. -/
def get (t : ModuleTable) (id : ModuleId) : ModuleEntry :=
  t.modules.getD id.index default

def find? (t : ModuleTable) (path : String) : Option ModuleId :=
  (t.modules.findIdx? fun m => Path.same m.path path).map ModuleId.mk

/-- The module entered last with this tree. -/
def forTree? (t : ModuleTable) (tree : TreeId) : Option ModuleEntry :=
  t.modules.toList.reverse.find? (·.tree == tree)

end ModuleTable

/-! ## Engines -/

structure Engine where
  types : TypeTable
  scopes : ScopeTable
  functions : FunctionTable
  templates : TemplateTable
  arena : Arena
  strings : StringPool
  modules : ModuleTable
  source : Option ModuleSource
  searchPaths : List String
  sink : Sink
  maxCallDepth : Nat
  callDepth : Nat
  /-- The tree of the code that is executing; declarations remember it. -/
  currentTree : TreeId
  /-- The first tree number not yet given out. -/
  nextTree : Nat
  lastPos : Position
  /-- Declarations that have been processed. -/
  declared : List NodeKey

/-- Why an evaluation stops early. -/
inductive Stop where
  | failed (e : Failure)
  | outOfFuel
  deriving DecidableEq, Repr

abbrev Eval := EStateM Stop Engine

namespace Eval

def read {α : Type} (f : Engine → α) : Eval α := fun s => .ok (f s) s

def fail {α : Type} (e : Failure) : Eval α := fun s => .error (.failed e) s

def exhausted {α : Type} : Eval α := fun s => .error .outOfFuel s

def inspect {α : Type} (f : Engine → Except Failure α) : Eval α := fun s =>
  match f s with
  | .ok a => .ok a s
  | .error e => .error (.failed e) s

def ofExcept {α : Type} (x : Except Failure α) : Eval α := inspect fun _ => x

def onArena {α : Type} (op : Arena.Op α) : Eval α := fun s =>
  let arena := s.arena
  let s := { s with arena := default }
  match op arena with
  | .ok a arena => .ok a { s with arena }
  | .error e arena => .error (.failed e) { s with arena }

def updateArena (f : Arena → Arena) : Eval Unit := fun s =>
  let arena := s.arena
  let s := { s with arena := default }
  .ok () { s with arena := f arena }

def withTree {α : Type} (tree : TreeId) (x : Eval α) : Eval α := fun s =>
  let saved := s.currentTree
  match x { s with currentTree := tree } with
  | .ok a s => .ok a { s with currentTree := saved }
  | .error e s => .error e { s with currentTree := saved }

def mapFailure {α : Type} (f : Engine → Failure → Failure) (x : Eval α) :
    Eval α := fun s =>
  match x s with
  | .ok a s => .ok a s
  | .error (.failed e) s => .error (.failed (f s e)) s
  | .error .outOfFuel s => .error .outOfFuel s

def onStop {α : Type} (g : Engine → Engine) (x : Eval α) : Eval α := fun s =>
  match x s with
  | .ok a s => .ok a s
  | .error e s => .error e (g s)

end Eval

namespace Engine

def unwindTo (s : Engine) (depth : Nat) : Engine :=
  let arena := s.arena
  let s := { s with arena := default }
  { s with arena := arena.unwindTo depth }

def currentScope (s : Engine) : ScopeId :=
  (s.arena.top?.map Frame.scope).getD .universe

def currentCall? (s : Engine) : Option CallRecord :=
  (s.arena.frames.find? (·.kind == .function)).bind Frame.call

def currentModulePath? (s : Engine) : Option String :=
  (s.modules.forTree? s.currentTree).map ModuleEntry.path

end Engine

/-! ## Tables -/

namespace Eval

def currentScope : Eval ScopeId := read Engine.currentScope

def createScope (kind : ScopeKind) (parent : Option ScopeId) : Eval ScopeId :=
  modifyGet fun s =>
    let (id, scopes) := s.scopes.create kind parent
    (id, { s with scopes })

def updateScope (id : ScopeId) (f : Scope → Scope) : Eval Unit :=
  modify fun s => { s with scopes := s.scopes.modify id f }

def scopeFor (node : Node) (kind : ScopeKind) (parent : ScopeId) :
    Eval ScopeId :=
  modifyGet fun s =>
    let (id, scopes) := s.scopes.scopeFor ⟨s.currentTree, node.id⟩ kind parent
    (id, { s with scopes })

def addFunction (f : Function) : Eval FunctionId :=
  modifyGet fun s =>
    let (id, functions) := s.functions.add f
    (id, { s with functions })

/-- The instance of a built-in template. -/
def instantiateBuiltin (kind : TemplateKind) (args : List TemplateArg) :
    Eval TypeId := fun s =>
  match s.types.findOrCreate s.scopes kind args with
  | .ok ((id, _), types, scopes) => .ok id { s with types, scopes }
  | .error e => .error (.failed e) s

def referenceTo (type : TypeId) : Eval TypeId :=
  instantiateBuiltin .ref [.type type]

def addressTo (type : TypeId) : Eval TypeId :=
  instantiateBuiltin .address [.type type]

end Eval

end ArenaScript
