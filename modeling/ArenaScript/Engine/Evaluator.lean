import ArenaScript.Engine.Module
/-!
# The evaluator

The recursive operations, tied together.  With fuel `n` at most `n` of them can
be nested.  Running out of fuel is not a failure of the program; the fuel that
hosts use is beyond what any run needs.
-/

namespace ArenaScript

namespace Calls

def ofFuel : Nat → Calls
  | 0 => exhausted
  | n + 1 =>
      { evaluate := fun node => (ofFuel n).evaluateStep node
        execute := fun node => (ofFuel n).executeStep node
        invoke := fun id args => (ofFuel n).invokeStep id args
        resolveType := fun node scope => (ofFuel n).resolveTypeStep node scope
        copyConstruct := fun dst src => (ofFuel n).copyConstructStep dst src
        defaultConstruct := fun place => (ofFuel n).defaultConstructStep place
        destroy := fun value => (ofFuel n).destroyStep value
        loadModule := fun request importer =>
          (ofFuel n).loadModuleStep request importer
        rounds := n }

def standard : Calls := ofFuel 4611686018427387904

/-! ## Operations for hosts -/

/-- Evaluates one node of `tree`: an operand gives its value, any other node
nothing.  If it stops early, the frames it has pushed are dropped. -/
def run (c : Calls) (tree : SyntaxTree) (node : Node) :
    Eval (Option Value) := do
  let depth ← Eval.read fun s => s.arena.depth
  Eval.onStop (·.unwindTo depth) <| Eval.withTree tree.id do
    if node.kind.isOperand then some <$> c.evaluate node
    else
      let _ ← c.execute node
      pure none

def runItem (c : Calls) (item : Node) : Eval (Option Value) := do
  let tree ← Eval.adoptTree ⟨.moduleRoot, "", .dummy, 0, [item]⟩
  match tree.root.children with
  | node :: _ => c.run tree node
  | [] => pure none

def shutdown (c : Calls) : Eval Unit := c.popFramesTo 0

end Calls

/-! ## New engines -/

structure Limits where
  stackCapacity : Nat := 1048576
  maxCallDepth : Nat := 2048
  deriving DecidableEq, Repr

namespace Engine

def universeNames (scopes : ScopeTable) : ScopeTable :=
  let names := CoreKind.all.map (fun k => (k.name, k.typeId)) ++
    [("Function", TypeId.function), ("Method", TypeId.method)]
  scopes.modify .universe fun scope =>
    { scope with
      types := names.foldl (fun types (name, id) => types.put name id)
        scope.types }

def printers : List Function :=
  [("print", false), ("println", true)].map fun (name, newline) =>
    Function.make name [⟨"...", .void⟩] .void
      { variadic := true, synthesized := true } none (.native (.print newline))

def addToUniverse (s : Engine) (f : Function) : Engine :=
  let (id, functions) := s.functions.add f
  { s with
    functions, scopes :=
      s.scopes.modify .universe (·.registerFunction f.name id) }

def new (limits : Limits) (sink : Sink) (source : Option ModuleSource)
    (searchPaths : List String) : Engine :=
  let (types, scopes) := TypeTable.builtin .empty
  let engine : Engine :=
    { types
      scopes := universeNames scopes
      functions := .empty
      templates := .empty
      arena := (Arena.ofCapacity limits.stackCapacity).pushFrame .universe
        .universe none
      strings := .empty
      modules := .empty
      source
      searchPaths
      sink
      maxCallDepth := limits.maxCallDepth
      callDepth := 0
      currentTree := ⟨0⟩
      nextTree := 1
      lastPos := .dummy
      declared := [] }
  printers.foldl addToUniverse engine

end Engine

end ArenaScript
