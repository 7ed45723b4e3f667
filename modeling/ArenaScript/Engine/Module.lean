import ArenaScript.Engine.Statement
/-!
# Modules

A module is run once.  All the modules it imports, also those imported inside
functions and blocks, are run before it, so that their root frames lie below its
own and live as long as it does.  Top-level imports are linked into the module's
scope at once, others when their statement runs.
-/

namespace ArenaScript

namespace Eval

def adoptTree (root : Node) : Eval SyntaxTree :=
  modifyGet fun s =>
    (SyntaxTree.ofRoot ⟨s.nextTree⟩ root, { s with nextTree := s.nextTree + 1 })

def parseModule (path : String) : Eval SyntaxTree := do
  let root ← inspect fun s =>
    match s.source with
    | none => .error (Failure.moduleNotFound path)
    | some source =>
        match source.parse path with
        | .ok root => .ok root
        | .error message => .error (Failure.parseFailure path message)
  adoptTree root

def addModule (path : String) (tree : TreeId) : Eval (ModuleId × ScopeId) := do
  let scope ← createScope .moduleScope (some .universe)
  let id ← modifyGet fun s =>
    let (id, modules) := s.modules.add { path, tree, scope }
    (id, { s with modules })
  pure (id, scope)

end Eval

namespace Calls

/-- Loads the module an `Import` node asks for, and links it if the import is at
the top level. -/
def preload (c : Calls) (path : String) (scope : ScopeId) (root node : Node) :
    Eval Unit := do
  let dep ← Eval.mapFailure (fun _ e => e.withLocation node.pos (some path))
    (c.loadModule node.text (some path))
  if root.children.any (·.id == node.id) then
    let depScope ← Eval.read fun s => (s.modules.get dep).scope
    Eval.updateScope scope (·.addImport depScope)

/-- Runs a parsed module unless its path has been entered already.  Its frame is
left on the stack for the rest of the run. -/
def evaluateModule (c : Calls) (path : String) (tree : SyntaxTree) :
    Eval ModuleId := do
  match ← Eval.read fun s => s.modules.find? path with
  | some id => pure id
  | none =>
      let (id, scope) ← Eval.addModule path tree.id
      let root := tree.root
      (root.descendants.filter (·.kind == .importModule)).forM
        (c.preload path scope root)
      Eval.updateArena (·.pushFrame scope .moduleFrame none)
      let _ ← Eval.withTree tree.id (c.executeAll root.children)
      pure id

def loadModuleStep (c : Calls) (request : String) (importer : Option String) :
    Eval ModuleId := do
  let path ← Eval.inspect fun s => s.findModulePath request importer
  match ← Eval.read fun s => s.modules.find? path with
  | some id => pure id
  | none => c.evaluateModule path (← Eval.parseModule path)

end Calls

end ArenaScript
