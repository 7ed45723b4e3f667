import ArenaScript.Engine.Evaluator
/-!
# Running programs

A host says what to run and within which limits.  Running a program loads its
entry module, calls its entry function and turns the result into an exit code.
-/

namespace ArenaScript

structure Settings where
  entry : String
  entryFunction : String := "main"
  searchPaths : List String := []
  limits : Limits := {}
  deriving DecidableEq, Repr

namespace Settings

def withEnvironment (s : Settings) (paths : Option String) : Settings :=
  match paths with
  | some text => { s with searchPaths := s.searchPaths ++ Path.searchPath text }
  | none => s

def engine (s : Settings) (source : ModuleSource) (sink : Sink) : Engine :=
  Engine.new s.limits sink (some source) s.searchPaths

end Settings

namespace Program

def exitCode (s : Engine) (value : Value) : Except Failure Int32 := do
  let value ← s.stripRef value
  if s.isIntegral value.type then (s.readScalar value).map fun scalar =>
    scalar.toInt64.toInt32
  else pure 0

/-- The entry function, which must take no arguments. -/
def entryPoint (s : Engine) (scope : ScopeId) (name : String) :
    Except Failure FunctionId :=
  match s.functions.resolve s.types ((s.scopes.get scope).findFunction name)
    (.free []) with
  | some id => .ok id
  | none =>
      .error ((Failure.unresolvedIdentifier name).withHint
        "the entry module must declare it without parameters")

def tryRun (c : Calls) (settings : Settings) : Eval Int32 := do
  let path ← Eval.inspect fun s => s.findModulePath settings.entry none
  let tree ← Eval.parseModule path
  let id ← c.evaluateModule path tree
  let entry ← Eval.inspect fun s =>
    entryPoint s (s.modules.get id).scope settings.entryFunction
  let code ←
    match ← c.invoke entry [] with
    | some value => Eval.inspect fun s => exitCode s value
    | none => pure 0
  c.shutdown
  pure code

/-- Like `tryRun`, but a failure drops all frames and gives exit code 1. -/
def run (c : Calls) (settings : Settings) : Eval Int32 := fun s =>
  match tryRun c settings s with
  | .ok code s => .ok code s
  | .error (.failed _) s => .ok 1 (s.unwindTo 0)
  | .error .outOfFuel s => .error .outOfFuel s

/-- The report of a failure: the message, the place where it was raised or the
last one executed, and the hint. -/
def report (settings : Settings) (s : Engine) (e : Failure) : String :=
  let (pos, file) :=
    match e.pos with
    | some pos => (pos, e.file)
    | none => (s.lastPos, none)
  let place :=
    if pos.isDummy then "" else
      "\n  --> " ++ file.getD settings.entry ++ ":" ++ pos.render
  let help :=
    match e.hint with
    | some hint => "\n  = help: " ++ hint
    | none => ""
  "error: " ++ e.fault.message ++ place ++ help

end Program

end ArenaScript
