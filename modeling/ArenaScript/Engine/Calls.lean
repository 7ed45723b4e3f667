import ArenaScript.Engine.Members
/-!
# The recursive operations

Evaluation is one large recursion: expressions call functions, functions execute
statements, statements destroy objects, and destructors are functions again.
Each operation is described on its own, for a given way `Calls` of performing
the others.  The evaluator is the limit of this description, cut off when the
fuel is used up.
-/

namespace ArenaScript

inductive Flow where
  | normal
  | returned
  | broken (levels : Nat)
  | continued
  deriving DecidableEq, Repr

structure Calls where
  evaluate : Node → Eval Value
  execute : Node → Eval Flow
  invoke : FunctionId → List Value → Eval (Option Value)
  resolveType : Node → ScopeId → Eval TypeId
  /-- Constructs the first value, which is zeroed memory, from the second. -/
  copyConstruct : Value → Value → Eval Unit
  defaultConstruct : Value → Eval Unit
  destroy : Value → Eval Unit
  /-- Finds and runs a module unless that has been done. -/
  loadModule : String → Option String → Eval ModuleId
  /-- How often a loop may go round. -/
  rounds : Nat

namespace Calls

def exhausted : Calls where
  evaluate _ := Eval.exhausted
  execute _ := Eval.exhausted
  invoke _ _ := Eval.exhausted
  resolveType _ _ := Eval.exhausted
  copyConstruct _ _ := Eval.exhausted
  defaultConstruct _ := Eval.exhausted
  destroy _ := Eval.exhausted
  loadModule _ _ := Eval.exhausted
  rounds := 0

/-! ## Frames -/

def takeDestructibles : Eval (List Value) := do
  let doomed ← Eval.read fun s => (s.arena.top?.map Frame.destructibles).getD []
  Eval.updateArena (·.modifyTop fun frame => { frame with destructibles := [] })
  pure doomed

/-- Destroys what the innermost frame holds, last allocated first, and pops the
frame. -/
def popFrame (c : Calls) (depth : Nat) : Eval Unit := do
  let doomed ← takeDestructibles
  Eval.onStop (·.unwindTo depth) (doomed.forM c.destroy)
  Eval.updateArena Arena.popFrame

def popFrames (c : Calls) (depth : Nat) : Nat → Eval Unit
  | 0 => pure ()
  | rounds + 1 => do
      if depth < (← Eval.read fun s => s.arena.depth) then
        c.popFrame depth
        c.popFrames depth rounds

/-- Pops frames down to `depth`, destroying what they hold.  If a destructor
fails, the remaining frames above `depth` are dropped without destroying
anything. -/
def popFramesTo (c : Calls) (depth : Nat) : Eval Unit := do
  c.popFrames depth (← Eval.read fun s => s.arena.depth)

/-- Runs `x` in a new frame.  On success the frame is popped and what it holds
is destroyed; if `x` stops early, the frame is dropped. -/
def withFrame {α : Type} (c : Calls) (scope : ScopeId) (kind : FrameKind)
    (call : Option CallRecord) (x : Eval α) : Eval α := do
  let depth ← Eval.read fun s => s.arena.depth
  Eval.updateArena (·.pushFrame scope kind call)
  let a ← Eval.onStop (·.unwindTo depth) x
  c.popFramesTo depth
  pure a

end Calls

end ArenaScript
