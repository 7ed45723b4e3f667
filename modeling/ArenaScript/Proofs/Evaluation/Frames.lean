import ArenaScript.Proofs.Evaluation.Evaluator

/-!
# Frame discipline

Whatever an evaluation does, the frames it found are there when it ends: those
below the innermost one are untouched, and the innermost one has at most gained
bindings and aggregates.  Frames pushed in between are gone, on success and on
failure, and with them the bytes allocated in them.  Only the frame of a module
outlives the evaluation that has pushed it, and modules are entered at root
frames only.
-/

namespace ArenaScript

/-- What a live frame keeps: all but its bindings, and every aggregate it
owns. -/
structure Frame.Kept (f g : Frame) : Prop where
  base : g.base = f.base
  scope : g.scope = f.scope
  kind : g.kind = f.kind
  call : g.call = f.call
  destructibles : f.destructibles <:+ g.destructibles

namespace Frame.Kept

theorem refl (f : Frame) : f.Kept f :=
  ⟨rfl, rfl, rfl, rfl, List.suffix_rfl⟩

theorem trans {f g h : Frame} (hfg : f.Kept g) (hgh : g.Kept h) : f.Kept h where
  base := hgh.base.trans hfg.base
  scope := hgh.scope.trans hfg.scope
  kind := hgh.kind.trans hfg.kind
  call := hgh.call.trans hfg.call
  destructibles := hfg.destructibles.trans hgh.destructibles

end Frame.Kept

namespace Arena

inductive FramesKept : List Frame → List Frame → Prop
  | empty : FramesKept [] []
  | top {f g : Frame} (rest : List Frame) (h : f.Kept g) :
      FramesKept (f :: rest) (g :: rest)

namespace FramesKept

variable {fs gs hs : List Frame}

theorem refl (fs : List Frame) : FramesKept fs fs := by
  cases fs with
  | nil => exact .empty
  | cons f rest => exact .top rest (.refl f)

theorem trans (hfg : FramesKept fs gs) (hgh : FramesKept gs hs) :
    FramesKept fs hs := by
  cases hfg with
  | empty => exact hgh
  | top rest hf =>
      cases hgh with
      | top _ hg => exact .top rest (hf.trans hg)

theorem length_eq (h : FramesKept fs gs) : gs.length = fs.length := by
  cases h with
  | empty => rfl
  | top rest hf => rfl

theorem top_isRoot (h : FramesKept fs gs) :
    gs.head?.all (·.kind.isRoot) = fs.head?.all (·.kind.isRoot) := by
  cases h with
  | empty => rfl
  | top rest hf => simp [hf.kind]

theorem modifyHead {f : Frame → Frame}
    (hf : ∀ frame : Frame, frame.Kept (f frame)) (fs : List Frame) :
    FramesKept fs (fs.modifyHead f) := by
  cases fs with
  | nil => exact .empty
  | cons frame rest => exact .top rest (hf frame)

end FramesKept

structure Kept (a b : Arena) : Prop where
  frames : FramesKept a.frames b.frames
  mark : a.mark ≤ b.mark

namespace Kept

variable {a b d : Arena}

theorem refl (a : Arena) : a.Kept a := ⟨.refl _, Nat.le_refl _⟩

theorem trans (hab : a.Kept b) (hbd : b.Kept d) : a.Kept d :=
  ⟨hab.frames.trans hbd.frames, Nat.le_trans hab.mark hbd.mark⟩

theorem claim (a : Arena) (types : TypeTable) (type : TypeId)
    (contents : List UInt8) : a.Kept (a.claim types type contents) := by
  constructor
  · rw [claim_frames]
    split
    · refine .modifyHead (fun frame => ?_) _
      exact ⟨rfl, rfl, rfl, rfl, List.suffix_cons _ _⟩
    · exact .refl _
  · rw [claim_mark]
    omega

theorem allocate {types : TypeTable} {type : TypeId} {source : Option Nat}
    {v : Value} (h : Arena.allocate types type source a = .ok v b) :
    a.Kept b := by
  obtain ⟨contents, -, -, -, rfl⟩ := allocate_eq_ok h
  exact claim a types type contents

theorem reserve {types : TypeTable} {type : TypeId} {lookBack : Bool}
    {slot : Slot} (h : Arena.reserve types type lookBack a = .ok slot b) :
    a.Kept b := by
  cases lookBack with
  | false =>
      obtain ⟨contents, -, -, -, rfl⟩ := reserve_fresh_eq_ok h
      exact claim a types type contents
  | true =>
      obtain ⟨-, -, rfl⟩ := reserve_back_eq_ok h
      exact refl b

theorem write {addr : Nat} {contents : List UInt8}
    (h : Arena.write addr contents a = .ok () b) : a.Kept b := by
  obtain ⟨-, rfl⟩ := write_eq_ok h
  exact ⟨.refl _, Nat.le_refl _⟩

theorem copy {src dst len : Nat} (h : Arena.copy src dst len a = .ok () b) :
    a.Kept b := by
  obtain ⟨-, rfl⟩ := copy_eq_ok h
  exact ⟨.refl _, Nat.le_refl _⟩

theorem bindLocal (a : Arena) (name : String) (slot : Slot) :
    a.Kept (a.modifyTop (·.bind name slot)) := by
  constructor
  · rw [modifyTop_frames]
    refine .modifyHead (fun frame => ?_) _
    exact ⟨rfl, rfl, rfl, rfl, List.suffix_rfl⟩
  · exact Nat.le_of_eq (modifyTop_mark a _).symm

end Kept

theorem unwind_length (mark : Nat) (frames : List Frame) :
    unwind frames.length mark frames = (frames, mark) := by
  cases frames with
  | nil => rfl
  | cons top rest =>
      rw [unwind, if_neg]
      simp

end Arena

namespace Engine

structure Kept (s t : Engine) : Prop where
  arena : s.arena.Kept t.arena
  callDepth : t.callDepth = s.callDepth
  currentTree : t.currentTree = s.currentTree

namespace Kept

variable {s t u : Engine}

theorem refl (s : Engine) : s.Kept s := ⟨.refl _, rfl, rfl⟩

theorem trans (hst : s.Kept t) (htu : t.Kept u) : s.Kept u where
  arena := hst.arena.trans htu.arena
  callDepth := htu.callDepth.trans hst.callDepth
  currentTree := htu.currentTree.trans hst.currentTree

theorem atRoot (h : s.Kept t) : t.atRoot = s.atRoot :=
  h.arena.frames.top_isRoot

theorem move (h : s.Move t) : s.Kept t := by
  cases h with
  | allocate h => exact ⟨.allocate h, rfl, rfl⟩
  | reserve h => exact ⟨.reserve h, rfl, rfl⟩
  | write h => exact ⟨.write h, rfl, rfl⟩
  | copy h => exact ⟨.copy h, rfl, rfl⟩
  | bindLocal name slot => exact ⟨.bindLocal _ name slot, rfl, rfl⟩
  | _ => exact ⟨.refl _, rfl, rfl⟩

end Kept

/-- Number of modules that have been entered. -/
def entered (s : Engine) : Nat := s.modules.modules.size

/-- How an evaluation changes an engine: modules are entered at root frames
only, and an evaluation that enters none keeps all the frames. -/
structure Disciplined (s t : Engine) : Prop where
  atRoot : t.atRoot = s.atRoot
  entered_le : s.entered ≤ t.entered
  inner : s.atRoot = false → t.entered = s.entered
  kept : t.entered = s.entered → s.Kept t

structure Restored (s t : Engine) : Prop where
  frames : t.arena.frames = s.arena.frames
  mark : t.arena.mark = s.arena.mark
  callDepth : t.callDepth = s.callDepth
  currentTree : t.currentTree = s.currentTree
  entered : t.entered = s.entered

theorem Move.modules {s t : Engine} (h : s.Move t) : t.modules = s.modules := by
  cases h <;> rfl

theorem Move.entered {s t : Engine} (h : s.Move t) : t.entered = s.entered :=
  congrArg (·.modules.size) h.modules

namespace Disciplined

variable {s t u : Engine}

theorem of_kept (h : s.Kept t) (hentered : t.entered = s.entered) :
    s.Disciplined t :=
  ⟨h.atRoot, Nat.le_of_eq hentered.symm, fun _ => hentered, fun _ => h⟩

theorem trans (hst : s.Disciplined t) (htu : t.Disciplined u) :
    s.Disciplined u where
  atRoot := htu.atRoot.trans hst.atRoot
  entered_le := Nat.le_trans hst.entered_le htu.entered_le
  inner := by
    intro hs
    have ht : t.atRoot = false := by rw [hst.atRoot, hs]
    rw [htu.inner ht, hst.inner hs]
  kept := by
    intro hentered
    have hst' := hst.entered_le
    have htu' := htu.entered_le
    exact (hst.kept (by omega)).trans (htu.kept (by omega))

theorem composable : Eval.Composable Disciplined where
  refl s := of_kept (.refl s) rfl
  trans := trans

theorem of_inner (h : s.Disciplined t) (hs : s.atRoot = false) : s.Kept t :=
  h.kept (h.inner hs)

end Disciplined

theorem Restored.kept {s t : Engine} (h : s.Restored t) : s.Kept t := by
  refine ⟨⟨?_, Nat.le_of_eq h.mark.symm⟩, h.callDepth, h.currentTree⟩
  rw [h.frames]
  exact .refl _

theorem Restored.refl (s : Engine) : s.Restored s := ⟨rfl, rfl, rfl, rfl, rfl⟩

theorem Restored.trans {s t u : Engine} (hst : s.Restored t)
    (htu : t.Restored u) : s.Restored u where
  frames := htu.frames.trans hst.frames
  mark := htu.mark.trans hst.mark
  callDepth := htu.callDepth.trans hst.callDepth
  currentTree := htu.currentTree.trans hst.currentTree
  entered := htu.entered.trans hst.entered

/-! ## Inside a frame -/

def pushed (s : Engine) (scope : ScopeId) (kind : FrameKind)
    (call : Option CallRecord) : Engine :=
  { s with arena := s.arena.pushFrame scope kind call }

def disarmed (t : Engine) : Engine :=
  { t with
    arena := t.arena.modifyTop fun frame => { frame with destructibles := [] } }

structure Inside (s t : Engine) : Prop where
  frames : ∃ top : Frame, t.arena.frames = top :: s.arena.frames ∧
    top.base = s.arena.mark ∧ top.kind.isRoot = false
  callDepth : t.callDepth = s.callDepth
  currentTree : t.currentTree = s.currentTree
  entered : t.entered = s.entered

namespace Inside

variable {s t u : Engine}

theorem push (s : Engine) (scope : ScopeId) {kind : FrameKind}
    (call : Option CallRecord) (hkind : kind.isRoot = false) :
    Inside s (s.pushed scope kind call) :=
  ⟨⟨_, rfl, rfl, hkind⟩, rfl, rfl, rfl⟩

theorem atRoot (h : Inside s t) : t.atRoot = false := by
  obtain ⟨top, hframes, -, hkind⟩ := h.frames
  simp [Engine.atRoot, Arena.top?, hframes, hkind]

theorem depth (h : Inside s t) : t.arena.depth = s.arena.depth + 1 := by
  obtain ⟨top, hframes, -, -⟩ := h.frames
  simp [Arena.depth, hframes]

theorem step (h : Inside s t) (htu : t.Disciplined u) : Inside s u := by
  obtain ⟨top, hframes, hbase, hkind⟩ := h.frames
  have hkept := htu.of_inner h.atRoot
  have hu := hkept.arena.frames
  rw [hframes] at hu
  refine ⟨?_, hkept.callDepth.trans h.callDepth,
    hkept.currentTree.trans h.currentTree,
    (htu.inner h.atRoot).trans h.entered⟩
  cases hgs : u.arena.frames with
  | nil =>
      rw [hgs] at hu
      cases hu
  | cons g rest =>
      rw [hgs] at hu
      cases hu with
      | top _ hg => exact ⟨g, rfl, hg.base.trans hbase, by rw [hg.kind, hkind]⟩

theorem disarmed (h : Inside s t) : Inside s t.disarmed := by
  obtain ⟨top, hframes, hbase, hkind⟩ := h.frames
  refine ⟨⟨{ top with destructibles := [] }, ?_, hbase, hkind⟩, h.callDepth,
    h.currentTree,
    h.entered⟩
  simp [Engine.disarmed, hframes]

theorem popFrame (h : Inside s t) :
    s.Restored { t with arena := t.arena.popFrame } := by
  obtain ⟨top, hframes, hbase, -⟩ := h.frames
  refine ⟨?_, ?_, h.callDepth, h.currentTree, h.entered⟩
  · simp [Arena.popFrame, hframes]
  · simp [Arena.popFrame, hframes, hbase]

theorem unwindTo (h : Inside s t) : s.Restored (t.unwindTo s.arena.depth) := by
  obtain ⟨top, hframes, hbase, -⟩ := h.frames
  have hunwind : Arena.unwind s.arena.depth t.arena.mark t.arena.frames =
      (s.arena.frames, s.arena.mark) := by
    have hle : s.arena.depth ≤ s.arena.frames.length := Nat.le_refl _
    rw [hframes, Arena.unwind, if_pos hle, hbase]
    exact Arena.unwind_length _ _
  refine ⟨?_, ?_, h.callDepth, h.currentTree, h.entered⟩
  · simp [Engine.unwindTo, Arena.unwindTo, hunwind]
  · simp [Engine.unwindTo, Arena.unwindTo, hunwind]

end Inside

end Engine

/-! ## Computations in frames -/

namespace Calls

open Engine (Inside Disciplined)

variable {c : Calls} {s t : Engine}

def topAggregates (t : Engine) : List Value :=
  (t.arena.top?.map Frame.destructibles).getD []

theorem takeDestructibles_eq (t : Engine) :
    takeDestructibles t = .ok (topAggregates t) t.disarmed := rfl

/-- Aggregates are destroyed in the frame that holds them, which is gone
whatever happens. -/
theorem popFrame_restored (h : Inside s t)
    (hdestroyed : t.disarmed.Disciplined
      (((topAggregates t).forM c.destroy).after t.disarmed)) :
    s.Restored ((c.popFrame s.arena.depth).after t) := by
  -- Taking the aggregates away breaks `Kept` for the popped frame, but not
  -- `Inside`.
  have hinside := h.disarmed.step hdestroyed
  unfold Calls.popFrame
  rw [Eval.after_bind_ok (takeDestructibles_eq t)]
  cases hrun : (topAggregates t).forM c.destroy t.disarmed with
  | ok _ u =>
      rw [Eval.after_ok hrun] at hinside
      rw [Eval.after_bind_ok (Eval.onStop_ok _ hrun)]
      exact hinside.popFrame
  | error e u =>
      rw [Eval.after_error hrun] at hinside
      rw [Eval.after_bind_error (Eval.onStop_error _ hrun)]
      exact hinside.unwindTo

theorem popFrames_succ (depth rounds : Nat) (t : Engine) :
    c.popFrames depth (rounds + 1) t =
      if depth < t.arena.depth then
        (c.popFrame depth >>= fun _ => c.popFrames depth rounds) t
      else .ok () t := by
  by_cases hdepth : depth < t.arena.depth
  · simp [Calls.popFrames, Eval.read, bind, EStateM.bind, hdepth]
  · simp [Calls.popFrames, Eval.read, bind, EStateM.bind, hdepth, pure,
      EStateM.pure]

theorem popFrames_restored (h : s.Restored t) (rounds : Nat) :
    c.popFrames s.arena.depth rounds t = .ok () t := by
  cases rounds with
  | zero => rfl
  | succ rounds =>
      have hdepth : ¬ s.arena.depth < t.arena.depth := by
        simp [Arena.depth, h.frames]
      rw [popFrames_succ, if_neg hdepth]

theorem popFramesTo_eq (h : Inside s t)
    (hpop : s.Restored ((c.popFrame s.arena.depth).after t)) :
    c.popFramesTo s.arena.depth t = c.popFrame s.arena.depth t := by
  change c.popFrames s.arena.depth t.arena.depth t = _
  rw [h.depth, popFrames_succ, if_pos (by rw [h.depth]; omega)]
  cases hrun : c.popFrame s.arena.depth t with
  | ok _ u =>
      rw [Eval.after_ok hrun] at hpop
      rw [Eval.bind_ok hrun, popFrames_restored hpop]
  | error e u => rw [Eval.bind_error hrun]

theorem popFramesTo_restored
    (hdestroy : ∀ v, Eval.Within Disciplined (c.destroy v)) (h : Inside s t) :
    s.Restored ((c.popFramesTo s.arena.depth).after t) := by
  have hpop :=
    popFrame_restored h (Disciplined.composable.forM hdestroy
      (topAggregates t) _)
  rw [Eval.after_congr (popFramesTo_eq h hpop)]
  exact hpop

/-- A computation in a frame of its own leaves the frames and the mark as it has
found them. -/
theorem withFrame_restored {α : Type} {x : Eval α} (scope : ScopeId)
    {kind : FrameKind} (call : Option CallRecord) (hkind : kind.isRoot = false)
    (hdestroy : ∀ v, Eval.Within Disciplined (c.destroy v))
    (hx : (s.pushed scope kind call).Disciplined
      (x.after (s.pushed scope kind call))) :
    s.Restored ((c.withFrame scope kind call x).after s) := by
  have hinside := (Inside.push s scope call hkind).step hx
  have hread : Eval.read (fun s => s.arena.depth) s = .ok s.arena.depth s := rfl
  have hpush : Eval.updateArena (·.pushFrame scope kind call) s =
      .ok () (s.pushed scope kind call) := rfl
  unfold Calls.withFrame
  rw [Eval.after_bind_ok hread, Eval.after_bind_ok hpush]
  cases hrun : x (s.pushed scope kind call) with
  | ok a t =>
      rw [Eval.after_ok hrun] at hinside
      have hpop := popFramesTo_restored hdestroy hinside
      rw [Eval.after_bind_ok (Eval.onStop_ok _ hrun), Eval.after_bind_pure]
      exact hpop
  | error e t =>
      rw [Eval.after_error hrun] at hinside
      rw [Eval.after_bind_error (Eval.onStop_error _ hrun)]
      exact hinside.unwindTo

theorem after_deeper {α : Type} (x : Eval α) (s : Engine) :
    (deeper x).after s =
      let t := x.after { s with callDepth := s.callDepth + 1 }
      { t with callDepth := t.callDepth - 1 } := by
  simp only [Eval.after, deeper]
  cases x { s with callDepth := s.callDepth + 1 } <;> rfl

end Calls

/-! ## The discipline is stable -/

namespace Engine

theorem Restored.disciplined {s t : Engine} (h : s.Restored t) :
    s.Disciplined t :=
  .of_kept h.kept h.entered

namespace Disciplined

variable {s t u : Engine}

theorem of_tree {tree : TreeId}
    (h : ({ s with currentTree := tree } : Engine).Disciplined t) :
    s.Disciplined { t with currentTree := s.currentTree } := by
  refine ⟨h.atRoot, h.entered_le, h.inner, fun hentered => ?_⟩
  have hkept := h.kept hentered
  exact ⟨hkept.arena, hkept.callDepth, rfl⟩

theorem withTree {α : Type} {x : Eval α} (tree : TreeId)
    (hx : Eval.Within Disciplined x) :
    Eval.Within Disciplined (Eval.withTree tree x) := by
  intro s
  rw [Eval.after_withTree]
  exact of_tree (hx { s with currentTree := tree })

theorem deeper {α : Type} {x : Eval α} (hx : Eval.Within Disciplined x) :
    Eval.Within Disciplined (Calls.deeper x) := by
  intro s
  have h := hx { s with callDepth := s.callDepth + 1 }
  rw [Calls.after_deeper]
  refine ⟨h.atRoot, h.entered_le, h.inner, fun hentered => ?_⟩
  have hkept := h.kept hentered
  refine ⟨hkept.arena, ?_, hkept.currentTree⟩
  simp [hkept.callDepth]

theorem of_entered (hs : s.atRoot = true) (ht : t.atRoot = true)
    (hentered : s.entered < t.entered) : s.Disciplined t where
  atRoot := by rw [ht, hs]
  entered_le := Nat.le_of_lt hentered
  inner := by
    intro hinner
    rw [hs] at hinner
    cases hinner
  kept := by
    intro hsame
    omega

theorem entered_addModule (s : Engine) (path : String) (tree : TreeId) :
    ((Eval.addModule path tree).after s).entered = s.entered + 1 := by
  change (s.modules.modules.push _).size = s.modules.modules.size + 1
  rw [Array.size_push]

theorem stable : Eval.Stable Disciplined where
  toComposable := composable
  move h := of_kept (.move h) h.entered
  root h := h.atRoot
  tree := withTree
  call := deeper
  frame scope _ call hkind hdestroy hx := fun s =>
    (Calls.withFrame_restored scope call hkind hdestroy (hx _)).disciplined
  enter {s} path tree hs := by
    refine of_entered hs hs ?_
    rw [entered_addModule]
    omega
  start {s t u} path scope tree hs hst htu := by
    -- The frame of the module stays, so it matters that the module counts as
    -- entered.
    refine of_entered hs htu.atRoot ?_
    have hentered := entered_addModule s path tree
    have hpreloads := hst.entered_le
    have hcode : t.entered ≤ u.entered := htu.entered_le
    change s.entered < u.entered
    omega

end Disciplined

end Engine

/-! ## Loops -/

namespace Calls

/-- The engine in which a loop starts its iteration number `k`, counted from 0,
if it comes to that. -/
def roundStart (iteration : Eval (Option Flow)) : Nat → Engine → Option Engine
  | 0, s => some s
  | k + 1, s =>
      match iteration s with
      | .ok none t => roundStart iteration k t
      | _ => none

theorem roundStart_succ {iteration : Eval (Option Flow)} {k : Nat}
    {s u : Engine} (h : roundStart iteration (k + 1) s = some u) :
    ∃ t, iteration s = .ok none t ∧ roundStart iteration k t = some u := by
  rw [roundStart] at h
  split at h
  · rename_i t hrun
    exact ⟨t, hrun, h⟩
  · cases h

theorem repeatUntil_roundStart {iteration : Eval (Option Flow)} {k : Nat}
    {s t : Engine} (h : roundStart iteration k s = some t) (rounds : Nat) :
    repeatUntil iteration (k + rounds) s = repeatUntil iteration rounds t := by
  induction k generalizing s with
  | zero =>
      cases h
      rw [Nat.zero_add]
  | succ k ih =>
      obtain ⟨u, hrun, hu⟩ := roundStart_succ h
      rw [Nat.succ_add, repeatUntil, ← ih hu]
      simp only [bind, EStateM.bind, hrun]

theorem roundStart_restored {iteration : Eval (Option Flow)} {k : Nat}
    {s t : Engine} (hiteration : ∀ s : Engine, s.Restored (iteration.after s))
    (h : roundStart iteration k s = some t) : s.Restored t := by
  induction k generalizing s with
  | zero =>
      cases h
      exact .refl _
  | succ k ih =>
      obtain ⟨u, hrun, hu⟩ := roundStart_succ h
      have hround := hiteration s
      rw [Eval.after_ok hrun] at hround
      exact hround.trans (ih hu)

end Calls

/-! ## Main statement -/

def Engine.EntersNone {α : Type} (s : Engine) (x : Eval α) : Prop :=
  s.atRoot = false ∨ (x.after s).entered = s.entered

theorem Engine.EntersNone.kept {α : Type} {s : Engine} {x : Eval α}
    (h : s.EntersNone x) (hx : Eval.Within Engine.Disciplined x) :
    s.Kept (x.after s) ∧ (x.after s).arena.depth = s.arena.depth := by
  have hkept : s.Kept (x.after s) := by
    cases h with
    | inl hinner => exact (hx s).of_inner hinner
    | inr hentered => exact (hx s).kept hentered
  exact ⟨hkept, hkept.arena.frames.length_eq⟩

namespace Calls

/-- What the operations `c` do to the frames of the engine `s`. -/
structure KeepsFrames (c : Calls) (s : Engine) : Prop where
  execute : ∀ node, s.EntersNone (c.execute node) →
    s.Kept ((c.execute node).after s) ∧
      ((c.execute node).after s).arena.depth = s.arena.depth
  evaluate : ∀ node, s.EntersNone (c.evaluate node) →
    s.Kept ((c.evaluate node).after s) ∧
      ((c.evaluate node).after s).arena.depth = s.arena.depth
  invoke : ∀ id args, s.EntersNone (c.invoke id args) →
    s.Kept ((c.invoke id args).after s) ∧
      ((c.invoke id args).after s).arena.depth = s.arena.depth
  /-- A frame is popped by the computation that has pushed it if what runs
  inside keeps frames. -/
  frame : ∀ {α : Type} (x : Eval α) (scope : ScopeId) (kind : FrameKind)
    (call : Option CallRecord), kind.isRoot = false →
      (s.pushed scope kind call).Disciplined
        (x.after (s.pushed scope kind call)) →
        s.Restored ((c.withFrame scope kind call x).after s)
  block : ∀ node, s.Restored ((c.executeBlock node).after s)
  body : ∀ scope call node params args, s.Restored
    ((c.withFrame scope .function (some call)
      (c.runBody node params args)).after s)
  initializer : ∀ scope place field, field.initializer.isSome →
    s.Restored ((c.initField scope place field).after s)
  iteration : ∀ scope cond body step,
    s.Restored ((c.iteration scope cond body step).after s)
  /-- All iterations of a loop start alike. -/
  loop : ∀ scope cond body step k t,
    roundStart (c.iteration scope cond body step) k s = some t →
      s.Restored t ∧ ∀ rounds,
        repeatUntil (c.iteration scope cond body step) (k + rounds) s =
          repeatUntil (c.iteration scope cond body step) rounds t

namespace Within

variable {c : Calls}

open Engine (Disciplined)

theorem block_restored (hc : c.Within Disciplined) (node : Node) (s : Engine) :
    s.Restored ((c.executeBlock node).after s) := by
  have houter : Eval.currentScope s = .ok s.currentScope s := rfl
  unfold Calls.executeBlock
  rw [Eval.after_bind_ok houter]
  cases hscope : Eval.scopeFor node .block s.currentScope s with
  | error e t => cases hscope
  | ok scope t =>
      have ht : s.Restored t := by
        cases hscope
        exact ⟨rfl, rfl, rfl, rfl, rfl⟩
      rw [Eval.after_bind_ok hscope]
      refine ht.trans (withFrame_restored scope none rfl hc.destroy ?_)
      exact hc.executeAll Disciplined.stable.toLocal node.children _

theorem body_restored (hc : c.Within Disciplined) (scope : ScopeId)
    (call : CallRecord) (node : Node) (params : List Param) (args : List Value)
    (s : Engine) : s.Restored
      ((c.withFrame scope .function (some call)
        (c.runBody node params args)).after s) :=
  withFrame_restored scope (some call) rfl hc.destroy
    (hc.runBody Disciplined.stable.toLocal node params args _)

theorem initializer_restored (hc : c.Within Disciplined) (scope : ScopeId)
    (place : Value) (field : Field) (hfield : field.initializer.isSome)
    (s : Engine) : s.Restored ((c.initField scope place field).after s) := by
  obtain ⟨x, hx, heq⟩ :=
    hc.initField_frame Disciplined.stable.toLocal scope place field hfield
  rw [heq]
  exact withFrame_restored scope none rfl hc.destroy (hx _)

theorem iteration_restored (hc : c.Within Disciplined) (scope : ScopeId)
    (cond body : Node) (step : Option Node) (s : Engine) :
    s.Restored ((c.iteration scope cond body step).after s) := by
  obtain ⟨x, hx, heq⟩ :=
    hc.iteration_frame Disciplined.stable.toLocal scope cond body step
  rw [heq]
  exact withFrame_restored scope none rfl hc.destroy (hx _)

end Within

/-- The evaluator keeps the frames of every engine. -/
theorem frame_discipline (fuel : Nat) (s : Engine) :
    (Calls.ofFuel fuel).KeepsFrames s := by
  have hc : (Calls.ofFuel fuel).Within Engine.Disciplined :=
    .ofFuel Engine.Disciplined.stable fuel
  exact
    { execute := fun node h => h.kept (hc.execute node)
      evaluate := fun node h => h.kept (hc.evaluate node)
      invoke := fun id args h => h.kept (hc.invoke id args)
      frame := fun x scope kind call hkind hx =>
        withFrame_restored scope call hkind hc.destroy hx
      block := fun node => hc.block_restored node s
      body := fun scope call node params args =>
        hc.body_restored scope call node params args s
      initializer := fun scope place field hfield =>
        hc.initializer_restored scope place field hfield s
      iteration := fun scope cond body step =>
        hc.iteration_restored scope cond body step s
      loop := fun scope cond body step k t h =>
        ⟨roundStart_restored (hc.iteration_restored scope cond body step) h,
          repeatUntil_roundStart h⟩ }

end Calls

end ArenaScript
