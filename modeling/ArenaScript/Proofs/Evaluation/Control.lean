import ArenaScript.Proofs.Evaluation.Failures

/-!
# What is still to be done

When a part of a statement is executed, certain things remain to be done for the
statement: the statements that follow in the blocks around the part, the frames
around it, and the loops around it with their steps and their remaining rounds.
They form layers, the innermost one first.  When the part ends, the statement
ends as the layers say.

So where a jump leads to is read off the layers.  A `break` of level `n` drops
them up to and including the `n`-th loop, and execution goes on after that loop;
a `continue` drops them up to the innermost loop, which runs its step and goes
round again; a `return` drops all of them.  What is dropped is not executed:
only the frames are popped.
-/

namespace ArenaScript

namespace Calls

/-! ## Layers -/

structure Loop where
  scope : ScopeId
  cond : Node
  body : Node
  step : Option Node

/-- What remains of a loop. -/
def Loop.rounds (l : Loop) (fuel rounds : Nat) : Eval Flow :=
  repeatUntil ((ofFuel fuel).iteration l.scope l.cond l.body l.step) rounds

/-- A part of a statement that is executed by itself. -/
inductive Piece
  | statement (node : Node)
  | branch (node : Node)
  | sequence (nodes : List Node)
  | loop (l : Loop) (rounds : Nat)

def Piece.perform (fuel : Nat) : Piece → Eval Flow
  | .statement node => (ofFuel fuel).execute node
  | .branch node => (ofFuel fuel).executeBranch node
  | .sequence nodes => (ofFuel fuel).executeAll nodes
  | .loop l rounds => l.rounds fuel rounds

inductive Layer
  | rest (fuel : Nat) (nodes : List Node)
  /-- The frame that the piece is executed in is popped. -/
  | frame (fuel depth : Nat)
  /-- The piece was the body of a loop, executed in the frame of an iteration;
  at most `rounds` iterations follow. -/
  | round (fuel depth : Nat) (l : Loop) (rounds : Nat)

namespace Layer

def isRound : Layer → Bool
  | .round .. => true
  | _ => false

/-- Only frames are popped. -/
def leave : Layer → Eval Unit
  | .rest _ _ => pure ()
  | .frame fuel depth => (ofFuel fuel).popFramesTo depth
  | .round fuel depth _ _ => (ofFuel fuel).popFramesTo depth

/-- The end of an iteration after which the loop goes on: the step of a `for` is
run in the frame of the iteration. -/
def nextRound (fuel depth : Nat) (l : Loop) (rounds : Nat) : Eval Flow := do
  match l.step with
  | some step =>
      let _ ← (ofFuel fuel).evaluate step
      pure ()
  | none => pure ()
  (ofFuel fuel).popFramesTo depth
  l.rounds fuel rounds

/-- What is done after the piece has ended with the given flow. -/
def resume : Layer → Flow → Eval Flow
  | .rest fuel nodes, .normal => (ofFuel fuel).executeAll nodes
  | .rest _ _, flow => pure flow
  | .frame fuel depth, flow => do
      (ofFuel fuel).popFramesTo depth
      pure flow
  | .round fuel depth l rounds, .normal => nextRound fuel depth l rounds
  | .round fuel depth l rounds, .continued => nextRound fuel depth l rounds
  | .round fuel depth _ _, .broken n => do
      (ofFuel fuel).popFramesTo depth
      pure (if n ≤ 1 then .normal else .broken (n - 1))
  | .round fuel depth _ _, .returned => do
      (ofFuel fuel).popFramesTo depth
      pure .returned

end Layer

def loops (layers : List Layer) : Nat := layers.countP Layer.isRound

def leave : List Layer → Eval Unit
  | [] => pure ()
  | layer :: outer => do
      layer.leave
      leave outer

def resume : List Layer → Flow → Eval Flow
  | [], flow => pure flow
  | layer :: outer, flow => do resume outer (← layer.resume flow)

@[simp] theorem loops_nil : loops [] = 0 := rfl

@[simp] theorem loops_rest (fuel : Nat) (nodes : List Node)
    (outer : List Layer) :
    loops (.rest fuel nodes :: outer) = loops outer := rfl

@[simp] theorem loops_frame (fuel depth : Nat) (outer : List Layer) :
    loops (.frame fuel depth :: outer) = loops outer := rfl

@[simp] theorem loops_round (fuel depth : Nat) (l : Loop) (rounds : Nat)
    (outer : List Layer) :
    loops (.round fuel depth l rounds :: outer) = loops outer + 1 :=
  List.countP_cons_of_pos rfl

theorem loops_append (inner outer : List Layer) :
    loops (inner ++ outer) = loops inner + loops outer :=
  List.countP_append

theorem leave_append (inner outer : List Layer) :
    leave (inner ++ outer) = (do
      leave inner
      leave outer) := by
  induction inner with
  | nil => simp [leave]
  | cons layer inner ih => simp [leave, ih]

theorem resume_append (inner outer : List Layer) (flow : Flow) :
    resume (inner ++ outer) flow = (do resume outer (← resume inner flow)) := by
  induction inner generalizing flow with
  | nil => simp [resume]
  | cons layer inner ih => simp [resume, ih]

/-! ## Jumps through layers -/

theorem resume_returned (layers : List Layer) :
    resume layers .returned = (do
      leave layers
      pure .returned) := by
  induction layers with
  | nil => simp [resume, leave]
  | cons layer outer ih =>
      cases layer <;> simp [resume, leave, Layer.resume, Layer.leave, ih]

/-- Without a loop around it a `continue` leaves everything. -/
theorem resume_continued_of_no_loop {layers : List Layer}
    (h : loops layers = 0) :
    resume layers .continued = (do
      leave layers
      pure .continued) := by
  induction layers with
  | nil => simp [resume, leave]
  | cons layer outer ih =>
      cases layer with
      | round fuel depth l rounds => simp at h
      | _ =>
          have houter : loops outer = 0 := by simpa using h
          simp [resume, leave, Layer.resume, Layer.leave, ih houter]

theorem resume_broken_of_lt {layers : List Layer} {n : Nat}
    (h : loops layers < n) :
    resume layers (.broken n) = (do
      leave layers
      pure (.broken (n - loops layers))) := by
  induction layers generalizing n with
  | nil => simp [resume, leave, loops]
  | cons layer outer ih =>
      cases layer with
      | round fuel depth l rounds =>
          rw [loops_round] at h ⊢
          have hrest : n - 1 - loops outer = n - (loops outer + 1) := by omega
          have hmany : ¬ n ≤ 1 := by omega
          simp [resume, leave, Layer.resume, Layer.leave, hmany,
            ih (show loops outer < n - 1 by omega), hrest]
      | rest fuel nodes =>
          rw [loops_rest] at h ⊢
          simp [resume, leave, Layer.resume, Layer.leave, ih h]
      | frame fuel depth =>
          rw [loops_frame] at h ⊢
          simp [resume, leave, Layer.resume, Layer.leave, ih h]

structure Splits (layers : List Layer) (n : Nat) (inner : List Layer)
    (fuel depth : Nat) (l : Loop) (rounds : Nat) (outer : List Layer) :
    Prop where
  layers : layers = inner ++ .round fuel depth l rounds :: outer
  loops : loops inner + 1 = n

theorem exists_splits {layers : List Layer} {n : Nat} (hn : 1 ≤ n)
    (h : n ≤ loops layers) :
    ∃ inner fuel depth l rounds outer,
      Splits layers n inner fuel depth l rounds outer := by
  induction layers generalizing n with
  | nil => exact absurd h (by rw [loops_nil]; omega)
  | cons layer rest ih =>
      cases layer with
      | round fuel depth l rounds =>
          rw [loops_round] at h
          by_cases hone : n = 1
          · exact ⟨[], fuel, depth, l, rounds, rest, rfl,
              by rw [loops_nil, hone]⟩
          · obtain ⟨inner, f, d, k, r, outer, hlayers, hloops⟩ :=
              ih (show 1 ≤ n - 1 by omega) (show n - 1 ≤ loops rest by omega)
            refine ⟨.round fuel depth l rounds :: inner, f, d, k, r, outer,
              by rw [hlayers]; rfl, ?_⟩
            rw [loops_round]
            omega
      | _ =>
          obtain ⟨inner, f, d, k, r, outer, hlayers, hloops⟩ :=
            ih hn (by simpa using h)
          exact ⟨_ :: inner, f, d, k, r, outer, by rw [hlayers]; rfl,
            by simpa using hloops⟩

variable {layers inner outer : List Layer} {n fuel depth rounds : Nat}
  {l : Loop}

/-- A `break` ends the loops up to the one it says, and what is around that loop
goes on as if the loop had ended by itself. -/
theorem resume_broken (h : Splits layers n inner fuel depth l rounds outer) :
    resume layers (.broken n) = (do
      leave (inner ++ [.round fuel depth l rounds])
      resume outer .normal) := by
  have hlt : loops inner < n := by
    have hloops := h.loops
    omega
  have hlast : n - loops inner = 1 := by
    have hloops := h.loops
    omega
  rw [h.layers, resume_append, resume_broken_of_lt hlt, leave_append, hlast]
  simp [resume, leave, Layer.resume, Layer.leave]

theorem resume_continued (h : Splits layers 1 inner fuel depth l rounds outer) :
    resume layers .continued = (do
      leave inner
      let flow ← Layer.nextRound fuel depth l rounds
      resume outer flow) := by
  have hnone : loops inner = 0 := by
    have hloops := h.loops
    omega
  rw [h.layers, resume_append, resume_continued_of_no_loop hnone]
  simp [resume, Layer.resume]

/-! ## What a statement executes -/

end Calls

namespace Engine

def scopeOf (s : Engine) (node : Node) (kind : ScopeKind) : ScopeId :=
  (s.scopes.scopeFor (s.keyOf node) kind s.currentScope).1

def withScopeOf (s : Engine) (node : Node) (kind : ScopeKind) : Engine :=
  { s with scopes := (s.scopes.scopeFor (s.keyOf node) kind s.currentScope).2 }

def insideOf (s : Engine) (node : Node) (kind : ScopeKind) : Engine :=
  (s.withScopeOf node kind).pushed (s.scopeOf node kind) .block none

end Engine

namespace Calls

structure Point where
  fuel : Nat
  piece : Piece
  engine : Engine

def Point.run (p : Point) : EStateM.Result Stop Engine Flow :=
  p.piece.perform p.fuel p.engine

inductive Enters : Point → List Layer → Point → Prop
  | block {fuel : Nat} {node : Node} {s : Engine} (hkind : node.kind = .block) :
      Enters ⟨fuel + 1, .statement node, s⟩ []
        ⟨fuel, .branch node, s.arrivedAt node⟩
  | accepted {fuel : Nat} {node cond accepted : Node} {s t : Engine}
      (hkind : node.kind = .ifElse) (hcond : node.child? 0 = some cond)
      (haccepted : node.child? 1 = some accepted)
      (hrun : (ofFuel fuel).condition cond (s.arrivedAt node) = .ok true t) :
      Enters ⟨fuel + 1, .statement node, s⟩ [] ⟨fuel, .branch accepted, t⟩
  | otherwise {fuel : Nat} {node cond otherwise : Node} {s t : Engine}
      (hkind : node.kind = .ifElse) (hcond : node.child? 0 = some cond)
      (hotherwise : node.child? 2 = some otherwise)
      (hrun : (ofFuel fuel).condition cond (s.arrivedAt node) = .ok false t) :
      Enters ⟨fuel + 1, .statement node, s⟩ [] ⟨fuel, .branch otherwise, t⟩
  | whileLoop {fuel : Nat} {node cond body : Node} {s : Engine}
      (hkind : node.kind = .whileLoop) (hcond : node.child? 0 = some cond)
      (hbody : node.child? 1 = some body) :
      Enters ⟨fuel + 1, .statement node, s⟩ []
        ⟨fuel, .loop ⟨(s.arrivedAt node).scopeOf node .loop, cond, body, none⟩
          (ofFuel fuel).rounds,
          (s.arrivedAt node).withScopeOf node .loop⟩
  | forLoop {fuel : Nat} {node init cond step body : Node} {s t : Engine}
      {flow : Flow} (hkind : node.kind = .forLoop)
      (hinit : node.child? 0 = some init) (hcond : node.child? 1 = some cond)
      (hstep : node.child? 2 = some step) (hbody : node.child? 3 = some body)
      (hrun : (ofFuel fuel).execute init
        ((s.arrivedAt node).insideOf node .loop) = .ok flow t) :
      Enters ⟨fuel + 1, .statement node, s⟩ [.frame fuel s.arena.depth]
        ⟨fuel, .loop ⟨(s.arrivedAt node).scopeOf node .loop, cond, body,
          some step⟩ (ofFuel fuel).rounds, t⟩
  | branchBlock {fuel : Nat} {node : Node} {s : Engine}
      (hkind : node.kind = .block) :
      Enters ⟨fuel, .branch node, s⟩ [.frame fuel s.arena.depth]
        ⟨fuel, .sequence node.children, s.insideOf node .block⟩
  | branch {fuel : Nat} {node : Node} {s : Engine}
      (hkind : node.kind ≠ .block) :
      Enters ⟨fuel, .branch node, s⟩ [] ⟨fuel, .statement node, s⟩
  | first {fuel : Nat} {node : Node} {nodes : List Node} {s : Engine} :
      Enters ⟨fuel, .sequence (node :: nodes), s⟩ [.rest fuel nodes]
        ⟨fuel, .statement node, s⟩
  | later {fuel : Nat} {node : Node} {nodes : List Node} {s t : Engine}
      (hrun : (ofFuel fuel).execute node s = .ok .normal t) :
      Enters ⟨fuel, .sequence (node :: nodes), s⟩ [] ⟨fuel, .sequence nodes, t⟩
  | body {fuel rounds : Nat} {l : Loop} {s t : Engine}
      (hrun : (ofFuel fuel).condition l.cond (s.pushed l.scope .block none) =
        .ok true t) :
      Enters ⟨fuel, .loop l (rounds + 1), s⟩
        [.round fuel s.arena.depth l rounds] ⟨fuel, .branch l.body, t⟩
  | nextRound {fuel rounds : Nat} {l : Loop} {s t : Engine}
      (hrun : (ofFuel fuel).iteration l.scope l.cond l.body l.step s =
        .ok none t) :
      Enters ⟨fuel, .loop l (rounds + 1), s⟩ [] ⟨fuel, .loop l rounds, t⟩

/-- Performing `p` comes to `q` in the end, in the given layers of `p`. -/
inductive Reaches : Point → List Layer → Point → Prop
  | here (p : Point) : Reaches p [] p
  | inside {p q r : Point} {inner outer : List Layer} (hpq : Enters p outer q)
      (hqr : Reaches q inner r) : Reaches p (inner ++ outer) r

end Calls

namespace Eval

theorem mapFailure_eq_ok {α : Type} {f : Engine → Failure → Failure}
    {x : Eval α} {s t : Engine} {a : α} (h : mapFailure f x s = .ok a t) :
    x s = .ok a t := by
  unfold mapFailure at h
  split at h
  · rename_i hrun
    cases h
    exact hrun
  · cases h
  · cases h

end Eval

namespace Calls

theorem withFrame_eq_ok {α : Type} {c : Calls} {scope : ScopeId}
    {kind : FrameKind} {call : Option CallRecord} {x : Eval α}
    {s t : Engine} {a : α} (h : c.withFrame scope kind call x s = .ok a t) :
    ∃ u, x (s.pushed scope kind call) = .ok a u ∧
      c.popFramesTo s.arena.depth u = .ok () t := by
  have hread : Eval.read (fun s => s.arena.depth) s = .ok s.arena.depth s := rfl
  have hpush : Eval.updateArena (·.pushFrame scope kind call) s =
      .ok () (s.pushed scope kind call) := rfl
  unfold withFrame at h
  rw [Eval.bind_ok hread, Eval.bind_ok hpush] at h
  obtain ⟨b, u, hrun, hrest⟩ := Eval.bind_eq_ok h
  obtain ⟨_, v, hpop, hpure⟩ := Eval.bind_eq_ok hrest
  cases hpure
  exact ⟨u, Eval.onStop_eq_ok hrun, hpop⟩

theorem executeKind_of_execute {fuel : Nat} {node : Node} {s t : Engine}
    {flow : Flow} (h : (ofFuel (fuel + 1)).execute node s = .ok flow t) :
    (ofFuel fuel).executeKind node (s.arrivedAt node) = .ok flow t := by
  have hstep : (ofFuel fuel).executeStep node s = .ok flow t := h
  unfold executeStep at hstep
  have hkind :
      (Eval.mapFailure (fun s e => e.withLocation node.pos s.currentModulePath?)
        ((ofFuel fuel).executeKind node)) (s.arrivedAt node) = .ok flow t := by
    rw [← hstep]
    unfold Engine.arrivedAt
    cases node.pos.isDummy <;> rfl
  exact Eval.mapFailure_eq_ok hkind

theorem exists_required {node : Node} {index : Nat} {f : Node → Eval Flow}
    {s t : Engine} {flow : Flow}
    (h : (required node index >>= f) s = .ok flow t) :
    ∃ part, node.child? index = some part ∧ f part s = .ok flow t := by
  cases hchild : node.child? index with
  | none =>
      rw [required, hchild] at h
      cases h
  | some part =>
      rw [required, hchild] at h
      exact ⟨part, rfl, h⟩

theorem required_ok {node part : Node} {index : Nat}
    (h : node.child? index = some part) (s : Engine) :
    required node index s = .ok part s := by
  rw [required, h]
  rfl

theorem resume_frame {fuel depth : Nat} {flow : Flow} {s t : Engine}
    (hpop : (ofFuel fuel).popFramesTo depth s = .ok () t) :
    resume [.frame fuel depth] flow s = .ok flow t := by
  have hlayer : Layer.resume (.frame fuel depth) flow s = .ok flow t :=
    (Eval.bind_ok hpop).trans rfl
  exact (Eval.bind_ok hlayer).trans rfl

/-- An iteration whose condition holds runs the body, and then the step unless
the body has ended the loop. -/
theorem iteration_eq_ok {c : Calls} {l : Loop} {s t u : Engine}
    {exit : Option Flow}
    (hanswer : c.condition l.cond (s.pushed l.scope .block none) = .ok true u)
    (h : c.iteration l.scope l.cond l.body l.step s = .ok exit t) :
    ∃ f v w, c.executeBranch l.body u = .ok f v ∧ exit = loopExit f ∧
      (match loopExit f, l.step with
        | none, some step => ∃ value, c.evaluate step v = .ok value w
        | _, _ => w = v) ∧
      c.popFramesTo s.arena.depth w = .ok () t := by
  obtain ⟨w, hinner, hpop⟩ := withFrame_eq_ok h
  rw [Eval.bind_ok hanswer, if_pos rfl] at hinner
  obtain ⟨f, v, hbody, hrest⟩ := Eval.bind_eq_ok hinner
  refine ⟨f, v, w, hbody, ?_⟩
  cases hexit : loopExit f with
  | some flow =>
      rw [hexit] at hrest
      cases hrest
      exact ⟨rfl, rfl, hpop⟩
  | none =>
      rw [hexit] at hrest
      cases hstep : l.step with
      | none =>
          rw [hstep] at hrest
          cases hrest
          exact ⟨rfl, rfl, hpop⟩
      | some step =>
          rw [hstep] at hrest
          obtain ⟨value, x, hvalue, hpure⟩ := Eval.bind_eq_ok hrest
          cases hpure
          exact ⟨rfl, ⟨value, hvalue⟩, hpop⟩

/-- A loop whose condition holds runs the body, and how that ends decides how
the loop goes on. -/
theorem rounds_eq_ok {fuel rounds : Nat} {l : Loop} {s t u : Engine}
    {flow : Flow}
    (hanswer : (ofFuel fuel).condition l.cond (s.pushed l.scope .block none) =
      .ok true u) (h : l.rounds fuel (rounds + 1) s = .ok flow t) :
    ∃ f v, (ofFuel fuel).executeBranch l.body u = .ok f v ∧
      Layer.resume (.round fuel s.arena.depth l rounds) f v = .ok flow t := by
  unfold Loop.rounds repeatUntil at h
  obtain ⟨exit, x, hround, hrest⟩ := Eval.bind_eq_ok h
  obtain ⟨f, v, w, hbody, rfl, hstep, hpop⟩ := iteration_eq_ok hanswer hround
  refine ⟨f, v, hbody, ?_⟩
  have hgoesOn : loopExit f = none →
      Layer.nextRound fuel s.arena.depth l rounds v = .ok flow t := by
    intro hexit
    rw [hexit] at hstep hrest
    unfold Layer.nextRound
    cases hnode : l.step with
    | none =>
        rw [hnode] at hstep
        subst hstep
        exact (Eval.bind_ok hpop).trans hrest
    | some step =>
        rw [hnode] at hstep
        obtain ⟨value, hvalue⟩ := hstep
        exact (Eval.bind_ok hvalue).trans ((Eval.bind_ok hpop).trans hrest)
  have hends : ∀ final, loopExit f = some final → w = v ∧ final = flow ∧
      x = t := by
    intro final hexit
    rw [hexit] at hstep hrest
    cases hrest
    exact ⟨hstep, rfl, rfl⟩
  cases f with
  | normal => exact hgoesOn rfl
  | continued => exact hgoesOn rfl
  | returned =>
      obtain ⟨rfl, rfl, rfl⟩ := hends _ rfl
      exact (Eval.bind_ok hpop).trans rfl
  | broken n =>
      obtain ⟨rfl, rfl, rfl⟩ := hends _ rfl
      exact (Eval.bind_ok hpop).trans rfl

/-- If a piece ends and performing it comes to another piece, then that one ends
as well, and what is done afterwards in the layers around it gives the end of
the first. -/
theorem Enters.finishes {p q : Point} {layers : List Layer} {flow : Flow}
    {t : Engine} (h : Enters p layers q) (hrun : p.run = .ok flow t) :
    ∃ f u, q.run = .ok f u ∧ resume layers f u = .ok flow t := by
  -- One case per way into a piece; the layer around it is what is left of the
  -- outer one.
  cases h with
  | @block fuel node s hkind =>
      have hblock := executeKind_of_execute hrun
      simp only [executeKind, hkind] at hblock
      have hbranch : (ofFuel fuel).executeBranch node =
          (ofFuel fuel).executeBlock node := by
        simp [executeBranch, hkind]
      exact ⟨flow, t, (congrFun hbranch _).trans hblock, rfl⟩
  | accepted hkind hcond haccepted hanswer =>
      have hif := executeKind_of_execute hrun
      simp only [executeKind, hkind, executeIf] at hif
      rw [Eval.bind_ok (required_ok hcond _),
        Eval.bind_ok (required_ok haccepted _), Eval.bind_ok hanswer] at hif
      exact ⟨flow, t, hif, rfl⟩
  | otherwise hkind hcond hotherwise hanswer =>
      have hif := executeKind_of_execute hrun
      simp only [executeKind, hkind, executeIf] at hif
      rw [Eval.bind_ok (required_ok hcond _)] at hif
      obtain ⟨accepted, -, hbranches⟩ := exists_required hif
      rw [Eval.bind_ok hanswer, hotherwise] at hbranches
      exact ⟨flow, t, hbranches, rfl⟩
  | @whileLoop fuel node cond body s hkind hcond hbody =>
      have hwhile := executeKind_of_execute hrun
      simp only [executeKind, hkind, executeWhile] at hwhile
      rw [Eval.bind_ok (required_ok hcond _),
        Eval.bind_ok (required_ok hbody _)] at hwhile
      exact ⟨flow, t, hwhile, rfl⟩
  | forLoop hkind hinit hcond hstep hbody hstart =>
      have hfor := executeKind_of_execute hrun
      simp only [executeKind, hkind, executeFor] at hfor
      rw [Eval.bind_ok (required_ok hinit _),
        Eval.bind_ok (required_ok hcond _), Eval.bind_ok (required_ok hstep _),
          Eval.bind_ok (required_ok hbody _)] at hfor
      obtain ⟨u, hinner, hpop⟩ := withFrame_eq_ok hfor
      obtain ⟨started, v, hfirst, hloop⟩ := Eval.bind_eq_ok hinner
      obtain ⟨rfl, rfl⟩ := EStateM.Result.ok.inj (hstart.symm.trans hfirst)
      exact ⟨flow, u, hloop, resume_frame hpop⟩
  | @branchBlock fuel node s hkind =>
      have hblock : (ofFuel fuel).executeBlock node s = .ok flow t := by
        have hbranch : (ofFuel fuel).executeBranch node s = .ok flow t := hrun
        simpa [executeBranch, hkind] using hbranch
      obtain ⟨u, hinner, hpop⟩ := withFrame_eq_ok hblock
      exact ⟨flow, u, hinner, resume_frame hpop⟩
  | @branch fuel node s hkind =>
      have hstatement : (ofFuel fuel).execute node s = .ok flow t := by
        have hbranch : (ofFuel fuel).executeBranch node s = .ok flow t := hrun
        simpa [executeBranch, hkind] using hbranch
      exact ⟨flow, t, hstatement, rfl⟩
  | @first fuel node nodes s =>
      have hall : (ofFuel fuel).executeAll (node :: nodes) s =
          .ok flow t := hrun
      unfold executeAll at hall
      obtain ⟨f, u, hnode, hrest⟩ := Eval.bind_eq_ok hall
      refine ⟨f, u, hnode, ?_⟩
      have hlayer : Layer.resume (.rest fuel nodes) f u = .ok flow t := by
        cases f <;> exact hrest
      exact (Eval.bind_ok hlayer).trans rfl
  | @later fuel node nodes s u hfirst =>
      have hall : (ofFuel fuel).executeAll (node :: nodes) s =
          .ok flow t := hrun
      unfold executeAll at hall
      rw [Eval.bind_ok hfirst] at hall
      exact ⟨flow, t, hall, rfl⟩
  | @body fuel rounds l s start hanswer =>
      obtain ⟨f, u, hbody, hlayer⟩ := rounds_eq_ok hanswer hrun
      exact ⟨f, u, hbody, (Eval.bind_ok hlayer).trans rfl⟩
  | @nextRound fuel rounds l s u hround =>
      have hloop : l.rounds fuel (rounds + 1) s = .ok flow t := hrun
      unfold Loop.rounds repeatUntil at hloop
      rw [Eval.bind_ok hround] at hloop
      exact ⟨flow, t, hloop, rfl⟩

theorem Reaches.finishes {p q : Point} {layers : List Layer} {flow : Flow}
    {t : Engine} (h : Reaches p layers q) (hrun : p.run = .ok flow t) :
    ∃ f u, q.run = .ok f u ∧ resume layers f u = .ok flow t := by
  induction h generalizing flow t with
  | here p => exact ⟨flow, t, hrun, rfl⟩
  | inside hpq _ ih =>
      obtain ⟨g, v, hq, houter⟩ := hpq.finishes hrun
      obtain ⟨f, u, hr, hinner⟩ := ih hq
      refine ⟨f, u, hr, ?_⟩
      rw [resume_append]
      exact (Eval.bind_ok hinner).trans houter

end Calls

end ArenaScript
