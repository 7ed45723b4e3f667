import ArenaScript.Proofs.Evaluation.Control

/-!
# Jumps

A statement that does not end normally has executed a jump, a `break`,
`continue` or `return`, that leaves it.  As many loops are around a jump when it
is executed as there are around it in the text, so the statement contains a jump
that is not matched by its loops, and ends with the level that remains.
-/

namespace ArenaScript

/-! ## Jumps in a statement -/

namespace Node

def breakLevel? (node : Node) : Option Nat :=
  if node.text == "" then some 1
  else (Number.unsigned? 4294967296 node.text).map (max · 1)

/-- `part` is executed as a part of `node`, in that many loops.  Bodies of
functions and classes are not parts, and neither is the initializer of a `for`,
which is no place for a jump. -/
inductive Part (node : Node) : Nat → Node → Prop
  | statement {part : Node} (hkind : node.kind = .block)
      (h : part ∈ node.children) :
      Part node 0 part
  | branch {index : Nat} {part : Node} (hkind : node.kind = .ifElse)
      (hindex : index = 1 ∨ index = 2) (h : node.child? index = some part) :
      Part node 0 part
  | whileBody {part : Node} (hkind : node.kind = .whileLoop)
      (h : node.child? 1 = some part) :
      Part node 1 part
  | forBody {part : Node} (hkind : node.kind = .forLoop)
      (h : node.child? 3 = some part) :
      Part node 1 part

/-- `inner` is a statement of the tree `node`, with that many loops of the tree
around it. -/
inductive Encloses : Node → Nat → Node → Prop
  | self (node : Node) : Encloses node 0 node
  | part {node part inner : Node} {k loops : Nat} (hpart : node.Part k part)
      (h : part.Encloses loops inner) : Encloses node (k + loops) inner

def UnmatchedBreak (node : Node) (level : Nat) : Prop :=
  ∃ loops jump n, node.Encloses loops jump ∧ jump.kind = .breakStmt ∧
    jump.breakLevel? = some n ∧ loops < n ∧ level = n - loops

def UnmatchedContinue (node : Node) : Prop :=
  ∃ jump, node.Encloses 0 jump ∧ jump.kind = .continueStmt

/-- The statement is a jump that ends like this. -/
def Jumps (node : Node) : Flow → Prop
  | .normal => False
  | .returned => node.kind = .returnStmt
  | .continued => node.kind = .continueStmt
  | .broken n => node.kind = .breakStmt ∧ node.breakLevel? = some n

theorem one_le_of_breakLevel? {node : Node} {n : Nat}
    (h : node.breakLevel? = some n) : 1 ≤ n := by
  unfold breakLevel? at h
  split at h
  · exact Nat.le_of_eq (Option.some.inj h)
  · obtain ⟨level, -, rfl⟩ := Option.map_eq_some_iff.1 h
    exact Nat.le_max_right level 1

end Node

inductive Flow.Escapes : Flow → Nat → Flow → Prop
  | returned (loops : Nat) : Escapes .returned loops .returned
  | continued : Escapes .continued 0 .continued
  | broken {n loops : Nat} (h : loops < n) :
      Escapes (.broken n) loops (.broken (n - loops))

namespace Calls

/-! ## Layers and the text -/

/-- Some part of the piece is the statement `inner`, with that many loops of the
piece around it. -/
def Piece.Encloses (loops : Nat) (inner : Node) : Piece → Prop
  | .statement node => node.Encloses loops inner
  | .branch node => node.Encloses loops inner
  | .sequence nodes => ∃ node ∈ nodes, node.Encloses loops inner
  | .loop l _ => ∃ n, loops = n + 1 ∧ l.body.Encloses n inner

theorem Enters.encloses {p q : Point} {layers : List Layer} {k : Nat}
    {inner : Node} (h : Enters p layers q) (hinner : q.piece.Encloses k inner) :
    p.piece.Encloses (k + loops layers) inner := by
  have hpart : ∀ {node part : Node}, node.Part 0 part → part.Encloses k inner →
      node.Encloses k inner := fun hpart h => by
    have hwhole := Node.Encloses.part hpart h
    rwa [Nat.zero_add] at hwhole
  have hbody : ∀ {node part : Node}, node.Part 1 part →
      (∃ n, k = n + 1 ∧ part.Encloses n inner) → node.Encloses k inner := by
    rintro node part hround ⟨n, rfl, h⟩
    have hwhole := Node.Encloses.part hround h
    rwa [Nat.add_comm] at hwhole
  cases h with
  | block => exact hinner
  | accepted hkind _ haccepted =>
      exact hpart (.branch hkind (.inl rfl) haccepted) hinner
  | otherwise hkind _ hotherwise =>
      exact hpart (.branch hkind (.inr rfl) hotherwise) hinner
  | whileLoop hkind _ hchild => exact hbody (.whileBody hkind hchild) hinner
  | forLoop hkind _ _ _ hchild => exact hbody (.forBody hkind hchild) hinner
  | branchBlock hkind =>
      obtain ⟨child, hchild, h⟩ := hinner
      exact hpart (.statement hkind hchild) h
  | branch => exact hinner
  | first => exact ⟨_, List.mem_cons_self, hinner⟩
  | later =>
      obtain ⟨node, hnode, h⟩ := hinner
      exact ⟨node, List.mem_cons_of_mem _ hnode, h⟩
  | body => exact ⟨k, by rw [loops_round, loops_nil], hinner⟩
  | nextRound => exact hinner

/-- As many loops are around a piece when it is performed as there are around it
in the text. -/
theorem Reaches.encloses {p q : Point} {layers : List Layer} {k : Nat}
    {inner : Node} (h : Reaches p layers q)
    (hinner : q.piece.Encloses k inner) :
    p.piece.Encloses (k + loops layers) inner := by
  induction h with
  | here p => exact hinner
  | inside hpq _ ih =>
      have hwhole := hpq.encloses (ih hinner)
      rwa [loops_append, ← Nat.add_assoc]

/-! ## Every flow comes from a jump -/

/-- The piece comes to a jump that leaves it with this flow. -/
def Point.Jumped (p : Point) (flow : Flow) : Prop :=
  ∃ layers q jump f u, Reaches p layers q ∧ q.piece = .statement jump ∧
    q.run = .ok f u ∧
    jump.Jumps f ∧ f.Escapes (loops layers) flow

theorem Node.Jumps.escapes {node : Node} {flow : Flow} (h : node.Jumps flow) :
    flow.Escapes 0 flow := by
  cases flow with
  | normal => exact h.elim
  | returned => exact .returned 0
  | continued => exact .continued
  | broken n => exact .broken (Node.one_le_of_breakLevel? h.2)

namespace Point.Jumped

variable {p q : Point} {outer : List Layer} {flow f : Flow} {s t : Engine}

theorem of_jump {fuel : Nat} {node : Node} (h : node.Jumps flow)
    (hrun : (⟨fuel, .statement node, s⟩ : Point).run = .ok flow t) :
    (⟨fuel, .statement node, s⟩ : Point).Jumped flow :=
  ⟨[], _, node, flow, t, .here _, rfl, hrun, h, Node.Jumps.escapes h⟩

theorem inside (h : Enters p outer q) (hq : q.Jumped f)
    (hloops : loops outer = 0) : p.Jumped f := by
  obtain ⟨inner, r, jump, g, u, hreach, hpiece, hrun, hjump, hescapes⟩ := hq
  refine ⟨inner ++ outer, r, jump, g, u, .inside h hreach, hpiece, hrun,
    hjump, ?_⟩
  rwa [loops_append, hloops, Nat.add_zero]

/-- A jump leaves the loop whose body it leaves, if it leaves the body for more
than the next iteration. -/
theorem round {fuel depth rounds : Nat} {l : Loop}
    (h : Enters p [.round fuel depth l rounds] q) (hq : q.Jumped f)
    (hexit : loopExit f = some flow) (hflow : flow ≠ .normal) :
    p.Jumped flow := by
  obtain ⟨inner, r, jump, g, u, hreach, hpiece, hrun, hjump, hescapes⟩ := hq
  refine ⟨inner ++ [.round fuel depth l rounds], r, jump, g, u,
    .inside h hreach, hpiece, hrun,
    hjump, ?_⟩
  rw [loops_append, loops_round, loops_nil]
  generalize loops inner = k at hescapes ⊢
  cases hescapes with
  | returned =>
      cases hexit
      exact .returned _
  | continued => cases hexit
  | @broken n _ hlt =>
      rw [loopExit, Option.some.injEq] at hexit
      split at hexit
      · exact absurd hexit.symm hflow
      · have hlevel : n - k - 1 = n - (k + 1) := by omega
        rw [← hexit, hlevel]
        exact .broken (by omega)

theorem enter (h : Enters p outer q) (hframes : ∀ layer ∈ outer, ∃ fuel depth,
      layer = .frame fuel depth)
    (hq : ∀ f u, q.run = .ok f u → f ≠ .normal → q.Jumped f)
    (hrun : p.run = .ok flow t) (hflow : flow ≠ .normal) : p.Jumped flow := by
  obtain ⟨f, u, hinner, houter⟩ := h.finishes hrun
  have hsame : ∀ {layers : List Layer} {u : Engine},
      (∀ layer ∈ layers, ∃ fuel depth,
        layer = .frame fuel depth) → resume layers f u = .ok flow t →
        flow = f ∧ loops layers = 0 := by
    intro layers
    induction layers with
    | nil =>
        intro u _ h
        cases h
        exact ⟨rfl, rfl⟩
    | cons layer rest ih =>
        intro u hall h
        obtain ⟨⟨fuel, depth, rfl⟩, hrest⟩ := List.forall_mem_cons.1 hall
        obtain ⟨g, v, hlayer, hresume⟩ := Eval.bind_eq_ok h
        obtain ⟨_, w, -, hpure⟩ := Eval.bind_eq_ok hlayer
        cases hpure
        rw [loops_frame]
        exact ih hrest hresume
  obtain ⟨rfl, hloops⟩ := hsame hframes houter
  exact inside h (hq flow u hinner hflow) hloops

end Point.Jumped

end Calls

/-! ### Statements -/

def Eval.Results {α : Type} (P : α → Prop) (x : Eval α) : Prop :=
  ∀ s a t, x s = .ok a t → P a

namespace Eval.Results

variable {α β : Type} {P : β → Prop} {x y : Eval β}

theorem pure {b : β} (h : P b) : Results P (Pure.pure b : Eval β) := by
  intro s a t hrun
  cases hrun
  exact h

theorem bind {z : Eval α} {f : α → Eval β} (h : ∀ a, Results P (f a)) :
    Results P (z >>= f) := by
  intro s b t hrun
  obtain ⟨a, u, -, hrest⟩ := bind_eq_ok hrun
  exact h a u b t hrest

theorem fail (e : Failure) : Results P (Eval.fail e : Eval β) := nofun

theorem inspect_error (f : Engine → Failure) :
    Results P (Eval.inspect fun s => .error (f s) : Eval β) := nofun

theorem ite {p : Prop} [Decidable p] (hx : Results P x) (hy : Results P y) :
    Results P (if p then x else y) := by
  split
  · exact hx
  · exact hy

end Eval.Results

namespace Calls

section Statements

variable {c : Calls} {fuel : Nat} {node : Node} {s t : Engine} {flow : Flow}

open Eval.Results in
theorem executeImport_results (c : Calls) (node : Node) :
    Eval.Results (· = .normal) (c.executeImport node) := by
  unfold executeImport
  extract_lets request link
  have hlink : ∀ id, Eval.Results (· = .normal) (link id) := fun id =>
    bind fun _ => bind fun _ => bind fun _ => pure rfl
  refine bind fun importer => bind fun path => bind fun atRoot =>
    bind fun found => ?_
  split
  · exact bind hlink
  · exact .ite (bind hlink) (bind hlink)

open Eval.Results in
theorem executeReturn_results (c : Calls) (node : Node) :
    Eval.Results (· = .returned) (c.executeReturn node) := by
  unfold executeReturn
  split
  · exact pure rfl
  · refine bind fun value => bind fun slot => ?_
    split
    · exact bind fun _ => pure rfl
    · exact .ite (pure rfl) (inspect_error _)

open Eval.Results in
theorem executeBreak_results (node : Node) :
    Eval.Results (fun flow => ∃ n, flow = .broken n ∧ node.breakLevel? = some n)
      (executeBreak node) := by
  unfold executeBreak Node.breakLevel?
  split
  · exact pure ⟨1, rfl, rfl⟩
  · split
    · rename_i levels hlevels
      exact pure ⟨max levels 1, rfl, by rw [hlevels]; rfl⟩
    · exact fail _

def plain (kind : NodeKind) : Bool :=
  !([.block, .ifElse, .whileLoop, .forLoop, .returnStmt, .breakStmt,
    .continueStmt].contains kind)

open Eval.Results in
theorem executeKind_results (c : Calls) (h : plain node.kind = true) :
    Eval.Results (· = .normal) (c.executeKind node) := by
  have hoperand : Eval.Results (· = Flow.normal) (if node.kind.isOperand then do
        let _ ← c.evaluate node
        Pure.pure .normal
      else Eval.fail (Failure.unexpectedNode node.kind)) :=
    .ite (bind fun _ => pure rfl) (fail _)
  cases hkind : node.kind <;>
    rw [hkind] at h hoperand <;> simp only [executeKind, hkind]
  case importModule => exact executeImport_results c node
  case block | ifElse | whileLoop | forLoop | returnStmt | breakStmt |
      continueStmt => cases h
  case function | classDecl | unionDecl | enumDecl =>
    exact bind fun _ => bind fun _ => pure rfl
  case variableDefinition | expressionStatement => exact bind fun _ => pure rfl
  all_goals exact hoperand

/-! ### Pieces -/

theorem nodes_of_executeIf (h : c.executeIf node s = .ok flow t)
    (hflow : flow ≠ .normal) :
    ∃ cond accepted answer u, node.child? 0 = some cond ∧
      node.child? 1 = some accepted ∧
      c.condition cond s = .ok answer u ∧
      (answer = false → ∃ otherwise, node.child? 2 = some otherwise) := by
  obtain ⟨cond, hcond, hfirst⟩ := exists_required h
  obtain ⟨accepted, haccepted, hsecond⟩ := exists_required hfirst
  obtain ⟨answer, u, hanswer, hbranches⟩ := Eval.bind_eq_ok hsecond
  refine ⟨cond, accepted, answer, u, hcond, haccepted, hanswer, ?_⟩
  rintro rfl
  cases hchild : node.child? 2 with
  | some otherwise => exact ⟨otherwise, rfl⟩
  | none =>
      rw [hchild] at hbranches
      cases hbranches
      exact absurd rfl hflow

/-- Whenever the piece does not end normally, it has come to a jump. -/
def Piece.Jumping (fuel : Nat) (piece : Piece) : Prop :=
  ∀ (s t : Engine) (flow : Flow), (⟨fuel, piece, s⟩ : Point).run = .ok flow t →
    flow ≠ .normal → (⟨fuel, piece, s⟩ : Point).Jumped flow

theorem jumped_statement (ih : ∀ piece : Piece, piece.Jumping fuel)
    (hrun : (⟨fuel + 1, .statement node, s⟩ : Point).run = .ok flow t)
    (hflow : flow ≠ .normal) :
    (⟨fuel + 1, .statement node, s⟩ : Point).Jumped flow := by
  have hdone := executeKind_of_execute hrun
  have henter : ∀ {q : Point} {outer : List Layer},
      Enters ⟨fuel + 1, .statement node, s⟩ outer q →
      q.fuel = fuel →
      (∀ layer ∈ outer, ∃ fuel depth, layer = .frame fuel depth) →
        (⟨fuel + 1, .statement node, s⟩ : Point).Jumped flow := by
    rintro ⟨_, piece, start⟩ outer hpq rfl hframes
    exact .enter hpq hframes (fun f u => ih piece start u f) hrun hflow
  cases hkind : node.kind
  case block => exact henter (.block hkind) rfl nofun
  case ifElse =>
    simp only [executeKind, hkind] at hdone
    obtain ⟨cond, accepted, answer, u, hcond, haccepted, hanswer, hotherwise⟩ :=
      nodes_of_executeIf hdone hflow
    cases answer with
    | true => exact henter (.accepted hkind hcond haccepted hanswer) rfl nofun
    | false =>
        obtain ⟨otherwise, hchild⟩ := hotherwise rfl
        exact henter (.otherwise hkind hcond hchild hanswer) rfl nofun
  case whileLoop =>
    simp only [executeKind, hkind] at hdone
    obtain ⟨cond, hcond, hfirst⟩ := exists_required hdone
    obtain ⟨body, hbody, -⟩ := exists_required hfirst
    exact henter (.whileLoop hkind hcond hbody) rfl nofun
  case forLoop =>
    simp only [executeKind, hkind] at hdone
    obtain ⟨init, hinit, hfirst⟩ := exists_required hdone
    obtain ⟨cond, hcond, hsecond⟩ := exists_required hfirst
    obtain ⟨step, hstep, hthird⟩ := exists_required hsecond
    obtain ⟨body, hbody, hlast⟩ := exists_required hthird
    obtain ⟨u, hinner, -⟩ := withFrame_eq_ok (c := ofFuel fuel) hlast
    obtain ⟨started, v, hstart, -⟩ := Eval.bind_eq_ok hinner
    refine henter (.forLoop hkind hinit hcond hstep hbody hstart) rfl
      fun layer hlayer => ?_
    exact ⟨fuel, _, List.mem_singleton.1 hlayer⟩
  case returnStmt =>
    simp only [executeKind, hkind] at hdone
    obtain rfl := executeReturn_results _ _ _ _ _ hdone
    exact .of_jump hkind hrun
  case breakStmt =>
    simp only [executeKind, hkind] at hdone
    obtain ⟨n, rfl, hlevel⟩ := executeBreak_results _ _ _ _ hdone
    exact .of_jump ⟨hkind, hlevel⟩ hrun
  case continueStmt =>
    simp only [executeKind, hkind] at hdone
    cases hdone
    exact .of_jump hkind hrun
  all_goals
    exact absurd (executeKind_results _ (by rw [hkind]; rfl) _ _ _ hdone) hflow

theorem jumping_sequence
    (hstatement : ∀ node, (Piece.statement node).Jumping fuel)
    (nodes : List Node) : (Piece.sequence nodes).Jumping fuel := by
  intro s t flow hrun hflow
  induction nodes generalizing s with
  | nil =>
      cases hrun
      exact absurd rfl hflow
  | cons node nodes ih =>
      have hall : (ofFuel fuel).executeAll (node :: nodes) s =
          .ok flow t := hrun
      obtain ⟨f, u, hnode, hrest⟩ := Eval.bind_eq_ok hall
      by_cases hnormal : f = .normal
      · subst hnormal
        exact .inside (.later hnode) (ih u hrest) rfl
      · have hsame : f = flow := by
          cases f with
          | normal => exact absurd rfl hnormal
          | _ =>
              cases hrest
              rfl
        exact .inside .first (hsame ▸ hstatement node s u f hnode hnormal) rfl

theorem jumping_branch
    (hstatement : ∀ node, (Piece.statement node).Jumping fuel) (node : Node) :
    (Piece.branch node).Jumping fuel := by
  intro s t flow hrun hflow
  by_cases hkind : node.kind = .block
  · refine .enter (.branchBlock hkind) (fun layer hlayer => ?_)
      (fun f u => jumping_sequence hstatement _ _ u f) hrun hflow
    exact ⟨fuel, _, List.mem_singleton.1 hlayer⟩
  · exact .enter (.branch hkind) nofun (fun f u => hstatement node s u f)
      hrun hflow

theorem jumping_loop (hbranch : ∀ node, (Piece.branch node).Jumping fuel)
    (l : Loop) (rounds : Nat) : (Piece.loop l rounds).Jumping fuel := by
  intro s t flow hrun hflow
  induction rounds generalizing s with
  | zero => cases hrun
  | succ rounds ih =>
      have hloop : l.rounds fuel (rounds + 1) s = .ok flow t := hrun
      obtain ⟨exit, u, hround, hrest⟩ := Eval.bind_eq_ok hloop
      cases exit with
      | none => exact .inside (.nextRound hround) (ih u hrest) rfl
      | some final =>
          cases hrest
          obtain ⟨w, hinner, -⟩ := withFrame_eq_ok hround
          obtain ⟨answer, v, hanswer, hchosen⟩ := Eval.bind_eq_ok hinner
          cases answer with
          | false =>
              cases hchosen
              exact absurd rfl hflow
          | true =>
              obtain ⟨f, x, w, hbody, hexit, -, -⟩ :=
                iteration_eq_ok hanswer hround
              have hjumped : f ≠ .normal := by
                rintro rfl
                cases hexit
              exact .round (.body hanswer) (hbranch l.body v x f hbody hjumped)
                hexit.symm hflow

theorem jumping (fuel : Nat) (piece : Piece) : piece.Jumping fuel := by
  have hpieces : ∀ fuel, (∀ node, (Piece.statement node).Jumping fuel) →
      ∀ piece : Piece, piece.Jumping fuel := by
    intro fuel hstatement piece
    have hbranch := jumping_branch hstatement
    cases piece with
    | statement node => exact hstatement node
    | branch node => exact hbranch node
    | sequence nodes => exact jumping_sequence hstatement nodes
    | loop l rounds => exact jumping_loop hbranch l rounds
  induction fuel generalizing piece with
  | zero => exact hpieces 0 (fun _ _ _ _ hrun => by cases hrun) piece
  | succ fuel ih => exact hpieces _ (fun _ _ _ _ => jumped_statement ih) piece

end Statements

/-! ## Where jumps lead -/

variable {layers : List Layer} {f flow : Flow} {u t : Engine}

/-- What happens after a piece in the given layers has ended with the first
flow, up to the end of the whole. -/
def Lands (layers : List Layer) : Flow → Engine → Flow → Engine → Prop
  | .normal, u, flow, t => resume layers .normal u = .ok flow t
  | .returned, u, flow, t => flow = .returned ∧ leave layers u = .ok () t
  | .continued, u, flow, t =>
      (loops layers = 0 ∧ flow = .continued ∧ leave layers u = .ok () t) ∨
        ∃ inner fuel depth l rounds outer v w g,
          Splits layers 1 inner fuel depth l rounds outer ∧
          leave inner u = .ok () v ∧
            Layer.nextRound fuel depth l rounds v = .ok g w ∧
            resume outer g w = .ok flow t
  | .broken n, u, flow, t =>
      (loops layers < n ∧ flow = .broken (n - loops layers) ∧
        leave layers u = .ok () t) ∨
        ∃ inner fuel depth l rounds outer v,
          Splits layers n inner fuel depth l rounds outer ∧
            leave (inner ++ [.round fuel depth l rounds]) u = .ok () v ∧
              resume outer .normal v = .ok flow t

theorem lands_of_resume (hlevel : ∀ n, f = .broken n → 1 ≤ n)
    (h : resume layers f u = .ok flow t) : Lands layers f u flow t := by
  cases f with
  | normal => exact h
  | returned =>
      rw [resume_returned] at h
      obtain ⟨_, v, hleave, hpure⟩ := Eval.bind_eq_ok h
      cases hpure
      exact ⟨rfl, hleave⟩
  | continued =>
      rcases Nat.eq_zero_or_pos (loops layers) with hnone | hsome
      · rw [resume_continued_of_no_loop hnone] at h
        obtain ⟨_, v, hleave, hpure⟩ := Eval.bind_eq_ok h
        cases hpure
        exact .inl ⟨hnone, rfl, hleave⟩
      · obtain ⟨inner, fuel, depth, l, rounds, outer, hsplits⟩ :=
          exists_splits (Nat.le_refl 1) hsome
        rw [resume_continued hsplits] at h
        obtain ⟨_, v, hleave, hnext⟩ := Eval.bind_eq_ok h
        obtain ⟨g, w, hround, houter⟩ := Eval.bind_eq_ok hnext
        exact .inr ⟨inner, fuel, depth, l, rounds, outer, v, w, g, hsplits,
          hleave, hround, houter⟩
  | broken n =>
      rcases Nat.lt_or_ge (loops layers) n with hmany | hfew
      · rw [resume_broken_of_lt hmany] at h
        obtain ⟨_, v, hleave, hpure⟩ := Eval.bind_eq_ok h
        cases hpure
        exact .inl ⟨hmany, rfl, hleave⟩
      · obtain ⟨inner, fuel, depth, l, rounds, outer, hsplits⟩ :=
          exists_splits (hlevel n rfl) hfew
        rw [resume_broken hsplits] at h
        obtain ⟨_, v, hleave, houter⟩ := Eval.bind_eq_ok h
        exact .inr ⟨inner, fuel, depth, l, rounds, outer, v, hsplits,
          hleave, houter⟩

/-- When the body of a `for` has ended normally or with a `continue`, the step
is run in the frame of the iteration, and the loop goes round again; otherwise
the loop ends without the step. -/
def Steps (fuel depth : Nat) (l : Loop) (rounds : Nat) (outer : List Layer)
    (step : Node) :
    Flow → Engine → Flow → Engine → Prop
  | .normal, u, flow, t | .continued, u, flow, t =>
      ∃ value v w g x, (ofFuel fuel).evaluate step u = .ok value v ∧
        (ofFuel fuel).popFramesTo depth v = .ok () w ∧
        l.rounds fuel rounds w = .ok g x ∧
          resume outer g x = .ok flow t
  | .returned, u, flow, t =>
      ∃ v, (ofFuel fuel).popFramesTo depth u = .ok () v ∧
        resume outer .returned v = .ok flow t
  | .broken n, u, flow, t =>
      ∃ v, (ofFuel fuel).popFramesTo depth u = .ok () v ∧
        resume outer (if n ≤ 1 then .normal else .broken (n - 1)) v = .ok flow t

structure Controlled (fuel : Nat) (node : Node) (s : Engine) (flow : Flow)
    (t : Engine) : Prop where
  broken : ∀ m, flow = .broken m → 1 ≤ m ∧ node.UnmatchedBreak m
  continued : flow = .continued → node.UnmatchedContinue
  returned : flow = .returned → ∃ layers q jump u,
    Reaches ⟨fuel, .statement node, s⟩ layers q ∧
    q.piece = .statement jump ∧ node.Encloses (loops layers) jump ∧
    jump.kind = .returnStmt ∧
      q.run = .ok .returned u
  /-- Whatever the statement comes to ends, and what happens next depends on how
  it ends. -/
  lands : ∀ layers q, Reaches ⟨fuel, .statement node, s⟩ layers q →
    ∃ f u, q.run = .ok f u ∧ Lands layers f u flow t
  steps : ∀ fuel' depth l rounds outer q step f u,
    Reaches ⟨fuel, .statement node, s⟩
      (.round fuel' depth l rounds :: outer) q →
      l.step = some step → q.run = .ok f u →
      Steps fuel' depth l rounds outer step f u flow t

theorem nextRound_eq_ok {fuel depth rounds : Nat} {l : Loop} {step : Node}
    (hstep : l.step = some step)
    (h : Layer.nextRound fuel depth l rounds u = .ok flow t) :
    ∃ value v w, (ofFuel fuel).evaluate step u = .ok value v ∧
      (ofFuel fuel).popFramesTo depth v = .ok () w ∧
      l.rounds fuel rounds w = .ok flow t := by
  unfold Layer.nextRound at h
  rw [hstep] at h
  obtain ⟨value, v, hvalue, hrest⟩ := Eval.bind_eq_ok h
  obtain ⟨_, w, hpop, hrounds⟩ := Eval.bind_eq_ok hrest
  exact ⟨value, v, w, hvalue, hpop, hrounds⟩

section Reached

variable {fuel : Nat} {node : Node} {s : Engine}

theorem Point.Jumped.of_run {p : Point} (h : p.run = .ok flow t)
    (hflow : flow ≠ .normal) : p.Jumped flow :=
  jumping p.fuel p.piece p.engine t flow h hflow

theorem Reaches.encloses_statement {q : Point} {jump : Node}
    (h : Reaches ⟨fuel, .statement node, s⟩ layers q)
    (hpiece : q.piece = .statement jump) :
    node.Encloses (loops layers) jump := by
  have hself : q.piece.Encloses 0 jump := by
    rw [hpiece]
    exact .self jump
  have hwhole := h.encloses hself
  rwa [Nat.zero_add] at hwhole

theorem Point.Jumped.unmatchedBreak {m : Nat}
    (h : (⟨fuel, .statement node, s⟩ : Point).Jumped (.broken m)) :
    1 ≤ m ∧ node.UnmatchedBreak m := by
  obtain ⟨layers, q, jump, f, u, hreach, hpiece, -, hjump, hescapes⟩ := h
  have hencloses := hreach.encloses_statement hpiece
  generalize loops layers = k at hescapes hencloses
  cases hescapes with
  | @broken n _ hlt =>
      exact ⟨by omega, k, jump, n, hencloses, hjump.1, hjump.2, hlt, rfl⟩

theorem Point.Jumped.unmatchedContinue
    (h : (⟨fuel, .statement node, s⟩ : Point).Jumped .continued) :
    node.UnmatchedContinue := by
  obtain ⟨layers, q, jump, f, u, hreach, hpiece, -, hjump, hescapes⟩ := h
  have hencloses := hreach.encloses_statement hpiece
  generalize loops layers = k at hescapes hencloses
  cases hescapes with
  | continued => exact ⟨jump, hencloses, hjump⟩

theorem Point.Jumped.one_le {p : Point} {n : Nat} (h : p.Jumped (.broken n)) :
    1 ≤ n := by
  obtain ⟨layers, q, jump, f, u, -, -, -, -, hescapes⟩ := h
  generalize loops layers = k at hescapes
  cases hescapes with
  | broken hlt => omega

theorem Reaches.lands {p q : Point} (h : Reaches p layers q)
    (hrun : p.run = .ok flow t) :
    ∃ f u, q.run = .ok f u ∧ Lands layers f u flow t := by
  obtain ⟨f, u, hended, hresume⟩ := h.finishes hrun
  refine ⟨f, u, hended, lands_of_resume ?_ hresume⟩
  rintro n rfl
  exact (Point.Jumped.of_run hended nofun).one_le

theorem Reaches.steps {p q : Point} {fuel depth rounds : Nat} {l : Loop}
    {outer : List Layer} {step : Node}
    (h : Reaches p (.round fuel depth l rounds :: outer) q)
    (hrun : p.run = .ok flow t) (hstep : l.step = some step)
    (hended : q.run = .ok f u) :
    Steps fuel depth l rounds outer step f u flow t := by
  obtain ⟨f', u', hended', hresume⟩ := h.finishes hrun
  obtain ⟨rfl, rfl⟩ := EStateM.Result.ok.inj (hended.symm.trans hended')
  obtain ⟨g, x, hlayer, houter⟩ := Eval.bind_eq_ok hresume
  cases f with
  | normal =>
      obtain ⟨value, v, w, hvalue, hpop, hrounds⟩ :=
        nextRound_eq_ok hstep hlayer
      exact ⟨value, v, w, g, x, hvalue, hpop, hrounds, houter⟩
  | continued =>
      obtain ⟨value, v, w, hvalue, hpop, hrounds⟩ :=
        nextRound_eq_ok hstep hlayer
      exact ⟨value, v, w, g, x, hvalue, hpop, hrounds, houter⟩
  | returned =>
      obtain ⟨_, v, hpop, hpure⟩ := Eval.bind_eq_ok hlayer
      cases hpure
      exact ⟨x, hpop, houter⟩
  | broken n =>
      obtain ⟨_, v, hpop, hpure⟩ := Eval.bind_eq_ok hlayer
      cases hpure
      exact ⟨x, hpop, houter⟩

/-- A jump reaches exactly its target: a statement ends with a jump only if the
jump leaves it, and inside it a `break` ends the loops it says, a `continue`
ends one iteration, and a `for` runs its step between two iterations. -/
theorem jumps_reach_targets (h : (ofFuel fuel).execute node s = .ok flow t) :
    Controlled fuel node s flow t := by
  have hrun : (⟨fuel, .statement node, s⟩ : Point).run = .ok flow t := h
  refine ⟨?_, ?_, ?_, fun layers q hreach => hreach.lands hrun, ?_⟩
  · rintro m rfl
    exact (Point.Jumped.of_run hrun nofun).unmatchedBreak
  · rintro rfl
    exact (Point.Jumped.of_run hrun nofun).unmatchedContinue
  · rintro rfl
    obtain ⟨layers, q, jump, f, u, hreach, hpiece, hended, hjump, hescapes⟩ :=
      Point.Jumped.of_run hrun nofun
    generalize loops layers = k at hescapes
    cases hescapes
    exact ⟨layers, q, jump, u, hreach, hpiece, hreach.encloses_statement hpiece,
      hjump, hended⟩
  · exact fun _ _ _ _ _ _ _ _ _ hreach hstep hended =>
      hreach.steps hrun hstep hended

end Reached

namespace Escaping

def truth : Node := ⟨.boolLiteral, "true", .dummy, 0, []⟩

/-- `while (true) { while (true) break 3; }`. -/
def statement : Node :=
  ⟨.whileLoop, "", .dummy, 0,
    [truth, ⟨.block, "", .dummy, 0,
      [⟨.whileLoop, "", .dummy, 0,
        [truth, ⟨.breakStmt, "3", .dummy, 0, []⟩]⟩]⟩]⟩

def engine : Engine := .new {} ⟨.silent, ""⟩ none []

end Escaping

open Escaping in
/-- Two loops end, and a third one that is not there would. -/
theorem jumps_reach_targets_escaping :
    (ofFuel 20).execute statement engine =
        .ok (.broken 1) (((ofFuel 20).execute statement).after engine) ∧
      statement.UnmatchedBreak 1 ∧
      Controlled 20 statement engine (.broken 1)
        (((ofFuel 20).execute statement).after engine) := by
  have hrun : (ofFuel 20).execute statement engine =
      .ok (.broken 1) (((ofFuel 20).execute statement).after engine) :=
    Eval.eq_ok_of_value? (by decide +kernel)
  have hcontrolled := jumps_reach_targets hrun
  exact ⟨hrun, (hcontrolled.broken 1 rfl).2, hcontrolled⟩

end Calls

end ArenaScript
