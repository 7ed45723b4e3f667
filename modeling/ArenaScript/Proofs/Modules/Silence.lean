import ArenaScript.Proofs.Evaluation.Advance
import ArenaScript.Proofs.Syntax.Preorder

/-!
# Code that enters no module

Modules are entered at root frames only.  Expressions reach other code through
calls, which run in frames of their own, so no expression enters a module, and
neither does a block or a loop.  What is left are imports that stand at a root
frame, on their own or as branches of conditionals.  If everything such a
statement may import has been entered before, it enters no module either.
-/

namespace ArenaScript

namespace Engine

/-- An evaluation that enters no module. -/
structure Silent (s t : Engine) : Prop extends Advances s t where
  entered : t.entered = s.entered

/-- The scopes of the live module frames, innermost first. -/
def moduleScopes (s : Engine) : List ScopeId :=
  (s.arena.frames.filter (·.kind == .moduleFrame)).map Frame.scope

theorem Kept.moduleScopes {s t : Engine} (h : s.Kept t) :
    t.moduleScopes = s.moduleScopes := by
  have hframes := h.arena.frames
  unfold Engine.moduleScopes
  generalize s.arena.frames = fs at *
  generalize t.arena.frames = gs at *
  cases hframes with
  | empty => rfl
  | top rest hf => simp [List.filter_cons, hf.kind, apply_ite, hf.scope]

namespace Silent

variable {s t u : Engine}

theorem of_advances (h : s.Advances t) (hentered : t.entered = s.entered) :
    s.Silent t :=
  { h with entered := hentered }

theorem trans (hst : s.Silent t) (htu : t.Silent u) : s.Silent u :=
  of_advances (hst.toAdvances.trans htu.toAdvances)
    (htu.entered.trans hst.entered)

theorem composable : Eval.Composable Silent where
  refl s := of_advances (Advances.composable.refl s) rfl
  trans := trans

theorem kept (h : s.Silent t) : s.Kept t := h.disciplined.kept h.entered

theorem moduleScopes (h : s.Silent t) : t.moduleScopes = s.moduleScopes :=
  h.kept.moduleScopes

theorem entries (h : s.Silent t) : t.entries = s.entries := by
  have hlength : s.entries.length = t.entries.length := h.entered.symm
  exact (h.grown.entries.eq_of_length hlength).symm

theorem modules (h : s.Silent t) : t.modules = s.modules := by
  have hmodules : t.modules.modules = s.modules.modules :=
    Array.toList_inj.1 h.entries
  cases hs : s.modules
  cases ht : t.modules
  rw [hs, ht] at hmodules
  exact congrArg ModuleTable.mk hmodules

theorem of_tree {id : TreeId}
    (h : ({ s with currentTree := id } : Engine).Silent t) :
    s.Silent { t with currentTree := s.currentTree } := by
  have hkept := h.kept
  have hkept' : s.Kept { t with currentTree := s.currentTree } :=
    ⟨hkept.arena, hkept.callDepth, rfl⟩
  exact of_advances (.of_kept { h.grown with } hkept' h.entered) h.entered

theorem withFrame {α : Type} {x : Eval α} {c : Calls} (scope : ScopeId)
    {kind : FrameKind} (call : Option CallRecord) (hkind : kind.isRoot = false)
    (hdestroy : ∀ v, Eval.Within Advances (c.destroy v))
    (hx : Eval.Within Advances x) :
    Eval.Within Silent (c.withFrame scope kind call x) := by
  intro s
  refine of_advances (Advances.withFrame scope call hkind hdestroy hx s) ?_
  exact (Calls.withFrame_restored scope call hkind
    (fun v s => (hdestroy v s).disciplined) (hx _).disciplined).entered

theorem isLocal : Eval.Local Silent where
  toComposable := composable
  move h := of_advances (Advances.stable.move h) h.entered
  root h := h.disciplined.atRoot
  tree id hx s := by
    rw [Eval.after_withTree]
    exact (hx { s with currentTree := id }).of_tree
  call hx s := by
    refine of_advances (Advances.deeper (fun s => (hx s).toAdvances) s) ?_
    rw [Calls.after_deeper]
    exact (hx { s with callDepth := s.callDepth + 1 }).entered
  frame scope _ call hkind hdestroy hx :=
    withFrame scope call hkind (fun v s => (hdestroy v s).toAdvances) fun s =>
      (hx s).toAdvances

end Silent

end Engine

open Engine (Advances Silent)

/-! ## Expressions, blocks and loops -/

structure Calls.Discreet (c : Calls) : Prop where
  advances : c.Within Advances
  plain : c.Plain Silent

namespace Calls.Discreet

variable {c : Calls}

theorem paired (hc : c.Discreet) : c.Paired (.within Silent.isLocal) c :=
  hc.plain.paired Silent.isLocal

theorem invokeInterpreted (hc : c.Discreet) (id : FunctionId) (f : Function)
    (tree : TreeId) (node : Node) (scope : ScopeId) (args : List Value) :
    Eval.Within Silent (c.invokeInterpreted id f tree node scope args) := by
  have hR := Silent.isLocal
  unfold Calls.invokeInterpreted
  refine hR.bind (hR.inspect _) fun _ => ?_
  refine hR.bind ((Eval.Atomic.allocateResult f.ret).within hR)
    fun returnSlot => ?_
  refine hR.bind (hR.call (hR.tree tree ?_)) fun _ => hR.pure returnSlot
  exact Silent.withFrame scope _ rfl hc.advances.destroy
    (hc.advances.runBody Advances.stable.toLocal node f.fixedParams args)

theorem invokeStep (hc : c.Discreet) (id : FunctionId) (args : List Value) :
    Eval.Within Silent (c.invokeStep id args) := by
  have hR := Silent.isLocal
  unfold Calls.invokeStep
  refine hR.bind (hR.read _) fun f => ?_
  split
  · exact hR.inspect _
  · split
    · refine hR.bind (hR.inspect _) fun adapted => ?_
      exact .of_related fun _ => hc.paired.runNative _ adapted
    · exact hc.invokeInterpreted id f _ _ _ args

theorem ofFuel (fuel : Nat) : (Calls.ofFuel fuel).Discreet := by
  have hR := Silent.isLocal
  refine ⟨.ofFuel Advances.stable fuel, ?_⟩
  induction fuel with
  | zero => exact (Within.exhausted hR).toPlain
  | succ fuel ih =>
      have hc : (Calls.ofFuel fuel).Discreet :=
        ⟨.ofFuel Advances.stable fuel, ih⟩
      rw [ofFuel_succ]
      exact (hc.paired.above hc.invokeStep _ _ fuel fuel).plain

theorem executeBlock (hc : c.Discreet) (node : Node) :
    Eval.Within Silent (c.executeBlock node) := by
  have hR := Silent.isLocal
  unfold Calls.executeBlock
  refine hR.bind (hR.read _) fun outer => ?_
  refine hR.bind (hR.scopeFor node _ outer) fun scope => ?_
  exact Silent.withFrame scope none rfl hc.advances.destroy
    (hc.advances.executeAll Advances.stable.toLocal node.children)

theorem iteration (hc : c.Discreet) (scope : ScopeId) (cond body : Node)
    (step : Option Node) :
    Eval.Within Silent (c.iteration scope cond body step) :=
  Silent.withFrame scope none rfl hc.advances.destroy
    (hc.advances.iterationBody Advances.stable.toLocal cond body step)

theorem executeWhile (hc : c.Discreet) (node : Node) :
    Eval.Within Silent (c.executeWhile node) := by
  have hR := Silent.isLocal
  unfold Calls.executeWhile
  refine hR.bind (Plain.required hR node 0) fun cond => ?_
  refine hR.bind (Plain.required hR node 1) fun body => ?_
  refine hR.bind (hR.read _) fun outer => ?_
  refine hR.bind (hR.scopeFor node _ outer) fun scope => ?_
  exact Plain.repeatUntil hR (hc.iteration scope cond body none) c.rounds

theorem executeFor (hc : c.Discreet) (node : Node) :
    Eval.Within Silent (c.executeFor node) := by
  have hR := Silent.isLocal
  have hA := Advances.stable.toLocal
  unfold Calls.executeFor
  refine hR.bind (Plain.required hR node 0) fun init => ?_
  refine hR.bind (Plain.required hR node 1) fun cond => ?_
  refine hR.bind (Plain.required hR node 2) fun step => ?_
  refine hR.bind (Plain.required hR node 3) fun body => ?_
  refine hR.bind (hR.read _) fun outer => ?_
  refine hR.bind (hR.scopeFor node _ outer) fun scope => ?_
  refine Silent.withFrame scope none rfl hc.advances.destroy ?_
  refine hA.bind (hc.advances.execute init) fun _ => ?_
  exact Plain.repeatUntil hA
    (hc.advances.iteration hA scope cond body (some step)) c.rounds

theorem executeKind (hc : c.Discreet) {node : Node}
    (himport : node.kind ≠ .importModule) (hif : node.kind ≠ .ifElse) :
    Eval.Within Silent (c.executeKind node) := by
  have hR := Silent.isLocal
  have hdeclare : Eval.Within Silent (do
      c.declare node (← Eval.currentScope)
      pure Flow.normal) :=
    hR.bind (hR.read _) fun scope =>
      hR.bind (.of_related fun _ => hc.paired.declare trivial trivial) fun _ =>
        hR.pure _
  unfold Calls.executeKind
  split
  · exact hdeclare
  · exact hdeclare
  · exact hdeclare
  · exact hdeclare
  · contradiction
  · exact hR.bind (.of_related fun _ => hc.paired.executeDefinition node)
      fun _ => hR.pure _
  · exact hc.executeBlock node
  · contradiction
  · exact hc.executeWhile node
  · exact hc.executeFor node
  · exact .of_related fun _ => hc.paired.executeReturn node
  · exact .of_related fun _ => Paired.executeBreak (.within hR) node
  · exact hR.pure _
  · refine hR.bind (hR.forM (fun child => ?_) _) fun _ => hR.pure _
    exact hR.bind (hc.plain.evaluate child) fun _ => hR.pure ()
  · split
    · exact hR.bind (hc.plain.evaluate node) fun _ => hR.pure _
    · exact hR.fail _

end Calls.Discreet

/-! ## Statements at a root frame -/

namespace Eval

variable {α β : Type} {Q : Engine → Bool → Engine → Prop} {s : Engine}

def Ends (Q : Engine → Bool → Engine → Prop) (x : Eval α) (s : Engine) : Prop :=
  match x s with
  | .ok _ t => Q s true t
  | .error _ t => Q s false t

structure Graded (Q : Engine → Bool → Engine → Prop) : Prop where
  silent : ∀ {s t : Engine} (b : Bool), s.Silent t → Q s b t
  trans : ∀ {s t u : Engine} {b : Bool}, Q s true t → Q t b u → Q s b u

theorem ends_const {R : Engine → Engine → Prop} {x : Eval α} :
    Ends (fun s _ t => R s t) x s ↔ R s (x.after s) := by
  unfold Ends after
  cases x s <;> rfl

theorem Ends.of_silent (hQ : Graded Q) {x : Eval α} (h : s.Silent (x.after s)) :
    Ends Q x s := by
  unfold Ends after at *
  cases hrun : x s with
  | ok a t => exact hQ.silent true (by simpa only [hrun] using h)
  | error e t => exact hQ.silent false (by simpa only [hrun] using h)

theorem Ends.bind (hQ : Graded Q) {x : Eval α} {f : α → Eval β}
    (hx : Ends Q x s) (hf : ∀ a t, x s = .ok a t → Ends Q (f a) t) :
    Ends Q (x >>= f) s := by
  unfold Ends at hx hf ⊢
  simp only [Bind.bind, EStateM.bind]
  cases hrun : x s with
  | error e t => simpa only [hrun] using hx
  | ok a t =>
      rw [hrun] at hx
      have hrest := hf a t hrun
      simp only
      split at hrest
      · rename_i hfa
        simpa only [hfa] using hQ.trans hx hrest
      · rename_i hfa
        simpa only [hfa] using hQ.trans hx hrest

theorem Ends.bind_silent (hQ : Graded Q) {x : Eval α} {f : α → Eval β}
    (hx : Within Silent x) (hf : ∀ a t, s.Silent t → Ends Q (f a) t) :
    Ends Q (x >>= f) s := by
  refine .bind hQ (.of_silent hQ (hx s)) fun a t hrun => hf a t ?_
  have hsilent := hx s
  rwa [after_ok hrun] at hsilent

theorem Ends.map {x : Eval α} (f : α → β) (hx : Ends Q x s) :
    Ends Q (f <$> x) s := by
  unfold Ends at *
  simp only [Functor.map, EStateM.map]
  cases hrun : x s <;> simpa only [hrun] using hx

theorem Ends.mapFailure {x : Eval α} (f : Engine → Failure → Failure)
    (hx : Ends Q x s) : Ends Q (Eval.mapFailure f x) s := by
  unfold Ends Eval.mapFailure at *
  cases hrun : x s with
  | ok a t => simpa only [hrun] using hx
  | error e t => cases e <;> simpa only [hrun] using hx

end Eval

open Eval (Ends Graded)

namespace Calls.Discreet

variable {c : Calls} {Q : Engine → Bool → Engine → Prop} {s : Engine}

theorem required_ok {node child : Node} {index : Nat} {t : Engine}
    (h : ArenaScript.required node index s = .ok child t) :
    child ∈ node.children ∧ t = s := by
  unfold ArenaScript.required at h
  cases hchild : node.child? index with
  | none =>
      rw [hchild] at h
      cases h
  | some found =>
      rw [hchild] at h
      cases h
      exact ⟨List.mem_of_getElem? hchild, rfl⟩

theorem executeIf_ends (hQ : Graded Q) (hc : c.Discreet) {node : Node}
    (hbranch : ∀ child ∈ node.children, ∀ t, s.Silent t →
      Ends Q (c.execute child) t) : Ends Q (c.executeIf node) s := by
  have hR := Silent.isLocal
  have hexecute : ∀ child ∈ node.children, ∀ t, s.Silent t →
      Ends Q (c.executeBranch child) t := by
    intro child hchild t ht
    unfold Calls.executeBranch
    split
    · exact .of_silent hQ (hc.executeBlock child t)
    · exact hbranch child hchild t ht
  unfold Calls.executeIf
  refine .bind hQ (.of_silent hQ (Plain.required hR node 0 s))
    fun cond t hcond => ?_
  obtain ⟨-, rfl⟩ := required_ok hcond
  refine .bind hQ (.of_silent hQ (Plain.required hR node 1 t))
    fun accepted u hrun => ?_
  obtain ⟨haccepted, rfl⟩ := required_ok hrun
  have hcondition : Eval.Within Silent (c.condition cond) :=
    .of_related fun _ => hc.paired.condition cond
  refine .bind_silent hQ hcondition fun holds v hv => ?_
  split
  · exact hexecute accepted haccepted v hv
  · split
    · rename_i otherwise hotherwise
      exact hexecute otherwise (List.mem_of_getElem? hotherwise) v hv
    · exact .of_silent hQ (hR.refl v)

theorem executeImport_ends (hQ : Graded Q) {node : Node}
    (hload : ∀ path, s.findModulePath node.text s.currentModulePath? =
      .ok path →
      s.modules.find? path = none → s.atRoot = true →
        Ends Q (c.loadModule node.text s.currentModulePath?) s) :
    Ends Q (c.executeImport node) s := by
  have hR := Silent.isLocal
  unfold Calls.executeImport
  extract_lets request link
  have hlink : ∀ id t, Ends Q (link id) t := by
    intro id t
    refine .of_silent hQ (hR.bind (hR.read _) (fun scope => ?_) t)
    refine hR.bind (hR.read _) fun current => ?_
    exact hR.bind (hR.modify fun _ => .addImport current scope) fun _ =>
      hR.pure _
  refine .bind hQ (.of_silent hQ (hR.read _ s)) fun importer t himporter => ?_
  cases himporter
  refine .bind hQ (.of_silent hQ (hR.inspect _ s)) fun path t hpath => ?_
  obtain ⟨hpath, rfl⟩ : s.findModulePath node.text s.currentModulePath? =
    .ok path ∧ t = s := by
    unfold Eval.inspect at hpath
    split at hpath
    · rename_i hfound
      cases hpath
      exact ⟨hfound, rfl⟩
    · cases hpath
  refine .bind hQ (.of_silent hQ (hR.read _ t)) fun atRoot u hroot => ?_
  cases hroot
  refine .bind hQ (.of_silent hQ (hR.read _ t)) fun found u hfound => ?_
  cases hfound
  split
  · exact .bind hQ (.of_silent hQ (hR.refl t)) fun id u _ => hlink id u
  · rename_i hnone
    split
    · rename_i hroot
      exact .bind hQ (hload path hpath hnone hroot) fun id u _ => hlink id u
    · exact .bind hQ (.of_silent hQ (hR.refl t)) fun id u _ => hlink id u

theorem executeStep_ends (hQ : Graded Q) (hc : c.Discreet) {node : Node}
    (hbranch : ∀ child ∈ node.children, ∀ t, s.Silent t →
      Ends Q (c.execute child) t)
    (hload : node.kind = .importModule → ∀ t, s.Silent t → ∀ path,
      t.findModulePath node.text t.currentModulePath? = .ok path →
      t.modules.find? path = none →
        t.atRoot = true →
          Ends Q (c.loadModule node.text t.currentModulePath?) t) :
    Ends Q (c.executeStep node) s := by
  have hR := Silent.isLocal
  have hkind : ∀ t, s.Silent t → Ends Q (c.executeKind node) t := by
    intro t ht
    by_cases himport : node.kind = .importModule
    · simp only [Calls.executeKind, himport]
      exact executeImport_ends hQ (hload himport t ht)
    · by_cases hif : node.kind = .ifElse
      · simp only [Calls.executeKind, hif]
        exact executeIf_ends hQ hc fun child hchild u hu =>
          hbranch child hchild u (ht.trans hu)
      · exact .of_silent hQ (hc.executeKind himport hif t)
  unfold Calls.executeStep
  split
  · have hpos :
        Eval.Within Silent (modify fun s => { s with lastPos := node.pos }) :=
      hR.modify fun _ => .setPos node.pos
    exact .bind_silent hQ hpos fun _ t ht => .mapFailure _ (hkind t ht)
  · exact .mapFailure _ (hkind s (hR.refl s))

end Calls.Discreet

/-! ## Statements whose imports have been entered -/

namespace Engine

variable {s t : Engine}

def Settled (s : Engine) (node : Node) : Prop :=
  ∀ n ∈ node :: node.descendants, n.kind = .importModule → ∀ path,
    s.findModulePath n.text s.currentModulePath? = .ok path →
    s.modules.find? path ≠ none

theorem Settled.child {node child : Node} (h : s.Settled node)
    (hchild : child ∈ node.children) : s.Settled child :=
  fun n hn =>
    h n (List.mem_cons_of_mem node (Node.mem_descendants_of_child hchild hn))

theorem Extends.findModulePath (h : s.Extends t) (request : String)
    (importer : Option String) :
    t.findModulePath request importer = s.findModulePath request importer := by
  unfold Engine.findModulePath
  rw [h.source, h.searchPaths]

theorem Silent.currentModulePath (h : s.Silent t) :
    t.currentModulePath? = s.currentModulePath? := by
  unfold currentModulePath?
  rw [h.modules, h.currentTree]

theorem Settled.silent {node : Node} (h : s.Settled node) (hst : s.Silent t) :
    t.Settled node := by
  intro n hn himport path hpath
  rw [hst.currentModulePath, hst.grown.findModulePath] at hpath
  rw [hst.modules]
  exact h n hn himport path hpath

theorem Silent.graded : Graded fun s _ t => s.Silent t where
  silent _ h := h
  trans := trans

end Engine

namespace Calls

theorem execute_silent (fuel : Nat) {node : Node} {s : Engine}
    (hs : s.Settled node) :
    s.Silent (((Calls.ofFuel fuel).execute node).after s) := by
  induction fuel generalizing node s with
  | zero => exact Silent.composable.refl s
  | succ fuel ih =>
      refine Eval.ends_const.1
        (Discreet.executeStep_ends Silent.graded (.ofFuel fuel) ?_ ?_)
      · intro child hchild t ht
        exact Eval.ends_const.2 (ih ((hs.child hchild).silent ht))
      · intro himport t ht path hpath hnone
        exact absurd hnone
          (hs.silent ht node List.mem_cons_self himport path hpath)

theorem executeAll_silent (fuel : Nat) {nodes : List Node} {s : Engine}
    (hs : ∀ node ∈ nodes, s.Settled node) :
    s.Silent (((Calls.ofFuel fuel).executeAll nodes).after s) := by
  have hR := Silent.composable
  induction nodes generalizing s with
  | nil => exact hR.refl s
  | cons node rest ih =>
      obtain ⟨hnode, hrest⟩ := List.forall_mem_cons.1 hs
      have hsilent := execute_silent fuel hnode
      refine hR.bind_at hsilent fun flow t ht => ?_
      rw [Eval.after_ok ht] at hsilent
      cases flow with
      | normal =>
          exact ih fun other hother => (hrest other hother).silent hsilent
      | returned => exact hR.refl t
      | broken levels => exact hR.refl t
      | continued => exact hR.refl t

end Calls

end ArenaScript
