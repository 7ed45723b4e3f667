import ArenaScript.Proofs.Evaluation.Statements

/-!
# The evaluator stays within every stable relation

Staying within a local relation is a congruence, so what has been shown of
related evaluators holds of one whose recursive operations stay within the
relation.  With imports and modules, and then by induction on the fuel, it holds
of the evaluator itself: whatever it is asked to do, the engines before and
after are related by every stable relation.
-/

namespace ArenaScript

open Eval (Within Local Stable)

variable {R : Engine → Engine → Prop} {c : Calls}

theorem Eval.Within.of_related {hR : Local R} {α : Type} {x y : Eval α}
    (h : ∀ w, (Congruence.within hR).Rel w x y) : Within R x :=
  h ()

theorem Calls.Paired.plain {hR : Local R} (hc : c.Paired (.within hR) c) :
    c.Plain R where
  evaluate node := .of_related fun _ => hc.evaluate node
  invoke id args := .of_related fun _ => hc.invoke id args
  resolveType node scope := .of_related fun _ => hc.resolveType node scope
  copyConstruct dst src := .of_related fun _ => hc.copyConstruct dst src
  defaultConstruct place := .of_related fun _ => hc.defaultConstruct place
  destroy value := .of_related fun _ => hc.destroy value

namespace Calls.Plain

theorem initField_frame (hR : Local R) (hc : c.Plain R) (classScope : ScopeId)
    (place : Value) (field : Field) (hfield : field.initializer.isSome) :
    ∃ x, Eval.Within R x ∧
      c.initField classScope place field =
        c.withFrame classScope .function none x := by
  unfold Calls.initField
  cases hinit : field.initializer with
  | none => simp [hinit] at hfield
  | some init =>
      refine ⟨_, ?_, rfl⟩
      refine hR.bind (hR.tree init.tree (hc.evaluate init.node)) fun value => ?_
      exact hc.copyConstruct _ value

theorem required (hR : Local R) (node : Node) (index : Nat) :
    Eval.Within R (ArenaScript.required node index) := by
  unfold ArenaScript.required
  split
  · exact hR.pure _
  · exact hR.fail _

theorem repeatUntil (hR : Local R) {iteration : Eval (Option Flow)}
    (h : Eval.Within R iteration) (rounds : Nat) :
    Eval.Within R (Calls.repeatUntil iteration rounds) := by
  have hkeeps : ∀ w, (Congruence.within hR).Keeps w iteration := fun _ => h
  exact .of_related fun w => Paired.repeatUntil (hkeeps w) rounds

theorem parseModule (hR : Local R) (path : String) :
    Eval.Within R (Eval.parseModule path) :=
  hR.bind (hR.inspect _) fun _ => hR.modifyGet fun _ => .adoptTree

end Calls.Plain

namespace Calls.Within

/-! ## Statements -/

theorem executeAll (hR : Local R) (hc : c.Within R) (nodes : List Node) :
    Eval.Within R (c.executeAll nodes) :=
  .of_related fun _ => (hc.matched hR).executeAll fun _ _ => trivial

theorem runBody (hR : Local R) (hc : c.Within R) (node : Node)
    (params : List Param) (args : List Value) :
    Eval.Within R (c.runBody node params args) :=
  .of_related fun _ => (hc.matched hR).runBody trivial params args

theorem iterationBody (hR : Local R) (hc : c.Within R) (cond body : Node)
    (step : Option Node) :
    Eval.Within R (do
      if ← c.condition cond then
        let exit := loopExit (← c.executeBranch body)
        match exit, step with
        | none, some step =>
            let _ ← c.evaluate step
            pure none
        | exit, _ => pure exit
      else pure (some .normal)) :=
  .of_related fun _ => (hc.matched hR).iterationBody cond trivial step

/-- An iteration runs in a frame, its condition and its step included. -/
theorem iteration_frame (hR : Local R) (hc : c.Within R) (scope : ScopeId)
    (cond body : Node) (step : Option Node) :
    ∃ x, Eval.Within R x ∧
      c.iteration scope cond body step = c.withFrame scope .block none x :=
  ⟨_, hc.iterationBody hR cond body step, rfl⟩

theorem iteration (hR : Local R) (hc : c.Within R) (scope : ScopeId)
    (cond body : Node) (step : Option Node) :
    Eval.Within R (c.iteration scope cond body step) :=
  .of_related fun _ => (hc.matched hR).iteration trivial cond trivial step

/-! ## Imports -/

theorem executeImport (hR : Local R) (hc : c.Within R) (node : Node) :
    Eval.Within R (c.executeImport node) := by
  unfold Calls.executeImport
  extract_lets request link
  have hlink : ∀ id, Eval.Within R (link id) := by
    intro id
    refine hR.bind (hR.read _) fun scope => ?_
    refine hR.bind (hR.read _) fun current => ?_
    exact hR.bind (hR.modify fun _ => .addImport current scope) fun _ =>
      hR.pure _
  refine hR.bind (hR.read _) fun importer => ?_
  refine hR.bind (hR.inspect _) fun path => ?_
  intro s
  refine hR.bind_at (hR.read _ s) fun atRoot t hroot => ?_
  cases hroot
  refine hR.bind_at (hR.read _ s) fun found t hfound => ?_
  cases hfound
  split
  · exact hR.bind (hR.pure _) hlink s
  · split
    · rename_i hroot
      refine hR.bind_at ?_ fun id t _ => hlink id t
      exact hc.loadModule request importer s hroot
    · exact hR.bind (hR.fail _) hlink s

theorem executeStep (hR : Local R) (hc : c.Within R) (node : Node) :
    Eval.Within R (c.executeStep node) :=
  .of_related fun _ =>
    (hc.matched hR).executeStep (Congruence.within_mapsFailures hR) trivial
      fun _ => hc.executeImport hR node

/-! ## Modules -/

theorem preload_at (hR : Local R) (hc : c.Within R) (path : String)
    (scope : ScopeId) (root node : Node) {s : Engine} (hs : s.atRoot = true) :
    R s ((c.preload path scope root node).after s) := by
  unfold Calls.preload
  refine hR.bind_at ?_ fun dep t _ => ?_
  · rw [Eval.after_mapFailure]
    exact hc.loadModule node.text (some path) s hs
  · split
    · refine hR.bind (hR.read _) (fun depScope => ?_) t
      exact hR.modify fun _ => .addImport scope depScope
    · exact hR.pure () t

theorem preloads_at (hR : Local R) (hc : c.Within R) (path : String)
    (scope : ScopeId) (root : Node) (nodes : List Node) {s : Engine}
    (hs : s.atRoot = true) :
    R s ((nodes.forM (c.preload path scope root)).after s) := by
  induction nodes generalizing s with
  | nil => exact hR.refl s
  | cons node rest ih =>
      have hnode := hc.preload_at hR path scope root node hs
      refine hR.bind_at hnode fun _ t ht => ih ?_
      rw [Eval.after_ok ht] at hnode
      rw [hR.root hnode, hs]

theorem moduleCode_eq {α β : Type} (scope : ScopeId) (tree : TreeId)
    (x : Eval α) (b : β) (s : Engine) :
    (do
      Eval.updateArena (·.pushFrame scope .moduleFrame none)
      let _ ← Eval.withTree tree x
      pure b : Eval β) s =
        match x (s.beginModule scope tree) with
        | .ok _ t => .ok b { t with currentTree := s.currentTree }
        | .error e t => .error e { t with currentTree := s.currentTree } := by
  have hpush : Eval.updateArena (·.pushFrame scope .moduleFrame none) s =
      .ok () { s with arena := s.arena.pushFrame scope .moduleFrame none } :=
    rfl
  simp only [bind, EStateM.bind, hpush, Eval.withTree]
  unfold Engine.beginModule
  cases x { s with
    arena := s.arena.pushFrame scope .moduleFrame none,
    currentTree := tree } <;> rfl

theorem after_moduleCode {α β : Type} (scope : ScopeId) (tree : TreeId)
    (x : Eval α) (b : β) (s : Engine) :
    (do
      Eval.updateArena (·.pushFrame scope .moduleFrame none)
      let _ ← Eval.withTree tree x
      pure b : Eval β).after s =
        { x.after (s.beginModule scope tree) with
          currentTree := s.currentTree } := by
  unfold Eval.after
  rw [moduleCode_eq]
  cases x (s.beginModule scope tree) <;> rfl

theorem evaluateModule_known (c : Calls) {path : String} (tree : SyntaxTree)
    {s : Engine} {id : ModuleId} (h : s.modules.find? path = some id) :
    c.evaluateModule path tree s = .ok id s := by
  simp [Calls.evaluateModule, Eval.read, bind, EStateM.bind, h, pure,
    EStateM.pure]

theorem evaluateModule_new (c : Calls) {path : String} (tree : SyntaxTree)
    {s : Engine} (h : s.modules.find? path = none) :
    c.evaluateModule path tree s =
      (do
        (tree.root.descendants.filter (·.kind == .importModule)).forM
          (c.preload path ⟨s.scopes.size⟩ tree.root)
        Eval.updateArena (·.pushFrame ⟨s.scopes.size⟩ .moduleFrame none)
        let _ ← Eval.withTree tree.id (c.executeAll tree.root.children)
        pure ⟨s.modules.modules.size⟩ : Eval ModuleId)
          ((Eval.addModule path tree.id).after s) := by
  have hadd : Eval.addModule path tree.id s =
      .ok (⟨s.modules.modules.size⟩, ⟨s.scopes.size⟩)
        ((Eval.addModule path tree.id).after s) := rfl
  simp only [Calls.evaluateModule, Eval.read, bind, EStateM.bind, h, hadd]

/-- The modules that a module imports run before its own frame is pushed. -/
theorem evaluateModule_at (hR : Stable R) (hc : c.Within R) (path : String)
    (tree : SyntaxTree) {s : Engine} (hs : s.atRoot = true) :
    R s ((c.evaluateModule path tree).after s) := by
  cases hfound : s.modules.find? path with
  | some id =>
      rw [Eval.after_ok (evaluateModule_known c tree hfound)]
      exact hR.refl s
  | none =>
      have henter := hR.enter path tree.id hs
      rw [Eval.after_congr (evaluateModule_new c tree hfound)]
      have hpreloads := hc.preloads_at hR.toLocal path ⟨s.scopes.size⟩ tree.root
        (tree.root.descendants.filter (·.kind == .importModule))
          ((hR.root henter).trans hs)
      cases hrun : (tree.root.descendants.filter (·.kind == .importModule)).forM
          (c.preload path ⟨s.scopes.size⟩ tree.root)
            ((Eval.addModule path tree.id).after s) with
      | error e u =>
          rw [Eval.after_error hrun] at hpreloads
          rw [Eval.after_bind_error hrun]
          exact hR.trans henter hpreloads
      | ok _ u =>
          rw [Eval.after_ok hrun] at hpreloads
          rw [Eval.after_bind_ok hrun, after_moduleCode]
          exact hR.start path _ tree.id hs hpreloads
            (hc.executeAll hR.toLocal tree.root.children _)

theorem loadModuleStep_at (hR : Stable R) (hc : c.Within R) (request : String)
    (importer : Option String) {s : Engine} (hs : s.atRoot = true) :
    R s ((c.loadModuleStep request importer).after s) := by
  unfold Calls.loadModuleStep
  have hpath := hR.inspect (fun s => s.findModulePath request importer) s
  refine hR.bind_at hpath fun path t ht => ?_
  rw [Eval.after_ok ht] at hpath
  refine hR.bind_at (hR.read _ t) fun found u hfound => ?_
  cases hfound
  split
  · exact hR.pure _ t
  · have hparse := Plain.parseModule hR.toLocal path t
    refine hR.bind_at hparse fun tree u hu => ?_
    rw [Eval.after_ok hu] at hparse
    exact hc.evaluateModule_at hR path tree
      (by rw [hR.root hparse, hR.root hpath, hs])

/-! ## The evaluator -/

theorem exhausted (hR : Local R) : Calls.exhausted.Within R where
  evaluate _ := hR.exhausted
  execute _ := hR.exhausted
  invoke _ _ := hR.exhausted
  resolveType _ _ := hR.exhausted
  copyConstruct _ _ := hR.exhausted
  defaultConstruct _ := hR.exhausted
  destroy _ := hR.exhausted
  loadModule _ _ s _ := hR.exhausted s

theorem ofFuel (hR : Stable R) (fuel : Nat) : (Calls.ofFuel fuel).Within R := by
  induction fuel with
  | zero => exact exhausted hR.toLocal
  | succ fuel ih =>
      have hmatched := ih.matched hR.toLocal
      rw [ofFuel_succ]
      exact
        { (hmatched.toPaired.above hmatched.invokeStep _ _ fuel fuel).plain with
          execute := ih.executeStep hR.toLocal
          loadModule := fun request importer _ hs =>
            ih.loadModuleStep_at hR request importer hs }

end Calls.Within

end ArenaScript
