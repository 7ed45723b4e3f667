import ArenaScript.Proofs.Modules.Blame
import ArenaScript.Proofs.Modules.Forest

/-!
# Failures name the innermost statement

On its way out a failure passes the statements that are executing.  The first of
them that has a position gives it to the failure, with the path of the module
whose tree is then the executing one.  The evaluators described here keep a list
of the statements that are executing instead, and they run a statement only in
the tree that it stands in.  A failure that leaves any of their operations
without a position is blamed at once on the innermost statement of the list that
has one.  The evaluator does the same as they do: each statement is run in its
own tree, and left with its own tree executing again, however the code that it
has called ended.
-/

namespace ArenaScript

open Eval (Coincide)

namespace Eval

variable {α : Type}

def blamed (sites : List Site) (x : Eval α) : Eval α :=
  mapFailure (fun s e => s.blame sites e) x

open Classical in
noncomputable def inPlace (trees : Forest) (node : Node) (x : TreeId → Eval α) :
    Eval α := fun s =>
  if s.Stands trees s.currentTree node then x s.currentTree s else exhausted s

theorem inPlace_of_stands {trees : Forest} {node : Node} {s : Engine}
    (h : s.Stands trees s.currentTree node) (x : TreeId → Eval α) :
    inPlace trees node x s = x s.currentTree s := if_pos h

end Eval

namespace Calls

def blamed (sites : List Site) (c : Calls) : Calls where
  evaluate node := Eval.blamed sites (c.evaluate node)
  execute node := Eval.blamed sites (c.execute node)
  invoke id args := Eval.blamed sites (c.invoke id args)
  resolveType node scope := Eval.blamed sites (c.resolveType node scope)
  copyConstruct dst src := Eval.blamed sites (c.copyConstruct dst src)
  defaultConstruct place := Eval.blamed sites (c.defaultConstruct place)
  destroy value := Eval.blamed sites (c.destroy value)
  loadModule request importer :=
    Eval.blamed sites (c.loadModule request importer)
  rounds := c.rounds

/-- Runs a statement inside of others, in the tree that it stands in.  It is
executing from now on, and failures that it raises itself are blamed as well. -/
noncomputable def executeAmong (trees : Forest) (c : List Site → Calls)
    (sites : List Site) (node : Node) : Eval Flow := do
  if !node.pos.isDummy then modify fun s => { s with lastPos := node.pos }
  Eval.inPlace trees node fun tree =>
    Eval.blamed (⟨tree, node⟩ :: sites)
      ((c (⟨tree, node⟩ :: sites)).executeKind node)

/-- The operations with the given fuel while the statements are executing, the
innermost first.  No statement of a module is executing yet when the module is
loaded. -/
noncomputable def blaming (trees : Forest) : Nat → List Site → Calls
  | 0, _ => exhausted
  | n + 1, sites =>
      blamed sites
        { (blaming trees n sites).above (executeAmong trees
          (blaming trees n) sites) n with
          loadModule := (blaming trees n []).loadModuleStep }

end Calls

/-! ## Code that runs where it stands -/

structure Engine.ComesTo (trees : Forest) (env : Engine) (tree : TreeId)
    (s : Engine) : Prop where
  grown : env.Extends s
  tree : s.currentTree = tree
  planted : s.Planted trees

namespace Engine.ComesTo

variable {trees : Forest} {env s t : Engine} {tree : TreeId} {node : Node}

theorem quiet (h : ComesTo trees env tree s) (hst : s.Extends t)
    (hmodules : t.modules = s.modules) (htree : t.currentTree = s.currentTree)
    (hcode : s.NoNewCode t) : ComesTo trees env tree t where
  grown := h.grown.trans hst
  tree := htree.trans h.tree
  planted := h.planted.quiet hst hmodules hcode

theorem currentTree (h : ComesTo trees env tree s) (id : TreeId) :
    ComesTo trees env id { s with currentTree := id } where
  grown := { h.grown with }
  tree := rfl
  planted := h.planted.quiet { Extends.refl s with } rfl (.of_tables rfl rfl)

theorem stands (h : ComesTo trees env tree s)
    (hnode : env.Stands trees tree node) :
    s.Stands trees s.currentTree node := by
  rw [h.tree]
  exact hnode.extend h.grown

end Engine.ComesTo

/-- Code may run that stands in the tree that is executing.  Its failures count
as the same if they are once they are blamed on the statements. -/
def Staging.attribution (trees : Forest) (sites : List Site) : Staging where
  World := Engine × TreeId
  inTree w id := (w.1, id)
  Stage w s := w.1.ComesTo trees w.2 s
  Code w node := w.1.Stands trees w.2 node
  Ends t e e' := Stop.BlamedAlike sites t e e'
  code_child h hchild := h.child hchild
  plain s _ he := .refl he.clean sites s
  ends h hmodules := h.congr hmodules
  quiet := .quiet
  enter id h := h.currentTree id
  leave {w _ _ _} h ht := by
    have hback := ht.currentTree w.2
    rwa [← h.tree] at hback ⊢
  settle {w s} h := by
    refine ⟨(s, w.2), ⟨.refl s, h.tree, h.planted⟩, fun t ht => ?_,
      h.planted.code⟩
    exact ⟨h.grown.trans ht.grown, ht.tree, ht.planted⟩
  addFunction {_ _ _ f _} h hnode hf :=
    ⟨h.grown.trans (.move (.addFunction f)), h.tree,
      h.planted.addFunction (h.stands hnode) hf⟩
  addTemplate {_ s node d} h hnode htree hd := by
    refine ⟨h.grown.trans (.move (.addTemplate d)), h.tree,
      h.planted.addTemplate ?_⟩
    rw [htree, hd]
    exact h.stands hnode

abbrev Congruence.attribution (trees : Forest) (sites : List Site) :
    Congruence :=
  (Staging.attribution trees sites).congruence

namespace Staging.attribution

variable {trees : Forest} {sites : List Site} {w : Engine × TreeId} {α : Type}
  {x y : Eval α}

theorem blamed (h : (Staging.attribution trees sites).Rel w x y) :
    (Staging.attribution trees sites).Rel w x (Eval.blamed sites y) :=
  fun s hs => (h s hs).mapFailure_right fun _ _ _ ⟨ht, he⟩ => ⟨ht, he.blamed⟩

theorem of_nil (h : (Staging.attribution trees []).Rel w x y) :
    (Staging.attribution trees sites).Rel w x y := by
  intro s hs
  refine (h s hs).relax (fun _ _ ht => ht) fun t e e' ⟨ht, he⟩ => ⟨ht, ?_⟩
  rw [he.eq]
  exact .refl he.clean sites t

theorem nestedImport (request : String) :
    (Staging.attribution trees sites).Rel w
      (Eval.fail (Failure.nestedImport request) : Eval α)
      (Eval.fail (Failure.nestedImport request)) :=
  fun s hs =>
    .stop rfl rfl
      ⟨hs, .refl (show Stop.Clean (.failed _) from fun _ => rfl) sites s⟩

end Staging.attribution

namespace Calls

variable {trees : Forest} {c d : Calls} {sites : List Site}
  {w : Engine × TreeId}

/-! ## Statements -/

def LoadsBlamed (trees : Forest) (sites : List Site) (c d : Calls) : Prop :=
  ∀ w request importer,
    (Congruence.attribution trees sites).Rel w (c.loadModule request importer)
      (d.loadModule request importer)

theorem executeStep_among {d : List Site → Calls} {node : Node}
    (hc : ∀ sites, c.Matched (.attribution trees sites) (d sites))
    (hload : ∀ sites, LoadsBlamed trees sites c (d sites))
    (hnode : w.1.Stands trees w.2 node) :
    (Congruence.attribution trees sites).Rel w (c.executeStep node)
      (executeAmong trees d sites node) := by
  have hkind : ∀ tree,
      (Congruence.attribution trees (⟨tree, node⟩ :: sites)).Rel w
      (c.executeKind node) ((d (⟨tree, node⟩ :: sites)).executeKind node) :=
    fun tree => (hc _).executeKind hnode fun _ =>
      Paired.executeImport (hload _ w) Staging.attribution.nestedImport node
  have hleave : ∀ s, w.1.ComesTo trees w.2 s →
      Coincide ((Staging.attribution trees sites).Stops w)
      (fun _ t => w.1.ComesTo trees w.2 t)
      (Eval.mapFailure (fun s e => e.withLocation node.pos s.currentModulePath?)
        (c.executeKind node))
      (Eval.blamed (⟨s.currentTree, node⟩ :: sites)
        ((d (⟨s.currentTree, node⟩ :: sites)).executeKind node)) s := by
    intro s hs
    refine (hkind s.currentTree s hs).mapFailure fun t e e' ⟨ht, he⟩ => ⟨ht, ?_⟩
    -- The tree that was executing when the statement was started is executing
    -- again.
    have htree : s.currentTree = t.currentTree := hs.tree.trans ht.tree.symm
    rw [htree] at he ⊢
    exact he.leave
  have hrest : (Congruence.attribution trees sites).Rel w
      (Eval.mapFailure (fun s e => e.withLocation node.pos s.currentModulePath?)
        (c.executeKind node))
      (Eval.inPlace trees node fun tree =>
        Eval.blamed (⟨tree, node⟩ :: sites)
          ((d (⟨tree, node⟩ :: sites)).executeKind node)) := fun s hs =>
    .of_eq rfl (Eval.inPlace_of_stands (hs.stands hnode) _) (hleave s hs)
  unfold Calls.executeStep Calls.executeAmong
  split
  · exact (Congruence.attribution trees sites).bind
      (Congruence.setPos _ node.pos) fun _ => hrest
  · exact hrest

theorem Paired.blamed (hc : c.Paired (.attribution trees sites) d) :
    c.Paired (.attribution trees sites) (d.blamed sites) where
  evaluate node := Staging.attribution.blamed (hc.evaluate node)
  invoke id args := Staging.attribution.blamed (hc.invoke id args)
  resolveType node scope :=
    Staging.attribution.blamed (hc.resolveType node scope)
  copyConstruct dst src := Staging.attribution.blamed (hc.copyConstruct dst src)
  defaultConstruct place :=
    Staging.attribution.blamed (hc.defaultConstruct place)
  destroy value := Staging.attribution.blamed (hc.destroy value)

/-! ## Modules -/

theorem LoadsBlamed.preload (hload : LoadsBlamed trees [] c d) (path : String)
    (scope : ScopeId) (root node : Node) :
    (Congruence.attribution trees []).Rel w (c.preload path scope root node)
      (d.preload path scope root node) := by
  unfold Calls.preload
  refine (Congruence.attribution trees []).bind ?_ fun dep => ?_
  · intro s hs
    refine (hload w node.text (some path) s hs).mapFailure
      fun t e e' ⟨ht, he⟩ => ⟨ht, ?_⟩
    rw [he.eq]
    exact .refl (he.clean.map fun e h => h.withLocation _ _) [] t
  · split
    · refine (Congruence.attribution trees []).bind (Congruence.read _ _)
        fun depScope => ?_
      exact Congruence.link _ scope trivial
    · exact Congruence.pure _ ()

theorem LoadsBlamed.evaluateModule (hload : LoadsBlamed trees [] c d)
    (hc : c.Matched (.attribution trees []) d) {s : Engine}
    (hs : w.1.ComesTo trees w.2 s) {path : String} {tree : SyntaxTree}
    (htree : tree.id.index < s.nextTree)
    (hstands : ((Eval.addModule path tree.id).after s).Stands trees tree.id
      tree.root) :
    Coincide ((Staging.attribution trees []).Stops w)
      (fun _ t => w.1.ComesTo trees w.2 t)
      (c.evaluateModule path tree) (d.evaluateModule path tree) s := by
  cases hfound : s.modules.find? path with
  | some id =>
      exact .ok (Within.evaluateModule_known c tree hfound)
        (Within.evaluateModule_known d tree hfound) hs
  | none =>
      refine .of_eq (Within.evaluateModule_new c tree hfound)
        (Within.evaluateModule_new d tree hfound) ?_
      have hgrown := Engine.Extends.addModule s path tree.id
      have hworld :
          Engine.ComesTo trees ((Eval.addModule path tree.id).after s) w.2
          ((Eval.addModule path tree.id).after s) :=
        ⟨.refl _, hs.tree, hs.planted.addModule path htree⟩
      generalize (Eval.addModule path tree.id).after s =
        entered at hstands hgrown hworld ⊢
      refine Staging.Rel.settled (S := .attribution trees [])
        (v := (entered, w.2)) (w := w)
        (fun t ht =>
          ⟨(hs.grown.trans hgrown).trans ht.grown, ht.tree, ht.planted⟩)
            ?_ hworld
      have hthreading := (Staging.attribution trees []).threading (entered, w.2)
      refine hthreading.bind
        (hthreading.forM (hload.preload path _ tree.root) _) fun _ => ?_
      refine hthreading.bind (.updateArena _) fun _ => ?_
      refine hthreading.bind ?_ fun _ => hthreading.pure _
      refine (Congruence.attribution trees []).withTree tree.id
        (hc.executeAll ?_)
      exact fun child hchild => hstands.child hchild

theorem LoadsBlamed.loadModuleStep (hload : LoadsBlamed trees [] c d)
    (hc : c.Matched (.attribution trees []) d) (request : String)
    (importer : Option String) :
    (Congruence.attribution trees []).Rel w (c.loadModuleStep request importer)
      (d.loadModuleStep request importer) := by
  unfold Calls.loadModuleStep
  refine (Congruence.attribution trees []).bind
    (Congruence.inspect _ fun s => s.ordinary_findModulePath request importer)
      fun path => ?_
  refine (Congruence.attribution trees []).bind (Congruence.read _ _)
    fun found => ?_
  cases found with
  | some id => exact Congruence.pure _ id
  | none =>
      intro s hs
      rcases parseModule_cases s path with ⟨root, hroot, hparse⟩ |
        ⟨e, he, hparse⟩
      · refine .of_eq (Eval.bind_ok hparse) (Eval.bind_ok hparse) ?_
        have hadopted : s.Move { s with nextTree := s.nextTree + 1 } :=
          .adoptTree
        exact hload.evaluateModule hc
          (Staging.move hs hadopted (.of_tables rfl rfl))
          (Nat.lt_succ_self _)
            (hs.planted.stands_loaded hroot List.mem_cons_self)
      · exact .stop (Eval.bind_error hparse) (Eval.bind_error hparse)
          (.of_plain hs he)

/-! ## The evaluator -/

theorem matched_blaming (trees : Forest) (fuel : Nat) : ∀ sites,
    (ofFuel fuel).Matched (.attribution trees sites)
      (blaming trees fuel sites) ∧
      LoadsBlamed trees sites (ofFuel fuel) (blaming trees fuel sites) := by
  induction fuel with
  | zero =>
      exact fun sites => ⟨.exhausted _, fun _ _ _ => Congruence.exhausted _⟩
  | succ fuel ih =>
      intro sites
      have hmatched := fun sites => (ih sites).1
      have hload := fun sites => (ih sites).2
      have habove := (hmatched sites).toPaired.above (hmatched sites).invokeStep
        (ofFuel fuel).executeStep
          (executeAmong trees (blaming trees fuel) sites) fuel fuel
      rw [ofFuel_succ, blaming]
      refine ⟨{ habove.blamed with rounds := rfl, execute := ?_ }, ?_⟩
      · exact fun hnode =>
          Staging.attribution.blamed (executeStep_among hmatched hload hnode)
      · intro w request importer
        have hstep : (Congruence.attribution trees []).Rel w
            ((ofFuel fuel).loadModuleStep request importer)
            ((blaming trees fuel []).loadModuleStep request importer) :=
          (hload []).loadModuleStep (hmatched []) request importer
        exact Staging.attribution.blamed (Staging.attribution.of_nil hstep)

end Calls

/-! ## Requests -/

/-- The same is done, also if it fails; code stands where it stood, and a
failure that has no position names no file. -/
def Eval.SameBlame {α : Type} (trees : Forest) (x y : Eval α) (s : Engine) :
    Prop :=
  Coincide (fun t e e' => t.Planted trees ∧ e.Clean ∧ e' = e)
    (fun _ t => t.Planted trees) x y s

open Eval (SameBlame)

namespace Eval.SameBlame

variable {trees : Forest} {α β : Type} {x y : Eval α} {s : Engine}

theorem same (h : SameBlame trees x y s) : x s = y s :=
  (Coincide.same (fun he => he.2.2) h).symm

theorem clean (h : SameBlame trees x y s) (e : Failure) (t : Engine)
    (hrun : x s = .error (.failed e) t) : e.Clean := by
  cases h with
  | ok hx => simp [hrun] at hx
  | stop hx _ he =>
      obtain ⟨rfl, rfl⟩ := EStateM.Result.error.inj (hrun.symm.trans hx)
      exact he.2.1

theorem planted (h : SameBlame trees x y s) : (x.after s).Planted trees := by
  cases h with
  | ok hx _ ht => rwa [Eval.after_ok hx]
  | stop hx _ he =>
      rw [Eval.after_error hx]
      exact he.1

theorem of_stops {w : Engine × TreeId}
    (h : Coincide ((Staging.attribution trees []).Stops w)
      (fun _ t => w.1.ComesTo trees w.2 t) x y s) : SameBlame trees x y s :=
  h.relax (fun _ _ ht => ht.planted) fun _ _ _ ⟨ht, he⟩ =>
    ⟨ht.planted, he.clean, he.eq⟩

theorem of_rel
    (h : (Congruence.attribution trees []).Rel (s, s.currentTree) x y)
    (hs : s.Planted trees) : SameBlame trees x y s :=
  .of_stops (h s ⟨.refl s, rfl, hs⟩)

theorem bind {f g : α → Eval β} (hx : SameBlame trees x y s)
    (hf : ∀ a t, t.Planted trees → SameBlame trees (f a) (g a) t) :
    SameBlame trees (x >>= f) (y >>= g) s :=
  Coincide.bind hx hf

theorem map (f : α → β) (hx : SameBlame trees x y s) :
    SameBlame trees (f <$> x) (f <$> y) s := by
  rw [map_eq_pure_bind, map_eq_pure_bind]
  exact hx.bind fun _ _ ht => .pure ht

end Eval.SameBlame

namespace Calls

variable {trees : Forest} {c d : Calls} {s : Engine}

section Requests

variable (hc : c.Matched (.attribution trees []) d)
  (hload : LoadsBlamed trees [] c d) (hs : s.Planted trees)

include hc hs

theorem sameBlame_run (tree : SyntaxTree) {node : Node}
    (hnode : s.Stands trees tree.id node) :
    SameBlame trees (c.run tree node) (d.run tree node) s := by
  refine .of_rel ?_ hs
  unfold Calls.run
  have hthreading := (Staging.attribution trees []).threading (s, s.currentTree)
  refine hthreading.bind (hthreading.read _) fun depth =>
    hthreading.onStop depth ?_
  refine (Congruence.attribution trees []).withTree tree.id ?_
  split
  · exact Congruence.map _ some (hc.evaluate node)
  · exact (Congruence.attribution trees []).bind (hc.execute hnode) fun _ =>
      Congruence.pure _ none

include hload

theorem sameBlame_evaluateModule {path : String} {tree : SyntaxTree}
    (htree : tree.id.index < s.nextTree)
    (hstands : ((Eval.addModule path tree.id).after s).Stands trees tree.id
      tree.root) :
    SameBlame trees (c.evaluateModule path tree)
      (d.evaluateModule path tree) s :=
  .of_stops (w := (s, s.currentTree))
    (hload.evaluateModule hc ⟨.refl s, rfl, hs⟩ htree hstands)

theorem sameBlame_tryRun (settings : Settings) :
    SameBlame trees (Program.tryRun c settings)
      (Program.tryRun d settings) s := by
  unfold Program.tryRun
  have hfind :
      SameBlame trees
        (Eval.inspect fun s => s.findModulePath settings.entry none)
      (Eval.inspect fun s => s.findModulePath settings.entry none) s :=
    .of_rel (Congruence.inspect _ fun s =>
      s.ordinary_findModulePath settings.entry none) hs
  refine hfind.bind fun path t ht => ?_
  rcases parseModule_cases t path with ⟨root, hroot, hparse⟩ | ⟨e, he, hparse⟩
  · refine .of_eq (Eval.bind_ok hparse) (Eval.bind_ok hparse) ?_
    refine (sameBlame_evaluateModule hc hload ht.adoptTree (Nat.lt_succ_self _)
      (ht.stands_loaded hroot List.mem_cons_self)).bind fun id u hu =>
        .of_rel ?_ hu
    exact Program.finish_rel hc settings id
  · exact .stop (Eval.bind_error hparse) (Eval.bind_error hparse)
      ⟨ht, Stop.Plain.clean (e := .failed e) he, rfl⟩

theorem sameBlame_program (settings : Settings) :
    SameBlame trees (Program.run c settings) (Program.run d settings) s := by
  cases sameBlame_tryRun hc hload hs settings with
  | @ok code _ hx hy ht =>
      exact .ok (a := code) (by simp only [Program.run, hx])
        (by simp only [Program.run, hy]) ht
  | @stop e e' t hx hy h =>
      obtain ⟨ht, hclean, hsame⟩ := h
      rw [hsame] at hy
      have hdropped : (t.unwindTo 0).Planted trees :=
        ht.quiet { Engine.Extends.refl t with } rfl (.of_tables rfl rfl)
      cases e with
      | failed e =>
          exact .ok (a := 1) (by simp only [Program.run, hx])
            (by simp only [Program.run, hy]) hdropped
      | outOfFuel =>
          exact .stop (by simp only [Program.run, hx])
            (by simp only [Program.run, hy]) ⟨ht, hclean, rfl⟩

end Requests

end Calls

/-! ## Hosts -/

namespace Request

def itemRoot (item : Node) : Node :=
  ((⟨.moduleRoot, "", .dummy, 0, [item]⟩ : Node).number 0).1

def forest (s : Engine) (trees : Forest) : Request → Forest
  | .item node => trees.plant ⟨s.nextTree⟩ (itemRoot node)
  | _ => trees

end Request

/-- A host asks for nodes of trees that it has brought or of modules, and for
modules with trees that it has brought. -/
def Engine.Admits (s : Engine) (trees : Forest) : Request → Prop
  | .evaluate tree node => s.Stands trees tree.id node
  | .enter _ tree => trees tree.id = some tree.root
  | _ => True

inductive Engine.Managed : Forest → Engine → Prop
  | new (limits : Limits) (sink : Sink) (source : Option ModuleSource)
      (searchPaths : List String) :
      Managed .bare (.new limits sink source searchPaths)
  | bring {trees : Forest} {s : Engine} (root : Node) (hs : Managed trees s) :
      Managed (trees.plant ⟨s.nextTree⟩ root)
        { s with nextTree := s.nextTree + 1 }
  | after {trees : Forest} {s : Engine} (fuel : Nat) (request : Request)
      (hs : Managed trees s) (h : s.Admits trees request) :
      Managed (request.forest s trees)
        ((request.perform (Calls.ofFuel fuel)).after s)

namespace Calls

variable {trees : Forest} {s : Engine}

theorem sameBlame_runItem {c d : Calls} {item : Node}
    (hc : c.Matched
      (.attribution (trees.plant ⟨s.nextTree⟩ (Request.itemRoot item)) []) d)
    (hs : s.Planted trees) :
    SameBlame (trees.plant ⟨s.nextTree⟩ (Request.itemRoot item))
      (c.runItem item) (d.runItem item)
      s := by
  have hplanted := hs.plant (Request.itemRoot item)
  have hrun : ∀ c : Calls, c.runItem item s =
      c.run ⟨⟨s.nextTree⟩, Request.itemRoot item⟩ (item.number 0).1
        { s with nextTree := s.nextTree + 1 } := fun _ => rfl
  refine .of_eq (hrun c) (hrun d) ?_
  refine sameBlame_run hc hplanted _ ⟨Request.itemRoot item, ?_, ?_⟩
  · exact Engine.rootOf?_brought (Function.update_self _ _ _)
  · exact List.mem_cons_of_mem _
      (Node.mem_descendants_of_child List.mem_cons_self List.mem_cons_self)

theorem sameBlame_perform (hs : s.Planted trees) (fuel : Nat)
    {request : Request} (h : s.Admits trees request) :
    SameBlame (request.forest s trees) (request.perform (ofFuel fuel))
      (request.perform (blaming (request.forest s trees) fuel [])) s := by
  obtain ⟨hc, hload⟩ := matched_blaming (request.forest s trees) fuel []
  cases request with
  | evaluate tree node => exact .map _ (sameBlame_run hc hs tree h)
  | item node => exact .map _ (sameBlame_runItem hc hs)
  | call id args => exact .map _ (.of_rel (hc.invoke id args) hs)
  | load request importer =>
      exact .map _ (.of_rel (hload _ request importer) hs)
  | enter path tree =>
      refine .map _
        (sameBlame_evaluateModule hc hload hs
          (hs.brought tree.id tree.root h) ?_)
      exact ⟨tree.root, Engine.rootOf?_brought h, List.mem_cons_self⟩
  | program settings => exact .map _ (sameBlame_program hc hload hs settings)
  | shutdown => exact .of_rel hc.shutdown hs

end Calls

namespace Engine.Managed

variable {trees : Forest} {s : Engine}

theorem planted (hs : Managed trees s) : s.Planted trees := by
  induction hs with
  | new limits sink source searchPaths =>
      exact .new limits sink source searchPaths
  | bring root hs ih => exact ih.plant root
  | after fuel request hs h ih =>
      exact (Calls.sameBlame_perform ih fuel h).planted

/-- Whatever fails is blamed on the innermost statement with a position that was
executing when the failure was raised, and on the module last entered with the
tree this statement stands in: the evaluator does exactly what the evaluator
does that knows these statements.  A failure that no statement with a position
has seen names neither a position nor a file. -/
theorem failures_blamed (hs : Managed trees s) (fuel : Nat) :
    (∀ request, s.Admits trees request →
      request.perform (Calls.ofFuel fuel) s =
          request.perform (Calls.blaming (request.forest s trees) fuel []) s ∧
        ∀ e t, request.perform (Calls.ofFuel fuel) s = .error (.failed e) t →
          e.pos = none → e.file = none) ∧
    ∀ settings,
      Program.tryRun (Calls.ofFuel fuel) settings s =
          Program.tryRun (Calls.blaming trees fuel []) settings s ∧
        ∀ e t, Program.tryRun (Calls.ofFuel fuel) settings s =
          .error (.failed e) t →
          e.pos = none → e.file = none := by
  refine ⟨fun request h => ?_, fun settings => ?_⟩
  · have hperform := Calls.sameBlame_perform hs.planted fuel h
    exact ⟨hperform.same, hperform.clean⟩
  · obtain ⟨hmatched, hload⟩ := Calls.matched_blaming trees fuel []
    have hrun := Calls.sameBlame_tryRun hmatched hload hs.planted settings
    exact ⟨hrun.same, hrun.clean⟩

/-! ### A module that calls into another -/

namespace Library

def node (kind : NodeKind) (text : String) (line : Nat) (children : List Node) :
    Node :=
  ⟨kind, text, ⟨line, 1⟩, 0, children⟩

def file (items : List Node) : Node := ⟨.moduleRoot, "", .dummy, 0, items⟩

def callOf (name : String) (line : Nat) : Node :=
  node .expressionStatement "" line
    [node .expression "" line
      [node .identifier name line [], node .call "" line []]]

def function (name : String) (line : Nat) (body : List Node) : Node :=
  node .function name line
    [node .parameters "" line [], node .block "" line body]

/-- `main` calls `boom`, which stands in the module `lib` and calls what does
not exist. -/
def source : ModuleSource :=
  .inMemory
    [("/lib.vx", file [function "boom" 7 [callOf "nothing" 8]]),
      ("/main.vx", file
        [node .importModule "lib" 1 [], function "main" 2 [callOf "boom" 3]])]
          []

def settings : Settings :=
  { entry := "/main.vx", limits := { stackCapacity := 64 } }

def engine : Engine := settings.engine source ⟨.buffer, ""⟩

theorem managed : Managed .bare engine := .new _ _ _ _

def request : Request := .item (callOf "boom" 5)

def placeOf? {α : Type} :
    EStateM.Result Stop Engine α → Option (Option Position × Option String)
  | .error (.failed e) _ => some (e.pos, e.file)
  | _ => none

end Library

open Library in
/-- The statement of the library is blamed, not the one that has called it; a
statement that stands in no module is blamed without a file. -/
theorem failures_blamed_lib :
    Managed .bare engine ∧ engine.Admits .bare request ∧
      placeOf? (Program.tryRun (Calls.blaming .bare 10 []) settings engine) =
        some (some ⟨8, 1⟩, some "/lib.vx") ∧
      placeOf? (request.perform
        (Calls.blaming (request.forest engine .bare) 10 []) engine) =
        some (some ⟨5, 1⟩, none) := by
  obtain ⟨hrequests, hprograms⟩ := failures_blamed managed 10
  refine ⟨managed, trivial, ?_, ?_⟩
  · rw [← (hprograms settings).1]
    decide +kernel
  · rw [← (hrequests request trivial).1]
    decide +kernel

end Engine.Managed

end ArenaScript
