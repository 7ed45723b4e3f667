import ArenaScript.Proofs.Evaluation.Reachable
import ArenaScript.Proofs.Modules.Order
import ArenaScript.Proofs.Modules.Provision

/-!
# Imports have been preloaded

A module is entered before the modules that it imports are loaded, and its code
starts after that.  So code that is declared, by whatever module, is provided
for from then on: its tree leads to the module, and what it asks for is in the
table, which only grows.  No import that a program comes to, in whatever code,
does more than link, and none fails because it comes too late.
-/

namespace ArenaScript

open Eval (Coincide)

/-- The computations do the same, and no import fails for coming too late. -/
abbrev Eval.Same {α : Type} (P : α → Engine → Prop) (x y : Eval α)
    (s : Engine) : Prop :=
  Coincide (fun _ => Stop.SameOrdinary) P x y s

theorem Eval.Same.same {α : Type} {P : α → Engine → Prop} {x y : Eval α}
    {s : Engine} (h : Same P x y s) : y s = x s :=
  Coincide.same And.left h

theorem Eval.Same.fault? {α : Type} {P : α → Engine → Prop} {x y : Eval α}
    {s : Engine} (h : Same P x y s) (request : String) :
    x.fault? s ≠ some (.nestedImport request) := by
  intro hfault
  cases h with
  | ok hx => simp [Eval.fault?, hx] at hfault
  | @stop e _ t hx _ h =>
      cases e with
      | failed e =>
          have hordinary : e.fault.isNestedImport = false := h.2
          simp only [Eval.fault?, hx, Option.some.injEq] at hfault
          rw [hfault] at hordinary
          cases hordinary
      | outOfFuel => simp [Eval.fault?, hx] at hfault

theorem Engine.same_of_provision {α : Type} {env s : Engine} {tree : TreeId}
    {x y : Eval α} (h : env.provision.Rel tree x y) (hs : env.Stages tree s) :
    Eval.Same (fun _ t => env.Stages tree t) x y s :=
  (h s hs).relax (fun _ _ ht => ht) fun _ _ _ he => he.2

theorem Eval.Same.inspect {α : Type} {f : Engine → Except Failure α}
    {s : Engine} (h : Ordinary (f s)) :
    Same (fun a t => t = s ∧ f s = .ok a) (Eval.inspect f) (Eval.inspect f) s :=
  Coincide.inspect (fun _ ha => ⟨rfl, ha⟩) fun e he =>
    ⟨rfl, Failure.isNestedImport_of_isPlain (h e he)⟩

open Eval (Same)

namespace Engine

variable {env s t u : Engine} {tree : TreeId}

structure Ready (s : Engine) : Prop where
  code : ∀ home node, s.Holds home node → s.Provides home node
  trees : ∀ e ∈ s.entries, e.tree.index < s.nextTree

theorem Ready.stages (hs : s.Ready) : s.Stages s.currentTree s :=
  ⟨.refl s, rfl, rfl, hs.code⟩

theorem Stages.ready (h : env.Stages tree s) (henv : env.Ready) : s.Ready where
  code home node hold := (h.keeping.code home node hold).extend h.grown
    fun e he => by
    rw [h.modules, he]
  trees e he := by
    have hentries : s.entries = env.entries := by
      rw [entries, entries, h.modules]
    rw [hentries] at he
    exact Nat.lt_of_lt_of_le (henv.trees e he) h.grown.nextTree

theorem holds_new {limits : Limits} {sink : Sink} {source : Option ModuleSource}
    {searchPaths : List String} {home : TreeId} {node : Node}
    (h : (Engine.new limits sink source searchPaths).Holds home node) :
    home = (default : TemplateDef).tree ∧ node = default := by
  cases h with
  | @function id _ _ _ hbody =>
      obtain ⟨index⟩ := id
      match index with
      | 0 | 1 | _ + 2 => cases hbody
  | template id => exact ⟨rfl, rfl⟩

theorem Ready.new (limits : Limits) (sink : Sink) (source : Option ModuleSource)
    (searchPaths : List String) :
    (Engine.new limits sink source searchPaths).Ready where
  code home node hold := by
    obtain ⟨-, rfl⟩ := holds_new hold
    have hchildren : (default : Node).children = [] := rfl
    intro n hn himport
    change n ∈ (default : Node) :: (default : Node).descendants at hn
    rw [Node.descendants, hchildren, Node.walk, List.mem_singleton] at hn
    subst hn
    cases himport
  trees e he := (List.not_mem_nil he).elim

/-! ## Entering a module -/

/-- A module takes its tree over from any that was entered with it before. -/
theorem forTree?_addModule (s : Engine) (path : String) (tree home : TreeId) :
    ((Eval.addModule path tree).after s).modules.forTree? home =
      if tree = home then some (s.entryFor path tree) else
        s.modules.forTree? home := by
  have hentries : ((Eval.addModule path tree).after s).modules.modules.toList =
      s.modules.modules.toList ++ [s.entryFor path tree] :=
    s.entries_addModule path tree
  rw [ModuleTable.forTree?, hentries, List.reverse_append,
    List.reverse_singleton, List.singleton_append]
  by_cases htree : tree = home
  · rw [if_pos htree, List.find?_cons_of_pos (by simpa [entryFor] using htree)]
  · rw [if_neg htree, List.find?_cons_of_neg (by simpa [entryFor] using htree)]
    rfl

theorem find?_addModule (s : Engine) (path : String) (tree : TreeId) :
    ∃ id, ((Eval.addModule path tree).after s).modules.find? path =
      some id := by
  refine Option.ne_none_iff_exists'.1 fun hnone => ?_
  rw [ModuleTable.find?, Option.map_eq_none_iff,
    Array.findIdx?_eq_none_iff] at hnone
  have hmem :
      s.entryFor path
        tree ∈ ((Eval.addModule path tree).after s).modules.modules :=
    Array.mem_push_self
  simpa [Path.same, entryFor] using hnone _ hmem

structure Widens (s t : Engine) : Prop extends s.Extends t where
  leads : ∀ tree e, s.modules.forTree? tree = some e →
    t.modules.forTree? tree = some e

namespace Widens

theorem refl (s : Engine) : s.Widens s := ⟨.refl s, fun _ _ he => he⟩

theorem trans (hst : s.Widens t) (htu : t.Widens u) : s.Widens u where
  toExtends := hst.toExtends.trans htu.toExtends
  leads tree e he := htu.leads tree e (hst.leads tree e he)

theorem of_modules (hst : s.Extends t) (hmodules : t.modules = s.modules) :
    s.Widens t where
  toExtends := hst
  leads tree e he := by rw [hmodules, he]

theorem addModule (path : String)
    (hnew : ∀ e ∈ s.entries, e.tree.index < tree.index) :
    s.Widens ((Eval.addModule path tree).after s) where
  toExtends := .addModule s path tree
  leads home e he := by
    have hentry : e ∈ s.entries :=
      List.mem_reverse.1 (List.mem_of_find?_eq_some he)
    have hhome : e.tree = home := by simpa using List.find?_some he
    have hne : tree ≠ home := by
      rintro rfl
      exact Nat.lt_irrefl _ (hhome ▸ hnew e hentry)
    rw [forTree?_addModule, if_neg hne, he]

end Widens

theorem Stages.widens (h : env.Stages tree s) : env.Widens s :=
  .of_modules h.grown h.modules

theorem Ready.addModule (hs : s.Ready) (path : String)
    (hnew : ∀ e ∈ s.entries, e.tree.index < tree.index)
    (htree : tree.index < s.nextTree) :
    ((Eval.addModule path tree).after s).Ready where
  code home node hold := by
    have hcode : s.NoNewCode ((Eval.addModule path tree).after s) :=
      .of_tables rfl rfl
    have hwidens : s.Widens ((Eval.addModule path tree).after s) :=
      .addModule path hnew
    exact (hs.code home node (hcode home node hold)).extend hwidens.toExtends
      (hwidens.leads home)
  trees e he := by
    rw [entries_addModule, List.mem_append] at he
    rcases he with he | he
    · exact hs.trees e he
    · obtain rfl := List.mem_singleton.1 he
      exact htree

theorem provides_of_supplies {root : Node} {e : ModuleEntry}
    (he : s.modules.forTree? tree = some e)
    (h : ∀ node ∈ root.descendants.filter (·.kind == .importModule),
      s.Supplies node.text (some e.path)) :
    ∀ child ∈ root.children, s.Provides tree child := by
  intro child hchild n hn himport
  refine ⟨e, he, h n (List.mem_filter.2 ⟨?_, by simpa using himport⟩)⟩
  exact Node.mem_descendants_of_child hchild hn

end Engine

/-! ## Loading -/

structure Engine.Loaded (s : Engine) (request : String)
    (importer : Option String) (t : Engine) : Prop where
  ready : t.Ready
  grown : s.Widens t
  supplies : t.Supplies request importer

namespace Calls

variable {c c' : Calls} {s : Engine}

def LoadsAlike (c c' : Calls) : Prop :=
  ∀ request importer s, s.Ready →
    Same (fun _ t => s.Loaded request importer t)
      (c.loadModule request importer) (c'.loadModule request importer) s

theorem LoadsAlike.preload (hc : c.LoadsAlike c') (path : String)
    (scope : ScopeId) (root node : Node) (hs : s.Ready) :
    Same (fun _ t => s.Loaded node.text (some path) t)
      (c.preload path scope root node) (c'.preload path scope root node) s := by
  refine ((hc node.text (some path) s hs).mapFailure ?_).bind fun dep t ht => ?_
  · exact fun _ _ _ he => he.map fun e => e.isNestedImport_withLocation _ _
  split
  · have hlink : t.provision.Rel t.currentTree
        (Eval.read (fun s => (s.modules.get dep).scope) >>= fun depScope =>
          Eval.updateScope scope (·.addImport depScope))
        (Eval.read (fun s => (s.modules.get dep).scope) >>= fun depScope =>
          Eval.updateScope scope (·.addImport depScope)) :=
      t.provision.bind (t.provision.read _) fun depScope =>
        t.provision.link scope trivial
    refine (Engine.same_of_provision hlink ht.ready.stages).mono
      fun _ u hu => ?_
    exact ⟨hu.ready ht.ready, ht.grown.trans hu.widens,
      ht.supplies.extend hu.grown⟩
  · exact .pure ht

theorem LoadsAlike.preloads (hc : c.LoadsAlike c') (path : String)
    (scope : ScopeId) (root : Node) (nodes : List Node) (hs : s.Ready) :
    Same
      (fun _ t => t.Ready ∧ s.Widens t ∧ ∀ node ∈ nodes,
        t.Supplies node.text (some path))
      (nodes.forM (c.preload path scope root))
        (nodes.forM (c'.preload path scope root)) s := by
  induction nodes generalizing s with
  | nil => exact .pure ⟨hs, .refl s, fun _ h => (List.not_mem_nil h).elim⟩
  | cons node rest ih =>
      refine (hc.preload path scope root node hs).bind fun _ t ht => ?_
      refine (ih ht.ready).mono fun _ u ⟨hu, htu, hrest⟩ =>
        ⟨hu, ht.grown.trans htu, ?_⟩
      exact List.forall_mem_cons.2 ⟨ht.supplies.extend htu.toExtends, hrest⟩

theorem coincide_moduleCode
    (hmatched : ∀ env : Engine, c.Matched env.provision c') {tree : SyntaxTree}
    (hs : s.Ready)
    (hprovides : ∀ child ∈ tree.root.children, s.Provides tree.id child)
    (scope : ScopeId) (id : ModuleId) :
    Same (fun _ t => t.Ready ∧ s.Widens t)
      (do
        Eval.updateArena (·.pushFrame scope .moduleFrame none)
        let _ ← Eval.withTree tree.id (c.executeAll tree.root.children)
        pure id)
      (do
        Eval.updateArena (·.pushFrame scope .moduleFrame none)
        let _ ← Eval.withTree tree.id (c'.executeAll tree.root.children)
        pure id) s := by
  have hthreading := s.staging.threading s.currentTree
  have hcode : s.provision.Rel s.currentTree
      (Eval.withTree tree.id (c.executeAll tree.root.children))
      (Eval.withTree tree.id (c'.executeAll tree.root.children)) :=
    s.provision.withTree tree.id ((hmatched s).executeAll hprovides)
  have hrun :=
    hthreading.bind (.updateArena (·.pushFrame scope .moduleFrame none))
    fun _ => hthreading.bind hcode fun _ => hthreading.pure id
  exact (Engine.same_of_provision hrun hs.stages).mono fun _ t ht =>
    ⟨ht.ready hs, ht.widens⟩

theorem LoadsAlike.evaluateModule (hc : c.LoadsAlike c')
    (hmatched : ∀ env : Engine, c.Matched env.provision c') (path : String)
    {tree : SyntaxTree} (hs : s.Ready)
    (hnew : ∀ e ∈ s.entries, e.tree.index < tree.id.index)
    (htree : tree.id.index < s.nextTree) :
    Same (fun _ t => t.Ready ∧ s.Widens t ∧
      ∃ id, t.modules.find? path = some id)
      (c.evaluateModule path tree) (c'.evaluateModule path tree) s := by
  cases hfound : s.modules.find? path with
  | some id =>
      exact .ok (Within.evaluateModule_known c tree hfound)
        (Within.evaluateModule_known c' tree hfound) ⟨hs, .refl s, id, hfound⟩
  | none =>
      obtain ⟨id, hid⟩ := s.find?_addModule path tree.id
      have hentry :=
        (s.forTree?_addModule path tree.id tree.id).trans (if_pos rfl)
      refine .of_eq (Within.evaluateModule_new c tree hfound)
        (Within.evaluateModule_new c' tree hfound) ?_
      refine (hc.preloads path _ tree.root _
        (hs.addModule path hnew htree)).bind fun _ t ⟨ht, hst, hsupplies⟩ => ?_
      -- The tree still leads to this module, and the modules it asks for are in
      -- the table now.
      have hprovides :=
        Engine.provides_of_supplies (hst.leads tree.id _ hentry) hsupplies
      refine (coincide_moduleCode hmatched ht hprovides _ _).mono
        fun _ u ⟨hu, htu⟩ => ?_
      have hgrown := hst.trans htu
      exact ⟨hu, (Engine.Widens.addModule path hnew).trans hgrown, id,
        ModuleTable.find?_of_prefix hgrown.entries hid⟩

theorem coincide_parseModule (path : String) (hs : s.Ready) :
    Same (fun tree t => t.Ready ∧ s.Widens t ∧ tree.id.index < t.nextTree ∧
        ∀ e ∈ t.entries, e.tree.index < tree.id.index)
      (Eval.parseModule path) (Eval.parseModule path) s := by
  have hadopted : s.Move { s with nextTree := s.nextTree + 1 } := .adoptTree
  have hready :=
    (s.staging.move hs.stages hadopted (.of_tables rfl rfl)).ready hs
  rcases parseModule_cases s path with ⟨root, -, hparse⟩ | ⟨e, he, hparse⟩
  · exact .ok hparse hparse ⟨hready, .of_modules (.move hadopted) rfl,
      Nat.lt_succ_self _, hs.trees⟩
  · exact .stop hparse hparse ⟨rfl, Failure.isNestedImport_of_isPlain he⟩

theorem LoadsAlike.loadModuleStep (hc : c.LoadsAlike c')
    (hmatched : ∀ env : Engine, c.Matched env.provision c') (request : String)
    (importer : Option String) (hs : s.Ready) :
    Same (fun _ t => s.Loaded request importer t)
      (c.loadModuleStep request importer)
      (c'.loadModuleStep request importer) s := by
  unfold Calls.loadModuleStep
  refine (Same.inspect (s.ordinary_findModulePath request importer)).bind ?_
  rintro path _ ⟨rfl, hpath⟩
  refine .bind_read ?_
  split
  · rename_i id hid
    exact .pure ⟨hs, .refl _, path, id, hpath, hid⟩
  · refine (coincide_parseModule path hs).bind
      fun tree t ⟨ht, hst, htree, hnew⟩ => ?_
    refine (hc.evaluateModule hmatched path ht hnew htree).mono
      fun _ u ⟨hu, htu, id, hid⟩ => ?_
    have hgrown := hst.trans htu
    exact ⟨hu, hgrown, path, id,
      by rw [hgrown.toExtends.findModulePath, hpath], hid⟩

theorem loadsAlike_linking (otherwise : Node → Eval Flow) (fuel : Nat) :
    (ofFuel fuel).LoadsAlike (linking otherwise fuel) := by
  induction fuel with
  | zero => exact fun _ _ s _ => .stop rfl rfl ⟨rfl, trivial⟩
  | succ fuel ih =>
      intro request importer s hs
      exact ih.loadModuleStep (fun env => matched_linking env otherwise fuel)
        request importer hs

end Calls

/-! ## Programs -/

namespace Program

theorem ordinary_entryPoint (s : Engine) (scope : ScopeId) (name : String) :
    Ordinary (entryPoint s scope name) := by
  unfold entryPoint
  split
  · exact .ok _
  · exact Ordinary.error_iff.2 rfl

theorem ordinary_exitCode (s : Engine) (value : Value) :
    Ordinary (exitCode s value) := by
  refine (s.ordinary_stripRef value).bind fun value => ?_
  split
  · exact (s.ordinary_readScalar value).map _
  · exact .pure _

theorem finish_rel {S : Staging} {w : S.World} {c d : Calls}
    (hc : c.Matched S.congruence d) (settings : Settings) (id : ModuleId) :
    S.congruence.Rel w (finish c settings id) (finish d settings id) := by
  have hexit : ∀ code : Int32, S.congruence.Rel w (do c.shutdown; pure code)
      (do d.shutdown; pure code) :=
    fun code => S.congruence.bind hc.shutdown fun _ => S.congruence.pure code
  refine S.congruence.bind
    (S.congruence.inspect fun s => ordinary_entryPoint s _ _) fun entry => ?_
  refine S.congruence.bind (hc.invoke entry []) fun result => ?_
  cases result with
  | some value =>
      exact S.congruence.bind
        (S.congruence.inspect fun s => ordinary_exitCode s value) hexit
  | none => exact hexit 0

theorem coincide_tryRun (otherwise : Node → Eval Flow) (fuel : Nat)
    (settings : Settings) {s : Engine} (hs : s.Ready) :
    Same (fun _ _ => True) (tryRun (Calls.ofFuel fuel) settings)
      (tryRun (Calls.linking otherwise fuel) settings) s := by
  have hmatched := fun env : Engine => Calls.matched_linking env otherwise fuel
  unfold tryRun
  refine (Same.inspect (s.ordinary_findModulePath settings.entry none)).bind ?_
  rintro path _ ⟨rfl, -⟩
  refine (Calls.coincide_parseModule path hs).bind
    fun tree t ⟨ht, _, htree, hnew⟩ => ?_
  refine ((Calls.loadsAlike_linking otherwise fuel).evaluateModule hmatched
    path ht hnew htree).bind fun id u ⟨hu, _⟩ => ?_
  exact (Engine.same_of_provision (finish_rel (hmatched u) settings id)
    hu.stages).mono fun _ _ _ => trivial

/-- In a run on a new engine, each import that is executed finds its module in
the table and does nothing but link it: whatever an import might do otherwise
makes no difference to the run.  None fails for coming too late, and linking
pushes no frame and enters no module. -/
theorem imports_only_link (otherwise : Node → Eval Flow) (fuel : Nat)
    (settings : Settings) (source : ModuleSource) (sink : Sink) :
    tryRun (Calls.linking otherwise fuel) settings
      (settings.engine source sink) =
      tryRun (Calls.ofFuel fuel) settings (settings.engine source sink) ∧
    (∀ request,
      (tryRun (Calls.ofFuel fuel) settings).fault?
        (settings.engine source sink) ≠ some (.nestedImport request)) ∧
    ∀ (s : Engine) (node : Node) (id : ModuleId),
      (s.linked node id).arena = s.arena ∧ (s.linked node id).modules =
        s.modules := by
  have hrun := coincide_tryRun otherwise fuel settings
    (.new settings.limits sink (some source) settings.searchPaths)
  exact ⟨hrun.same, hrun.fault?, fun s node id => ⟨rfl, rfl⟩⟩

end Program

end ArenaScript
