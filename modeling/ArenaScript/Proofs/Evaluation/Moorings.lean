import ArenaScript.Proofs.Evaluation.Headroom
import ArenaScript.Proofs.Evaluation.Reachable
import ArenaScript.Proofs.Evaluation.Transparency

/-!
# Scopes of reachable engines

Scopes are made below scopes that are in use: those of frames, of bodies and
declarations, of modules.  None is ever removed, so what has been in use may be
linked later on.  All engines that hosts can get to are anchored therefore, and
they are at every moment of a request: blocks that declare nothing are
transparent wherever they may be entered.
-/

namespace ArenaScript

open Eval (Joint Atomic Elementary Scoping Threading)

theorem Eval.Atomic.scopes_le {α : Type} {x : Eval α} (hx : Atomic x)
    (s : Engine) : s.scopes.size ≤ (x.after s).scopes.size := by
  rcases hx.alters_after s with hsame | ⟨-, htame⟩
  · exact Nat.le_of_eq (congrArg (·.scopes.size) hsame.symm)
  · exact htame.scopes.size

structure Engine.Moored (s t : Engine) : Prop where
  anchored : t.Anchored
  grown : s.scopes.size ≤ t.scopes.size

namespace Engine.Moored

variable {s t u : Engine}

theorem refl (hs : s.Anchored) : s.Moored s := ⟨hs, Nat.le_refl _⟩

theorem trans (hst : s.Moored t) (htu : t.Moored u) : s.Moored u :=
  ⟨htu.anchored, Nat.le_trans hst.grown htu.grown⟩

end Engine.Moored

/-! ## The congruence -/

def Anchors {α : Type} (n : Nat) (x y : Eval α) : Prop :=
  ∀ s : Engine, n ≤ s.scopes.size → s.Anchored → Joint s.Moored x y s

namespace Anchors

variable {α β : Type} {n : Nat} {x y : Eval α}

theorem refl
    (h : ∀ s : Engine, n ≤ s.scopes.size → s.Anchored → s.Moored (x.after s)) :
    Anchors n x x := fun s hn hs => .refl (h s hn hs)

theorem elementary (hx : Elementary x) : Anchors n x x :=
  refl fun s _ hs => ⟨hx.anchored s hs, hx.atomic.scopes_le s⟩

theorem bind {f g : α → Eval β} (hxy : Anchors n x y)
    (hfg : ∀ a, Anchors n (f a) (g a)) :
    Anchors n (x >>= f) (y >>= g) := fun s hn hs =>
  (hxy s hn hs).bind
    (fun a t _ ht => (hfg a t (Nat.le_trans hn ht.grown) ht.anchored).mono
      fun _ hu => ht.trans hu) fun _ ht => ht

theorem map (f : α → β) (hxy : Anchors n x y) :
    Anchors n (f <$> x) (f <$> y) := by
  rw [map_eq_pure_bind, map_eq_pure_bind]
  exact hxy.bind fun a => elementary (.pure (f a))

theorem withScope {x : Eval ScopeId} {k l : ScopeId → Eval α}
    (hx : Scoping (fun scope => scope.index < n) x)
    (h : ∀ m scope, n ≤ m → scope.index < m → Anchors m (k scope) (l scope)) :
    Anchors n (x >>= k) (x >>= l) := by
  intro s hn hs
  obtain ⟨hanchored, hscope⟩ := hx.anchored hs fun _ h =>
    Nat.lt_of_lt_of_le h hn
  have hmoored : s.Moored (x.after s) := ⟨hanchored, hx.atomic.scopes_le s⟩
  refine (Joint.refl hmoored).bind (fun scope t hrun ht => ?_) fun _ ht => ht
  exact (h t.scopes.size scope (Nat.le_trans hn ht.grown) (hscope scope t hrun)
    t (Nat.le_refl _) ht.anchored).mono fun _ hu => ht.trans hu

theorem withTree (id : TreeId) (hxy : Anchors n x y) :
    Anchors n (Eval.withTree id x) (Eval.withTree id y) := fun s hn hs =>
  (hxy { s with currentTree := id } hn { hs with }).withTree fun _ ht =>
    ⟨{ ht.anchored with }, ht.grown⟩

theorem deeper (hxy : Anchors n x y) :
    Anchors n (Calls.deeper x) (Calls.deeper y) :=
  fun s hn hs =>
    (hxy { s with callDepth := s.callDepth + 1 } hn { hs with }).deeper
      fun _ ht => ⟨{ ht.anchored with }, ht.grown⟩

theorem fail (e : Failure) : Anchors n (Eval.fail e : Eval α) (Eval.fail e) :=
  refl fun _ _ hs => .refl hs

theorem inspect (f : Engine → Except Failure α) :
    Anchors n (Eval.inspect f) (Eval.inspect f) := by
  refine refl fun s _ hs => ?_
  unfold Eval.after Eval.inspect
  cases f s with
  | ok a => exact .refl hs
  | error e => exact .refl hs

theorem parseModule (path : String) :
    Anchors n (Eval.parseModule path) (Eval.parseModule path) :=
  bind (inspect _) fun _ => refl fun _ _ hs => ⟨{ hs with }, Nat.le_refl _⟩

theorem mapFailure {f : Engine → Failure → Failure} (hxy : Anchors n x y) :
    Anchors n (Eval.mapFailure f x) (Eval.mapFailure f y) := fun s hn hs =>
  (hxy s hn hs).mapFailure

/-! ### Frames -/

theorem pushFrame {scope : ScopeId} (hscope : scope.index < n)
    (kind : FrameKind) (call : Option CallRecord) :
    Anchors n (Eval.updateArena (·.pushFrame scope kind call))
      (Eval.updateArena (·.pushFrame scope kind call)) :=
  refl fun _ hn hs =>
    ⟨hs.pushFrame (Nat.lt_of_lt_of_le hscope hn) kind call, Nat.le_refl _⟩

theorem threading (n : Nat) : Threading fun x y => Anchors n x y where
  read f := elementary (.read f)
  updateArena _ hf := refl fun _ _ hs => ⟨hs.with_arena (hf _), Nat.le_refl _⟩
  onStop depth hxy s hn hs :=
    (hxy s hn hs).onStop fun _ ht =>
      ⟨ht.anchored.with_arena (.unwindTo _ depth), ht.grown⟩
  bind := bind

variable {c d : Calls}

theorem withFrame {scope : ScopeId} {kind : FrameKind}
    {call : Option CallRecord} (hscope : scope.index < n)
    (hdestroy : ∀ v, Anchors n (c.destroy v) (d.destroy v))
    (hxy : Anchors n x y) :
    Anchors n (c.withFrame scope kind call x) (d.withFrame scope kind call y) :=
  (threading n).withFrame hdestroy (pushFrame hscope kind call) hxy

theorem calling {x y : Eval Unit} (id : FunctionId) (f : Function)
    (home : TreeId) {scope : ScopeId} (hscope : scope.index < n)
    (hdestroy : ∀ v, Anchors n (c.destroy v) (d.destroy v))
    (hxy : Anchors n x y) :
    Anchors n (c.calling id f home scope x) (d.calling id f home scope y) := by
  refine .bind (.elementary (.inspect Congruence.ordinary_callDepth))
    fun _ => ?_
  refine .bind (.elementary (.allocateResult f.ret)) fun place => ?_
  exact .bind
    (.deeper (.withTree home (.withFrame hscope hdestroy hxy))) fun _ =>
      .elementary (.pure place)

/-! ### Declarations -/

theorem registerShell (name : String) (kind : StructKind) {scope : ScopeId}
    (hscope : scope.index < n) :
    Anchors n (Eval.registerShell name kind scope)
      (Eval.registerShell name kind scope) := by
  refine refl fun s hn hs => ?_
  unfold Eval.after Eval.registerShell
  cases hresult : s.types.register name (.shell kind) scope with
  | ok result =>
      exact ⟨hs.register hresult (Nat.lt_of_lt_of_le hscope hn), Nat.le_refl _⟩
  | error e => exact .refl hs

theorem completeType (type : TypeId) (fields : List Field)
    (variants : List (String × Int64)) :
    Anchors n (Eval.completeType type fields variants)
      (Eval.completeType type fields variants) := by
  refine refl fun s _ hs => ?_
  unfold Eval.after Eval.completeType
  cases hresult : s.types.complete type fields variants with
  | ok types => exact ⟨hs.complete hresult, Nat.le_refl _⟩
  | error e => exact .refl hs

def congruence : Congruence where
  World := Nat
  inTree n _ := n
  inBlock n := n
  inCall n := n
  Rel n x y := Anchors n x y
  Code _ _ := True
  InUse n scope := scope.index < n
  code_nested _ _ := trivial
  code_outer _ := trivial
  code_callable _ := trivial
  inUse_inTree _ h := h
  inUse_inBlock h := h
  atomic := elementary
  withScope hx h := withScope hx fun m scope hn hscope =>
    h m scope ⟨id, id, id, fun hold => Nat.lt_of_lt_of_le hold hn⟩ hscope
  link scope hother :=
    refl fun _ hn hs => ⟨hs.addImport scope (Nat.lt_of_lt_of_le hother hn),
      Nat.le_of_eq (ScopeTable.size_modify _ _ _).symm⟩
  bind := bind
  withTree := withTree
  block hscope _ hdestroy hxy := withFrame hscope hdestroy hxy
  initializer hscope hdestroy hxy := withFrame hscope hdestroy hxy
  call id f home _ hscope hdestroy hxy := calling id f home hscope hdestroy hxy
  function id h s hn hs := by
    refine .congr (Eval.bind_read _ _ s) (Eval.bind_read _ _ s) ?_
    exact h s.scopes.size _
      (fun home node scope hbody => ⟨trivial, hs.functions id _ _ _ hbody⟩)
      s (Nat.le_refl _) hs
  template id h s hn hs := by
    refine .congr (Eval.bind_read _ _ s) (Eval.bind_read _ _ s) ?_
    exact h s.scopes.size _ trivial (hs.templates id) s (Nat.le_refl _) hs
  shell name kind _ hscope hx := by
    refine bind (registerShell name kind hscope) fun type => ?_
    refine bind (hx type) fun members => ?_
    exact bind (completeType type _ _) fun _ => elementary (.pure type)
  addFunction _ hscope hf := by
    refine bind (elementary (.read _)) fun home => refl fun s hn hs => ?_
    refine ⟨hs.addFunction fun tree node scope hbody => ?_, Nat.le_refl _⟩
    rw [hf] at hbody
    cases hbody
    exact Nat.lt_of_lt_of_le hscope hn
  addTemplate _ hscope hd := by
    refine refl fun s hn hs => ⟨hs.addTemplate ?_, Nat.le_refl _⟩
    rw [(hd s.currentTree).2.2]
    exact Nat.lt_of_lt_of_le hscope hn

theorem congruence_mapsFailures : congruence.MapsFailures :=
  fun _ hxy => mapFailure hxy

end Anchors

/-! ## The evaluator -/

structure Calls.Anchored (c d : Calls) : Prop
    extends c.Matched Anchors.congruence d where
  loadModule : ∀ {n : Nat} request importer,
    Anchors n (c.loadModule request importer) (d.loadModule request importer)

namespace Calls.Anchored

variable {c d : Calls} {n : Nat}

theorem preload (hc : c.Anchored d) (path : String) (scope : ScopeId)
    (root node : Node) :
    Anchors n (c.preload path scope root node)
      (d.preload path scope root node) := by
  unfold Calls.preload
  refine .bind (.mapFailure (hc.loadModule node.text (some path))) fun dep => ?_
  split
  · exact .withScope (.module dep) fun _ _ _ hscope =>
      Anchors.congruence.link scope hscope
  · exact .elementary (.pure ())

theorem addModule_moored (path : String) (tree : TreeId) {s : Engine}
    (hs : s.Anchored) : s.Moored ((Eval.addModule path tree).after s) := by
  have hnew := s.scopes.size_lt_create .moduleScope (some .universe)
  have huniverse : ScopeId.universe.index < s.scopes.size :=
    Nat.lt_of_le_of_lt (Nat.zero_le _) hs.currentScope
  refine ⟨{ hs.createUnder .moduleScope huniverse with
    modules := fun id => ?_ }, Nat.le_of_lt hnew⟩
  change ((s.modules.modules.push _).getD id.index default).scope.index <
    (s.scopes.create .moduleScope (some .universe)).2.size
  rcases getD_push s.modules.modules ⟨path, tree, ⟨s.scopes.size⟩⟩ default
    id.index with hget | hget
  · rw [hget]
    exact hnew
  · rw [hget]
    exact Nat.lt_trans (hs.modules id) hnew

theorem evaluateModule (hc : c.Anchored d) (path : String) (tree : SyntaxTree) :
    Anchors n (c.evaluateModule path tree) (d.evaluateModule path tree) := by
  intro s hn hs
  cases hfound : s.modules.find? path with
  | some id =>
      have hknown : ∀ k : Calls, k.evaluateModule path tree s =
          (pure id : Eval ModuleId) s :=
        fun k => Within.evaluateModule_known k tree hfound
      exact .congr (hknown c) (hknown d) (.refl (.refl hs))
  | none =>
      have hadded := addModule_moored path tree.id hs
      have hscope : s.scopes.size <
          ((Eval.addModule path tree.id).after s).scopes.size :=
        s.scopes.size_lt_create .moduleScope _
      refine .congr (Within.evaluateModule_new c tree hfound)
        (Within.evaluateModule_new d tree hfound)
          (.mono ?_ fun _ ht => hadded.trans ht)
      refine Anchors.bind
        ((Anchors.threading _).forM (hc.preload path _ tree.root) _)
        (fun _ => ?_) _ (Nat.le_refl _) hadded.anchored
      refine .bind (.pushFrame hscope .moduleFrame none) fun _ => ?_
      refine .bind (.withTree tree.id ?_) fun _ => .elementary (.pure _)
      exact hc.executeAll fun _ _ => trivial

theorem loadModuleStep (hc : c.Anchored d) (request : String)
    (importer : Option String) :
    Anchors n (c.loadModuleStep request importer)
      (d.loadModuleStep request importer) := by
  unfold Calls.loadModuleStep
  refine .bind (.inspect _) fun path => .bind (.elementary (.read _))
    fun found => ?_
  cases found with
  | some id => exact .elementary (.pure id)
  | none =>
      exact .bind (.parseModule path) fun tree => hc.evaluateModule path tree

theorem watched {watch : Eval Unit}
    (hwatch : ∀ t : Engine, t.Anchored → watch t = .ok () t) (fuel : Nat) :
    (Calls.watched watch fuel).Anchored (ofFuel fuel) := by
  induction fuel with
  | zero =>
      exact { Matched.exhausted Anchors.congruence with
        loadModule := fun _ _ => .elementary .exhausted }
  | succ fuel ih =>
      have hwatched : ∀ {α : Type} {n : Nat} {x y : Eval α}, Anchors n x y →
          Anchors n (Eval.watched watch x) y := fun hxy s hn hs =>
        (hxy s hn hs).watched (hwatch s hs) fun t ht => hwatch t ht.anchored
      have hmatched := ih.toMatched
      rw [ofFuel_succ]
      exact
        { evaluate := fun node => hwatched (hmatched.evaluateStep node)
          execute := fun hnode =>
            hwatched (hmatched.executeStep Anchors.congruence_mapsFailures
              hnode fun _ => Paired.executeImport ih.loadModule
                (fun _ => Anchors.fail _) _)
          invoke := fun id args => hwatched (hmatched.invokeStep id args)
          resolveType :=
            fun node scope => hwatched (hmatched.resolveTypeStep node scope)
          copyConstruct :=
            fun dst src => hwatched (hmatched.copyConstructStep dst src)
          defaultConstruct :=
            fun place => hwatched (hmatched.defaultConstructStep place)
          destroy := fun v => hwatched (hmatched.destroyStep v)
          rounds := rfl
          loadModule := fun request importer =>
            hwatched (ih.loadModuleStep request importer) }

/-! ### Requests -/

theorem shutdown (hc : c.Anchored d) : Anchors n c.shutdown d.shutdown :=
  (Anchors.threading n).popFramesTo hc.destroy 0

theorem run (hc : c.Anchored d) (tree : SyntaxTree) (node : Node) :
    Anchors n (c.run tree node) (d.run tree node) := by
  unfold Calls.run
  refine .bind (.elementary (.read _)) fun depth =>
    (Anchors.threading n).onStop depth ?_
  refine .withTree tree.id ?_
  split
  · exact .map some (hc.evaluate node)
  · exact .bind (hc.execute trivial) fun _ => .elementary (.pure none)

theorem runItem (hc : c.Anchored d) (node : Node) :
    Anchors n (c.runItem node) (d.runItem node) := by
  unfold Calls.runItem
  refine .bind (.refl fun _ _ hs => ⟨{ hs with }, Nat.le_refl _⟩) fun tree => ?_
  cases tree.root.children with
  | nil => exact .elementary (.pure none)
  | cons node rest => exact hc.run tree node

theorem tryRun (hc : c.Anchored d) (settings : Settings) :
    Anchors n (Program.tryRun c settings) (Program.tryRun d settings) := by
  have hexit : ∀ code : Int32,
      Anchors n (do c.shutdown; pure code) (do d.shutdown; pure code) :=
    fun code => .bind hc.shutdown fun _ => .elementary (.pure code)
  unfold Program.tryRun
  refine .bind (.inspect _) fun path => .bind (.parseModule path) fun tree => ?_
  refine .bind (hc.evaluateModule path tree) fun id =>
    .bind (.inspect _) fun entry => ?_
  refine .bind (hc.invoke entry []) fun result => ?_
  cases result with
  | some value => exact .bind (.inspect _) hexit
  | none => exact hexit 0

theorem runProgram (hc : c.Anchored d) (settings : Settings) :
    Anchors n (Program.run c settings) (Program.run d settings) := by
  intro s hn hs
  rcases (hc.tryRun settings s hn hs).cases with ⟨code, t, hx, hy, ht⟩ |
    ⟨e, t, hx, hy, ht⟩
  · exact ⟨by simp only [Program.run, hx, hy],
      by simpa only [Eval.after, Program.run, hy]⟩
  · refine ⟨by simp only [Program.run, hx, hy], ?_⟩
    cases e with
    | failed e =>
        simp only [Eval.after, Program.run, hy]
        exact ⟨ht.anchored.with_arena (.unwindTo _ 0), ht.grown⟩
    | outOfFuel => simpa only [Eval.after, Program.run, hy]

theorem perform (hc : c.Anchored d) (request : Request) :
    Anchors n (request.perform c) (request.perform d) := by
  cases request with
  | evaluate tree node => exact .map _ (hc.run tree node)
  | item node => exact .map _ (hc.runItem node)
  | call id args => exact .map _ (hc.invoke id args)
  | load request importer => exact .map _ (hc.loadModule request importer)
  | enter path tree => exact .map _ (hc.evaluateModule path tree)
  | program settings => exact .map _ (hc.runProgram settings)
  | shutdown => exact hc.shutdown

end Calls.Anchored

/-! ## New engines -/

namespace Engine

variable {s : Engine}

theorem Anchored.addToUniverse (hs : s.Anchored) {f : Function}
    (native : Native) (hf : f.body = .native native) :
    (s.addToUniverse f).Anchored := by
  refine (hs.addFunction fun _ _ _ hbody => ?_).modifyScope rfl
    fun _ h => .inl h
  rw [hf] at hbody
  cases hbody

theorem builtin_members (id : TypeId) :
    ((TypeTable.builtin .empty).1.get id).members.index <
    (universeNames (TypeTable.builtin .empty).2).size := by
  have hall : ∀ i < (TypeTable.builtin .empty).1.size,
      ((TypeTable.builtin .empty).1.get ⟨i⟩).members.index <
        (universeNames (TypeTable.builtin .empty).2).size := by decide +kernel
  by_cases hid : (TypeTable.builtin .empty).1.Has id
  · exact hall id.index hid
  · rw [TypeTable.get_of_not_has hid]
    decide +kernel

theorem Anchored.new (limits : Limits) (sink : Sink)
    (source : Option ModuleSource) (searchPaths : List String) :
    (Engine.new limits sink source searchPaths).Anchored := by
  have huniverse : 0 < (universeNames (TypeTable.builtin .empty).2).size := by
    decide +kernel
  have hlinked : (universeNames (TypeTable.builtin .empty).2).Linked := by
    decide +kernel
  refine Anchored.addToUniverse (Anchored.addToUniverse ?_ (.print false) rfl)
    (.print true) rfl
  exact
    { scopes := hlinked
      nodes := fun _ h => absurd h List.not_mem_nil
      frames := fun f hf => by
        obtain rfl := List.mem_singleton.1 hf
        exact huniverse
      types := builtin_members
      functions := fun _ _ _ _ h => by cases h
      templates := fun _ => huniverse
      modules := fun _ => huniverse }

end Engine

/-! ## Reachable engines -/

/-- A block that is entered for the first time, and declares nothing, changes no
name, neither while it is running nor afterwards. -/
def Engine.BlocksTransparent (s : Engine) : Prop :=
  ∀ (scopes : ScopeTable) (kind : ScopeKind) (id : ScopeId),
    s.arena.frames ≠ [] →
    kind ≠ .moduleScope → s.scopes.Opens scopes kind s.currentScope id →
      s.SeesAlike (s.inBlock scopes id) ∧ (s.inBlock scopes id).Linked ∧
        (∀ c : Calls, c.popFramesTo s.arena.depth (s.inBlock scopes id) =
          .ok () { s with scopes }) ∧
        (s.inBlock scopes id).unwindTo s.arena.depth = { s with scopes } ∧
        s.SeesAlike { s with scopes }

theorem Engine.Linked.blocksTransparent {s : Engine} (hs : s.Linked) :
    s.BlocksTransparent := by
  intro scopes kind id hframes hkind hopens
  have h : s.Opening scopes kind id := ⟨hs, hframes, hopens, hkind⟩
  exact ⟨h.seesAlike_inBlock, h.linked_inBlock,
    fun c => popFramesTo_inBlock c s scopes id,
    unwindTo_inBlock s scopes id, h.seesAlike_opened⟩

/-- So a block that is executed for the first time begins where every name means
what it means before it. -/
theorem Engine.BlocksTransparent.executeBlock {s : Engine}
    (hs : s.BlocksTransparent) (hframes : s.arena.frames ≠ []) (c : Calls)
    {node : Node}
    (hnew : s.scopes.byNode.lookup (⟨s.currentTree, node.id⟩, s.currentScope) =
      none) :
    ∃ t : Engine, s.SeesAlike t ∧ t.Linked ∧ c.executeBlock node s =
      (do
        let flow ← Eval.onStop (·.unwindTo s.arena.depth)
          (c.executeAll node.children)
        c.popFramesTo s.arena.depth
        pure flow) t := by
  obtain ⟨hsees, hlinked, -⟩ :=
    hs _ .block _ hframes (by decide) (.scopeFor hnew .block)
  exact ⟨_, hsees, hlinked, executeBlock_eq c node s⟩

namespace Reachable

variable {s : Engine}

theorem anchored (hs : Reachable s) : s.Anchored := by
  induction hs with
  | new limits sink source searchPaths h =>
      exact .new limits sink source searchPaths
  | @after s fuel request _ _ ih =>
      have hquiet : ∀ t : Engine, t.Anchored →
          (pure () : Eval Unit) t = .ok () t :=
        fun _ _ => rfl
      have hjoint :=
        (Calls.Anchored.watched hquiet fuel).perform request s
          (Nat.zero_le _) ih
      exact hjoint.after.anchored

theorem linked (hs : Reachable s) : s.Linked :=
  ⟨hs.anchored.scopes, hs.anchored.frames⟩

theorem blocksTransparent (hs : Reachable s) : s.BlocksTransparent :=
  hs.linked.blocksTransparent

/-- So they are wherever a block may be entered while a request is performed. -/
theorem blocksTransparent_throughout (hs : Reachable s) (fuel : Nat)
    (request : Request) :
    Calls.Throughout Engine.BlocksTransparent fuel request.perform s := by
  intro watch hwatch
  have hanchored : ∀ t : Engine, t.Anchored → watch t = .ok () t := fun t ht =>
    hwatch t (Engine.Linked.blocksTransparent ⟨ht.scopes, ht.frames⟩)
  exact ((Calls.Anchored.watched hanchored fuel).perform request s
    (Nat.zero_le _) hs.anchored).same

end Reachable

end ArenaScript
