import ArenaScript.Proofs.Evaluation.Frames
import ArenaScript.Proofs.Evaluation.Parameters

/-!
# Blocks that declare nothing

A block runs in a frame and a scope of its own.  As long as nothing is declared
in them they are transparent: every name means what it meant outside of the
block, and the candidates of a call come in the same order.  When the frame is
popped, the scope is all that is left of the block.

Links between scopes lead to older scopes or to modules.  So the chain that
starts from a scope ends, and a scope that has just been made is in no other
chain.
-/

namespace ArenaScript

theorem eraseDups_append_append {α : Type} [BEq α] [LawfulBEq α]
    (xs ys : List α) : (xs ++ (xs ++ ys)).eraseDups = (xs ++ ys).eraseDups := by
  have hremoved : (xs ++ ys).removeAll xs = ys.removeAll xs := by
    simp [List.removeAll, List.filter_append]
  rw [List.eraseDups_append, hremoved, List.eraseDups_append]

theorem eraseDups_cons_of_notMem {α : Type} [BEq α] [LawfulBEq α] {x : α}
    {xs : List α} (h : x ∉ xs) : (x :: xs).eraseDups = x :: xs.eraseDups := by
  have hfilter : xs.filter (fun y => !y == x) = xs := by
    refine List.filter_eq_self.2 fun y hy => ?_
    have hne : y ≠ x := fun heq => h (heq ▸ hy)
    rw [beq_false_of_ne hne]
    rfl
  rw [List.eraseDups_cons, hfilter]

/-! ## Chains of scopes -/

namespace ScopeTable

variable {t u : ScopeTable} {id parent scope : ScopeId} {kind : ScopeKind}

theorem linked_iff : t.Linked ↔ ∀ i, i < t.size →
    (∀ parent ∈ (t.get ⟨i⟩).parent, parent.index < i) ∧
      ∀ other ∈ (t.get ⟨i⟩).imports, other.index < t.size := by
  constructor
  · exact fun h i _ => ⟨h.older ⟨i⟩, h.imports ⟨i⟩⟩
  · intro h
    have hlinks : ∀ id : ScopeId,
        (∀ parent ∈ (t.get id).parent, parent.index < id.index) ∧
        ∀ other ∈ (t.get id).imports, other.index < t.size := by
      intro id
      rcases Nat.lt_or_ge id.index t.size with hid | hid
      · exact h id.index hid
      · rw [get_of_size_le hid]
        exact ⟨nofun, nofun⟩
    exact ⟨fun id => (hlinks id).1, fun id => (hlinks id).2⟩

instance : Decidable t.Linked := decidable_of_iff' _ linked_iff

namespace Linked

theorem ancestorsFrom_eq (ht : t.Linked) {rounds other : Nat}
    (hrounds : id.index ≤ rounds) (hother : id.index ≤ other) :
    t.ancestorsFrom id rounds = t.ancestorsFrom id other := by
  induction rounds generalizing id other with
  | zero =>
      have hparent : (t.get id).parent = none := by
        cases hlink : (t.get id).parent with
        | none => rfl
        | some parent => exact absurd (ht.older id parent hlink) (by omega)
      cases other with
      | zero => rfl
      | succ other => simp only [ancestorsFrom, hparent]
  | succ rounds ih =>
      cases hlink : (t.get id).parent with
      | none => cases other <;> simp only [ancestorsFrom, hlink]
      | some parent =>
          have holder := ht.older id parent hlink
          obtain ⟨other, rfl⟩ :=
            Nat.exists_eq_succ_of_ne_zero (show other ≠ 0 by omega)
          rw [ancestorsFrom_parent hlink, ancestorsFrom_parent hlink,
            ih (show parent.index ≤ rounds by omega)
              (show parent.index ≤ other by omega)]

theorem ancestors_cons (ht : t.Linked)
    (hlink : (t.get id).parent = some parent) :
    t.ancestors id = id :: t.ancestors parent := by
  have holder := ht.older id parent hlink
  obtain ⟨rounds, hrounds⟩ :=
    Nat.exists_eq_succ_of_ne_zero (show id.index ≠ 0 by omega)
  rw [ancestors, hrounds, ancestorsFrom_parent hlink,
    ht.ancestorsFrom_eq (show parent.index ≤ rounds by omega) (Nat.le_refl _),
    ancestors]

theorem le_of_mem_ancestorsFrom (ht : t.Linked) {rounds : Nat}
    (h : scope ∈ t.ancestorsFrom id rounds) : scope.index ≤ id.index := by
  induction rounds generalizing id with
  | zero => exact Nat.le_of_eq (congrArg ScopeId.index (List.mem_singleton.1 h))
  | succ rounds ih =>
      cases hlink : (t.get id).parent with
      | none =>
          rw [ancestorsFrom, hlink] at h
          exact Nat.le_of_eq (congrArg ScopeId.index (List.mem_singleton.1 h))
      | some parent =>
          rw [ancestorsFrom_parent hlink] at h
          rcases List.mem_cons.1 h with rfl | hrest
          · exact Nat.le_refl _
          · exact Nat.le_trans (ih hrest)
              (Nat.le_of_lt (ht.older id parent hlink))

theorem lt_of_mem_ancestors (ht : t.Linked) (hid : id.index < t.size) :
    ∀ scope ∈ t.ancestors id, scope.index < t.size :=
  fun _ hmem => Nat.lt_of_le_of_lt (ht.le_of_mem_ancestorsFrom hmem) hid

theorem lt_of_mem_closure (ht : t.Linked) (hid : id.index < t.size)
    (h : scope ∈ t.closure id) : scope.index < t.size := by
  obtain ⟨ancestor, hancestor, hmem⟩ := List.mem_flatMap.1 h
  rcases List.mem_cons.1 hmem with rfl | himport
  · exact ht.lt_of_mem_ancestors hid _ hancestor
  · exact ht.imports ancestor scope himport

end Linked

/-! ## A new scope -/

/-- In `u` there is one scope more, `id`, which is empty. -/
structure Opens (t u : ScopeTable) (kind : ScopeKind) (parent id : ScopeId) :
    Prop where
  id_eq : id = ⟨t.size⟩
  scopes : u.scopes = t.scopes.push { kind, parent := some parent }

theorem Opens.create (t : ScopeTable) (kind : ScopeKind) (parent : ScopeId) :
    t.Opens (t.create kind (some parent)).2 kind parent
      (t.create kind (some parent)).1 :=
  ⟨rfl, rfl⟩

theorem Opens.scopeFor {key : NodeKey}
    (h : t.byNode.lookup (key, parent) = none) (kind : ScopeKind) :
    t.Opens (t.scopeFor key kind parent).2 kind parent
      (t.scopeFor key kind parent).1 := by
  simp only [ScopeTable.scopeFor, h]
  exact ⟨rfl, rfl⟩

namespace Opens

theorem size (h : t.Opens u kind parent id) : u.size = t.size + 1 := by
  simp [ScopeTable.size, h.scopes]

theorem get_old (h : t.Opens u kind parent id) (hscope : scope.index < t.size) :
    u.get scope = t.get scope := by
  have hlt : scope.index < t.scopes.size := hscope
  simp [get, h.scopes, hlt, Array.getElem?_push, Nat.ne_of_lt hlt]

theorem get_new (h : t.Opens u kind parent id) :
    u.get id = { kind, parent := some parent } := by
  simp [get, h.scopes, h.id_eq, ScopeTable.size]

theorem linked (h : t.Opens u kind parent id) (ht : t.Linked)
    (hparent : parent.index < t.size) : u.Linked := by
  have hcreated : (t.create kind (some parent)).2.Linked := by
    refine ht.create ?_
    rintro scope ⟨⟩
    exact hparent
  have hget : u.get = (t.create kind (some parent)).2.get := by
    funext scope
    rw [get, h.scopes]
    rfl
  constructor
  · rw [hget]
    exact hcreated.older
  · rw [hget, ScopeTable.size, h.scopes]
    exact hcreated.imports

theorem ancestors_old (h : t.Opens u kind parent id) (ht : t.Linked)
    (hscope : scope.index < t.size) :
    u.ancestors scope = t.ancestors scope := by
  have hfrom : ∀ (rounds : Nat) (scope : ScopeId), scope.index < t.size →
      u.ancestorsFrom scope rounds = t.ancestorsFrom scope rounds := by
    intro rounds
    induction rounds with
    | zero => exact fun _ _ => rfl
    | succ rounds ih =>
        intro scope hscope
        rw [ancestorsFrom, ancestorsFrom, h.get_old hscope]
        split
        · rename_i other hlink
          rw [ih other (Nat.lt_trans (ht.older scope other hlink) hscope)]
        · rfl
  exact hfrom _ scope hscope

theorem ancestors_new (h : t.Opens u kind parent id) (ht : t.Linked)
    (hparent : parent.index < t.size) :
    u.ancestors id = id :: t.ancestors parent := by
  have hlink : (u.get id).parent = some parent := by rw [h.get_new]
  rw [(h.linked ht hparent).ancestors_cons hlink, h.ancestors_old ht hparent]

theorem closure_old (h : t.Opens u kind parent id) (ht : t.Linked)
    (hscope : scope.index < t.size) : u.closure scope = t.closure scope := by
  rw [closure, closure, h.ancestors_old ht hscope, List.flatMap_def,
    List.flatMap_def]
  refine congrArg List.flatten (List.map_congr_left fun other hother => ?_)
  rw [h.get_old (ht.lt_of_mem_ancestors hscope other hother)]

theorem closure_new (h : t.Opens u kind parent id) (ht : t.Linked)
    (hparent : parent.index < t.size) :
    u.closure id = id :: t.closure parent := by
  have hbare : (u.get id).imports = [] := by rw [h.get_new]
  have hold := h.closure_old ht hparent
  rw [closure, h.ancestors_old ht hparent] at hold
  rw [closure, h.ancestors_new ht hparent, List.flatMap_cons, hbare, hold]
  rfl

theorem findSome?_old {β : Type} {f : ScopeId → Scope → Option β}
    (h : t.Opens u kind parent id) {chain : List ScopeId}
    (hchain : ∀ scope ∈ chain, scope.index < t.size) :
    chain.findSome? (fun scope => f scope (u.get scope)) =
      chain.findSome? fun scope => f scope (t.get scope) := by
  induction chain with
  | nil => rfl
  | cons scope rest ih =>
      obtain ⟨hscope, hrest⟩ := List.forall_mem_cons.1 hchain
      rw [List.findSome?_cons, List.findSome?_cons, h.get_old hscope, ih hrest]

theorem findSome?_new {β : Type} {f : ScopeId → Scope → Option β}
    (h : t.Opens u kind parent id)
    (hempty : f id { kind, parent := some parent } = none)
    {chain : List ScopeId} (hchain : ∀ scope ∈ chain, scope.index < t.size) :
    (id :: chain).findSome? (fun scope => f scope (u.get scope)) =
      chain.findSome? fun scope => f scope (t.get scope) := by
  rw [List.findSome?_cons, h.get_new, hempty]
  exact h.findSome?_old hchain

end Opens

end ScopeTable

/-! ## Engines in an empty block -/

namespace Engine

variable {s t : Engine} {scopes : ScopeTable} {kind : ScopeKind} {id : ScopeId}

/-- The scopes are linked, and the frames are in scopes of the table. -/
structure Linked (s : Engine) : Prop where
  scopes : s.scopes.Linked
  frames : ∀ f ∈ s.arena.frames, f.scope.index < s.scopes.size

theorem linked_iff : s.Linked ↔
    s.scopes.Linked ∧ ∀ f ∈ s.arena.frames, f.scope.index < s.scopes.size :=
  ⟨fun h => ⟨h.scopes, h.frames⟩, fun h => ⟨h.1, h.2⟩⟩

instance : Decidable s.Linked := decidable_of_iff' _ linked_iff

/-- Every name means the same to both engines. -/
structure SeesAlike (s t : Engine) : Prop where
  names : ∀ name, t.lookupVariable name = s.lookupVariable name
  functions : ∀ name, t.functionCandidates name = s.functionCandidates name
  operators : ∀ symbol, t.operatorCandidates symbol =
    s.operatorCandidates symbol
  templateFunctions : ∀ name,
    t.templateFunctionCandidates name = s.templateFunctionCandidates name
  types : ∀ name, t.scopes.resolveTypeName t.currentScope name =
    s.scopes.resolveTypeName s.currentScope name
  templateParams : ∀ name, t.scopes.findTemplateParam t.currentScope name =
    s.scopes.findTemplateParam s.currentScope name
  templateTypes : ∀ name, t.scopes.findTemplateType t.currentScope name =
    s.scopes.findTemplateType s.currentScope name

/-- The engine in a block whose scope is `id` of the given scopes. -/
def inBlock (s : Engine) (scopes : ScopeTable) (id : ScopeId) : Engine :=
  ({ s with scopes } : Engine).pushed id .block none

/-- A block that is entered for the first time runs its statements in the engine
in that block. -/
theorem executeBlock_eq (c : Calls) (node : Node) (s : Engine) :
    c.executeBlock node s =
      (do
        let flow ← Eval.onStop (·.unwindTo s.arena.depth)
          (c.executeAll node.children)
        c.popFramesTo s.arena.depth
        pure flow)
      (s.inBlock (s.scopes.scopeFor ⟨s.currentTree, node.id⟩ .block
        s.currentScope).2
        (s.scopes.scopeFor ⟨s.currentTree, node.id⟩ .block s.currentScope).1) :=
          rfl

theorem Linked.currentScope_lt (hs : s.Linked) (hframes : s.arena.frames ≠ []) :
    s.currentScope.index < s.scopes.size := by
  obtain ⟨top, rest, hcons⟩ := List.exists_cons_of_ne_nil hframes
  have htop : s.currentScope = top.scope := by
    simp [currentScope, Arena.top?, hcons]
  rw [htop]
  exact hs.frames top (hcons ▸ List.mem_cons_self)

theorem Linked.lt_of_mem_visibleScopes (hs : s.Linked) :
    ∀ scope ∈ s.visibleScopes, scope.index < s.scopes.size := by
  intro scope hscope
  obtain ⟨inner, hinner, hmem⟩ :=
    List.mem_flatMap.1 (List.mem_eraseDups.1 hscope)
  obtain ⟨f, hf, rfl⟩ := List.mem_map.1 (List.mem_eraseDups.1 hinner)
  exact hs.scopes.lt_of_mem_closure (hs.frames f hf) hmem

structure Opening (s : Engine) (scopes : ScopeTable) (kind : ScopeKind)
    (id : ScopeId) : Prop where
  linked : s.Linked
  live : s.arena.frames ≠ []
  opens : s.scopes.Opens scopes kind s.currentScope id
  kind : kind ≠ .moduleScope

namespace Opening

variable (h : s.Opening scopes kind id)

include h

theorem currentScope_lt : s.currentScope.index < s.scopes.size :=
  h.linked.currentScope_lt h.live

theorem notMem {chain : List ScopeId}
    (hchain : ∀ scope ∈ chain, scope.index < s.scopes.size) : id ∉ chain := by
  intro hid
  have hlt := hchain id hid
  rw [h.opens.id_eq] at hlt
  exact Nat.lt_irrefl _ hlt

/-! ### Candidates -/

theorem closures :
    (s.arena.frames.map Frame.scope).eraseDups.flatMap scopes.closure =
    (s.arena.frames.map Frame.scope).eraseDups.flatMap s.scopes.closure := by
  rw [List.flatMap_def, List.flatMap_def]
  refine congrArg List.flatten (List.map_congr_left fun scope hscope => ?_)
  obtain ⟨f, hf, rfl⟩ := List.mem_map.1 (List.mem_eraseDups.1 hscope)
  exact h.opens.closure_old h.linked.scopes (h.linked.frames f hf)

/-- What is seen from the current scope is seen first, so it makes no difference
that it is seen from the block as well. -/
theorem visibleScopes_inBlock :
    (s.inBlock scopes id).visibleScopes = id :: s.visibleScopes := by
  have hscopes : ∀ scope ∈ s.arena.frames.map Frame.scope,
      scope.index < s.scopes.size := by
    intro scope hscope
    obtain ⟨f, hf, rfl⟩ := List.mem_map.1 hscope
    exact h.linked.frames f hf
  have hstart : ∃ rest,
      (s.arena.frames.map Frame.scope).eraseDups.flatMap s.scopes.closure =
      s.scopes.closure s.currentScope ++ rest := by
    obtain ⟨top, below, hcons⟩ := List.exists_cons_of_ne_nil h.live
    have htop : s.currentScope = top.scope := by
      simp [currentScope, Arena.top?, hcons]
    rw [hcons, List.map_cons, List.eraseDups_cons, List.flatMap_cons, htop]
    exact ⟨_, rfl⟩
  have hall : ∀ scope ∈ s.scopes.closure s.currentScope ++
      (s.arena.frames.map Frame.scope).eraseDups.flatMap s.scopes.closure,
      scope.index < s.scopes.size := by
    intro scope hscope
    rcases List.mem_append.1 hscope with hfirst | hrest
    · exact h.linked.scopes.lt_of_mem_closure h.currentScope_lt hfirst
    · exact h.linked.lt_of_mem_visibleScopes scope (List.mem_eraseDups.2 hrest)
  have hframes : (s.inBlock scopes id).arena.frames.map Frame.scope =
      id :: s.arena.frames.map Frame.scope := rfl
  have htable : (s.inBlock scopes id).scopes = scopes := rfl
  unfold visibleScopes
  rw [hframes, htable, eraseDups_cons_of_notMem (h.notMem hscopes),
    List.flatMap_cons, h.closures,
    h.opens.closure_new h.linked.scopes h.currentScope_lt, List.cons_append,
    eraseDups_cons_of_notMem (h.notMem hall)]
  obtain ⟨rest, hrest⟩ := hstart
  rw [hrest, eraseDups_append_append]

theorem visibleScopes_opened :
    ({ s with scopes } : Engine).visibleScopes = s.visibleScopes := by
  have hall := h.closures
  unfold visibleScopes
  exact congrArg List.eraseDups hall

theorem flatMap_visibleScopes {α : Type} (f : Scope → List α) :
    s.visibleScopes.flatMap (fun scope => f (scopes.get scope)) =
      s.visibleScopes.flatMap fun scope => f (s.scopes.get scope) := by
  rw [List.flatMap_def, List.flatMap_def]
  refine congrArg List.flatten (List.map_congr_left fun scope hscope => ?_)
  rw [h.opens.get_old (h.linked.lt_of_mem_visibleScopes scope hscope)]

theorem gather_inBlock {α : Type} [BEq α] {f : Scope → List α}
    (hempty : f { kind, parent := some s.currentScope } = []) :
    (s.inBlock scopes id).gather f = s.gather f := by
  have hall := h.flatMap_visibleScopes f
  have hnew : f (scopes.get id) = [] := by rw [h.opens.get_new, hempty]
  unfold gather
  rw [h.visibleScopes_inBlock, List.flatMap_cons]
  change (f (scopes.get id) ++ _).eraseDups = _
  rw [hnew]
  exact congrArg List.eraseDups hall

theorem gather_opened {α : Type} [BEq α] (f : Scope → List α) :
    ({ s with scopes } : Engine).gather f = s.gather f := by
  have hall := h.flatMap_visibleScopes f
  unfold gather
  rw [h.visibleScopes_opened]
  exact congrArg List.eraseDups hall

/-! ### Variables -/

theorem chain :
    ∀ scope ∈ s.scopes.ancestors s.currentScope, scope.index < s.scopes.size :=
  h.linked.scopes.lt_of_mem_ancestors h.currentScope_lt

theorem globalScopes_opened :
    ({ s with scopes } : Engine).globalScopes s.currentScope =
      s.globalScopes s.currentScope := by
  have hold := h.opens.ancestors_old h.linked.scopes h.currentScope_lt
  have hmodule : scopes.enclosingModule s.currentScope =
      s.scopes.enclosingModule s.currentScope := by
    unfold ScopeTable.enclosingModule
    rw [hold, List.find?_eq_findSome?_guard, List.find?_eq_findSome?_guard]
    exact h.opens.findSome?_old (f := fun id scope =>
      Option.guard (fun _ => scope.kind == .moduleScope) id) h.chain
  have himports :
      (scopes.ancestors s.currentScope).flatMap
        (fun id => (scopes.get id).imports) =
      (s.scopes.ancestors s.currentScope).flatMap fun id =>
        (s.scopes.get id).imports := by
    rw [hold, List.flatMap_def, List.flatMap_def]
    refine congrArg List.flatten (List.map_congr_left fun scope hscope => ?_)
    rw [h.opens.get_old (h.chain scope hscope)]
  unfold globalScopes
  exact congr
    (congrArg _ (congr (congrArg _ (congrArg Option.toList hmodule)) himports))
      rfl

theorem globalScopes_inBlock :
    (s.inBlock scopes id).globalScopes id = s.globalScopes s.currentScope := by
  have hlink : (scopes.get id).parent = some s.currentScope := by
    rw [h.opens.get_new]
  have hbare : (scopes.get id).imports = [] := by rw [h.opens.get_new]
  have hplain : ((scopes.get id).kind == .moduleScope) = false := by
    rw [h.opens.get_new]
    exact beq_false_of_ne h.kind
  have hchain :=
    (h.opens.linked h.linked.scopes h.currentScope_lt).ancestors_cons hlink
  rw [← h.globalScopes_opened]
  change (scopes.enclosingModule id).toList ++
      (scopes.ancestors id).flatMap (fun id => (scopes.get id).imports) ++
        [.universe] = (scopes.enclosingModule s.currentScope).toList ++
      (scopes.ancestors s.currentScope).flatMap
        (fun id => (scopes.get id).imports) ++ [.universe]
  rw [ScopeTable.enclosingModule, hchain, List.find?_cons, hplain,
    List.flatMap_cons, hbare]
  rfl

omit h in
theorem rootFrame?_inBlock (scope : ScopeId) :
    (s.inBlock scopes id).rootFrame? scope = s.rootFrame? scope := by
  have hframes : (s.inBlock scopes id).arena.frames =
      { base := s.arena.mark, scope := id, kind := .block, call := none } ::
        s.arena.frames := rfl
  unfold rootFrame?
  rw [hframes, List.reverse_cons, List.find?_append]
  exact Option.or_none

theorem globalFrames_inBlock :
    (s.inBlock scopes id).globalFrames id = s.globalFrames s.currentScope := by
  unfold globalFrames
  rw [h.globalScopes_inBlock]
  exact congrArg (List.filterMap · _) (funext rootFrame?_inBlock)

theorem globalFrames_opened :
    ({ s with scopes } : Engine).globalFrames s.currentScope =
      s.globalFrames s.currentScope :=
  congrArg (List.filterMap s.rootFrame?) h.globalScopes_opened

omit h in
theorem localIn_inBlock (frames : List Frame) (base : Nat) (scope : ScopeId)
    (name : String) :
    localIn ({ base, scope, kind := .block, call := none } :: frames) name =
      localIn frames name := by
  unfold localIn
  rw [List.findSome?_cons]
  simp only [Frame.local?, Bindings.get?_empty, Option.map_none]

theorem lookupVariable_inBlock (name : String) :
    (s.inBlock scopes id).lookupVariable name = s.lookupVariable name := by
  have hreachable : reachableFrames (s.inBlock scopes id).arena.frames =
      { base := s.arena.mark, scope := id, kind := .block, call := none } ::
        reachableFrames s.arena.frames := rfl
  have hlast : (reachableFrames (s.inBlock scopes id).arena.frames).getLast? =
      (reachableFrames s.arena.frames).getLast? := by
    obtain ⟨top, below, hcons⟩ := List.exists_cons_of_ne_nil h.live
    obtain ⟨first, rest, hfirst⟩ :
      ∃ first rest, reachableFrames s.arena.frames = first :: rest := by
      rw [hcons, reachableFrames]
      split
      · exact ⟨_, _, rfl⟩
      · exact ⟨_, _, rfl⟩
    rw [hreachable, hfirst, List.getLast?_cons_cons]
  have hfield : (s.inBlock scopes id).fieldThroughSelf = s.fieldThroughSelf :=
    rfl
  have hscope : (s.inBlock scopes id).currentScope = id := rfl
  unfold lookupVariable
  simp only [hlast, hfield, hscope, h.globalFrames_inBlock]
  simp only [hreachable, localIn_inBlock]

theorem lookupVariable_opened (name : String) :
    ({ s with scopes } : Engine).lookupVariable name =
      s.lookupVariable name := by
  have hglobal := h.globalFrames_opened
  have hscope : ({ s with scopes } : Engine).currentScope =
      s.currentScope := rfl
  have hfield : ({ s with scopes } : Engine).fieldThroughSelf =
      s.fieldThroughSelf := rfl
  unfold lookupVariable
  simp only [hscope, hfield, hglobal]

/-! ### Names of types -/

theorem closure_lt :
    ∀ scope ∈ s.scopes.closure s.currentScope, scope.index < s.scopes.size :=
  fun _ hscope => h.linked.scopes.lt_of_mem_closure h.currentScope_lt hscope

theorem inClosure_inBlock {β : Type} (f : Scope → Option β)
    (hempty : f { kind, parent := some s.currentScope } = none) :
    (scopes.closure id).findSome? (fun scope => f (scopes.get scope)) =
      (s.scopes.closure s.currentScope).findSome? fun scope =>
        f (s.scopes.get scope) := by
  rw [h.opens.closure_new h.linked.scopes h.currentScope_lt]
  exact h.opens.findSome?_new (f := fun _ => f) hempty h.closure_lt

theorem inClosure_opened {β : Type} (f : Scope → Option β) :
    (scopes.closure s.currentScope).findSome?
      (fun scope => f (scopes.get scope)) =
      (s.scopes.closure s.currentScope).findSome? fun scope =>
        f (s.scopes.get scope) := by
  rw [h.opens.closure_old h.linked.scopes h.currentScope_lt]
  exact h.opens.findSome?_old (f := fun _ => f) h.closure_lt

theorem seesAlike_inBlock : s.SeesAlike (s.inBlock scopes id) where
  names := h.lookupVariable_inBlock
  functions name :=
    h.gather_inBlock (by simp [Scope.findFunction, Overloads.get])
  operators symbol :=
    h.gather_inBlock (by simp [Scope.findOperator, Overloads.get])
  templateFunctions name :=
    h.gather_inBlock (by simp [Scope.findTemplateFunctions, Overloads.get])
  types name :=
    h.inClosure_inBlock (·.types.get? name) (Bindings.get?_empty name)
  templateParams name := by
    change (scopes.ancestors id).findSome?
      (fun scope => (scopes.get scope).templateParams.get? name) = _
    rw [h.opens.ancestors_new h.linked.scopes h.currentScope_lt]
    exact h.opens.findSome?_new
      (f := fun _ scope => scope.templateParams.get? name)
      (Bindings.get?_empty name) h.chain
  templateTypes name :=
    h.inClosure_inBlock (·.templateTypes.get? name) (Bindings.get?_empty name)

theorem seesAlike_opened : s.SeesAlike { s with scopes } where
  names := h.lookupVariable_opened
  functions _ := h.gather_opened _
  operators _ := h.gather_opened _
  templateFunctions _ := h.gather_opened _
  types name := h.inClosure_opened (·.types.get? name)
  templateParams name := by
    change (scopes.ancestors s.currentScope).findSome?
      (fun scope => (scopes.get scope).templateParams.get? name) = _
    rw [h.opens.ancestors_old h.linked.scopes h.currentScope_lt]
    exact h.opens.findSome?_old
      (f := fun _ scope => scope.templateParams.get? name) h.chain
  templateTypes name := h.inClosure_opened (·.templateTypes.get? name)

theorem linked_inBlock : (s.inBlock scopes id).Linked where
  scopes := h.opens.linked h.linked.scopes h.currentScope_lt
  frames f hf := by
    change f.scope.index < scopes.size
    rw [h.opens.size]
    rcases List.mem_cons.1 hf with rfl | hf
    · change id.index < s.scopes.size + 1
      rw [h.opens.id_eq]
      exact Nat.lt_succ_self _
    · exact Nat.lt_succ_of_lt (h.linked.frames f hf)

end Opening

/-! ## Leaving the block -/

theorem popFrame_inBlock (s : Engine) (scopes : ScopeTable) (id : ScopeId) :
    (s.inBlock scopes id).arena.popFrame = s.arena := rfl

theorem unwindTo_inBlock (s : Engine) (scopes : ScopeTable) (id : ScopeId) :
    (s.inBlock scopes id).unwindTo s.arena.depth = { s with scopes } := by
  have hunwind : Arena.unwind s.arena.depth s.arena.mark
      ({ base := s.arena.mark, scope := id, kind := .block, call := none } ::
        s.arena.frames) = (s.arena.frames, s.arena.mark) := by
    have hdepth : s.arena.depth ≤ s.arena.frames.length := Nat.le_refl _
    rw [Arena.unwind, if_pos hdepth]
    exact Arena.unwind_length _ _
  simp only [Engine.unwindTo, Arena.unwindTo, inBlock, pushed,
    Arena.pushFrame, hunwind]

theorem popFramesTo_inBlock (c : Calls) (s : Engine) (scopes : ScopeTable)
    (id : ScopeId) :
    c.popFramesTo s.arena.depth (s.inBlock scopes id) =
      .ok () { s with scopes } := by
  have hdepth : (s.inBlock scopes id).arena.depth = s.arena.depth + 1 := rfl
  have hpop : c.popFrame s.arena.depth (s.inBlock scopes id) =
      .ok () { s with scopes } := rfl
  have hrestored : s.Restored { s with scopes } := ⟨rfl, rfl, rfl, rfl, rfl⟩
  change c.popFrames s.arena.depth (s.inBlock scopes id).arena.depth
    (s.inBlock scopes id) = _
  rw [hdepth, Calls.popFrames_succ,
    if_pos (by rw [hdepth]; exact Nat.lt_succ_self _), Eval.bind_ok hpop]
  exact Calls.popFrames_restored hrestored _

theorem executeBlock_of_no_children (c : Calls) {node : Node}
    (hchildren : node.children = []) (s : Engine) :
    c.executeBlock node s = .ok .normal { s with
      scopes :=
        (s.scopes.scopeFor ⟨s.currentTree, node.id⟩ .block
          s.currentScope).2 } := by
  rw [executeBlock_eq, hchildren]
  have hrun : ∀ t : Engine,
      Eval.onStop (·.unwindTo s.arena.depth) (c.executeAll []) t =
      .ok .normal t := fun _ => rfl
  rw [Eval.bind_ok (hrun _), Eval.bind_ok (popFramesTo_inBlock c s _ _)]
  rfl

/-! ## Transparency -/

/-- In a block that has just been entered every name means what it meant outside
of the block.  Leaving the block restores the engine but for the table of
scopes, in which the empty scope stays, and there every name still means the
same. -/
theorem empty_block_transparent (hs : s.Linked) (hframes : s.arena.frames ≠ [])
    (hkind : kind ≠ .moduleScope)
    (hopens : s.scopes.Opens scopes kind s.currentScope id) :
    s.SeesAlike (s.inBlock scopes id) ∧
      (s.inBlock scopes id).arena.popFrame = s.arena ∧
      (s.inBlock scopes id).unwindTo s.arena.depth = { s with scopes } ∧
      (∀ c : Calls, c.popFramesTo s.arena.depth (s.inBlock scopes id) =
        .ok () { s with scopes }) ∧
      s.SeesAlike { s with scopes } :=
  have h : s.Opening scopes kind id := ⟨hs, hframes, hopens, hkind⟩
  ⟨h.seesAlike_inBlock, popFrame_inBlock s scopes id,
    unwindTo_inBlock s scopes id,
    fun c => popFramesTo_inBlock c s scopes id, h.seesAlike_opened⟩

namespace Overloaded

def scopeTable : ScopeTable where
  scopes := #[{ kind := .universe, parent := none },
    { kind := .moduleScope, parent := some .universe,
      functions := Overloads.push .empty "f" ⟨0⟩ },
    { kind := .moduleScope, parent := some .universe, imports := [⟨1⟩],
      functions := Overloads.push .empty "f" ⟨1⟩ },
    { kind := .function, parent := some ⟨2⟩ }]
  byNode := []

def engine : Engine :=
  { Engine.new {} ⟨.silent, ""⟩ none [] with
    scopes := scopeTable
    arena :=
      { capacity := 64
        bytes := #[]
        mark := 24
        frames :=
          [⟨20, ⟨3⟩, .function, some ⟨⟨1⟩, none, none⟩, .empty, []⟩,
            ⟨16, ⟨2⟩, .moduleFrame, none, .empty, []⟩,
            ⟨12, ⟨1⟩, .moduleFrame, none,
              Bindings.empty.put "g" ⟨.int32, 0⟩, []⟩,
            ⟨8, .universe, .universe, none, .empty, []⟩] } }

def inside : Engine :=
  engine.inBlock (engine.scopes.create .block (some engine.currentScope)).2 ⟨4⟩

end Overloaded

open Overloaded in
theorem empty_block_transparent_overloaded :
    engine.Linked ∧ engine.arena.frames ≠ [] ∧ ScopeKind.block ≠ .moduleScope ∧
      engine.SeesAlike inside ∧
      inside.functionCandidates "f" = [.function ⟨1⟩, .function ⟨0⟩] ∧
      inside.lookupVariable "g" = .ok (some ⟨.int32, 12⟩) := by
  have hlinked : engine.Linked := by decide +kernel
  have hlive : engine.arena.frames ≠ [] := by
    intro h
    cases h
  have hsees : engine.SeesAlike inside :=
    (empty_block_transparent hlinked hlive (by decide) (.create _ .block _)).1
  refine ⟨hlinked, hlive, by decide, hsees, ?_, ?_⟩
  · rw [hsees.functions]
    decide +kernel
  · rw [hsees.names]
    rfl

end Engine

end ArenaScript
