import ArenaScript.Proofs.Evaluation.Atomic

/-!
# Scopes in use

Links between scopes lead to older scopes or to modules.  An engine is anchored
if this holds of its table of scopes, and if the table has all the scopes that
the engine refers to: those of frames, of bodies and declarations, of the
members of types and of modules.  Computations that make no scopes and do not
link any keep engines anchored.
-/

namespace ArenaScript

theorem getD_modify {α : Type} (a : Array α) (f : α → α) (d : α) (k i : Nat) :
    (a.modify k f).getD i d = a.getD i d ∨
    (a.modify k f).getD i d = f (a.getD i d) := by
  simp only [Array.getD_eq_getD_getElem?, Array.getElem?_modify]
  cases a[i]? with
  | none => simp
  | some x =>
      split
      · exact .inr rfl
      · exact .inl rfl

/-! ## Chains of scopes -/

namespace ScopeTable

variable {t u : ScopeTable} {id : ScopeId}

structure Linked (t : ScopeTable) : Prop where
  older : ∀ id parent : ScopeId, (t.get id).parent = some parent →
    parent.index < id.index
  imports : ∀ id : ScopeId, ∀ other ∈ (t.get id).imports, other.index < t.size

theorem get_of_size_le (h : t.size ≤ id.index) :
    t.get id = { kind := .universe, parent := none } := by
  rw [get, Array.getD_eq_getD_getElem?, Array.getElem?_eq_none h]
  rfl

theorem get_create (t : ScopeTable) (kind : ScopeKind) (parent : Option ScopeId)
    (id : ScopeId) :
    (t.create kind parent).2.get id = { kind, parent } ∧ id.index = t.size ∨
      (t.create kind parent).2.get id = t.get id := by
  rcases Nat.lt_trichotomy id.index t.size with hold | hnew | hbeyond
  · exact .inr (get_create_old hold)
  · refine .inl ⟨?_, hnew⟩
    rw [show id = ⟨t.size⟩ from congrArg ScopeId.mk hnew, get_create_new]
  · have hsize := size_create t kind parent
    rw [get_of_size_le (t := (t.create kind parent).2) (by omega),
      get_of_size_le (t := t) (by omega)]
    exact .inr rfl

namespace Linked

theorem create (ht : t.Linked) {kind : ScopeKind} {parent : Option ScopeId}
    (hparent : ∀ scope, parent = some scope → scope.index < t.size) :
    (t.create kind parent).2.Linked := by
  constructor
  · intro id other hlink
    rcases t.get_create kind parent id with ⟨hget, hid⟩ | hget
    · rw [hget] at hlink
      exact Nat.lt_of_lt_of_eq (hparent other hlink) hid.symm
    · exact ht.older id other (hget ▸ hlink)
  · intro id other hother
    rw [size_create]
    rcases t.get_create kind parent id with ⟨hget, -⟩ | hget
    · rw [hget] at hother
      cases hother
    · exact Nat.lt_succ_of_lt (ht.imports id other (hget ▸ hother))

theorem modify (ht : t.Linked) {f : Scope → Scope}
    (hparent : ((f (t.get id)).parent) = (t.get id).parent)
    (himports : ∀ other ∈ (f (t.get id)).imports,
      other ∈ (t.get id).imports ∨ other.index < t.size) :
    (t.modify id f).Linked := by
  constructor
  · intro scope parent hlink
    rw [get_modify] at hlink
    split at hlink
    · rename_i heq
      obtain ⟨rfl, -⟩ := heq
      exact ht.older scope parent (hparent ▸ hlink)
    · exact ht.older scope parent hlink
  · intro scope other hother
    rw [size_modify]
    rw [get_modify] at hother
    split at hother
    · rename_i heq
      obtain ⟨rfl, -⟩ := heq
      rcases himports other hother with hold | hlt
      · exact ht.imports scope other hold
      · exact hlt
    · exact ht.imports scope other hother

end Linked

end ScopeTable

/-! ## Frames -/

namespace Arena

theorem scopes_modifyHead {f : Frame → Frame}
    (hf : ∀ frame, (f frame).scope = frame.scope) (frames : List Frame) :
    (frames.modifyHead f).map Frame.scope = frames.map Frame.scope := by
  cases frames with
  | nil => rfl
  | cons frame rest => exact congrArg (· :: rest.map Frame.scope) (hf frame)

/-- All frames of `b` have scopes of frames of `a`. -/
def Sheds (a b : Arena) : Prop :=
  b.frames.map Frame.scope ⊆ a.frames.map Frame.scope

namespace Sheds

theorem modifyTop {f : Frame → Frame}
    (hf : ∀ frame, (f frame).scope = frame.scope) (a : Arena) :
    a.Sheds (a.modifyTop f) := by
  unfold Sheds
  rw [modifyTop_frames, scopes_modifyHead hf]
  exact List.Subset.refl _

theorem popFrame (a : Arena) : a.Sheds a.popFrame := by
  unfold Arena.popFrame
  split
  · exact List.Subset.refl _
  · rename_i hframes
    unfold Sheds
    rw [hframes]
    exact List.subset_cons_self _ _

theorem unwindTo (a : Arena) (depth : Nat) : a.Sheds (a.unwindTo depth) := by
  have hunwind : ∀ (frames : List Frame) (mark : Nat),
      (unwind depth mark frames).1 ⊆ frames := by
    intro frames
    induction frames with
    | nil => exact fun _ => List.Subset.refl _
    | cons top rest ih =>
        intro mark
        unfold unwind
        split
        · exact List.subset_cons_of_subset top (ih top.base)
        · exact List.Subset.refl _
  exact List.map_subset _ (hunwind a.frames a.mark)

end Sheds

end Arena

/-! ## Anchored engines -/

namespace Engine

variable {s t : Engine}

/-- All scopes that the engine refers to are in its table. -/
structure Anchored (s : Engine) : Prop where
  scopes : s.scopes.Linked
  nodes : ∀ entry ∈ s.scopes.byNode, entry.2.index < s.scopes.size
  frames : ∀ f ∈ s.arena.frames, f.scope.index < s.scopes.size
  types : ∀ id, (s.types.get id).members.index < s.scopes.size
  functions : ∀ id tree node scope, (s.functions.get id).body =
    .interpreted tree node scope →
    scope.index < s.scopes.size
  templates : ∀ id, (s.templates.get id).scope.index < s.scopes.size
  modules : ∀ id, (s.modules.get id).scope.index < s.scopes.size

namespace Anchored

theorem currentScope (hs : s.Anchored) :
    s.currentScope.index < s.scopes.size := by
  unfold Engine.currentScope Arena.top?
  cases hframes : s.arena.frames with
  | nil => exact Nat.lt_of_le_of_lt (Nat.zero_le _) (hs.types default)
  | cons top rest => exact hs.frames top (hframes ▸ List.mem_cons_self)

theorem with_scopes (hs : s.Anchored) {scopes : ScopeTable}
    (hsize : s.scopes.size ≤ scopes.size) (hlinked : scopes.Linked)
    (hnodes : ∀ entry ∈ scopes.byNode, entry.2.index < scopes.size) :
    ({ s with scopes } : Engine).Anchored where
  scopes := hlinked
  nodes := hnodes
  frames f hf := Nat.lt_of_lt_of_le (hs.frames f hf) hsize
  types id := Nat.lt_of_lt_of_le (hs.types id) hsize
  functions id tree node scope h :=
    Nat.lt_of_lt_of_le (hs.functions id tree node scope h) hsize
  templates id := Nat.lt_of_lt_of_le (hs.templates id) hsize
  modules id := Nat.lt_of_lt_of_le (hs.modules id) hsize

theorem createScope (hs : s.Anchored) (kind : ScopeKind)
    {parent : Option ScopeId}
    (hparent : ∀ scope, parent = some scope → scope.index < s.scopes.size) :
    ({ s with scopes := (s.scopes.create kind parent).2 } :
      Engine).Anchored := by
  have hsize := s.scopes.size_create kind parent
  refine hs.with_scopes (by omega) (hs.scopes.create hparent)
    fun entry hentry => ?_
  rw [hsize]
  exact Nat.lt_succ_of_lt (hs.nodes entry hentry)

theorem createUnder (hs : s.Anchored) (kind : ScopeKind) {parent : ScopeId}
    (hparent : parent.index < s.scopes.size) :
    ({ s with scopes := (s.scopes.create kind (some parent)).2 } :
      Engine).Anchored := by
  refine hs.createScope kind ?_
  rintro scope ⟨⟩
  exact hparent

theorem scopeFor (hs : s.Anchored) (key : NodeKey) (kind : ScopeKind)
    {parent : ScopeId} (hparent : parent.index < s.scopes.size) :
    ({ s with scopes := (s.scopes.scopeFor key kind parent).2 } :
      Engine).Anchored ∧
      (s.scopes.scopeFor key kind parent).1.index <
        (s.scopes.scopeFor key kind parent).2.size := by
  unfold ScopeTable.scopeFor
  split
  · rename_i id hid
    exact ⟨hs, hs.nodes ((key, parent), id) (ScopeTable.mem_of_lookup hid)⟩
  · have hcreated := hs.createUnder kind hparent
    have hnew := s.scopes.size_lt_create kind (some parent)
    refine ⟨?_, hnew⟩
    exact hcreated.with_scopes (Nat.le_refl _)
      ⟨hcreated.scopes.older, hcreated.scopes.imports⟩
      (List.forall_mem_cons.2 ⟨hnew, hcreated.nodes⟩)

theorem modifyScope (hs : s.Anchored) {id : ScopeId} {f : Scope → Scope}
    (hparent : (f (s.scopes.get id)).parent = (s.scopes.get id).parent)
    (himports : ∀ other ∈ (f (s.scopes.get id)).imports,
      other ∈ (s.scopes.get id).imports ∨ other.index < s.scopes.size) :
    ({ s with scopes := s.scopes.modify id f } : Engine).Anchored := by
  have hsize := s.scopes.size_modify id f
  refine hs.with_scopes (Nat.le_of_eq hsize.symm)
    (hs.scopes.modify hparent himports) ?_
  rw [hsize]
  exact hs.nodes

theorem addImport (hs : s.Anchored) (id : ScopeId) {other : ScopeId}
    (hother : other.index < s.scopes.size) :
    ({ s with scopes := s.scopes.modify id (·.addImport other) } :
      Engine).Anchored := by
  have hlinks : ∀ x : Scope, (x.addImport other).parent = x.parent ∧
      ∀ scope ∈ (x.addImport other).imports, scope ∈ x.imports ∨
        scope = other := by
    intro x
    unfold Scope.addImport
    split
    · exact ⟨rfl, fun _ h => .inl h⟩
    · exact ⟨rfl, by simp⟩
  refine hs.modifyScope (hlinks _).1 fun scope hscope => ?_
  rcases (hlinks _).2 scope hscope with hold | rfl
  · exact .inl hold
  · exact .inr hother

theorem bindTemplate (hs : s.Anchored) {d : TemplateDef}
    (args : List TemplateArg) (hd : d.scope.index < s.scopes.size) :
    ({ s with scopes := s.scopes.bindTemplate d args } : Engine).Anchored := by
  have hbind : ∀ (pairs : List (TemplateParam × TemplateArg)) (scope : ScopeId)
      {t : Engine},
      t.Anchored →
      ({ t with scopes := t.scopes.bindAll scope pairs } :
        Engine).Anchored := by
    intro pairs scope
    induction pairs with
    | nil => exact fun ht => ht
    | cons pair rest ih =>
        exact fun ht => ih (ht.modifyScope rfl fun _ h => .inl h)
  exact hbind _ _ (hs.createUnder .template hd)

theorem modifyType (hs : s.Anchored) {f : TypeEntry → TypeEntry}
    (hf : ∀ e, (f e).members = e.members) (index : Nat) :
    ({ s with types := ⟨s.types.types.modify index f⟩ } : Engine).Anchored := by
  refine { hs with types := fun id => ?_ }
  change ((s.types.types.modify index f).getD id.index default).members.index <
    s.scopes.size
  rcases getD_modify s.types.types f default index id.index with hget | hget
  · rw [hget]
    exact hs.types id
  · rw [hget, hf]
    exact hs.types id

theorem pushType (hs : s.Anchored) {e : TypeEntry}
    (he : e.members.index < s.scopes.size) :
    ({ s with types := (s.types.push e).2 } : Engine).Anchored := by
  refine { hs with types := fun id => ?_ }
  change ((s.types.types.push e).getD id.index default).members.index <
    s.scopes.size
  rcases getD_push s.types.types e default id.index with hget | hget
  · rwa [hget]
  · rw [hget]
    exact hs.types id

theorem register (hs : s.Anchored) {name : String} {body : Structural}
    {members : ScopeId} {id : TypeId} {types : TypeTable}
    (h : s.types.register name body members = .ok (id, types))
    (hmembers : members.index < s.scopes.size) :
    ({ s with types } : Engine).Anchored := by
  unfold TypeTable.register at h
  split at h
  · cases h
  · cases h
    exact hs.pushType hmembers

theorem complete (hs : s.Anchored) {id : TypeId} {fields : List Field}
    {variants : List (String × Int64)} {types : TypeTable}
    (h : s.types.complete id fields variants = .ok types) :
    ({ s with types } : Engine).Anchored := by
  unfold TypeTable.complete at h
  split at h
  · split at h
    · cases h
    · cases h
      refine hs.modifyType (f := ?_) (fun _ => ?_) _
      exact rfl
  · cases h

theorem setOrigin (hs : s.Anchored) (id : TypeId) (origin : TemplateId)
    (args : List TemplateArg) :
    ({ s with types := s.types.setOrigin id origin args } :
      Engine).Anchored := by
  refine hs.modifyType (fun e => ?_) _
  split <;> rfl

theorem markInitialized (hs : s.Anchored) (id : TypeId) :
    ({ s with types := s.types.markInitialized id } : Engine).Anchored :=
  hs.modifyType (f := fun e => { e with initialized := true })
    (fun _ => rfl) id.index

theorem findOrCreate (hs : s.Anchored) {kind : TemplateKind}
    {args : List TemplateArg} {result : TypeId × Bool} {types : TypeTable}
    {scopes : ScopeTable}
    (h : s.types.findOrCreate s.scopes kind args =
      .ok (result, types, scopes)) :
    ({ s with types, scopes } : Engine).Anchored := by
  unfold TypeTable.findOrCreate at h
  simp only at h
  split at h
  · cases h
    exact hs
  · split at h
    · cases h
    · cases h
      have hnone : ∀ scope, (none : Option ScopeId) = some scope →
          scope.index < s.scopes.size := fun _ h => by cases h
      exact (hs.createScope .members hnone).pushType
        (s.scopes.size_lt_create .members none)

theorem addFunction (hs : s.Anchored) {f : Function}
    (hf : ∀ tree node scope, f.body = .interpreted tree node scope →
      scope.index < s.scopes.size) :
    ({ s with functions := (s.functions.add f).2 } : Engine).Anchored := by
  refine { hs with functions := fun id tree node scope hbody => ?_ }
  simp only at hbody
  rcases s.functions.get_add f id with hget | hget
  · rw [hget] at hbody
    exact hf tree node scope hbody
  · rw [hget] at hbody
    exact hs.functions id tree node scope hbody

theorem addTemplate (hs : s.Anchored) {d : TemplateDef}
    (hd : d.scope.index < s.scopes.size) :
    ({ s with templates := (s.templates.add d).2 } : Engine).Anchored := by
  refine { hs with templates := fun id => ?_ }
  simp only
  rcases s.templates.get_add d id with hget | hget
  · rwa [hget]
  · rw [hget]
    exact hs.templates id

theorem with_arena (hs : s.Anchored) {arena : Arena}
    (h : s.arena.Sheds arena) : ({ s with arena } : Engine).Anchored := by
  refine { hs with frames := fun f hf => ?_ }
  obtain ⟨g, hg, hscope⟩ := List.mem_map.1 (h (List.mem_map_of_mem hf))
  rw [← hscope]
  exact hs.frames g hg

theorem pushFrame (hs : s.Anchored) {scope : ScopeId}
    (hscope : scope.index < s.scopes.size) (kind : FrameKind)
    (call : Option CallRecord) :
    ({ s with arena := s.arena.pushFrame scope kind call } :
      Engine).Anchored := by
  refine { hs with frames := fun f hf => ?_ }
  rcases List.mem_cons.1 hf with rfl | hf
  · exact hscope
  · exact hs.frames f hf

end Anchored

end Engine

/-! ## Computations that keep engines anchored -/

namespace Arena

theorem scopes_claim (a : Arena) (types : TypeTable) (type : TypeId)
    (contents : List UInt8) :
    (a.claim types type contents).frames.map Frame.scope =
      a.frames.map Frame.scope := by
  rw [claim_frames]
  split
  · rw [scopes_modifyHead]
    exact fun _ => rfl
  · rfl

end Arena

theorem Engine.Move.frame_scopes {s t : Engine} (h : s.Move t) :
    t.arena.frames.map Frame.scope = s.arena.frames.map Frame.scope := by
  cases h with
  | allocate h =>
      obtain ⟨contents, -, -, -, rfl⟩ := Arena.allocate_eq_ok h
      exact s.arena.scopes_claim s.types _ contents
  | @reserve _ lookBack _ _ h =>
      cases lookBack with
      | false =>
          obtain ⟨contents, -, -, -, rfl⟩ := Arena.reserve_fresh_eq_ok h
          exact s.arena.scopes_claim s.types _ contents
      | true =>
          obtain ⟨-, -, rfl⟩ := Arena.reserve_back_eq_ok h
          rfl
  | write h =>
      obtain ⟨-, rfl⟩ := Arena.write_eq_ok h
      rfl
  | copy h =>
      obtain ⟨-, rfl⟩ := Arena.copy_eq_ok h
      rfl
  | bindLocal name slot =>
      rw [Arena.modifyTop_frames, Arena.scopes_modifyHead]
      exact fun _ => rfl
  | _ => rfl

namespace Eval

variable {α : Type}

structure Elementary (x : Eval α) : Prop where
  atomic : Atomic x
  anchored : ∀ s : Engine, s.Anchored → (x.after s).Anchored

namespace Elementary

theorem of_after (hx : Atomic x) (h : ∀ s, x.after s = s) : Elementary x :=
  ⟨hx, fun s hs => (h s).symm ▸ hs⟩

theorem pure (a : α) : Elementary (Pure.pure a) :=
  .of_after (.pure a) fun _ => rfl

theorem read (f : Engine → α) : Elementary (Eval.read f) :=
  .of_after (.read f) fun _ => rfl

theorem exhausted : Elementary (Eval.exhausted : Eval α) :=
  .of_after .exhausted fun _ => rfl

theorem fail {e : Failure} (h : e.isPlain = true) :
    Elementary (Eval.fail e : Eval α) :=
  .of_after (.fail h) fun _ => rfl

theorem inspect {f : Engine → Except Failure α}
    (h : ∀ s, ArenaScript.Ordinary (f s)) : Elementary (Eval.inspect f) := by
  refine .of_after (.inspect h) fun s => ?_
  unfold after Eval.inspect
  cases f s <;> rfl

theorem map {β : Type} (f : α → β) {x : Eval α} (hx : Elementary x) :
    Elementary (f <$> x) := by
  refine ⟨hx.atomic.map f, fun s hs => ?_⟩
  rw [after_map]
  exact hx.anchored s hs

theorem alters {f : Engine → α × Engine}
    (hatomic : Atomic (modifyGet f : Eval α))
    (h : ∀ s : Engine, s.Anchored → (f s).2.Anchored) :
    Elementary (modifyGet f : Eval α) :=
  ⟨hatomic, h⟩

theorem modify {f : Engine → Engine} (h : ∀ s : Engine, s.Move (f s))
    (htame : ∀ s : Engine, s.Tame (f s))
    (hanchored : ∀ s : Engine, s.Anchored → (f s).Anchored) :
    Elementary (modify f : Eval Unit) :=
  ⟨.modify h htame, hanchored⟩

theorem addNative {f : Function} {native : Native}
    (hf : f.body = .native native) : Elementary (Eval.addFunction f) := by
  refine ⟨.addNative hf, fun s hs => hs.addFunction fun _ _ _ hbody => ?_⟩
  cases hf.symm.trans hbody

theorem instantiateBuiltin (kind : TemplateKind) (args : List TemplateArg) :
    Elementary (Eval.instantiateBuiltin kind args) := by
  refine ⟨.instantiateBuiltin kind args, fun s hs => ?_⟩
  unfold after Eval.instantiateBuiltin
  cases hresult : s.types.findOrCreate s.scopes kind args with
  | ok result => exact hs.findOrCreate hresult
  | error e => exact hs

theorem markDeclared (node : Node) : Elementary (Eval.markDeclared node) := by
  refine alters (.markDeclared node) fun s hs => ?_
  simp only
  split
  · exact hs
  · exact { hs with }

theorem registerTypeName (scope : ScopeId) (name : String) (type : TypeId) :
    Elementary (Eval.registerTypeName scope name type) := by
  refine ⟨.registerTypeName scope name type, fun s hs => ?_⟩
  unfold after Eval.registerTypeName
  cases hresult : (s.scopes.get scope).registerType name type with
  | ok changed =>
      obtain ⟨rfl, -⟩ := Scope.registerType_eq_ok hresult
      exact hs.modifyScope rfl fun _ h => .inl h
  | error other => exact hs

theorem registerTemplateName (scope : ScopeId) (name : String)
    (id : TemplateId) :
    Elementary (Eval.registerTemplateName scope name id) := by
  refine ⟨.registerTemplateName scope name id, fun s hs => ?_⟩
  unfold after Eval.registerTemplateName
  cases hresult : (s.scopes.get scope).registerTemplateType name id with
  | ok changed =>
      obtain rfl := Scope.registerTemplateType_eq_ok hresult
      exact hs.modifyScope rfl fun _ h => .inl h
  | error other => exact hs

/-! ### Memory -/

theorem of_arena {x : Eval α} (hx : Atomic x)
    (h : ∀ s, ∃ arena, x.after s = { s with arena }) : Elementary x := by
  refine ⟨hx, fun s hs => ?_⟩
  obtain ⟨arena, harena⟩ := h s
  have halters := hx.alters_after s
  rw [harena] at halters ⊢
  rcases halters with hsame | ⟨hmove, -⟩
  · rw [hsame]
    exact hs
  · refine hs.with_arena fun scope hscope => ?_
    rwa [← hmove.frame_scopes]

theorem after_onArena (op : Arena.Op α) (s : Engine) :
    ∃ arena, (Eval.onArena op).after s = { s with arena } := by
  cases hop : op s.arena with
  | ok v arena => exact ⟨arena, after_ok (onArena_ok hop)⟩
  | error e arena => exact ⟨arena, after_error (onArena_error hop)⟩

theorem allocate (type : TypeId) : Elementary (Eval.allocate type) :=
  .of_arena (.allocate type) fun s =>
    after_onArena (Arena.allocate s.types type none) s

theorem allocateResult (ret : TypeId) :
    Elementary (Calls.allocateResult ret) := by
  unfold Calls.allocateResult
  split
  · exact pure none
  · exact (allocate ret).map some

theorem reserve (type : TypeId) (lookBack : Bool) :
    Elementary (Eval.reserve type lookBack) :=
  .of_arena (.reserve type lookBack) fun s =>
    after_onArena (Arena.reserve s.types type lookBack) s

theorem write (addr : Nat) (contents : List UInt8) :
    Elementary (Eval.onArena (Arena.write addr contents)) :=
  .of_arena (.write addr contents) (after_onArena _)

theorem writeWord (addr word : Nat) :
    Elementary (Eval.onArena (Arena.writeWord addr word)) :=
  write addr _

theorem copy (src dst len : Nat) :
    Elementary (Eval.onArena (Arena.copy src dst len)) :=
  .of_arena (.copy src dst len) (after_onArena _)

theorem bindLocal (name : String) (slot : Slot) :
    Elementary (Eval.updateArena (·.modifyTop (·.bind name slot))) :=
  .of_arena (.bindLocal name slot) fun _ => ⟨_, rfl⟩

end Elementary

inductive Scoping (Usable : ScopeId → Prop) : Eval ScopeId → Prop
  | current : Scoping Usable currentScope
  | members (type : TypeId) :
    Scoping Usable (read fun s => (s.types.get type).members)
  | module (id : ModuleId) :
    Scoping Usable (read fun s => (s.modules.get id).scope)
  | create (kind : ScopeKind) {parent : ScopeId} (h : Usable parent) :
      Scoping Usable (createScope kind (some parent))
  | node (node : Node) (kind : ScopeKind) {parent : ScopeId}
      (h : Usable parent) :
      Scoping Usable (scopeFor node kind parent)
  | template {d : TemplateDef} (args : List TemplateArg) (h : Usable d.scope) :
      Scoping Usable (bindTemplateScope d args)

namespace Scoping

variable {Usable : ScopeId → Prop} {x : Eval ScopeId}

theorem atomic (hx : Scoping Usable x) : Atomic x := by
  cases hx with
  | current => exact .read _
  | members type => exact .read _
  | module id => exact .read _
  | create kind h => exact .createScope kind _
  | node node kind h => exact .scopeFor node kind _
  | template args h => exact .bindTemplateScope _ args

theorem anchored (hx : Scoping Usable x) {s : Engine} (hs : s.Anchored)
    (husable : ∀ scope, Usable scope → scope.index < s.scopes.size) :
    (x.after s).Anchored ∧
      ∀ scope t, x s = .ok scope t → scope.index < t.scopes.size := by
  cases hx with
  | current => exact ⟨hs, by rintro scope t ⟨⟩; exact hs.currentScope⟩
  | members type => exact ⟨hs, by rintro scope t ⟨⟩; exact hs.types type⟩
  | module id => exact ⟨hs, by rintro scope t ⟨⟩; exact hs.modules id⟩
  | create kind h =>
      refine ⟨hs.createUnder kind (husable _ h), ?_⟩
      rintro scope t ⟨⟩
      exact s.scopes.size_lt_create kind _
  | node node kind h =>
      obtain ⟨hanchored, hscope⟩ :=
        hs.scopeFor ⟨s.currentTree, node.id⟩ kind (husable _ h)
      refine ⟨hanchored, ?_⟩
      rintro scope t ⟨⟩
      exact hscope
  | @template d args h =>
      cases htakes : d.takes args with
      | true =>
          have hrun := bindTemplateScope_ok htakes s
          rw [after_ok hrun, hrun]
          refine ⟨hs.bindTemplate args (husable _ h), ?_⟩
          rintro scope t ⟨⟩
          change s.scopes.size < (s.scopes.bindTemplate d args).size
          rw [ScopeTable.size_bindTemplate]
          exact Nat.lt_succ_self _
      | false =>
          have hrun := bindTemplateScope_error htakes s
          rw [after_error hrun, hrun]
          exact ⟨hs, by rintro scope t ⟨⟩⟩

end Scoping

end Eval

end ArenaScript
