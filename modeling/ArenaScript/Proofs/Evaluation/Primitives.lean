import ArenaScript.Proofs.Evaluation.Steps

/-!
# Primitive computations, frames and calls

The computations that change one table or the arena are sound: they lead from
good engines to good ones.  A computation in a frame of its own is quiet, since
what it binds is gone when the frame is popped.
-/

namespace ArenaScript

open Engine (Good Reached Evolution Lenient Steady Quiet Grows Step)

/-- A quiet computation from a good engine to a good engine that knows the
result. -/
abbrev Sound {α : Type} [Handles α] (I : Engine → Prop) (s : Engine)
    (x : Eval α) : Prop :=
  Agree I Quiet s x x

namespace Sound

variable {α : Type} [Handles α] {I : Engine → Prop} {s : Engine}

theorem stripRef (hs : s.Good I) {v : Value} (hv : s.Knows v) :
    Sound I s (Eval.stripRef v) :=
  .inspect hs (hs.closed.knows_stripRef hv)

variable [Steady I]

/-! ## Tables -/

theorem modifyGet (hs : s.Good I) {f : Engine → α × Engine}
    (hstep : s.Step (f s).2) (hknown : (f s).2.Knows (f s).1) :
    Sound I s (modifyGet f : Eval α) :=
  .of_ok rfl rfl (hstep.reached hs) hknown

theorem modify (hs : s.Good I) {f : Engine → Engine} (hstep : s.Step (f s)) :
    Sound I s (modify f : Eval Unit) :=
  .of_ok rfl rfl (hstep.reached hs) trivial

theorem createScope (hs : s.Good I) (kind : ScopeKind)
    (parent : Option ScopeId) : Sound I s (Eval.createScope kind parent) :=
  modifyGet hs
    (.with_scopes hs.closed
      (ScopeTable.known_create hs.closed.scopes kind parent)
      fun hsorted => .createScope hsorted kind parent) trivial

theorem scopeFor (hs : s.Good I) (node : Node) (kind : ScopeKind)
    (parent : ScopeId) : Sound I s (Eval.scopeFor node kind parent) :=
  modifyGet hs
    (.with_scopes hs.closed
      (ScopeTable.known_scopeFor hs.closed.scopes _ kind parent)
      fun hsorted => .scopeFor hsorted _ kind parent) trivial

theorem updateScope (hs : s.Good I) (id : ScopeId) {f : Scope → Scope}
    (h : s.Knows (f (s.scopes.get id)))
    (hfunctions : ∀ scope, (f scope).functions = scope.functions)
    (hoperators : ∀ scope, (f scope).operators = scope.operators) :
    Sound I s (Eval.updateScope id f) :=
  modify hs (.updateScope hs.closed h (hfunctions _) (hoperators _))

theorem addImport (hs : s.Good I) (id other : ScopeId) :
    Sound I s (Eval.updateScope id (·.addImport other)) := by
  have hsame : ∀ scope : Scope, ∃ imports, scope.addImport other =
      { scope with imports } := by
    intro scope
    unfold Scope.addImport
    split
    · exact ⟨_, rfl⟩
    · exact ⟨_, rfl⟩
  refine updateScope hs id ?_ (fun scope => ?_) fun scope => ?_
  · obtain ⟨imports, h⟩ := hsame (s.scopes.get id)
    rw [h]
    exact hs.closed.scopes id
  · obtain ⟨imports, h⟩ := hsame scope
    rw [h]
  · obtain ⟨imports, h⟩ := hsame scope
    rw [h]

/-- The function declared last is entered in a scope.  If it is a member of a
type, that type has been registered since `s`. -/
theorem register {t : Engine} (hs : s.Good I) (ht : t.Good I) (hst : s.Quiet t)
    (scope : ScopeId) (operator : Bool) (name : String) {id : FunctionId}
    (hid : t.functions.size = id.index + 1)
    (howner : ∀ type, (t.functions.get id).owner = some type →
      s.types.size ≤ type.index)
        (hdeclared : (t.functions.get id).traits.synthesized = false) :
    Agree I s.Since t (Eval.updateScope scope (·.register operator name id))
      (Eval.updateScope scope (·.register operator name id)) := by
  have hclosed : ({ t with
      scopes := t.scopes.modify scope (·.register operator name id) } :
        Engine).Closed := by
    refine ht.closed.with_scopes (ScopeTable.known_modify ht.closed.scopes ?_)
    have hscope := ht.closed.scopes scope
    unfold Scope.register
    split
    · exact hscope
    · exact hscope
  have hquiet : s.Quiet
      { t with
        scopes := t.scopes.modify scope (·.register operator name id) } := by
    refine hst.append (.refl _) rfl rfl rfl rfl (fun _ happends => ?_)
      (.of_types rfl)
    have hnot : ∀ type, ¬ t.catalogue.Provided id type := fun type h =>
      Bool.false_ne_true (hdeclared.symm.trans h.2)
    refine .register happends.sorted scope operator name ?_ ?_ ?_ fun type h =>
      absurd h (hnot type)
    · exact Nat.lt_of_lt_of_eq (Nat.lt_succ_self _) hid.symm
    · intro other hother
      have hlisted : other.index < t.functions.size :=
        happends.sorted.listed _ _ _ other hother
      exact ⟨by omega, fun type h => absurd h (hnot type)⟩
    · intro type htype h
      exact absurd htype (Nat.not_lt.2 (howner type h))
  exact .of_ok rfl rfl ⟨hclosed, Steady.quiet hs hclosed hquiet, hquiet,
    Nat.le_refl _⟩ trivial

theorem addFunction (hs : s.Good I) {f : Function} (hf : s.Knows f) :
    Sound I s (Eval.addFunction f) :=
  modifyGet hs (.addFunction hs.closed hf) trivial

theorem instantiateBuiltin (hs : s.Good I) (kind : TemplateKind)
    {args : List TemplateArg} (hargs : s.Knows args) :
    Sound I s (Eval.instantiateBuiltin kind args) := by
  cases hresult : s.types.findOrCreate s.scopes kind args with
  | ok result =>
      obtain ⟨⟨id, created⟩, types, scopes⟩ := result
      obtain ⟨hstep, hid⟩ := Step.instantiate hs.closed hargs hresult
      have hrun : Eval.instantiateBuiltin kind args s =
          .ok id { s with types, scopes } := by
        simp only [Eval.instantiateBuiltin, hresult]
      exact .of_ok hrun hrun (hstep.reached hs) hid
  | error e =>
      have hrun : Eval.instantiateBuiltin kind args s =
          .error (.failed e) s := by
        simp only [Eval.instantiateBuiltin, hresult]
      exact .of_error _ hrun hrun (.refl hs)

theorem referenceTo (hs : s.Good I) {type : TypeId} (htype : s.Knows type) :
    Sound I s (Eval.referenceTo type) :=
  instantiateBuiltin hs .ref (Handles.known_cons.2 ⟨htype, Handles.known_nil⟩)

theorem addressTo (hs : s.Good I) {type : TypeId} (htype : s.Knows type) :
    Sound I s (Eval.addressTo type) :=
  instantiateBuiltin hs .address
    (Handles.known_cons.2 ⟨htype, Handles.known_nil⟩)

/-! ## Values -/

theorem onArena (hs : s.Good I) {op : Arena.Op α}
    (hok : ∀ a arena, op s.arena = .ok a arena → s.Step { s with arena } ∧
      s.Knows a)
    (herror : ∀ e arena, op s.arena = .error e arena → arena = s.arena) :
    Sound I s (Eval.onArena op) := by
  cases hop : op s.arena with
  | ok a arena =>
      obtain ⟨hstep, ha⟩ := hok a arena hop
      have hrun : Eval.onArena op s = .ok a { s with arena } :=
        Eval.onArena_ok hop
      exact .of_ok hrun hrun (hstep.reached hs) ha
  | error e arena =>
      have hrun : Eval.onArena op s = .error (.failed e) s := by
        simp only [Eval.onArena, hop]
        rw [herror e arena hop]
      exact .of_error _ hrun hrun (.refl hs)

theorem allocate (hs : s.Good I) {type : TypeId} (htype : s.Knows type) :
    Sound I s (Eval.allocate type) := by
  have hop : Sound I s (Eval.onArena (Arena.allocate s.types type none)) :=
    onArena hs (fun _ _ h => Step.allocate hs.closed htype h) fun _ _ h =>
      Arena.allocate_eq_error h
  exact hop.congr rfl rfl

theorem reserve (hs : s.Good I) {type : TypeId} (htype : s.Knows type)
    (lookBack : Bool) : Sound I s (Eval.reserve type lookBack) := by
  have hop : Sound I s (Eval.onArena (Arena.reserve s.types type lookBack)) :=
    onArena hs (fun _ _ h => Step.reserve hs.closed htype h) fun _ _ h =>
      Arena.reserve_eq_error h
  exact hop.congr rfl rfl

theorem write (hs : s.Good I) (addr : Nat) (contents : List UInt8) :
    Sound I s (Eval.onArena (Arena.write addr contents)) :=
  onArena hs (fun _ _ h => ⟨Step.write hs.closed h, trivial⟩) fun _ _ h =>
    Arena.write_eq_error h

theorem writeWord (hs : s.Good I) (addr word : Nat) :
    Sound I s (Eval.onArena (Arena.writeWord addr word)) :=
  write hs addr _

theorem copy (hs : s.Good I) (src dst len : Nat) :
    Sound I s (Eval.onArena (Arena.copy src dst len)) :=
  onArena hs (fun _ _ h => ⟨Step.copy hs.closed h, trivial⟩) fun _ _ h =>
    Arena.copy_eq_error h

theorem writeScalar (hs : s.Good I) (value : Value) (scalar : Scalar) :
    Sound I s (Eval.writeScalar value scalar) := by
  unfold Eval.writeScalar
  exact .bind_inspect hs fun kind _ => write hs value.addr (scalar.encode kind)

theorem allocScalar (hs : s.Good I) {type : TypeId} (htype : s.Knows type)
    (scalar : Scalar) : Sound I s (Eval.allocScalar type scalar) := by
  unfold Eval.allocScalar
  refine .bind (allocate hs htype) fun value t ht hvalue => ?_
  exact .bind (writeScalar ht.good value scalar) fun _ u hu _ =>
    .pure hu.good (hu.knows hvalue)

theorem allocBool (hs : s.Good I) (b : Bool) : Sound I s (Eval.allocBool b) :=
  allocScalar hs (hs.closed.knows_builtin rfl) (.bool b)

theorem allocStr (hs : s.Good I) (text : String) :
    Sound I s (Eval.allocStr text) := by
  unfold Eval.allocStr
  have hstep : s.Step { s with strings := (s.strings.intern text).2 } :=
    ⟨{ hs.closed with }, .of_catalogue rfl rfl rfl rfl rfl⟩
  refine .bind (modifyGet hs hstep trivial) fun index t ht _ => ?_
  exact allocScalar ht.good (ht.closed.knows_builtin rfl) _

theorem allocAddress (hs : s.Good I) {type : TypeId} (htype : s.Knows type)
    (addr : Nat) : Sound I s (Eval.allocAddress type addr) := by
  unfold Eval.allocAddress
  refine .bind (allocate hs htype) fun value t ht hvalue => ?_
  exact .bind (writeWord ht.good value.addr addr) fun _ u hu _ =>
    .pure hu.good (hu.knows hvalue)

end Sound

/-! ## Members of types -/

namespace Engine

variable {s : Engine} {type : TypeId}

theorem exists_address (hs : s.Closed) (type : TypeId) :
    ∃ address t, Eval.elementAddress type s = .ok address t ∧ s.Equips t ∧
      t.Knows address ∧ ∀ elem len, (s.types.get type).array? =
        some (elem, len) →
        t.types.name address = t.types.render .address [.type elem] := by
  unfold Eval.elementAddress
  rw [Eval.bind_read]
  cases hparts : (s.types.get type).array? with
  | some parts =>
      have helem := (TypeEntry.known_array? (hs.types type) parts hparts).1
      have hsize : s.types.instanceSize .address [.type parts.1] =
          .ok (8, false) := rfl
      obtain ⟨address, t, hrun, ht, haddress, hname⟩ :=
        exists_instance hs
          (Handles.known_cons.2 ⟨helem, Handles.known_nil⟩) hsize
      refine ⟨address, t, hrun, ht, haddress, fun elem len hsame => ?_⟩
      cases hsame
      rw [hname, ht.quiet.grows.types.render helem]
  | none =>
      exact ⟨.void, s, rfl, ⟨⟨hs, .refl s⟩, rfl, fun _ _ _ => rfl⟩,
        hs.knows_builtin rfl, nofun⟩

theorem Closed.markInitialized (hs : s.Closed) (type : TypeId) :
    ({ s with types := s.types.markInitialized type } : Engine).Closed := by
  have hsize : (s.types.markInitialized type).size = s.types.size :=
    Array.size_modify
  have htypes : s.Knows (s.types.markInitialized type) :=
    TypeTable.known_modify hs.types (hs.types type)
  refine hs.with_types (Nat.le_of_eq hsize.symm) ?_ ?_
  · rw [hsize]
    exact htypes
  · rw [hsize]
    exact hs.scopes

theorem exists_provided (hs : s.Closed) (htype : s.Knows type)
    (hopen : ((s.types.get type).initialized ||
      !(s.types.get type).isComplete || type = .void) = false) :
    ∃ ref address t,
      Eval.ensureInitialized type s =
        .ok () (t.provide type (t.membersFor type ref address)) ∧
      Equips { s with types := s.types.markInitialized type } t ∧ t.Knows ref ∧
        t.Knows address ∧ t.types.name ref = t.types.render .ref [.type type] ∧
        ∀ elem len, (t.types.get type).array? = some (elem, len) →
          t.types.name address = t.types.render .address [.type elem] := by
  have hmarked := hs.markInitialized type
  have hgrown := TypeTable.Grown.markInitialized s.types type
  have htype' := Handles.mono hgrown.size htype
  have hsize : (s.types.markInitialized type).instanceSize .ref [.type type] =
      .ok (8, false) := by
    have hvoid : type ≠ .void := by
      rintro rfl
      simp at hopen
    simp [TypeTable.instanceSize, hvoid]
  obtain ⟨ref, t, href, ht, hknown, hname⟩ :=
    exists_instance hmarked
      (Handles.known_cons.2 ⟨htype', Handles.known_nil⟩) hsize
  obtain ⟨address, u, haddress, hu, hknown', hpointer⟩ :=
    exists_address ht.closed type
  have hlater := hu.quiet.grows.types
  refine ⟨ref, address, u, ?_, ht.trans hu, Handles.mono hlater.size hknown,
    hknown', ?_,
    fun elem len hparts => hpointer elem len ?_⟩
  · unfold Eval.ensureInitialized
    rw [Eval.bind_read, if_neg (Bool.eq_false_iff.1 hopen)]
    have hrest : (do
        let ref ← Eval.referenceTo type
        let address ← Eval.elementAddress type
        let members ← Eval.read fun s => s.membersFor type ref address
        members.forM (Eval.addMember type)) { s with
          types := s.types.markInitialized type } =
          .ok () (u.provide type (u.membersFor type ref address)) := by
      have href' : Eval.referenceTo type { s with
          types := s.types.markInitialized type } = .ok ref t := href
      rw [Eval.bind_ok href', Eval.bind_ok haddress]
      exact Eval.addMember_run type _ u
    exact hrest
  · have hall := ht.quiet.grows.types.trans hlater
    rw [hlater.name hknown, hname, hall.render htype']
  · rwa [hlater.array?
      (Handles.mono ht.quiet.grows.types.size htype')] at hparts

section Providing

variable {t : Engine} {ref address : TypeId}
  (h : Equips { s with types := s.types.markInitialized type } t)
    (htype : s.Knows type)
  (hopen : ((s.types.get type).initialized || !(s.types.get type).isComplete ||
    type = .void) = false)
  (href : t.Knows ref) (haddress : t.Knows address)
include h

theorem Equips.grown_marked : s.types.Grown t.types :=
  (TypeTable.Grown.markInitialized s.types type).trans h.quiet.grows.types

theorem Equips.appends_marked (hsorted : s.catalogue.Sorted) :
    s.catalogue.Appends s.types.size t.catalogue := by
  have hfirst : s.catalogue.Appends s.types.size
      { s.catalogue with types := s.types.markInitialized type } :=
    .modifyType hsorted (.mark _)
  exact hfirst.trans
    ((h.quiet.grows.catalogue hfirst.sorted).weaken
      (TypeTable.Grown.markInitialized s.types type).size)

theorem Equips.formed_marked (hsorted : s.catalogue.Sorted)
    (hformed : s.types.Formed) : t.types.Formed :=
  (h.quiet.grows.supplies
    (hsorted.modifyType (.mark _))).formed
      (hformed.modify (f := fun entry => { entry with initialized := true })
        (fun _ => rfl) type.index)

include hopen in
theorem Equips.unprovided (hsorted : s.catalogue.Sorted) (operator : Bool)
    (name : String) :
    ∀ id ∈ t.catalogue.overloads (t.catalogue.members type) operator name,
      ¬ t.catalogue.Provided id type := by
  intro id hmem hprovided
  simp only [Bool.or_eq_false_iff] at hopen
  rw [h.overloads] at hmem
  have hfunctions : t.catalogue.functions = s.functions := h.functions
  rw [Catalogue.Provided, hfunctions] at hprovided
  have hold := hsorted.initialized _ _ _ id hmem type hprovided
  cases hold.symm.trans hopen.1.1

include htype href haddress

theorem Equips.appends_provided (hsorted : s.catalogue.Sorted) :
    t.catalogue.Appends s.types.size
      (t.provide type (t.membersFor type ref address)).catalogue := by
  have hmark := TypeTable.Grown.markInitialized s.types type
  have hmarked : ((s.types.markInitialized type).get type).initialized =
      true := by
    rw [TypeTable.markInitialized, TypeTable.get_modify htype, if_pos rfl]
  have hfirst : s.catalogue.Appends s.types.size
      { s.catalogue with types := s.types.markInitialized type } :=
    .modifyType hsorted (.mark _)
  have hnext := (h.quiet.grows.catalogue hfirst.sorted).weaken hmark.size
  have htype' : t.Knows type := Handles.mono h.grown_marked.size htype
  have hmembers := h.closed.knows_membersFor htype' href haddress
  rw [catalogue_provide]
  exact .provide hnext.sorted htype' (hnext.initialized type hmarked)
    (fun m hm => (hmembers m hm).1) (t.free_membersFor type ref address)

variable (hname : t.types.name ref = t.types.render .ref [.type type])
  (hpointer : ∀ elem len, (t.types.get type).array? = some (elem, len) →
    t.types.name address = t.types.render .address [.type elem])
include hopen hname hpointer

theorem Equips.outfit (hsorted : s.catalogue.Sorted)
    (hformed : s.types.Formed) :
    (t.provide type (t.membersFor type ref address)).catalogue.Outfit type t ref
      address := by
  have hcomplete : (t.types.get type).isComplete = true := by
    simp only [Bool.or_eq_false_iff, Bool.not_eq_false'] at hopen
    rw [h.grown_marked.isComplete htype, hopen.1.2]
  exact outfit_provide (h.appends_marked hsorted).sorted
    (h.formed_marked hsorted hformed)
    (Handles.mono h.grown_marked.size htype) hcomplete
      (h.unprovided hopen hsorted) href hname
    (fun elem len hparts => ⟨haddress, hpointer elem len hparts⟩)
    (h.appends_provided htype href haddress hsorted)

theorem Equips.provide :
    s.Quiet (t.provide type (t.membersFor type ref address)) := by
  have hgrown := h.grown_marked
  have htype' : t.Knows type := Handles.mono hgrown.size htype
  have hcomplete : (t.types.get type).isComplete = true := by
    simp only [Bool.or_eq_false_iff, Bool.not_eq_false'] at hopen
    rw [hgrown.isComplete htype, hopen.1.2]
  refine ⟨⟨hgrown, h.quiet.grows.capacity, h.quiet.grows.maxCallDepth,
    fun hsorted => ?_,
    fun hsorted => ?_⟩, h.quiet.frames, h.quiet.mark, h.quiet.callDepth,
    h.quiet.currentTree⟩
  · exact (h.appends_marked hsorted).trans
      (h.appends_provided htype href haddress hsorted)
  · have hfirst := h.appends_marked hsorted
    have hprovide := h.appends_provided htype href haddress hsorted
    have hsupplies := h.quiet.grows.supplies
      (hsorted.modifyType (.mark _))
    refine .mark rfl
      (hsupplies.trans hfirst.sorted hprovide (.refl _) (.of_types rfl))
        fun hformed => ?_
    refine furnished_provide hfirst.sorted hformed htype' hcomplete
      (h.unprovided hopen hsorted) href
      hname (fun elem len hparts => ⟨haddress, hpointer elem len hparts⟩)
        hprovide ?_ ?_
    · intro elem len hparts
      exact (TypeEntry.known_array? (h.closed.types type) (elem, len) hparts).1
    · exact TypeEntry.known_referenceTarget? (h.closed.types type)

end Providing

end Engine

namespace Sound

variable {I : Engine → Prop} [Steady I] {s : Engine}

theorem ensureInitialized (hs : s.Good I) {type : TypeId}
    (htype : s.Knows type) : Sound I s (Eval.ensureInitialized type) := by
  cases hopen : (s.types.get type).initialized ||
    !(s.types.get type).isComplete || type = .void with
  | true =>
      unfold Eval.ensureInitialized
      refine .bind_read ?_
      rw [if_pos hopen]
      exact .pure hs trivial
  | false =>
      obtain ⟨ref, address, t, hrun, ht, href, haddress, hname, hpointer⟩ :=
        Engine.exists_provided hs.closed htype hopen
      have htype' : t.Knows type := Handles.mono ht.quiet.grows.types.size
        (Handles.mono (TypeTable.Grown.markInitialized s.types type).size htype)
      have hclosed := ht.closed.provide htype'
        (ht.closed.knows_membersFor htype' href haddress)
      have hquiet := ht.provide htype hopen href haddress hname hpointer
      exact .of_ok hrun hrun ⟨hclosed, Steady.quiet hs hclosed hquiet,
        hquiet⟩ trivial

end Sound

/-! ## Frames -/

namespace Engine

variable {s t : Engine}

theorem Good.withTree {I : Engine → Prop} [Steady I] (hs : s.Good I)
    (tree : TreeId) : ({ s with currentTree := tree } : Engine).Good I :=
  ⟨{ hs.closed with }, Steady.tree tree hs⟩

theorem Closed.pushed (hs : s.Closed) (scope : ScopeId) (kind : FrameKind)
    {call : Option CallRecord} (hcall : s.Knows call) :
    (s.pushed scope kind call).Closed := by
  obtain ⟨hcapacity, hformed, hframes⟩ := hs.arena
  refine hs.with_arena
    ⟨hcapacity, Arena.pushFrame_wellFormed hformed scope kind call, ?_⟩
  exact Handles.known_cons.2
    ⟨⟨Handles.known_empty, hcall, Handles.known_nil⟩, hframes⟩

theorem Step.disarmed (hs : s.Closed) : s.Step s.disarmed := by
  refine ⟨hs.with_arena
    (Arena.known_modifyTop hs.arena (fun _ => rfl) fun frame hframe => ?_),
    .of_arena ?_ ?_ ?_⟩
  · exact ⟨hframe.1, hframe.2.1, Handles.known_nil⟩
  · exact Arena.modifyTop_capacity ..
  · rw [Arena.modifyTop_frames]
    cases s.arena.frames with
    | nil => rfl
    | cons top rest => rfl
  · exact Nat.le_of_eq (Arena.modifyTop_mark ..).symm

theorem Closed.popFrame (hs : s.Closed) :
    ({ s with arena := s.arena.popFrame } : Engine).Closed :=
  hs.with_arena (Arena.known_popFrame hs.arena)

theorem Closed.unwindTo (hs : s.Closed) (depth : Nat) :
    (s.unwindTo depth).Closed := by
  have hpop : ∀ a : Arena, s.Knows a → s.Knows a.popFrame :=
    fun _ => Arena.known_popFrame
  exact hs.with_arena (Arena.unwindTo_induction hpop hs.arena depth)

theorem Grows.popFrame (s : Engine) :
    s.Grows { s with arena := s.arena.popFrame } := by
  refine .of_catalogue rfl ?_ rfl
  unfold Arena.popFrame
  split <;> rfl

theorem Grows.unwindTo (s : Engine) (depth : Nat) :
    s.Grows (s.unwindTo depth) :=
  .of_catalogue rfl rfl rfl

theorem Closed.knows_doomed (hs : s.Closed) :
    s.Knows ((s.arena.top?.map Frame.destructibles).getD []) := by
  refine Handles.known_getD (Handles.known_optionMap fun top htop => ?_)
    Handles.known_nil
  exact (hs.knows_frame (List.mem_of_mem_head? htop)).2.2

end Engine

structure Framed {α : Type} [Handles α] (s : Engine) (x y : Eval α) : Prop where
  same : x s = y s
  closed : (y.after s).Closed
  grows : s.Grows (y.after s)
  restored : s.Restored (y.after s)
  known : ∀ a t, y s = .ok a t → t.Knows a

namespace Framed

variable {α : Type} [Handles α] {s t : Engine} {x y : Eval α}

theorem of_ok {a : α} (hx : x s = .ok a t) (hy : y s = .ok a t)
    (hclosed : t.Closed) (hgrows : s.Grows t)
    (hrestored : s.Restored (y.after s)) (ha : t.Knows a) : Framed s x y where
  same := hx.trans hy.symm
  closed := by rwa [Eval.after_ok hy]
  grows := by rwa [Eval.after_ok hy]
  restored := hrestored
  known b u hb := by
    rw [hy] at hb
    cases hb
    exact ha

theorem of_error {e : Stop} (hx : x s = .error e t) (hy : y s = .error e t)
    (hclosed : t.Closed) (hgrows : s.Grows t)
    (hrestored : s.Restored (y.after s)) : Framed s x y where
  same := hx.trans hy.symm
  closed := by rwa [Eval.after_error hy]
  grows := by rwa [Eval.after_error hy]
  restored := hrestored
  known b u hb := by
    rw [hy] at hb
    cases hb

theorem agree {I : Engine → Prop} [Steady I] (h : Framed s x y)
    (hs : s.Good I) : Agree I Quiet s x y :=
  ⟨h.same, .of_quiet hs h.closed (.of_restored h.restored h.grows), h.known⟩

theorem call {tree : TreeId}
    (h : Framed { s with
      callDepth := s.callDepth + 1, currentTree := tree } x y) :
    Framed s (Calls.deeper (Eval.withTree tree x))
      (Calls.deeper (Eval.withTree tree y)) := by
  let inner : Engine :=
    { s with callDepth := s.callDepth + 1, currentTree := tree }
  let outer (t : Engine) : Engine :=
    { t with callDepth := t.callDepth - 1, currentTree := s.currentTree }
  have hclosed := h.closed
  have hgrows := h.grows
  have hrestored := h.restored
  have hback : ∀ t, inner.Restored t → s.Restored (outer t) := fun t ht =>
    ⟨ht.frames, ht.mark, congrArg (· - 1) ht.callDepth, rfl, ht.entered⟩
  cases hy : y inner with
  | ok a t =>
      rw [Eval.after_ok hy] at hclosed hgrows hrestored
      have hrun : ∀ z : Eval α, z inner = .ok a t →
          Calls.deeper (Eval.withTree tree z) s = .ok a (outer t) := by
        intro z hz
        simp only [Calls.deeper, Eval.withTree]
        rw [hz]
      refine of_ok (hrun x (h.same.trans hy)) (hrun y hy) { hclosed with } ?_ ?_
        (h.known a t hy)
      · exact ⟨hgrows.types, hgrows.capacity, hgrows.maxCallDepth,
          hgrows.catalogue,
          hgrows.supplies⟩
      · rw [Eval.after_ok (hrun y hy)]
        exact hback t hrestored
  | error e t =>
      rw [Eval.after_error hy] at hclosed hgrows hrestored
      have hrun : ∀ z : Eval α, z inner = .error e t →
          Calls.deeper (Eval.withTree tree z) s = .error e (outer t) := by
        intro z hz
        simp only [Calls.deeper, Eval.withTree]
        rw [hz]
      refine of_error (hrun x (h.same.trans hy)) (hrun y hy)
        { hclosed with } ?_ ?_
      · exact ⟨hgrows.types, hgrows.capacity, hgrows.maxCallDepth,
          hgrows.catalogue,
          hgrows.supplies⟩
      · rw [Eval.after_error (hrun y hy)]
        exact hback t hrestored

end Framed

namespace Agree

variable {α : Type} [Handles α] {I : Engine → Prop} [Steady I] {s t : Engine}

omit [Steady I] in
theorem inTree {R S : Engine → Engine → Prop} {x y : Eval α} {tree : TreeId}
    (hback : ∀ t, Reached I R { s with currentTree := tree } t →
      Reached I S s { t with currentTree := s.currentTree })
    (h : Agree I R { s with currentTree := tree } x y) :
    Agree I S s (Eval.withTree tree x) (Eval.withTree tree y) := by
  rcases h.cases with ⟨a, t, hx, hy, ht, ha⟩ | ⟨e, t, hx, hy, ht⟩
  · refine of_ok ?_ ?_ (hback t ht) ha
    · simp only [Eval.withTree, hx]
    · simp only [Eval.withTree, hy]
  · refine of_error e ?_ ?_ (hback t ht)
    · simp only [Eval.withTree, hx]
    · simp only [Eval.withTree, hy]

theorem withTree {R : Engine → Engine → Prop} [Lenient R] {x y : Eval α}
    (tree : TreeId) (hs : s.Good I)
    (h : ({ s with currentTree := tree } : Engine).Good I →
      Agree I R { s with currentTree := tree } x y) :
    Agree I R s (Eval.withTree tree x) (Eval.withTree tree y) :=
  inTree (fun _ ht =>
    ⟨{ ht.closed with }, Steady.tree _ ht.good, Lenient.tree ht.rel⟩)
    (h (hs.withTree tree))

theorem withTree_since {x y : Eval α} (tree : TreeId) (hst : s.Quiet t)
    (h : ({ s with currentTree := tree } : Engine).Quiet
      { t with currentTree := tree } →
      Agree I ({ s with currentTree := tree } : Engine).Since
        { t with currentTree := tree } x y) :
    Agree I s.Since t (Eval.withTree tree x) (Eval.withTree tree y) := by
  refine inTree (fun u hu => ?_) (h ?_)
  · refine ⟨{ hu.closed with }, Steady.tree _ hu.good, ?_, hu.rel.size_le⟩
    rw [hst.currentTree]
    exact Lenient.tree hu.rel.quiet
  · exact ⟨⟨hst.grows.types, hst.grows.capacity, hst.grows.maxCallDepth,
      hst.grows.catalogue,
      hst.grows.supplies⟩, hst.frames, hst.mark, hst.callDepth, rfl⟩

theorem bindLocal (hs : s.Good I) (ht : t.Good I) (hst : s.Quiet t)
    (name : String) {slot : Slot} (hslot : s.Claimed t slot) :
    Agree I Grows t (Eval.updateArena (·.modifyTop (·.bind name slot)))
      (Eval.updateArena (·.modifyTop (·.bind name slot))) := by
  have hclosed : (t.bound name slot).Closed := by
    refine ht.closed.with_arena
      (Arena.known_modifyTop ht.closed.arena (fun _ => rfl)
        fun frame hframe => ?_)
    exact ⟨Handles.known_put hframe.1 hslot.known, hframe.2⟩
  have hgrows : t.Grows (t.bound name slot) :=
    .of_catalogue rfl (Arena.modifyTop_capacity ..) rfl
  exact of_ok rfl rfl ⟨hclosed, Steady.bind name hs ht hst hslot,
    hgrows⟩ trivial

theorem pushFrame (hs : s.Good I) (scope : ScopeId) (kind : FrameKind) :
    Agree I Grows s (Eval.updateArena (·.pushFrame scope kind none))
      (Eval.updateArena (·.pushFrame scope kind none)) :=
  of_ok rfl rfl ⟨hs.closed.pushed scope kind Handles.known_none,
    Steady.push scope kind hs,
    .of_catalogue rfl rfl rfl⟩ trivial

end Agree

namespace Calls

structure Alike (I : Engine → Prop) (c d : Calls) : Prop where
  evaluate : ∀ {s : Engine} (node : Node), s.Good I →
    Agree I Quiet s (c.evaluate node) (d.evaluate node)
  execute : ∀ {s : Engine} (node : Node), s.Good I →
    Agree I Grows s (c.execute node) (d.execute node)
  invoke : ∀ {s : Engine} (id : FunctionId) {args : List Value}, s.Good I →
    s.Knows args →
    Agree I Quiet s (c.invoke id args) (d.invoke id args)
  resolveType : ∀ {s : Engine} (node : Node) (scope : ScopeId), s.Good I →
    Agree I Quiet s (c.resolveType node scope) (d.resolveType node scope)
  copyConstruct : ∀ {s : Engine} {dst src : Value}, s.Good I → s.Knows dst →
    s.Knows src →
    Agree I Quiet s (c.copyConstruct dst src) (d.copyConstruct dst src)
  defaultConstruct : ∀ {s : Engine} {place : Value}, s.Good I → s.Knows place →
    Agree I Quiet s (c.defaultConstruct place) (d.defaultConstruct place)
  destroy : ∀ {s : Engine} {value : Value}, s.Good I → s.Knows value →
    Agree I Quiet s (c.destroy value) (d.destroy value)
  loadModule : ∀ {s : Engine} (request : String) (importer : Option String),
    s.Good I →
    Agree I Grows s (c.loadModule request importer)
      (d.loadModule request importer)
  rounds : c.rounds = d.rounds
  disciplined : d.Within Engine.Disciplined

namespace Alike

variable {I : Engine → Prop} {c d : Calls} {s t : Engine}

theorem destroyAll (hc : c.Alike I d) (ht : t.Good I) {doomed : List Value}
    (hdoomed : t.Knows doomed) :
    Agree I Quiet t (doomed.forM c.destroy) (doomed.forM d.destroy) :=
  .forM ht fun v hv _ hu => hc.destroy hu.good (hu.knows (hdoomed v hv))

variable [Steady I]

theorem popFrame (hc : c.Alike I d) (ht : t.Good I) (depth : Nat) :
    c.popFrame depth t = d.popFrame depth t ∧
    ((d.popFrame depth).after t).Closed ∧
      t.Grows ((d.popFrame depth).after t) := by
  let doomed := (t.arena.top?.map Frame.destructibles).getD []
  have htake : takeDestructibles t = .ok doomed t.disarmed := rfl
  have hdisarmed := Engine.Step.disarmed ht.closed
  have hgood : t.disarmed.Good I :=
    (hdisarmed.reached ht : Reached I Quiet t t.disarmed).good
  have hdoomed : t.disarmed.Knows doomed := ht.closed.knows_doomed
  rcases (hc.destroyAll hgood hdoomed).cases with ⟨_, u, hcu, hdu, hu, -⟩ |
    ⟨e, u, hcu, hdu, hu⟩
  · have hrun : ∀ k : Calls, doomed.forM k.destroy t.disarmed = .ok () u →
        k.popFrame depth t = .ok () { u with arena := u.arena.popFrame } := by
      intro k hk
      simp only [Calls.popFrame, Bind.bind, EStateM.bind, htake,
        Eval.onStop, hk]
      rfl
    rw [Eval.after_ok (hrun d hdu)]
    refine ⟨(hrun c hcu).trans (hrun d hdu).symm, hu.closed.popFrame, ?_⟩
    exact hdisarmed.quiet.grows.trans (hu.rel.grows.trans (.popFrame u))
  · have hrun : ∀ k : Calls, doomed.forM k.destroy t.disarmed = .error e u →
        k.popFrame depth t = .error e (u.unwindTo depth) := by
      intro k hk
      simp only [Calls.popFrame, Bind.bind, EStateM.bind, htake,
        Eval.onStop, hk]
    rw [Eval.after_error (hrun d hdu)]
    refine ⟨(hrun c hcu).trans (hrun d hdu).symm, hu.closed.unwindTo depth, ?_⟩
    exact hdisarmed.quiet.grows.trans (hu.rel.grows.trans (.unwindTo u depth))

theorem popFramesTo (hc : c.Alike I d) (ht : t.Good I) (h : s.Inside t) :
    c.popFramesTo s.arena.depth t = d.popFramesTo s.arena.depth t ∧
      ((d.popFramesTo s.arena.depth).after t).Closed ∧
      t.Grows ((d.popFramesTo s.arena.depth).after t) := by
  obtain ⟨hsame, hclosed, hgrows⟩ := hc.popFrame ht s.arena.depth
  have hd := popFrame_restored h
    (Engine.Disciplined.composable.forM hc.disciplined.destroy
      (topAggregates t) _)
  have hcd : s.Restored ((c.popFrame s.arena.depth).after t) := by
    rwa [Eval.after_congr hsame]
  rw [Eval.after_congr (popFramesTo_eq h hd), popFramesTo_eq h hd,
    popFramesTo_eq h hcd]
  exact ⟨hsame, hclosed, hgrows⟩

theorem withFrame {α : Type} [Handles α] (hc : c.Alike I d) (hs : s.Closed)
    (scope : ScopeId) {kind : FrameKind} (hkind : kind.isRoot = false)
    {call : Option CallRecord} (hcall : s.Knows call)
    (hpushed : I (s.pushed scope kind call)) {x y : Eval α}
    (hy : (s.pushed scope kind call).Disciplined
      (y.after (s.pushed scope kind call)))
        (hxy : (s.pushed scope kind call).Good I →
          Agree I Grows (s.pushed scope kind call) x y) :
    Framed s (c.withFrame scope kind call x)
      (d.withFrame scope kind call y) := by
  have hrestored :=
    withFrame_restored scope call hkind hc.disciplined.destroy hy
  have hinside := (Engine.Inside.push s scope call hkind).step hy
  have hpush : s.Grows (s.pushed scope kind call) := .of_catalogue rfl rfl rfl
  have hgood : (s.pushed scope kind call).Good I :=
    ⟨hs.pushed scope kind hcall, hpushed⟩
  rcases (hxy hgood).cases with ⟨a, t, hx, hyt, ht, ha⟩ | ⟨e, t, hx, hyt, ht⟩
  · rw [Eval.after_ok hyt] at hinside
    obtain ⟨hsame, hclosed, hgrows⟩ := hc.popFramesTo ht.good hinside
    have hrun : ∀ (k : Calls) (z : Eval α), z (s.pushed scope kind call) =
        .ok a t →
        k.withFrame scope kind call z s =
          (k.popFramesTo s.arena.depth >>= fun _ => Pure.pure a) t := by
      intro k z hz
      change (Eval.onStop _ z >>= _) (s.pushed scope kind call) = _
      simp only [Bind.bind, EStateM.bind, Eval.onStop, hz]
    cases hpop : d.popFramesTo s.arena.depth t with
    | ok _ u =>
        rw [Eval.after_ok hpop] at hclosed hgrows
        have hend : ∀ k : Calls, k.popFramesTo s.arena.depth t = .ok () u →
            (k.popFramesTo s.arena.depth >>= fun _ => Pure.pure a) t =
              .ok a u := by
          intro k hk
          simp only [Bind.bind, EStateM.bind, hk]
          rfl
        exact .of_ok ((hrun c x hx).trans (hend c (hsame.trans hpop)))
          ((hrun d y hyt).trans (hend d hpop)) hclosed
            (hpush.trans (ht.rel.trans hgrows))
          hrestored (Handles.mono hgrows.types.size ha)
    | error e u =>
        rw [Eval.after_error hpop] at hclosed hgrows
        have hend : ∀ k : Calls, k.popFramesTo s.arena.depth t = .error e u →
            (k.popFramesTo s.arena.depth >>= fun _ => Pure.pure a) t =
              .error e u := by
          intro k hk
          simp only [Bind.bind, EStateM.bind, hk]
        exact .of_error ((hrun c x hx).trans (hend c (hsame.trans hpop)))
          ((hrun d y hyt).trans (hend d hpop)) hclosed
            (hpush.trans (ht.rel.trans hgrows)) hrestored
  · have hrun : ∀ (k : Calls) (z : Eval α), z (s.pushed scope kind call) =
        .error e t →
        k.withFrame scope kind call z s =
          .error e (t.unwindTo s.arena.depth) := by
      intro k z hz
      change (Eval.onStop _ z >>= _) (s.pushed scope kind call) = _
      simp only [Bind.bind, EStateM.bind, Eval.onStop, hz]
    exact .of_error (hrun c x hx) (hrun d y hyt) (ht.closed.unwindTo _)
      (hpush.trans (ht.rel.trans (.unwindTo t _))) hrestored

theorem inFrame {α : Type} [Handles α] (hc : c.Alike I d) (hs : s.Good I)
    (scope : ScopeId) {kind : FrameKind} (hkind : kind.isRoot = false)
    {x y : Eval α} (hy : Eval.Within Engine.Disciplined y)
    (hxy : (s.pushed scope kind none).Good I →
      Agree I Grows (s.pushed scope kind none) x y) :
    Agree I Quiet s (c.withFrame scope kind none x)
      (d.withFrame scope kind none y) :=
  (hc.withFrame hs.closed scope hkind Handles.known_none
    (Steady.push scope kind hs) (hy _) hxy).agree hs

theorem inCall {α : Type} [Handles α] (hc : c.Alike I d) (hs : s.Good I)
    (hroom : s.callDepth < s.maxCallDepth) (scope : ScopeId) (tree : TreeId)
    {record : CallRecord} (hrecord : s.Knows record) {x y : Eval α}
    (hy : Eval.Within Engine.Disciplined y)
    (hxy : ∀ t : Engine, t.types = s.types → t.Good I → Agree I Grows t x y) :
    Agree I Quiet s
      (deeper (Eval.withTree tree
        (c.withFrame scope .function (some record) x)))
      (deeper (Eval.withTree tree
        (d.withFrame scope .function (some record) y))) := by
  refine (Framed.call
    (hc.withFrame ?_ scope rfl ?_ ?_ (hy _) (hxy _ rfl))).agree hs
  · exact { hs.closed with }
  · exact Handles.known_some.2 hrecord
  · exact Steady.call scope record tree hs hroom

end Alike

end Calls

end ArenaScript
