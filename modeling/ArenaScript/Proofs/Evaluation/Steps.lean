import ArenaScript.Proofs.Evaluation.Observation

/-!
# Single steps of a closed engine

Each change that an evaluation makes to a table or to the arena leaves a closed
engine closed and is quiet, provided the data it puts in is known.  The one
exception is the completion of a declared type, which changes what the type
is; it is quiet from before the registration of that type.
-/

namespace ArenaScript

open Handles (Known)
open Engine (Good Reached Evolution Steady Quiet Grows)

/-! ## Tables -/

section Tables

variable {n : Nat}

theorem ScopeTable.known_create {t : ScopeTable} (h : Known n t)
    (kind : ScopeKind) (parent : Option ScopeId) :
    Known n (t.create kind parent).2 := by
  intro id
  refine Handles.known_getD_push (fun i => h ⟨i⟩) ?_ id.index
  exact ⟨Handles.known_empty, Handles.known_empty⟩

theorem ScopeTable.known_scopeFor {t : ScopeTable} (h : Known n t)
    (key : NodeKey) (kind : ScopeKind) (parent : ScopeId) :
    Known n (t.scopeFor key kind parent).2 := by
  unfold scopeFor
  split
  · exact h
  · exact t.known_create h kind (some parent)

theorem ScopeTable.known_modify {t : ScopeTable} (h : Known n t) {id : ScopeId}
    {f : Scope → Scope} (hf : Known n (f (t.get id))) :
    Known n (t.modify id f) :=
  fun other => Handles.known_getD_modify (fun i => h ⟨i⟩) hf other.index

theorem FunctionTable.known_add {t : FunctionTable} (h : Known n t)
    {f : Function} (hf : Known n f) : Known n (t.add f).2 :=
  fun id => Handles.known_getD_push (fun i => h ⟨i⟩) hf id.index

theorem TemplateTable.known_add {t : TemplateTable} (h : Known n t)
    {d : TemplateDef} (hd : Known n d) : Known n (t.add d).2 :=
  fun id => Handles.known_getD_push (fun i => h ⟨i⟩) hd id.index

theorem TypeTable.known_push {t : TypeTable} (h : Known n t) {e : TypeEntry}
    (he : Known n e) : Known n (t.push e).2 :=
  fun id => Handles.known_getD_push (fun i => h ⟨i⟩) he id.index

theorem TypeTable.known_modify {t : TypeTable} (h : Known n t) {id : TypeId}
    {f : TypeEntry → TypeEntry} (hf : Known n (f (t.get id))) :
    Known n (⟨t.types.modify id.index f⟩ : TypeTable) :=
  fun other => Handles.known_getD_modify (fun i => h ⟨i⟩) hf other.index

end Tables

namespace Arena

variable {n : Nat} {a : Arena}

theorem modifyTop_wellFormed (ha : a.WellFormed) {f : Frame → Frame}
    (hf : ∀ frame : Frame, (f frame).base = frame.base) :
    (a.modifyTop f).WellFormed := by
  have hbases : (a.modifyTop f).bases = a.bases := by
    unfold bases
    rw [modifyTop_frames]
    exact bases_modifyHead a.frames f hf
  refine ⟨?_, ?_⟩
  · rw [modifyTop_capacity, modifyTop_mark, hbases]
    exact ha.bounds
  · rw [modifyTop_mark, modifyTop_bytes]
    exact ha.stored

theorem known_modifyTop (ha : Known n a) {f : Frame → Frame}
    (hbase : ∀ frame : Frame, (f frame).base = frame.base)
    (hf : ∀ frame : Frame, Known n frame → Known n (f frame)) :
    Known n (a.modifyTop f) := by
  obtain ⟨hcapacity, hformed, hframes⟩ := ha
  refine ⟨?_, modifyTop_wellFormed hformed hbase, ?_⟩
  · rw [modifyTop_capacity]
    exact hcapacity
  · rw [modifyTop_frames]
    cases hfs : a.frames with
    | nil => exact Handles.known_nil
    | cons top rest =>
        rw [hfs] at hframes
        obtain ⟨htop, hrest⟩ := Handles.known_cons.1 hframes
        exact Handles.known_cons.2 ⟨hf top htop, hrest⟩

theorem known_claim (ha : Known n a) (types : TypeTable) {type : TypeId}
    (htype : Known n type) {contents : List UInt8}
    (hfits : a.mark + contents.length ≤ a.capacity) :
    Known n (a.claim types type contents) := by
  obtain ⟨hcapacity, hformed, hframes⟩ := ha
  have hmark : a.mark < Word.modulus :=
    Nat.lt_of_le_of_lt hformed.mark_le_capacity hcapacity
  refine ⟨?_, claim_wellFormed hformed types type contents hfits, ?_⟩
  · rw [claim_capacity]
    exact hcapacity
  · rw [claim_frames]
    split
    · cases hfs : a.frames with
      | nil => exact Handles.known_nil
      | cons top rest =>
          rw [hfs] at hframes
          obtain ⟨⟨hlocals, hcall, hdoomed⟩, hrest⟩ :=
            Handles.known_cons.1 hframes
          refine Handles.known_cons.2 ⟨⟨hlocals, hcall, ?_⟩, hrest⟩
          exact Handles.known_cons.2 ⟨⟨htype, hmark⟩, hdoomed⟩
    · exact hframes

theorem known_store (ha : Known n a) (addr : Nat) (contents : List UInt8) :
    Known n { a with bytes := store a.bytes addr contents } := by
  obtain ⟨hcapacity, hformed, hframes⟩ := ha
  exact ⟨hcapacity, ⟨hformed.bounds, by simpa using hformed.stored⟩, hframes⟩

theorem unwindTo_cons (top : Frame) (rest : List Frame)
    (h : a.frames = top :: rest) (depth : Nat) :
    a.unwindTo depth = if depth ≤ rest.length then a.popFrame.unwindTo depth
      else a := by
  unfold unwindTo popFrame
  rw [h]
  simp only [unwind]
  split
  · rfl
  · rw [← h]

/-- Unwinding is popping, so it keeps what popping keeps. -/
theorem unwindTo_induction {P : Arena → Prop}
    (hpop : ∀ a : Arena, P a → P a.popFrame) (ha : P a) (depth : Nat) :
    P (a.unwindTo depth) := by
  generalize hfs : a.frames = frames
  induction frames generalizing a with
  | nil =>
      have hsame : a.unwindTo depth = a := by
        unfold unwindTo
        rw [hfs]
        simp only [unwind]
        rw [← hfs]
      rwa [hsame]
  | cons top rest ih =>
      rw [unwindTo_cons top rest hfs]
      split
      · exact ih (hpop a ha) (by simp [popFrame, hfs])
      · exact ha

theorem known_popFrame (ha : Known n a) : Known n a.popFrame := by
  obtain ⟨hcapacity, hformed, hframes⟩ := ha
  have hpopped := popFrame_wellFormed hformed
  unfold popFrame at hpopped ⊢
  split
  · exact ⟨hcapacity, hformed, hframes⟩
  · rename_i top rest hfs
    rw [hfs] at hframes hpopped
    exact ⟨hcapacity, hpopped, (Handles.known_cons.1 hframes).2⟩

theorem bare_claim (a : Arena) (types : TypeTable) (type : TypeId)
    (contents : List UInt8) :
    (a.claim types type contents).frames.map Frame.bare =
      a.frames.map Frame.bare := by
  rw [claim_frames]
  split
  · cases a.frames with
    | nil => rfl
    | cons top rest => rfl
  · rfl

end Arena

/-! ## Engines -/

namespace Engine

variable {s t : Engine}

theorem Closed.with_types (hs : s.Closed) {types : TypeTable}
    {scopes : ScopeTable} (hsize : s.types.size ≤ types.size)
    (htypes : Known types.size types) (hscopes : Known types.size scopes) :
    ({ s with types, scopes } : Engine).Closed where
  builtin := Nat.le_trans hs.builtin hsize
  types := htypes
  scopes := hscopes
  functions := Handles.mono hsize hs.functions
  templates := Handles.mono hsize hs.templates
  arena := Handles.mono hsize hs.arena

theorem Closed.with_scopes (hs : s.Closed) {scopes : ScopeTable}
    (h : s.Knows scopes) : ({ s with scopes } : Engine).Closed :=
  { hs with scopes := h }

theorem Closed.with_arena (hs : s.Closed) {arena : Arena} (h : s.Knows arena) :
    ({ s with arena } : Engine).Closed :=
  { hs with arena := h }

theorem Closed.provide (hs : s.Closed) {owner : TypeId} (howner : s.Knows owner)
    {ms : List Member} (hms : s.Knows ms) : (s.provide owner ms).Closed := by
  induction ms generalizing s with
  | nil => exact hs
  | cons m ms ih =>
      obtain ⟨hm, hms⟩ := Handles.known_cons.1 hms
      refine ih (s := s.provide owner [m]) ?_ howner hms
      obtain ⟨hparams, hret, hnative⟩ := hm
      refine { hs with
        functions := FunctionTable.known_add hs.functions
          ⟨hparams, hret, Handles.known_some.2 howner, hnative⟩
        scopes := ScopeTable.known_modify hs.scopes ?_ }
      have hscope := hs.scopes (s.types.get owner).members
      unfold Scope.register
      split
      · exact hscope
      · exact hscope

theorem Quiet.of_tables (hgrows : s.Grows t) (harena : t.arena = s.arena)
    (hdepth : t.callDepth = s.callDepth)
    (htree : t.currentTree = s.currentTree) : s.Quiet t where
  grows := hgrows
  frames := by rw [harena]
  mark := Nat.le_of_eq (congrArg Arena.mark harena.symm)
  callDepth := hdepth
  currentTree := htree

theorem Quiet.of_catalogue (h : t.catalogue = s.catalogue)
    (harena : t.arena = s.arena) (hmax : t.maxCallDepth = s.maxCallDepth)
    (hdepth : t.callDepth = s.callDepth)
    (htree : t.currentTree = s.currentTree) : s.Quiet t :=
  .of_tables (.of_catalogue h (by rw [harena]) hmax) harena hdepth htree

theorem Quiet.append {u : Engine} (hst : s.Quiet t)
    (htypes : t.types.Grown u.types) (harena : u.arena = t.arena)
    (hmax : u.maxCallDepth = t.maxCallDepth)
    (hdepth : u.callDepth = t.callDepth) (htree : u.currentTree = t.currentTree)
    (hadded : s.catalogue.Sorted →
      s.catalogue.Appends s.types.size t.catalogue →
      t.catalogue.Appends s.types.size u.catalogue)
    (hsupplies : t.catalogue.Supplies u.catalogue) : s.Quiet u where
  grows := by
    refine ⟨hst.grows.types.trans htypes, ?_, hmax.trans hst.grows.maxCallDepth,
      fun hsorted => ?_,
      fun hsorted => ?_⟩
    · rw [harena]
      exact hst.grows.capacity
    · have happends := hst.grows.catalogue hsorted
      exact happends.trans (hadded hsorted happends)
    · have happends := hst.grows.catalogue hsorted
      exact (hst.grows.supplies hsorted).trans happends.sorted
        (hadded hsorted happends) htypes hsupplies
  frames := by
    rw [harena]
    exact hst.frames
  mark := by
    rw [harena]
    exact hst.mark
  callDepth := hdepth.trans hst.callDepth
  currentTree := htree.trans hst.currentTree

theorem Quiet.of_arena {arena : Arena}
    (hcapacity : arena.capacity = s.arena.capacity)
    (hframes : arena.frames.map Frame.bare = s.arena.frames.map Frame.bare)
    (hmark : s.arena.mark ≤ arena.mark) : s.Quiet { s with arena } where
  grows := .of_catalogue rfl hcapacity rfl
  frames := hframes
  mark := hmark
  callDepth := rfl
  currentTree := rfl

structure Step (s t : Engine) : Prop where
  closed : t.Closed
  quiet : s.Quiet t

theorem Step.reached {I : Engine → Prop} [Steady I] {R : Engine → Engine → Prop}
    [Lenient R] (h : s.Step t) (hs : s.Good I) : Reached I R s t :=
  .of_quiet hs h.closed h.quiet

namespace Step

theorem with_scopes (hs : s.Closed) {scopes : ScopeTable} (h : s.Knows scopes)
    (hadded : s.catalogue.Sorted →
      s.catalogue.Appends s.types.size { s.catalogue with scopes }) :
        s.Step { s with scopes } :=
  ⟨hs.with_scopes h,
    .of_tables ⟨.refl _, rfl, rfl, hadded, fun _ => .of_types rfl⟩ rfl rfl rfl⟩

theorem updateScope (hs : s.Closed) {id : ScopeId} {f : Scope → Scope}
    (h : s.Knows (f (s.scopes.get id)))
    (hfunctions : (f (s.scopes.get id)).functions = (s.scopes.get id).functions)
    (hoperators : (f (s.scopes.get id)).operators =
      (s.scopes.get id).operators) :
    s.Step { s with scopes := s.scopes.modify id f } :=
  with_scopes hs (ScopeTable.known_modify hs.scopes h) fun hsorted =>
    .updateScope hsorted id (Scope.overloads_congr hfunctions hoperators)

theorem with_types (hs : s.Closed) {types : TypeTable}
    (hgrown : s.types.Grown types) (h : Known types.size types)
    (hadded : s.catalogue.Sorted →
      s.catalogue.Appends s.types.size { s.catalogue with types })
    (hsupplies : s.catalogue.Supplies { s.catalogue with types }) :
    s.Step { s with types } :=
  ⟨hs.with_types hgrown.size h (Handles.mono hgrown.size hs.scopes),
    .of_tables ⟨hgrown, rfl, rfl, hadded, fun _ => hsupplies⟩ rfl rfl rfl⟩

theorem addFunction (hs : s.Closed) {f : Function} (hf : s.Knows f) :
    s.Step { s with functions := (s.functions.add f).2 } :=
  ⟨{ hs with functions := FunctionTable.known_add hs.functions hf },
    .of_tables ⟨.refl _, rfl, rfl, fun h => .addFunction h hf.1,
      fun _ => .of_types rfl⟩
      rfl rfl rfl⟩

theorem addTemplate (hs : s.Closed) {d : TemplateDef} (hd : s.Knows d) :
    s.Step { s with templates := (s.templates.add d).2 } :=
  ⟨{ hs with templates := TemplateTable.known_add hs.templates hd },
    .of_catalogue rfl rfl rfl rfl rfl⟩

theorem instantiate (hs : s.Closed) {kind : TemplateKind}
    {args : List TemplateArg} {id : TypeId} {created : Bool} {types : TypeTable}
    {scopes : ScopeTable} (hargs : s.Knows args)
    (h : s.types.findOrCreate s.scopes kind args =
      .ok ((id, created), types, scopes)) :
    s.Step { s with types, scopes } ∧ Known types.size id := by
  unfold TypeTable.findOrCreate at h
  simp only at h
  split at h
  · rename_i found hfound
    cases h
    exact ⟨⟨hs, .refl s⟩, (TypeTable.findByName?_eq_some hfound).1⟩
  · split at h
    · cases h
    · rename_i hnew _ size aggregate hsize
      cases h
      have hgrown := TypeTable.Grown.push s.types
        { name := s.types.render kind args,
          shape := .template kind args, size, aggregate
          members := (s.scopes.create .members none).1, initialized := false }
      have hargs' := Handles.mono hgrown.size hargs
      -- The member scope is created first, which is why it is free when the
      -- type takes it.
      have hadded : s.catalogue.Sorted → s.catalogue.Appends s.types.size
          { s.catalogue with
            types := (s.types.push
              { name := s.types.render kind args,
                shape := .template kind args, size, aggregate
                members := (s.scopes.create .members none).1,
                initialized := false }).2
            scopes := (s.scopes.create .members none).2 } := by
        intro hsorted
        have hscope :=
          Catalogue.Appends.createScope (n := s.types.size) hsorted
            .members none
        exact hscope.trans
          (.addType hscope.sorted hnew (hsorted.vacant_create .members none))
      have hformed : TypeEntry.Formed s.types
          { name := s.types.render kind args,
            shape := .template kind args, size, aggregate
            members := (s.scopes.create .members none).1,
            initialized := false } :=
        .builtin rfl (fun _ hmem => hargs _ hmem) hsize
      refine ⟨⟨hs.with_types hgrown.size ?_ ?_,
        .of_tables ⟨hgrown, rfl, rfl, hadded,
          fun _ => .push rfl hformed rfl⟩ rfl rfl rfl⟩, ?_⟩
      · exact TypeTable.known_push (Handles.mono hgrown.size hs.types) hargs'
      · exact ScopeTable.known_create (Handles.mono hgrown.size hs.scopes)
          .members none
      · rw [TypeTable.addBuiltin, TypeTable.size_push]
        exact Nat.lt_succ_self _

end Step

structure Equips (s t : Engine) : Prop extends s.Step t where
  functions : t.functions = s.functions
  overloads : ∀ scope operator name,
    t.catalogue.overloads scope operator name =
      s.catalogue.overloads scope operator name

theorem Equips.trans {u : Engine} (hst : s.Equips t) (htu : t.Equips u) :
    s.Equips u where
  closed := htu.closed
  quiet := hst.quiet.trans htu.quiet
  functions := htu.functions.trans hst.functions
  overloads scope operator name :=
    (htu.overloads scope operator name).trans
      (hst.overloads scope operator name)

theorem exists_instance (hs : s.Closed) {kind : TemplateKind}
    {args : List TemplateArg} {size : Nat × Bool} (hargs : s.Knows args)
    (hsize : s.types.instanceSize kind args = .ok size) :
    ∃ id t, Eval.instantiateBuiltin kind args s = .ok id t ∧ s.Equips t ∧
      t.Knows id ∧
      t.types.name id = s.types.render kind args := by
  cases hresult : s.types.findOrCreate s.scopes kind args with
  | error e =>
      simp only [TypeTable.findOrCreate, hsize] at hresult
      split at hresult
      · cases hresult
      · cases hresult
  | ok result =>
      obtain ⟨⟨id, created⟩, types, scopes⟩ := result
      obtain ⟨hstep, hid⟩ := Step.instantiate hs hargs hresult
      refine ⟨id, { s with types, scopes }, ?_,
        ⟨hstep, rfl, fun scope operator name => ?_⟩, hid, ?_⟩
      · simp only [Eval.instantiateBuiltin, hresult]
      · rcases TypeTable.findOrCreate_scopes hresult with rfl | rfl
        · rfl
        · exact s.scopes.overloads_create .members none scope operator name
      · rcases TypeTable.findOrCreate_cases hresult with
          ⟨-, rfl, -, hfound⟩ | ⟨rfl, -, -, e, hname, -, rfl⟩
        · exact (TypeTable.findByName?_eq_some hfound).2
        · exact (TypeTable.name_push_new s.types e).trans hname

namespace Step

theorem register (hst : s.Quiet t) (ht : t.Closed) {name : String}
    {kind : StructKind} {members : ScopeId} {id : TypeId} {types : TypeTable}
    (hvacant : s.catalogue.Sorted → t.catalogue.Vacant members)
    (h : t.types.register name (.shell kind) members = .ok (id, types)) :
    s.Step { t with types } ∧ t.types.Grown types ∧ Known types.size id ∧
      t.types.size ≤ id.index := by
  unfold TypeTable.register at h
  split at h
  · cases h
  · rename_i hnew
    cases h
    have hgrown := TypeTable.Grown.push t.types
      { name, shape := .structural (.shell kind), size := 0, members
        aggregate := kind != .enumKind, initialized := false }
    refine ⟨⟨?_, ?_⟩, hgrown, ?_, Nat.le_refl _⟩
    · refine ht.with_types hgrown.size ?_ (Handles.mono hgrown.size ht.scopes)
      refine TypeTable.known_push (Handles.mono hgrown.size ht.types) ?_
      exact ⟨Handles.known_nil, Handles.known_none⟩
    · refine hst.append hgrown rfl rfl rfl rfl (fun hsorted happends => ?_)
        (.push rfl (.shell rfl rfl rfl) rfl)
      exact .addType happends.sorted hnew (hvacant hsorted)
    · exact Nat.lt_of_lt_of_eq (Nat.lt_succ_self _)
        (TypeTable.size_push _ _).symm

theorem modifyType (hs : s.Closed) {id : TypeId} {f : TypeEntry → TypeEntry}
    (hfixed : ∀ e, (f e).fixed = e.fixed)
    (hinitialized : ∀ e, (f e).initialized = e.initialized)
    (hf : s.Knows (f (s.types.get id))) :
    s.Step { s with types := ⟨s.types.types.modify id.index f⟩ } := by
  refine with_types hs (.modify hfixed _) ?_
    (fun hsorted => .modifyType hsorted (.of_fixed (hfixed _) (hinitialized _)))
    (.modify hfixed hinitialized rfl)
  have heq : (⟨s.types.types.modify id.index f⟩ : TypeTable).size =
      s.types.size :=
    Array.size_modify
  rw [heq]
  exact TypeTable.known_modify hs.types hf

theorem setOrigin (hs : s.Closed) (type : TypeId) (template : TemplateId)
    {args : List TemplateArg} (hargs : s.Knows args) :
    s.Step { s with types := s.types.setOrigin type template args } := by
  have hentry : s.Knows (s.types.get type).shape := hs.types type
  refine modifyType hs (fun e => ?_) (fun e => ?_) ?_
  · split
    · rename_i hbody
      simp only [TypeEntry.fixed, hbody, Shape.fixed]
    · rfl
  · split <;> rfl
  · split
    · rename_i body hbody
      rw [hbody] at hentry
      refine ⟨hentry.1, Handles.known_some.2 ⟨trivial, hargs⟩⟩
    · exact hs.types type

/-! ### The arena -/

theorem allocate (hs : s.Closed) {type : TypeId} (htype : s.Knows type)
    {v : Value} {arena : Arena}
    (h : Arena.allocate s.types type none s.arena = .ok v arena) :
    s.Step { s with arena } ∧ s.Knows v := by
  obtain ⟨contents, -, hfits, rfl, rfl⟩ := Arena.allocate_eq_ok h
  refine ⟨⟨hs.with_arena (Arena.known_claim hs.arena s.types htype hfits),
    .of_arena ?_ ?_ ?_⟩,
    htype, hs.mark_lt⟩
  · exact Arena.claim_capacity ..
  · exact Arena.bare_claim ..
  · rw [Arena.claim_mark]
    omega

theorem reserve (hs : s.Closed) {type : TypeId} (htype : s.Knows type)
    {lookBack : Bool} {slot : Slot} {arena : Arena}
    (h : Arena.reserve s.types type lookBack s.arena = .ok slot arena) :
    s.Step { s with arena } ∧ s.Knows slot := by
  cases lookBack with
  | false =>
      obtain ⟨contents, -, hfits, rfl, rfl⟩ := Arena.reserve_fresh_eq_ok h
      refine ⟨⟨hs.with_arena (Arena.known_claim hs.arena s.types htype hfits),
        .of_arena ?_ ?_ ?_⟩, htype⟩
      · exact Arena.claim_capacity ..
      · exact Arena.bare_claim ..
      · rw [Arena.claim_mark]
        omega
  | true =>
      obtain ⟨-, rfl, rfl⟩ := Arena.reserve_back_eq_ok h
      exact ⟨⟨hs, .refl s⟩, htype⟩

theorem write (hs : s.Closed) {addr : Nat} {contents : List UInt8}
    {arena : Arena} (h : Arena.write addr contents s.arena = .ok () arena) :
    s.Step { s with arena } := by
  obtain ⟨-, rfl⟩ := Arena.write_eq_ok h
  exact ⟨hs.with_arena (Arena.known_store hs.arena _ _),
    .of_arena rfl rfl (Nat.le_refl _)⟩

theorem copy (hs : s.Closed) {src dst len : Nat} {arena : Arena}
    (h : Arena.copy src dst len s.arena = .ok () arena) :
    s.Step { s with arena } := by
  obtain ⟨-, rfl⟩ := Arena.copy_eq_ok h
  exact ⟨hs.with_arena (Arena.known_store hs.arena _ _),
    .of_arena rfl rfl (Nat.le_refl _)⟩

end Step

end Engine

/-! ## Completing a type -/

namespace Layout

variable {n : Nat} {measure : TypeId → Extent}

theorem known_inOrder {fields : List Field} (h : Known n fields)
    (offset align : Nat) : Known n (inOrder measure offset align fields).1 := by
  induction fields generalizing offset align with
  | nil => exact Handles.known_nil
  | cons field rest ih =>
      obtain ⟨hfield, hrest⟩ := Handles.known_cons.1 h
      exact Handles.known_cons.2 ⟨hfield, ih hrest _ _⟩

theorem known_overlaid {fields : List Field} (h : Known n fields)
    (size align : Nat) : Known n (overlaid measure size align fields).1 := by
  induction fields generalizing size align with
  | nil => exact Handles.known_nil
  | cons field rest ih =>
      obtain ⟨hfield, hrest⟩ := Handles.known_cons.1 h
      exact Handles.known_cons.2 ⟨hfield, ih hrest _ _⟩

theorem known_ofFields {fields : List Field} (h : Known n fields)
    (kind : StructKind) : Known n (ofFields measure kind fields).1 := by
  cases kind with
  | classKind => exact known_inOrder h 0 1
  | unionKind => exact known_overlaid h 0 1
  | enumKind => exact h

end Layout

namespace Engine

variable {s t : Engine}

theorem complete_eq_ok {types changed : TypeTable} {id : TypeId}
    {fields : List Field} {variants : List (String × Int64)}
    (htypes : Known types.size types) (hfields : Known types.size fields)
    (h : types.complete id fields variants = .ok changed) :
    ∃ f : TypeEntry → TypeEntry, changed = ⟨types.types.modify id.index f⟩ ∧
      Known types.size (f (types.get id)) ∧
      Catalogue.Amended (types.get id) (f (types.get id)) := by
  unfold TypeTable.complete at h
  split at h
  · rename_i body hbody
    have hshape : Known types.size (types.get id).shape := htypes id
    rw [hbody] at hshape
    split at h
    · cases h
    · cases h
      refine ⟨_, rfl, ⟨Layout.known_ofFields hfields body.kind, hshape.2⟩, ?_,
        rfl, rfl, ?_, fun h => h⟩
      · simp only [TypeEntry.isRecord, hbody]
      · simp only [TypeEntry.referenceTarget?, hbody]
  · cases h

theorem Step.complete (hst : s.Quiet t) (ht : t.Closed) {id : TypeId}
    {fields : List Field} {variants : List (String × Int64)} {types : TypeTable}
    (hid : s.types.size ≤ id.index) (hhas : t.Knows id)
    (hopen : (t.types.get id).isComplete = false) (hfields : t.Knows fields)
    (h : t.types.complete id fields variants = .ok types) :
    s.Step { t with types } ∧ types.size = t.types.size := by
  obtain ⟨f, rfl, hf, hamended⟩ := complete_eq_ok ht.types hfields h
  have hsize : (⟨t.types.types.modify id.index f⟩ : TypeTable).size =
      t.types.size :=
    Array.size_modify
  have hgrown : s.types.Grown ⟨t.types.types.modify id.index f⟩ := by
    constructor
    · rw [hsize]
      exact hst.grows.types.size
    · intro other hother
      have hlt : other.index < s.types.size := hother
      have hold : t.types.Has other :=
        Nat.lt_of_lt_of_le hlt hst.grows.types.size
      rw [TypeTable.get_modify hold, if_neg (by omega)]
      exact hst.grows.types.entry other hother
  refine ⟨⟨?_, ?_⟩, hsize⟩
  · have hle : t.types.size ≤
        (⟨t.types.types.modify id.index f⟩ : TypeTable).size :=
      Nat.le_of_eq hsize.symm
    exact ht.with_types hle
      (Handles.mono hle (TypeTable.known_modify ht.types hf))
      (Handles.mono hle ht.scopes)
  · have hcompleted : ∀ hsorted : t.catalogue.Sorted,
        t.catalogue.Appends s.types.size
        { t.catalogue with
          types := ⟨t.types.types.modify id.index f⟩ } := fun hsorted =>
      .modifyType hsorted hamended
    refine ⟨⟨hgrown, hst.grows.capacity, hst.grows.maxCallDepth,
      fun hsorted => ?_,
      fun hsorted => ?_⟩, hst.frames, hst.mark, hst.callDepth, hst.currentTree⟩
    · have hadded := hst.grows.catalogue hsorted
      exact hadded.trans (hcompleted hadded.sorted)
    · have hadded := hst.grows.catalogue hsorted
      exact (hst.grows.supplies hsorted).complete hadded.sorted
        (hcompleted hadded.sorted) hhas hopen hfields h

end Engine

end ArenaScript
