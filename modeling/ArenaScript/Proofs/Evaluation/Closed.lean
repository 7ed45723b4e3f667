import ArenaScript.Proofs.Evaluation.Handles

/-!
# Looking things up in a closed engine

In a closed engine every entry of every table and every live frame is known.  So
is everything a look-up gives: variables, fields, types by name, candidates of a
call, members the engine provides and deduced template arguments.
-/

namespace ArenaScript

open Handles (Known)

/-! ## Entries of the table of types -/

section Entries

variable {n : Nat}

theorem TypeId.known_builtin (h : firstRegistered ≤ n) {id : TypeId}
    (hid : id.isBuiltin = true) : Known n id :=
  Nat.lt_of_lt_of_le (of_decide_eq_true hid) h

theorem CoreKind.known_typeId (h : TypeId.firstRegistered ≤ n)
    (kind : CoreKind) : Known n kind.typeId :=
  TypeId.known_builtin h (by cases kind <;> rfl)

theorem TypeEntry.known_referenceTarget? {e : TypeEntry} (h : Known n e) :
    Known n e.referenceTarget? := by
  intro target htarget
  unfold referenceTarget? at htarget
  split at htarget
  · rename_i hshape
    cases htarget
    have hargs : Known n e.shape := h
    rw [hshape] at hargs
    exact (Handles.known_cons.1 hargs).1
  · cases htarget

theorem TypeEntry.known_addressTarget? {e : TypeEntry} (h : Known n e) :
    Known n e.addressTarget? := by
  intro target htarget
  unfold addressTarget? at htarget
  split at htarget
  · rename_i hshape
    cases htarget
    have hargs : Known n e.shape := h
    rw [hshape] at hargs
    exact (Handles.known_cons.1 hargs).1
  · cases htarget

theorem TypeEntry.known_array? {e : TypeEntry} (h : Known n e) :
    Known n e.array? := by
  intro parts hparts
  unfold array? at hparts
  split at hparts
  · rename_i hshape
    cases hparts
    have hargs : Known n e.shape := h
    rw [hshape] at hargs
    exact ⟨(Handles.known_cons.1 hargs).1, trivial⟩
  · cases hparts

theorem TypeEntry.known_structural? {e : TypeEntry} (h : Known n e) :
    Known n e.structural? := by
  intro body hbody
  have hargs : Known n e.shape := h
  rw [shape_of_structural? hbody] at hargs
  exact hargs

theorem TypeEntry.known_field? {e : TypeEntry} (h : Known n e) (name : String) :
    Known n (e.structural?.bind (·.field? name)) :=
  Handles.known_bind fun body hbody =>
    Handles.known_find? (e.known_structural? h body hbody).1

theorem Value.known_view {v : Value} {type : TypeId} (h : Known n type)
    (offset : Nat) : Known n (v.view type offset) :=
  ⟨h, Word.wrap_lt _⟩

theorem Frame.known_resolve {f : Frame} {slot : Slot} (h : Known n slot) :
    Known n (f.resolve slot) :=
  ⟨h, Word.wrap_lt _⟩

theorem Function.known_fixedParams {f : Function} (h : Known n f) :
    Known n f.fixedParams := by
  unfold fixedParams
  split
  · intro param hparam
    exact h.1 param (List.dropLast_subset _ hparam)
  · exact h.1

end Entries

theorem Arena.readWord_lt {a : Arena} {addr word : Nat}
    (h : a.readWord addr = .ok word) : word < Word.modulus := by
  obtain ⟨bytes, hbytes, rfl⟩ : ∃ bytes, a.read addr 8 = .ok bytes ∧
    ofLowBytes bytes = word := by
    cases hread : a.read addr 8 with
    | ok bytes =>
        simp only [readWord, hread] at h
        exact ⟨bytes, rfl, Except.ok.inj h⟩
    | error e =>
        simp only [readWord, hread] at h
        cases h
  have hlength : bytes.length = 8 := by
    unfold read at hbytes
    split at hbytes
    · rw [← Except.ok.inj hbytes, length_load]
    · cases hbytes
  have hlt := ofLowBytes_lt bytes
  rw [hlength] at hlt
  exact Nat.lt_of_lt_of_eq hlt (by decide)

/-! ## Closed engines -/

namespace Engine

abbrev Knows {α : Type} [Handles α] (s : Engine) (a : α) : Prop :=
  Known s.types.size a

structure Closed (s : Engine) : Prop where
  builtin : TypeId.firstRegistered ≤ s.types.size
  types : s.Knows s.types
  scopes : s.Knows s.scopes
  functions : s.Knows s.functions
  templates : s.Knows s.templates
  arena : s.Knows s.arena

namespace Closed

variable {s : Engine}

theorem knows_builtin (hs : s.Closed) {id : TypeId} (h : id.isBuiltin = true) :
    s.Knows id :=
  TypeId.known_builtin hs.builtin h

theorem wellFormed (hs : s.Closed) : s.arena.WellFormed := hs.arena.2.1

theorem mark_lt (hs : s.Closed) : s.arena.mark < Word.modulus :=
  Nat.lt_of_le_of_lt hs.wellFormed.mark_le_capacity hs.arena.1

theorem knows_frame (hs : s.Closed) {f : Frame} (hf : f ∈ s.arena.frames) :
    s.Knows f :=
  hs.arena.2.2 f hf

theorem knows_voidValue (hs : s.Closed) : s.Knows s.voidValue :=
  ⟨hs.knows_builtin rfl, hs.mark_lt⟩

theorem knows_decay (hs : s.Closed) {type : TypeId} (h : s.Knows type) :
    s.Knows (s.types.decay type) :=
  Handles.known_getD (TypeEntry.known_referenceTarget? (hs.types type)) h

/-! ### References -/

theorem knows_stripRef (hs : s.Closed) {v : Value} (hv : s.Knows v) :
    s.Knows (s.stripRef v) := by
  unfold Engine.stripRef
  split
  · rename_i target htarget
    refine Handles.known_exceptMap fun addr haddr =>
      ⟨?_, Arena.readWord_lt haddr⟩
    exact TypeEntry.known_referenceTarget? (hs.types v.type) target htarget
  · exact Handles.known_ok.2 hv

theorem knows_placeOf (hs : s.Closed) {v : Value} (hv : s.Knows v)
    (type : TypeId) : s.Knows (s.placeOf v type) := by
  unfold Engine.placeOf
  split
  · exact Handles.known_ok.2 hv
  · split
    · exact hs.knows_stripRef hv
    · exact Handles.known_error

theorem knows_adaptArgs (hs : s.Closed) (params : List Param)
    {args : List Value} (hargs : s.Knows args) :
    s.Knows (s.adaptArgs params args) := by
  induction args generalizing params with
  | nil =>
      unfold Engine.adaptArgs
      exact Handles.known_ok.2 Handles.known_nil
  | cons arg args ih =>
      obtain ⟨harg, hrest⟩ := Handles.known_cons.1 hargs
      cases params with
      | nil => exact Handles.known_ok.2 hargs
      | cons param params =>
          have hcons : ∀ adapted : Value, s.Knows adapted →
              s.Knows (do
                let rest ← s.adaptArgs params args
                pure (adapted :: rest)) := by
            intro adapted hadapted
            refine Handles.known_exceptBind fun others hothers => ?_
            exact Handles.known_pure.2
              (Handles.known_cons.2 ⟨hadapted, ih params hrest others hothers⟩)
          rw [Engine.adaptArgs]
          split
          · split
            · exact Handles.known_exceptBind fun place hplace =>
                hcons place (hs.knows_placeOf harg _ place hplace)
            · exact hcons arg harg
          · split
            · exact Handles.known_exceptBind fun place hplace =>
                hcons place (hs.knows_stripRef harg place hplace)
            · exact hcons arg harg

/-! ### Variables -/

theorem knows_localIn (hs : s.Closed) {frames : List Frame}
    (h : ∀ f ∈ frames, f ∈ s.arena.frames) (name : String) :
    s.Knows (localIn frames name) := by
  refine Handles.known_findSome? fun f hf => Handles.known_optionMap
    fun slot hslot => ?_
  exact Frame.known_resolve ((hs.knows_frame (h f hf)).1 name slot hslot)

theorem reachableFrames_subset (frames : List Frame) :
    ∀ f ∈ reachableFrames frames, f ∈ frames := by
  induction frames with
  | nil => exact fun f hf => hf
  | cons frame rest ih =>
      intro f hf
      unfold reachableFrames at hf
      split at hf
      · rw [List.mem_singleton.1 hf]
        exact List.mem_cons_self
      · rcases List.mem_cons.1 hf with rfl | hf
        · exact List.mem_cons_self
        · exact List.mem_cons_of_mem _ (ih f hf)

theorem globalFrames_subset (s : Engine) (scope : ScopeId) :
    ∀ f ∈ s.globalFrames scope, f ∈ s.arena.frames := by
  intro f hf
  obtain ⟨root, -, hroot⟩ := List.mem_filterMap.1 hf
  exact List.mem_reverse.1 (List.mem_of_find?_eq_some hroot)

theorem knows_fieldThroughSelf (hs : s.Closed) (f : Frame) (name : String) :
    s.Knows (s.fieldThroughSelf f name) := by
  unfold fieldThroughSelf
  split
  · split
    · rename_i owner slot _ _ _ field hfield
      have htype := TypeEntry.known_field? (hs.types owner) name field hfield
      refine Handles.known_exceptBind fun receiver _ => ?_
      exact Handles.known_pure.2
        (Handles.known_some.2 (Value.known_view htype _))
    · exact Handles.known_ok.2 Handles.known_none
  · exact Handles.known_ok.2 Handles.known_none

theorem knows_lookupVariable (hs : s.Closed) (name : String) :
    s.Knows (s.lookupVariable name) := by
  have hlocal := hs.knows_localIn (reachableFrames_subset s.arena.frames) name
  have hglobal := hs.knows_localIn (globalFrames_subset s s.currentScope) name
  unfold lookupVariable
  simp only
  split
  · rename_i value hvalue
    exact Handles.known_ok.2 (Handles.known_some.2 (hlocal value hvalue))
  · split
    · refine Handles.known_exceptBind fun field hfield => ?_
      have hknown := hs.knows_fieldThroughSelf _ name field hfield
      cases field with
      | some value => exact Handles.known_pure.2 hknown
      | none => exact Handles.known_pure.2 hglobal
    · exact Handles.known_pure.2 hglobal

theorem knows_currentCall? (hs : s.Closed) : s.Knows s.currentCall? := by
  refine Handles.known_bind fun f hf => ?_
  exact (hs.knows_frame (List.mem_of_find?_eq_some hf)).2.1

theorem knows_returnSlot (hs : s.Closed) :
    s.Knows (s.currentCall?.bind CallRecord.returnSlot) :=
  Handles.known_bind fun record hrecord =>
    (hs.knows_currentCall? record hrecord).2

/-! ### Declarations -/

theorem knows_findTemplateParam (hs : s.Closed) (scope : ScopeId)
    (name : String) : s.Knows (s.scopes.findTemplateParam scope name) :=
  Handles.known_findSome? fun id _ binding hbinding =>
    (hs.scopes id).2 name binding hbinding

theorem knows_resolveTypeName (hs : s.Closed) (scope : ScopeId)
    (name : String) : s.Knows (s.scopes.resolveTypeName scope name) :=
  Handles.known_findSome? fun id _ type htype =>
    (hs.scopes id).1 name type htype

theorem knows_functionCandidates (hs : s.Closed) (name : String) :
    s.Knows (s.functionCandidates name) := by
  intro callee hcallee
  obtain ⟨id, -, hmem⟩ := List.mem_flatMap.1 (List.mem_eraseDups.1 hcallee)
  rcases List.mem_append.1 hmem with hfunction | htype
  · obtain ⟨f, -, rfl⟩ := List.mem_map.1 hfunction
    exact trivial
  · obtain ⟨type, hfound, rfl⟩ :=
      Option.map_eq_some_iff.1 (Option.mem_toList.1 htype)
    exact (hs.scopes id).1 name type hfound

/-! ### Parts of values -/

theorem knows_classFields (hs : s.Closed) (type : TypeId) :
    s.Knows (s.classFields type) := by
  unfold classFields
  split
  · rename_i body hbody
    split
    · exact (TypeEntry.known_structural? (hs.types type) body hbody).1
    · exact Handles.known_nil
  · exact Handles.known_nil

theorem knows_elements (hs : s.Closed) (place : Value) :
    s.Knows ((s.types.get place.type).array?.map fun (elem, len) =>
      (List.range len).map (s.element place elem)) := by
  refine Handles.known_optionMap fun parts hparts =>
    Handles.known_map.2 fun i _ => ?_
  exact Value.known_view
    (TypeEntry.known_array? (hs.types place.type) parts hparts).1 _

theorem knows_parts (hs : s.Closed) (dst src : Value) :
    s.Knows (s.parts dst src) := by
  unfold parts
  simp only
  split
  · rename_i body hbody
    have hstructural := (Option.filter_eq_some_iff.1 hbody).1
    have hfields :=
      (TypeEntry.known_structural? (hs.types dst.type) body hstructural).1
    refine Handles.known_some.2 (Handles.known_map.2 fun f hf => ?_)
    exact ⟨Value.known_view (hfields f hf) _, Value.known_view (hfields f hf) _⟩
  · refine Handles.known_optionMap fun parts hparts =>
      Handles.known_map.2 fun i _ => ?_
    have helem := (TypeEntry.known_array? (hs.types dst.type) parts hparts).1
    exact ⟨Value.known_view helem _, Value.known_view helem _⟩

end Closed

end Engine

/-! ## Members -/

namespace Member

variable {n : Nat} {type ref target : TypeId}

attribute [local simp] Handles.nativeType? self binary copying

@[simp] theorem known_param {name : String} : Known n (⟨name, type⟩ : Param) ↔
    Known n type :=
  Iff.rfl

@[simp] theorem known_function {name : String} {params : List Param}
    {native : Native} :
    Known n (function name params type native) ↔
      Known n params ∧ Known n type ∧ Known n (Handles.nativeType? native) :=
  Iff.rfl

@[simp] theorem known_operator {symbol : String} {params : List Param}
    {native : Native} :
    Known n (operator symbol params type native) ↔
      Known n params ∧ Known n type ∧ Known n (Handles.nativeType? native) :=
  Iff.rfl

theorem known_bytewise (h : TypeId.firstRegistered ≤ n) (htype : Known n type)
    (href : Known n ref) (size : Nat) : Known n (bytewise type ref size) := by
  have hvoid : Known n TypeId.void := TypeId.known_builtin h rfl
  simp [bytewise, htype, href, hvoid]

theorem known_memberwise (h : TypeId.firstRegistered ≤ n) (htype : Known n type)
    (href : Known n ref) : Known n (memberwise type ref) := by
  have hvoid : Known n TypeId.void := TypeId.known_builtin h rfl
  simp [memberwise, htype, href, hvoid]

theorem known_constants (h : TypeId.firstRegistered ≤ n)
    (htype : Known n type) : Known n (constants type) := by
  have hbool : Known n TypeId.bool := TypeId.known_builtin h rfl
  simp [constants, htype, hbool]

theorem known_numeric (h : TypeId.firstRegistered ≤ n) (htype : Known n type)
    (href : Known n ref) (size : Nat) (kind : CoreKind) :
    Known n (numeric type ref size kind) := by
  have hvoid : Known n TypeId.void := TypeId.known_builtin h rfl
  have hbool : Known n TypeId.bool := TypeId.known_builtin h rfl
  have hbytes := known_bytewise h htype href size
  have hcomplement : Known n
      (if kind.isInteger then
        [operator "~" [self type] type (.complement kind type)] else []) := by
    split
    · simp [htype]
    · exact Handles.known_nil
  simpa [numeric, htype, href, hvoid, hbool, hbytes, CoreKind.known_typeId h]
    using hcomplement

theorem known_boolean (h : TypeId.firstRegistered ≤ n) (htype : Known n type)
    (href : Known n ref) (size : Nat) : Known n (boolean type ref size) := by
  have hbytes := known_bytewise h htype href size
  simp [boolean, htype, hbytes]

theorem known_string (h : TypeId.firstRegistered ≤ n) (htype : Known n type)
    (href : Known n ref) (size : Nat) : Known n (string type ref size) := by
  have hbool : Known n TypeId.bool := TypeId.known_builtin h rfl
  have hint : Known n TypeId.int32 := TypeId.known_builtin h rfl
  have hbytes := known_bytewise h htype href size
  simp [string, htype, href, hbool, hint, hbytes]

theorem known_array (h : TypeId.firstRegistered ≤ n) {elem addressType : TypeId}
    (href : Known n ref) (helem : Known n elem) (haddress : Known n addressType)
    (len size : Nat) : Known n (array ref elem addressType len size) := by
  have hint : Known n TypeId.int32 := TypeId.known_builtin h rfl
  have hlong : Known n TypeId.int64 := TypeId.known_builtin h rfl
  simp [array, href, helem, haddress, hint, hlong]

theorem known_reference (h : TypeId.firstRegistered ≤ n) (htype : Known n type)
    (href : Known n ref) (htarget : Known n target) :
    Known n (reference type ref target) := by
  have hvoid : Known n TypeId.void := TypeId.known_builtin h rfl
  simp [reference, htype, href, htarget, hvoid]

theorem known_address (h : TypeId.firstRegistered ≤ n) (htype : Known n type)
    (href : Known n ref) (htarget : Known n target) (size targetSize : Nat) :
    Known n (address type ref target size targetSize) := by
  have hbool : Known n TypeId.bool := TypeId.known_builtin h rfl
  have hint : Known n TypeId.int32 := TypeId.known_builtin h rfl
  have hbytes := known_bytewise h htype href size
  simp [address, htype, htarget, hbool, hint, hbytes]

end Member

namespace Engine.Closed

variable {s : Engine}

theorem knows_membersFor (hs : s.Closed) {type ref address : TypeId}
    (htype : s.Knows type) (href : s.Knows ref) (haddress : s.Knows address) :
    s.Knows (s.membersFor type ref address) := by
  have h := hs.builtin
  have hentry := hs.types type
  unfold membersFor
  simp only
  split
  · exact Handles.known_nil
  · exact Member.known_boolean h htype href _
  · exact Member.known_string h htype href _
  · exact Member.known_numeric h htype href _ _
  · exact Member.known_bytewise h htype href _
  · split
    · exact Handles.known_append.2
        ⟨Member.known_bytewise h htype href _, Member.known_constants h htype⟩
    · intro m hm
      exact Member.known_memberwise h htype href m (List.mem_filter.1 hm).1
  · split
    · rename_i target htarget
      exact Member.known_reference h htype href
        (TypeEntry.known_referenceTarget? hentry target htarget)
    · exact Handles.known_nil
  · split
    · rename_i target htarget
      exact Member.known_address h htype href
        (TypeEntry.known_addressTarget? hentry target htarget) _ _
    · exact Handles.known_nil
  · split
    · rename_i elem len hparts
      have helem := (TypeEntry.known_array? hentry (elem, len) hparts).1
      refine Handles.known_append.2
        ⟨?_, Member.known_array h href helem haddress _ _⟩
      split
      · exact Member.known_memberwise h htype href
      · exact Member.known_bytewise h htype href _
    · exact Handles.known_nil

end Engine.Closed

/-! ## Deduced template arguments -/

namespace Deduction

variable {n : Nat}

theorem known_bind {known result : Partial} {i : Nat} {arg : TemplateArg}
    (hknown : Known n known) (harg : Known n arg)
    (h : bind known i arg = some result) : Known n result := by
  unfold bind at h
  split at h
  · split at h
    · cases h
      exact hknown
    · cases h
  · cases h
    intro a ha
    rcases List.mem_or_eq_of_mem_set ha with ha | rfl
    · exact hknown a ha
    · exact Handles.known_some.2 harg

mutual

theorem known_matchType {c : Context} (hc : Known n c.types)
    {known result : Partial} (hknown : Known n known) :
    ∀ {node : Node} {arg : TypeId}, Known n arg →
      matchType c known node arg = some result → Known n result
  | ⟨_, name, _, _, children⟩, arg, harg, h => by
      have hentry := hc arg
      match children with
      | [] =>
          simp only [matchType] at h
          split at h
          · exact known_bind hknown harg h
          · cases h
            exact hknown
      | inner :: others =>
          simp only [matchType] at h
          split at h
          · refine known_matchType hc hknown ?_ h
            exact Handles.known_getD
              (TypeEntry.known_referenceTarget? hentry) harg
          · split at h
            · rename_i hshape
              split at h
              · have hargs : Known n (c.types.get arg).shape := hentry
                rw [hshape] at hargs
                exact known_matchArgs hc hknown hargs h
              · cases h
            · cases h
          · split at h
            · rename_i horigin
              split at h
              · obtain ⟨body, hbody, horigin⟩ :=
                  Option.bind_eq_some_iff.1 horigin
                have hargs :=
                  ((TypeEntry.known_structural? hentry body hbody).2 _
                    horigin).2
                exact known_matchArgs hc hknown hargs h
              · cases h
                exact hknown
            · cases h
              exact hknown

theorem known_matchArgs {c : Context} (hc : Known n c.types)
    {known result : Partial} (hknown : Known n known) :
    ∀ {nodes : List Node} {args : List TemplateArg}, Known n args →
      matchArgs c known nodes args = some result → Known n result
  | [], _, _, h => by
      simp only [matchArgs] at h
      cases h
      exact hknown
  | _ :: _, [], _, h => by
      simp only [matchArgs] at h
      cases h
      exact hknown
  | pattern :: patterns, arg :: args, hargs, h => by
      obtain ⟨harg, hrest⟩ := Handles.known_cons.1 hargs
      cases arg with
      | type t =>
          simp only [matchArgs] at h
          obtain ⟨next, hnext, h⟩ := Option.bind_eq_some_iff.1 h
          exact known_matchArgs hc
            (known_matchType hc hknown harg hnext) hrest h
      | int v =>
          simp only [matchArgs] at h
          split at h
          · split at h
            · obtain ⟨next, hnext, h⟩ := Option.bind_eq_some_iff.1 h
              exact known_matchArgs hc (known_bind hknown harg hnext) hrest h
            · exact known_matchArgs hc hknown hrest h
          · exact known_matchArgs hc hknown hrest h

end

theorem known_matchParams {c : Context} (hc : Known n c.types)
    {known result : Partial} (hknown : Known n known) {params : List Node}
    {args : List TypeId} (hargs : Known n args)
    (h : matchParams c known params args = some result) : Known n result := by
  induction params generalizing known args with
  | nil =>
      simp only [matchParams] at h
      cases h
      exact hknown
  | cons param params ih =>
      cases args with
      | nil =>
          simp only [matchParams] at h
          cases h
          exact hknown
      | cons arg args =>
          obtain ⟨harg, hrest⟩ := Handles.known_cons.1 hargs
          simp only [matchParams] at h
          split at h
          · cases h
            exact hknown
          · split at h
            · obtain ⟨next, hnext, h⟩ := Option.bind_eq_some_iff.1 h
              exact ih (known_matchType hc hknown harg hnext) hrest h
            · exact ih hknown hrest h

theorem known_all {known : Partial} {args : List TemplateArg}
    (hknown : Known n known) (h : known.mapM (fun arg => arg) = some args) :
    Known n args := by
  induction known generalizing args with
  | nil =>
      cases h
      exact Handles.known_nil
  | cons first rest ih =>
      obtain ⟨hfirst, hrest⟩ := Handles.known_cons.1 hknown
      simp only [List.mapM_cons, Option.bind_eq_bind, Option.bind_eq_some_iff,
        Option.pure_def, Option.some.injEq] at h
      obtain ⟨arg, rfl, others, hothers, rfl⟩ := h
      exact Handles.known_cons.2 ⟨Handles.known_some.1 hfirst, ih hrest hothers⟩

/-- Deduction gives types that occur in the types of the arguments, or in the
explicit ones. -/
theorem known_arguments? {types : TypeTable} {templates : TemplateTable}
    {template : TemplateId} {args : List TypeId} {explicit : List TemplateArg}
    (htypes : Known n types) (hargs : Known n args)
    (hexplicit : Known n explicit) :
    Known n (arguments? types templates template args explicit) := by
  intro result h
  unfold arguments? at h
  simp only at h
  split at h
  · cases h
  · obtain ⟨params, -, h⟩ := Option.bind_eq_some_iff.1 h
    obtain ⟨known, hknown, h⟩ := Option.bind_eq_some_iff.1 h
    refine known_all (known_matchParams htypes ?_ ?_ hknown) h
    · refine Handles.known_append.2 ⟨?_, ?_⟩
      · exact Handles.known_map.2 fun arg harg =>
          Handles.known_some.2 (hexplicit arg harg)
      · intro arg harg
        rw [List.eq_of_mem_replicate harg]
        exact Handles.known_none
    · split
      · split
        · exact hargs
        · intro arg harg
          exact hargs arg (List.mem_of_mem_drop harg)
      · exact hargs

end Deduction

end ArenaScript
