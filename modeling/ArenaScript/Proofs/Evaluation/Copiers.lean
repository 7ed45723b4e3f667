import ArenaScript.Proofs.Evaluation.Catalogue
import ArenaScript.Proofs.Types.Extents

/-!
# What each type offers

Once a type has been initialized, its values can be copied and assigned, numbers
can be added, and so on: a function for the operands is found among its members,
provided the type that goes by the name of a reference to it is one.  It is
declared by the program, or it is the one that the engine provides; and what
that one does depends on the shape of the type alone.

Nothing that happens to the tables takes this away: overload lists grow at
their end, and no type counts as initialized before it has been given its
members.
-/

namespace ArenaScript

/-! ## Sizes and aggregates -/

namespace TypeEntry

variable {e e' : TypeEntry}

theorem size_of_fixed (h : e'.fixed = e.fixed) : e'.size = e.size := by
  have hsize := congrArg size h
  exact hsize

theorem aggregate_of_fixed (h : e'.fixed = e.fixed) :
    e'.aggregate = e.aggregate := by
  have haggregate := congrArg aggregate h
  exact haggregate

theorem core_of_fixed {shape : Shape} {kind : CoreKind}
    (h : shape.fixed = (Shape.core kind).fixed) : shape = .core kind := by
  cases shape <;> cases h
  rfl

theorem callable_of_fixed {shape : Shape} {kind : CallableKind}
    (h : shape.fixed = (Shape.callable kind).fixed) :
    shape = .callable kind := by
  cases shape <;> cases h
  rfl

theorem structural_of_fixed (h : e'.fixed = e.fixed) {body' : Structural}
    (hshape : e'.shape = .structural body') :
    ∃ body, e.shape = .structural body ∧
      body'.kind = body.kind ∧ body'.fields = body.fields ∧
      body'.align = body.align ∧
        body'.complete = body.complete := by
  have hfixed : e'.shape.fixed = e.shape.fixed := congrArg shape h
  rw [hshape] at hfixed
  cases hold : e.shape with
  | structural body =>
      rw [hold] at hfixed
      injection Shape.structural.inj hfixed with
        hkind hfields _ _ halign hcomplete
      exact ⟨body, rfl, hkind, hfields, halign, hcomplete⟩
  | core kind =>
      rw [hold] at hfixed
      cases hfixed
  | callable kind =>
      rw [hold] at hfixed
      cases hfixed
  | template kind args =>
      rw [hold] at hfixed
      cases hfixed

theorem template_of_fixed (h : e'.fixed = e.fixed) {kind : TemplateKind}
    {args : List TemplateArg} (hshape : e'.shape = .template kind args) :
    e.shape = .template kind args := by
  have hfixed : e'.shape.fixed = e.shape.fixed := congrArg shape h
  rw [hshape] at hfixed
  cases hold : e.shape with
  | structural body =>
      rw [hold] at hfixed
      cases hfixed
  | core kind =>
      rw [hold] at hfixed
      cases hfixed
  | callable kind =>
      rw [hold] at hfixed
      cases hfixed
  | template kind' args' =>
      rw [hold] at hfixed
      exact hfixed.symm

end TypeEntry

structure Structural.Placed (t : TypeTable) (size : Nat) (body : Structural) :
    Prop where
  fields : ∀ field ∈ body.fields, t.Has field.type ∧
    (t.get field.type).isComplete = true
  layout : Layout.ofFields t.extentOf body.kind body.fields =
    (body.fields, ⟨size, body.align⟩)

structure TypeTable.Retains (t u : TypeTable) : Prop where
  entry : ∀ id, t.Has id → (t.get id).isComplete = true →
    u.Has id ∧ (u.get id).fixed = (t.get id).fixed
  extent : ∀ id, t.Has id → (t.get id).isComplete = true →
    u.extentOf id = t.extentOf id

theorem Structural.Placed.later {t u : TypeTable} {size : Nat}
    {body : Structural} (h : body.Placed t size) (hkept : t.Retains u) :
    body.Placed u size where
  fields field hfield := by
    obtain ⟨hhas, hcomplete⟩ := h.fields field hfield
    obtain ⟨hhas', hfixed⟩ := hkept.entry field.type hhas hcomplete
    refine ⟨hhas', ?_⟩
    rw [← TypeEntry.isComplete_fixed, hfixed, TypeEntry.isComplete_fixed,
      hcomplete]
  layout := by
    rw [← h.layout]
    refine Layout.ofFields_congr (fun field hfield => ?_) body.kind
    obtain ⟨hhas, hcomplete⟩ := h.fields field hfield
    exact hkept.extent field.type hhas hcomplete

namespace TypeEntry

variable {e e' : TypeEntry}

/-- How the size of an entry and its kind follow from its shape. -/
structure Formed (t : TypeTable) (e : TypeEntry) : Prop where
  shaped : ∀ kind args, e.shape = .template kind args → WellShaped kind args
  record : e.isRecord = true → e.aggregate = true
  reference : ∀ target, e.referenceTarget? = some target → e.size = 8
  array : ∀ elem len, e.array? = some (elem, len) → t.Has elem ∧
    (t.get elem).isComplete = true ∧
    e.size = t.sizeOf elem * len ∧ e.aggregate = (t.get elem).aggregate
  aligned : ∀ body, e.shape = .structural body → 0 < body.align
  placed : ∀ body, e.shape = .structural body → body.complete = true →
    body.Placed t e.size
  address : ∀ target, e.addressTarget? = some target → e.size = 8 ∧
    e.aggregate = false
  incomplete : e.isComplete = false → e.size = 0
  bare : ∀ body, e.shape = .structural body → body.complete = false →
    body.fields = []

namespace Formed

variable {t u : TypeTable}

theorem later (h : e.Formed t) (he : e'.fixed = e.fixed) (hkept : t.Retains u) :
    e'.Formed u where
  shaped kind args hshape := h.shaped kind args (template_of_fixed he hshape)
  record hrecord := by
    rw [← isRecord_fixed, he, isRecord_fixed] at hrecord
    rw [aggregate_of_fixed he]
    exact h.record hrecord
  reference target htarget := by
    rw [← referenceTarget?_fixed, he, referenceTarget?_fixed] at htarget
    rw [size_of_fixed he]
    exact h.reference target htarget
  array elem len hparts := by
    rw [← array?_fixed, he, array?_fixed] at hparts
    obtain ⟨helem, hcomplete, htotal, hkind⟩ := h.array elem len hparts
    obtain ⟨hhas, hfixed⟩ := hkept.entry elem helem hcomplete
    refine ⟨hhas, ?_, ?_, ?_⟩
    · rw [← isComplete_fixed, hfixed, isComplete_fixed, hcomplete]
    · rw [size_of_fixed he, htotal, TypeTable.sizeOf, TypeTable.sizeOf,
        size_of_fixed hfixed]
    · rw [aggregate_of_fixed he, hkind, aggregate_of_fixed hfixed]
  aligned body hshape := by
    obtain ⟨old, hold, -, -, halign, -⟩ := structural_of_fixed he hshape
    rw [halign]
    exact h.aligned old hold
  placed body hshape hcomplete := by
    obtain ⟨old, hold, hsame, hfields, halign, hdone⟩ :=
      structural_of_fixed he hshape
    have hplaced := (h.placed old hold (hdone.symm.trans hcomplete)).later hkept
    rw [size_of_fixed he]
    exact ⟨hfields ▸ hplaced.fields,
      by rw [hsame, hfields, halign, hplaced.layout]⟩
  address target htarget := by
    rw [← addressTarget?_fixed, he, addressTarget?_fixed] at htarget
    rw [size_of_fixed he, aggregate_of_fixed he]
    exact h.address target htarget
  incomplete hopen := by
    rw [← isComplete_fixed, he, isComplete_fixed] at hopen
    rw [size_of_fixed he]
    exact h.incomplete hopen
  bare body hshape hopen := by
    obtain ⟨old, hold, -, hfields, -, hdone⟩ := structural_of_fixed he hshape
    rw [hfields]
    exact h.bare old hold (hdone.symm.trans hopen)

theorem plain (hstructural : ∀ body, e.shape ≠ .structural body)
    (htemplate : ∀ kind args, e.shape ≠ .template kind args) : e.Formed t where
  shaped kind args h := absurd h (htemplate kind args)
  record h := by
    unfold isRecord at h
    split at h
    · exact absurd ‹_› (hstructural _)
    · cases h
  reference target h := by
    unfold referenceTarget? at h
    split at h
    · exact absurd ‹_› (htemplate _ _)
    · cases h
  array elem len h := by
    obtain ⟨n, hshape⟩ := array?_eq_some h
    exact absurd hshape (htemplate _ _)
  aligned body h := absurd h (hstructural body)
  placed body h := absurd h (hstructural body)
  address target h := by
    unfold addressTarget? at h
    split at h
    · exact absurd ‹_› (htemplate _ _)
    · cases h
  incomplete h := by
    unfold isComplete at h
    split at h
    · exact absurd ‹_› (hstructural _)
    · cases h
  bare body h := absurd h (hstructural body)

theorem core {kind : CoreKind} (h : e.shape = .core kind) : e.Formed t := by
  refine .plain (fun _ hother => ?_) fun _ _ hother => ?_
  · cases h.symm.trans hother
  · cases h.symm.trans hother

theorem shell {kind : StructKind} (hshape : e.shape = .structural (.shell kind))
    (haggregate : e.aggregate = (kind != .enumKind)) (hsize : e.size = 0) :
    e.Formed t where
  shaped kind args h := by
    rw [hshape] at h
    cases h
  record h := by
    rw [haggregate]
    simpa only [isRecord, hshape, Structural.shell] using h
  reference target h := by
    simp only [referenceTarget?, hshape] at h
    cases h
  array elem len h := by
    simp only [array?, hshape] at h
    cases h
  aligned body h := by
    rw [hshape] at h
    cases h
    exact Nat.one_pos
  placed body h hcomplete := by
    rw [hshape] at h
    cases h
    cases hcomplete
  address target h := by
    simp only [addressTarget?, hshape] at h
    cases h
  incomplete _ := hsize
  bare body h _ := by
    rw [hshape] at h
    cases h
    rfl

theorem builtin {kind : TemplateKind} {args : List TemplateArg}
    (hshape : e.shape = .template kind args)
    (hargs : ∀ type, .type type ∈ args → t.Has type)
    (hsize : t.instanceSize kind args = .ok (e.size, e.aggregate)) :
    e.Formed t where
  shaped kind' args' h := by
    rw [hshape] at h
    cases h
    exact TypeTable.wellShaped_of_instanceSize hsize
  record h := by
    simp only [isRecord, hshape] at h
    cases h
  reference target h := by
    simp only [referenceTarget?, hshape] at h
    -- Its size tells which template it is an instance of, so two of the cases
    -- are void.
    cases TypeTable.wellShaped_of_instanceSize hsize with
    | ref target' =>
        simp only [TypeTable.instanceSize] at hsize
        split at hsize
        · cases hsize
        · injection hsize with hsize
          exact (congrArg Prod.fst hsize).symm
    | address target' => cases h
    | array elem len => cases h
  array elem len h := by
    simp only [array?, hshape] at h
    cases TypeTable.wellShaped_of_instanceSize hsize with
    | ref target => cases h
    | address target => cases h
    | array elem' n =>
        obtain ⟨rfl, rfl⟩ : elem' = elem ∧ n.toInt.toNat = len := by
          simpa using h
        simp only [TypeTable.instanceSize] at hsize
        split at hsize
        · rename_i hsized
          injection hsize with hsize
          simp only [TypeTable.isSized, Bool.and_eq_true] at hsized
          exact ⟨hargs _ List.mem_cons_self, hsized.2.1,
            (congrArg Prod.fst hsize).symm,
            (congrArg Prod.snd hsize).symm⟩
        · cases hsize
  aligned body h := by
    rw [hshape] at h
    cases h
  placed body h := by
    rw [hshape] at h
    cases h
  address target h := by
    simp only [addressTarget?, hshape] at h
    cases TypeTable.wellShaped_of_instanceSize hsize with
    | ref target' => cases h
    | address target' =>
        injection hsize with hsize
        exact ⟨(congrArg Prod.fst hsize).symm, (congrArg Prod.snd hsize).symm⟩
    | array elem len => cases h
  incomplete h := by
    simp only [isComplete, hshape] at h
    cases h
  bare body h := by
    rw [hshape] at h
    cases h

end Formed

end TypeEntry

/-- The sizes and kinds of all types follow from their shapes. -/
def TypeTable.Formed (t : TypeTable) : Prop := ∀ id, (t.get id).Formed t

namespace TypeTable.Formed

variable {t u : TypeTable}

theorem retains (h : t.Formed)
    (hsame : ∀ id, t.Has id → (t.get id).isComplete = true →
      u.Has id ∧ (u.get id).fixed = (t.get id).fixed) : t.Retains u := by
  have halign : ∀ n id, t.Has id → (t.get id).isComplete = true →
      u.alignFrom id n = t.alignFrom id n := by
    intro n
    induction n with
    | zero => exact fun _ _ _ => rfl
    | succ n ih =>
        intro id hid hcomplete
        have hfixed := (hsame id hid hcomplete).2
        have hshape : (u.get id).shape.fixed = (t.get id).shape.fixed :=
          congrArg TypeEntry.shape hfixed
        have harray : (u.get id).array? = (t.get id).array? := by
          rw [← TypeEntry.array?_fixed, hfixed, TypeEntry.array?_fixed]
        simp only [alignFrom, harray]
        cases hold : (t.get id).shape with
        | core kind =>
            rw [hold] at hshape
            rw [TypeEntry.core_of_fixed hshape]
        | callable kind =>
            rw [hold] at hshape
            rw [TypeEntry.callable_of_fixed hshape]
        | structural body =>
            obtain ⟨body', hnew, -, -, halign, -⟩ :=
              TypeEntry.structural_of_fixed hfixed.symm hold
            simp only [hnew, halign]
        | template kind args =>
            simp only [TypeEntry.template_of_fixed hfixed.symm hold]
            cases hparts : (t.get id).array? with
            | none => rfl
            | some parts =>
                obtain ⟨helem, hdone, -, -⟩ :=
                  (h id).array parts.1 parts.2 hparts
                exact ih parts.1 helem hdone
  refine ⟨hsame, fun id hid hcomplete => ?_⟩
  have hsize := TypeEntry.size_of_fixed (hsame id hid hcomplete).2
  rw [extentOf, extentOf, sizeOf, sizeOf, hsize, alignOf, alignOf,
    halign _ id hid hcomplete]

theorem retains_grown (h : t.Formed) (hgrown : t.Grown u) : t.Retains u :=
  h.retains fun id hid _ =>
    ⟨Nat.lt_of_lt_of_le hid hgrown.size, hgrown.entry id hid⟩

theorem grown (h : t.Formed) (hgrown : t.Grown u)
    (hnew : ∀ id, t.size ≤ id.index → (u.get id).Formed u) : u.Formed := by
  intro id
  by_cases hid : t.Has id
  · exact (h id).later (hgrown.entry id hid) (h.retains_grown hgrown)
  · exact hnew id (Nat.le_of_not_lt hid)

theorem push (h : t.Formed) {e : TypeEntry} (he : e.Formed t) :
    (t.push e).2.Formed := by
  have hgrown := Grown.push t e
  refine h.grown hgrown fun id hid => ?_
  rw [get_push]
  split
  · exact he.later rfl (h.retains_grown hgrown)
  · have hnot : ¬ t.Has id := Nat.not_lt.2 hid
    rw [get_of_not_has hnot]
    exact .core rfl

theorem modify (h : t.Formed) {f : TypeEntry → TypeEntry}
    (hf : ∀ e, (f e).fixed = e.fixed) (index : Nat) :
    TypeTable.Formed ⟨t.types.modify index f⟩ := by
  refine h.grown (.modify hf index) fun id hid => ?_
  have hout : ¬ TypeTable.Has ⟨t.types.modify index f⟩ id := by
    simpa [Has, size] using hid
  rw [get_of_not_has hout]
  exact .core rfl

theorem complete (h : t.Formed) {id : TypeId} {fields : List Field}
    {variants : List (String × Int64)} (hid : t.Has id)
    (hopen : (t.get id).isComplete = false)
    (hfields : ∀ field ∈ fields, t.Has field.type)
    (hcomplete : t.complete id fields variants = .ok u) : u.Formed := by
  obtain ⟨body, hshape, hsized, hsize, hentry, hothers⟩ :=
    complete_eq_ok hid hcomplete
  have hkept : t.Retains u := by
    refine h.retains fun other hother hdone => ?_
    refine ⟨by simpa only [Has, hsize] using hother, ?_⟩
    rw [hothers]
    rintro rfl
    rw [hopen] at hdone
    cases hdone
  intro other
  by_cases heq : other = id
  · subst heq
    rw [hentry]
    refine ⟨fun _ _ hother => ?_, fun hrecord => (h other).record ?_,
      fun _ htarget => ?_,
      fun _ _ hparts => ?_, fun _ hother => ?_, fun _ hother _ =>
        ?_, fun _ htarget => ?_,
      fun hshell => ?_, fun _ hother hshell => ?_⟩
    · cases hother
    · simpa only [TypeEntry.isRecord, completed, hshape] using hrecord
    · cases htarget
    · cases hparts
    · cases hother
      exact Layout.ofFields_aligned ..
    · cases hother
      have hplaced :
          Structural.Placed t (t.completed other body fields variants).size
          { body with
            fields := (Layout.ofFields t.extentOf body.kind fields).1, variants
            align := (Layout.ofFields t.extentOf body.kind fields).2.align,
            complete := true } := by
        refine ⟨fun field hfield => ?_, Layout.ofFields_placed ..⟩
        have htypes := Layout.map_type_of_declared
          (Layout.declared_ofFields t.extentOf body.kind fields)
        have hmem : field.type ∈ fields.map Field.type := by
          rw [← htypes]
          exact List.mem_map_of_mem hfield
        obtain ⟨first, hfirst, hsame⟩ := List.mem_map.1 hmem
        rw [← hsame]
        exact ⟨hfields first hfirst, hsized first hfirst⟩
      exact hplaced.later hkept
    · cases htarget
    · cases hshell
    · cases hother
      cases hshell
  · rw [hothers other heq]
    exact (h other).later rfl hkept

theorem alignOf_pos (h : t.Formed) (id : TypeId) : 0 < t.alignOf id := by
  have halign : ∀ n other, 0 < t.alignFrom other n := by
    intro n
    induction n with
    | zero => exact fun _ => Nat.one_pos
    | succ n ih =>
        intro other
        rw [alignFrom]
        split
        · exact Nat.lt_of_lt_of_le Nat.one_pos (Nat.le_max_left ..)
        · exact Nat.succ_pos 7
        · exact (h other).aligned _ ‹_›
        · split
          · exact ih _
          · exact Nat.succ_pos 7
  exact halign _ id

theorem classLayout (h : t.Formed) {id : TypeId} {body : Structural}
    (hshape : (t.get id).shape = .structural body)
    (hcomplete : body.complete = true) (hkind : body.kind = .classKind)
    (hfits : Layout.exactSize t.extentOf .classKind body.fields <
      Word.modulus) :
    Layout.ClassLayout t.extentOf body.fields ⟨t.sizeOf id, body.align⟩ := by
  have hlayout :=
    Layout.classLayout (fun field _ => h.alignOf_pos field.type) hfits
  rw [← hkind, ((h id).placed body hshape hcomplete).layout] at hlayout
  exact hlayout

theorem unionLayout (h : t.Formed) {id : TypeId} {body : Structural}
    (hshape : (t.get id).shape = .structural body)
    (hcomplete : body.complete = true) (hkind : body.kind = .unionKind)
    (hfits : Layout.exactSize t.extentOf .unionKind body.fields <
      Word.modulus) :
    Layout.UnionLayout t.extentOf body.fields ⟨t.sizeOf id, body.align⟩ := by
  have hlayout := Layout.unionLayout hfits
  rw [← hkind, ((h id).placed body hshape hcomplete).layout] at hlayout
  exact hlayout

end TypeTable.Formed

/-! ## The constructor for copying -/

/-- What the constructor does that the engine provides for copying. -/
def TypeEntry.copying? (t : TypeTable) (e : TypeEntry) : Option Native :=
  match e.shape with
  | .core .void => none
  | .core _ | .callable _ => some (.copyBytes e.size)
  | .structural body =>
      some (if body.kind == .enumKind then .copyBytes e.size else .copyMembers)
  | .template .ref _ => e.referenceTarget?.map fun _ => .copyReference
  | .template .address _ => e.addressTarget?.map fun _ => .copyBytes e.size
  | .template .array _ => e.array?.map fun parts =>
      if (t.get parts.1).aggregate then .copyMembers else .copyBytes e.size

theorem TypeEntry.copying?_fixed (t : TypeTable) (e : TypeEntry) :
    e.fixed.copying? t = e.copying? t := by
  unfold copying? fixed
  cases hshape : e.shape <;>
    simp [Shape.fixed, referenceTarget?, addressTarget?, array?, hshape]

theorem TypeEntry.copying?_congr {t u : TypeTable} {e e' : TypeEntry}
    (he : e'.fixed = e.fixed) (helem : ∀ elem len, e.array? = some (elem, len) →
      (u.get elem).aggregate = (t.get elem).aggregate) : e'.copying? u =
        e.copying? t := by
  rw [← copying?_fixed, he, copying?_fixed]
  unfold copying?
  cases hparts : e.array? with
  | none => rfl
  | some parts => simp only [Option.map_some, helem parts.1 parts.2 hparts]

def Native.assigning? : Native → Option Native
  | .copyBytes size => some (.assignBytes size)
  | .copyMembers => some .assignMembers
  | _ => none

namespace Member

def copier (ref : TypeId) (native : Native) : Member :=
  function "construct" [self ref, ⟨"rhs", ref⟩] .void native

def update (symbol : String) (ref rhs ret : TypeId) (native : Native) :
    Member :=
  operator symbol [self ref, ⟨"rhs", rhs⟩] ret native

end Member

theorem TypeEntry.exists_assigning {t : TypeTable} {e : TypeEntry}
    {copying : Native} (hreference : e.referenceTarget? = none)
    (hcopying : e.copying? t = some copying) :
    ∃ native, copying.assigning? = some native := by
  unfold copying? at hcopying
  split at hcopying
  · cases hcopying
  · cases hcopying
    exact ⟨_, rfl⟩
  · cases hcopying
    exact ⟨_, rfl⟩
  · split at hcopying <;> cases hcopying <;> exact ⟨_, rfl⟩
  · rw [hreference] at hcopying
    cases hcopying
  · obtain ⟨target, -, rfl⟩ := Option.map_eq_some_iff.1 hcopying
    exact ⟨_, rfl⟩
  · obtain ⟨parts, -, rfl⟩ := Option.map_eq_some_iff.1 hcopying
    split <;> exact ⟨_, rfl⟩

inductive TypeEntry.Offers (t : TypeTable) (e : TypeEntry) (type ref : TypeId) :
    Member → List TypeId → Prop
  | copy {native : Native} (hcopying : e.copying? t = some native) :
      Offers t e type ref (.copier ref native) [type, type]
  | assign {copying native : Native} (hcopying : e.copying? t = some copying)
      (hassigning : copying.assigning? = some native) :
      Offers t e type ref (.update "=" ref type type native) [type, type]
  | assignThrough {target : TypeId}
      (htarget : e.referenceTarget? = some target) :
      Offers t e type ref
        (.update "=" ref target target (.assignThrough target)) [type, target]
  | assignAcross {target : TypeId} (htarget : e.referenceTarget? = some target)
      (hother : t.accepts target type = false) :
      Offers t e type ref (.update "=" ref type target (.assignThrough target))
        [type, type]
  | arith {kind : CoreKind} {symbol : String} {op : Arith}
      (hkind : kind.isNumeric = true) (hshape : e.shape = .core kind)
      (hop : (symbol, op) ∈ Arith.numeric) :
      Offers t e type ref (.binary symbol type type (.arith op kind type))
        [type, type]
  | arithAssign {kind : CoreKind} {symbol : String} {op : Arith}
      (hkind : kind.isNumeric = true) (hshape : e.shape = .core kind)
      (hop : (symbol, op) ∈ Arith.numeric) :
      Offers t e type ref
        (.update (symbol ++ "=") ref type type (.arithAssign op kind))
        [type, type]

theorem TypeEntry.Offers.congr {t u : TypeTable} {e e' : TypeEntry}
    {type ref : TypeId} {m : Member} {args : List TypeId}
    (h : e'.Offers u type ref m args) (he : e'.fixed = e.fixed)
    (helem : ∀ elem len, e.array? = some (elem, len) →
      (u.get elem).aggregate = (t.get elem).aggregate)
    (haccepts : ∀ target, e.referenceTarget? = some target →
      u.accepts target type = t.accepts target type) :
        e.Offers t type ref m args := by
  have hcopying := copying?_congr he helem
  have htargets : e'.referenceTarget? = e.referenceTarget? := by
    rw [← referenceTarget?_fixed, he, referenceTarget?_fixed]
  have hcore : ∀ kind, e'.shape = .core kind → e.shape = .core kind :=
    fun kind hshape => by
    have hfixed : e'.shape.fixed = e.shape.fixed := congrArg shape he
    rw [hshape] at hfixed
    exact core_of_fixed hfixed.symm
  cases h with
  | copy h => exact .copy (hcopying ▸ h)
  | assign h hassigning => exact .assign (hcopying ▸ h) hassigning
  | assignThrough h => exact .assignThrough (htargets ▸ h)
  | assignAcross h hother =>
      have htarget := htargets ▸ h
      exact .assignAcross htarget (haccepts _ htarget ▸ hother)
  | arith hkind hshape hop => exact .arith hkind (hcore _ hshape) hop
  | arithAssign hkind hshape hop =>
      exact .arithAssign hkind (hcore _ hshape) hop

structure TypeEntry.Alike (e e' : TypeEntry) : Prop where
  name : e'.name = e.name
  target : e'.referenceTarget? = e.referenceTarget?
  aggregate : e'.aggregate = e.aggregate

theorem TypeEntry.Alike.of_fixed {e e' : TypeEntry} (h : e'.fixed = e.fixed) :
    e.Alike e' where
  name := by
    have hname := congrArg TypeEntry.name h
    exact hname
  target := by rw [← referenceTarget?_fixed, h, referenceTarget?_fixed]
  aggregate := aggregate_of_fixed h

namespace Catalogue

variable {n : Nat} {k l j : Catalogue} {type ref : TypeId}

def called? (k : Catalogue) (type : TypeId) (m : Member) (args : List TypeId) :
    Option FunctionId :=
  k.functions.resolve k.types (k.overloads (k.members type) m.isOperator m.name)
    (.member args)

/-- There is a member for operands of these types, and if the engine provides
it, it is `m`. -/
def Answers (k : Catalogue) (type : TypeId) (m : Member) (args : List TypeId) :
    Prop :=
  ∃ id, k.called? type m args = some id ∧
    (k.Provided id type → k.functions.get id = m.provided type)

/-- The type has been given the members that it has in `u`, with the types that
go by the names of references to it and of addresses of its elements. -/
structure Outfit (k : Catalogue) (type : TypeId) (u : Engine)
    (ref address : TypeId) : Prop where
  formed : u.types.Formed
  has : u.types.Has type
  complete : (u.types.get type).isComplete = true
  kept : ∀ id, u.types.Has id → (u.types.get id).isComplete = true →
    k.types.Has id ∧ (k.types.get id).fixed = (u.types.get id).fixed
  reference : k.types.Has ref ∧
    k.types.name ref = k.types.render .ref [.type type]
  elements : ∀ elem len, (u.types.get type).array? = some (elem, len) →
    k.types.Has address ∧
    k.types.name address = k.types.render .address [.type elem]
  members : ∀ operator name, ∃ before mine after,
    k.overloads (k.members type) operator name = before ++ (mine ++ after) ∧
      (∀ id ∈ before, ¬ k.Provided id type) ∧
      (∀ id ∈ mine, id.index < k.functions.size) ∧
      mine.map k.functions.get =
        (labelled (u.membersFor type ref address) operator name).map
          (·.provided type)

structure Furnished (k : Catalogue) (type : TypeId) : Prop where
  has : k.types.Has type
  complete : (k.types.get type).isComplete = true
  elements : ∀ elem len, (k.types.get type).array? = some (elem, len) →
    k.types.Has elem
  target : ∀ target, (k.types.get type).referenceTarget? = some target →
    k.types.Has target
  answers : ∃ ref, k.types.Has ref ∧
    k.types.name ref = k.types.render .ref [.type type] ∧
    ((k.types.get ref).referenceTarget? = some type → ∀ m args,
      (k.types.get type).Offers k.types type ref m args → k.Answers type m args)
  outfit : ∃ u ref address, k.Outfit type u ref address

theorem Appends.resolve (hl : Appends n k l) (hk : k.Sorted)
    (hsame : ∀ id, k.types.Has id → (k.types.get id).Alike (l.types.get id))
    {scope : ScopeId} {operator : Bool} {name : String} {site : CallSite}
    {id : FunctionId}
    (h : k.functions.resolve k.types (k.overloads scope operator name) site =
      some id) :
    l.functions.resolve l.types (l.overloads scope operator name) site =
      some id := by
  obtain ⟨later, hlists, -⟩ := hl.lists scope operator name
  have hfits : ∀ other ∈ k.overloads scope operator name,
      (l.functions.get other).fits l.types site =
        (k.functions.get other).fits k.types site := by
    intro other hother
    have hlisted := hk.listed _ _ _ other hother
    rw [hl.functions other hlisted]
    exact Function.fits_congr
      (fun p hp => (hsame _ (hk.typed other hlisted p hp)).target) site
  obtain ⟨hfit, before, after, hlist, hbefore⟩ :=
    List.find?_eq_some_iff_append.1 h
  rw [hlist] at hlists hfits
  refine List.find?_eq_some_iff_append.2
    ⟨?_, before, after ++ later, ?_, fun other hother => ?_⟩
  · rw [hfits id (List.mem_append_right _ List.mem_cons_self), hfit]
  · rw [hlists, List.append_assoc]
    rfl
  · rw [hfits other (List.mem_append_left _ hother)]
    exact hbefore other hother

theorem mem_of_resolve {functions : FunctionTable} {types : TypeTable}
    {candidates : List FunctionId} {site : CallSite} {id : FunctionId}
    (h : functions.resolve types candidates site = some id) : id ∈ candidates :=
  List.mem_of_find?_eq_some h

theorem Outfit.later {u : Engine} {address : TypeId}
    (h : k.Outfit type u ref address) (hk : k.Sorted) (hl : Appends n k l)
    (hkept : ∀ id, k.types.Has id → (k.types.get id).isComplete = true →
      l.types.Has id ∧ (l.types.get id).fixed = (k.types.get id).fixed)
    (hsame : ∀ id, k.types.Has id → (k.types.get id).Alike (l.types.get id)) :
    l.Outfit type u ref address := by
  have hall : ∀ id, u.types.Has id → (u.types.get id).isComplete = true →
      l.types.Has id ∧ (l.types.get id).fixed = (u.types.get id).fixed := by
    intro id hid hcomplete
    obtain ⟨hhas, hfixed⟩ := h.kept id hid hcomplete
    have hdone : (k.types.get id).isComplete = true := by
      rw [← TypeEntry.isComplete_fixed, hfixed, TypeEntry.isComplete_fixed,
        hcomplete]
    obtain ⟨hlater, hsame⟩ := hkept id hhas hdone
    exact ⟨hlater, hsame.trans hfixed⟩
  have hrender : ∀ {kind id} target, k.types.Has id → k.types.Has target →
      k.types.name id = k.types.render kind [.type target] →
        l.types.Has id ∧
        l.types.name id = l.types.render kind [.type target] := by
    intro kind id target hid htarget hname
    refine ⟨Nat.lt_of_lt_of_le hid hl.size, ?_⟩
    have hsameTarget : l.types.name target = k.types.name target :=
      (hsame target htarget).name
    rw [TypeTable.name, (hsame id hid).name, TypeTable.render,
      TypeTable.renderArgs_single, hsameTarget, ← TypeTable.renderArgs_single,
      ← TypeTable.render]
    exact hname
  have htype := (h.kept type h.has h.complete).1
  refine ⟨h.formed, h.has, h.complete, hall,
    hrender type h.reference.1 htype h.reference.2,
    fun elem len hparts => ?_, fun operator name => ?_⟩
  · obtain ⟨helem, hcomplete, -, -⟩ := (h.formed type).array elem len hparts
    obtain ⟨haddress, hname⟩ := h.elements elem len hparts
    exact hrender elem haddress (h.kept elem helem hcomplete).1 hname
  · obtain ⟨before, mine, after, hlist, hbefore, hmine, hmembers⟩ :=
      h.members operator name
    obtain ⟨later, hlists, -⟩ := hl.lists (k.members type) operator name
    have hscope : l.members type = k.members type := by
      have hfixed :=
        congrArg TypeEntry.members ((hall type h.has h.complete).2.trans
          (h.kept type h.has h.complete).2.symm)
      exact hfixed
    have hold : ∀ id ∈ before, id.index < k.functions.size := fun id hid =>
      hk.listed _ _ _ id (hlist ▸ List.mem_append_left _ hid)
    refine ⟨before, mine, after ++ later, ?_, fun id hid hprovided =>
      hbefore id hid ?_,
      fun id hid => Nat.lt_of_lt_of_le (hmine id hid) hl.functions_size, ?_⟩
    · rw [hscope, hlists, hlist, List.append_assoc, List.append_assoc]
    · rw [Provided, hl.functions id (hold id hid)] at hprovided
      exact hprovided
    · rw [← hmembers]
      exact List.map_congr_left fun id hid => hl.functions id (hmine id hid)

theorem Furnished.later (h : k.Furnished type) (hk : k.Sorted)
    (hl : Appends n k l)
    (hentry : (l.types.get type).fixed = (k.types.get type).fixed)
    (hkept : ∀ id, k.types.Has id → (k.types.get id).isComplete = true →
      l.types.Has id ∧ (l.types.get id).fixed = (k.types.get id).fixed)
    (hsame : ∀ id, k.types.Has id → (k.types.get id).Alike (l.types.get id)) :
    l.Furnished type where
  outfit := by
    obtain ⟨u, ref, address, houtfit⟩ := h.outfit
    exact ⟨u, ref, address, houtfit.later hk hl hkept hsame⟩
  has := Nat.lt_of_lt_of_le h.has hl.size
  complete := by
    rw [← TypeEntry.isComplete_fixed, hentry, TypeEntry.isComplete_fixed,
      h.complete]
  elements elem len hparts := by
    rw [← TypeEntry.array?_fixed, hentry, TypeEntry.array?_fixed] at hparts
    exact Nat.lt_of_lt_of_le (h.elements elem len hparts) hl.size
  target target htarget := by
    rw [← TypeEntry.referenceTarget?_fixed, hentry,
      TypeEntry.referenceTarget?_fixed] at htarget
    exact Nat.lt_of_lt_of_le (h.target target htarget) hl.size
  answers := by
    obtain ⟨ref, href, hname, hanswers⟩ := h.answers
    refine ⟨ref, Nat.lt_of_lt_of_le href hl.size, ?_,
      fun htarget m args hoffers => ?_⟩
    · have hrender : l.types.name type = k.types.name type :=
        (hsame type h.has).name
      rw [TypeTable.name, (hsame ref href).name, TypeTable.render,
        TypeTable.renderArgs_single, hrender, ← TypeTable.renderArgs_single,
        ← TypeTable.render]
      exact hname
    · rw [(hsame ref href).target] at htarget
      have hold : (k.types.get type).Offers k.types type ref m args := by
        refine hoffers.congr hentry (fun elem len hparts => ?_)
          fun target htarget => ?_
        · exact (hsame elem (h.elements elem len hparts)).aggregate
        · rw [TypeTable.accepts, TypeTable.accepts,
            (hsame target (h.target target htarget)).target]
      obtain ⟨id, hid, hprovided⟩ := hanswers htarget m args hold
      have hmembers : l.members type = k.members type := by
        have hmembers := congrArg TypeEntry.members hentry
        exact hmembers
      have hlisted := hk.listed _ _ _ id (mem_of_resolve hid)
      refine ⟨id, ?_, fun h => ?_⟩
      · rw [called?, hmembers]
        exact hl.resolve hk hsame hid
      · rw [Provided, hl.functions id hlisted] at h
        rw [hl.functions id hlisted]
        exact hprovided h

/-! ## Additions -/

/-- On the way from `k` to `l` no type has been marked as initialized without
being given its members, and the entries are in order if they were. -/
structure Supplies (k l : Catalogue) : Prop where
  furnished : k.types.Formed → ∀ type, (l.types.get type).initialized = true →
    (k.types.get type).initialized = true ∨ l.Furnished type
  formed : k.types.Formed → l.types.Formed

namespace Supplies

theorem of_types (h : l.types = k.types) : k.Supplies l where
  furnished _ _ hinitialized := .inl (h ▸ hinitialized)
  formed hk := h ▸ hk

theorem refl (k : Catalogue) : k.Supplies k := of_types rfl

theorem trans (hkl : k.Supplies l) (hl : l.Sorted) (hlj : Appends n l j)
    (hgrown : l.types.Grown j.types) (h : l.Supplies j) : k.Supplies j where
  furnished hk type hinitialized := by
    rcases h.furnished (hkl.formed hk) type hinitialized with hold | hnew
    · refine (hkl.furnished hk type hold).imp_right fun hfurnished => ?_
      exact hfurnished.later hl hlj (hgrown.entry type hfurnished.has)
        (fun id hid _ =>
          ⟨Nat.lt_of_lt_of_le hid hgrown.size, hgrown.entry id hid⟩)
        fun id hid => .of_fixed (hgrown.entry id hid)
    · exact .inr hnew
  formed hk := h.formed (hkl.formed hk)

theorem push {e : TypeEntry} (hfresh : e.initialized = false)
    (he : e.Formed k.types) (htypes : l.types = (k.types.push e).2) :
    k.Supplies l where
  furnished _ type h := by
    rw [htypes, TypeTable.get_push] at h
    split at h
    · rw [hfresh] at h
      cases h
    · exact .inl h
  formed hk := by
    rw [htypes]
    exact hk.push he

theorem modify {f : TypeEntry → TypeEntry} {index : Nat}
    (hfixed : ∀ e, (f e).fixed = e.fixed)
    (hinitialized : ∀ e, (f e).initialized = e.initialized)
    (htypes : l.types = ⟨k.types.types.modify index f⟩) : k.Supplies l := by
  refine ⟨fun _ type h => .inl ?_, fun hk => htypes ▸ hk.modify hfixed index⟩
  have htype : k.types.Has type := by
    refine Classical.byContradiction fun hnot => ?_
    have hout : ¬ l.types.Has type := by
      rw [htypes]
      simpa [TypeTable.Has, TypeTable.size] using hnot
    rw [TypeTable.get_of_not_has hout] at h
    cases h
  rw [htypes, TypeTable.get_modify htype] at h
  split at h
  · exact (hinitialized _).symm.trans h
  · exact h

theorem complete {id : TypeId} {fields : List Field}
    {variants : List (String × Int64)} (hkl : k.Supplies l) (hl : l.Sorted)
    (hlj : Appends n l j) (hid : l.types.Has id)
    (hopen : (l.types.get id).isComplete = false)
    (hfields : ∀ field ∈ fields, l.types.Has field.type)
    (hcomplete : l.types.complete id fields variants = .ok j.types) :
    k.Supplies j := by
  obtain ⟨body, hshape, -, -, hentry, hothers⟩ :=
    TypeTable.complete_eq_ok hid hcomplete
  have halike : ∀ other, (l.types.get other).Alike (j.types.get other) ∧
      (j.types.get other).initialized = (l.types.get other).initialized := by
    intro other
    by_cases heq : other = id
    · subst heq
      rw [hentry]
      exact ⟨⟨rfl,
        by simp only [TypeEntry.referenceTarget?, TypeTable.completed, hshape],
          rfl⟩, rfl⟩
    · rw [hothers other heq]
      exact ⟨⟨rfl, rfl, rfl⟩, rfl⟩
  refine ⟨fun hk type h => ?_,
    fun hk => (hkl.formed hk).complete hid hopen hfields hcomplete⟩
  rw [(halike type).2] at h
  refine (hkl.furnished hk type h).imp_right fun hfurnished => ?_
  have hne : ∀ other, (l.types.get other).isComplete = true → other ≠ id := by
    rintro other hdone rfl
    cases hdone.symm.trans hopen
  refine hfurnished.later hl hlj ?_ (fun other hother hdone => ?_)
    fun other _ => (halike other).1
  · rw [hothers type (hne type hfurnished.complete)]
  · rw [hothers other (hne other hdone)]
    exact ⟨Nat.lt_of_lt_of_le hother hlj.size, rfl⟩

theorem mark {marked : Catalogue}
    (hmarked : marked.types = k.types.markInitialized type)
    (h : marked.Supplies l) (hfurnished : l.types.Formed → l.Furnished type) :
    k.Supplies l := by
  have hformed : k.types.Formed → marked.types.Formed := fun hk => by
    rw [hmarked]
    exact hk.modify (f := fun entry => { entry with initialized := true })
      (fun _ => rfl) _
  refine ⟨fun hk other hother => ?_, fun hk => h.formed (hformed hk)⟩
  rcases h.furnished (hformed hk) other hother with hmark | hnew
  · by_cases heq : other = type
    · rw [heq]
      exact .inr (hfurnished (h.formed (hformed hk)))
    · rw [hmarked, TypeTable.markInitialized,
        TypeTable.get_modify_ne heq] at hmark
      exact .inl hmark
  · exact .inr hnew

end Supplies

end Catalogue

/-! ## Members of a type -/

open Catalogue (labelled)

namespace Engine

variable {s : Engine} {type ref address : TypeId} {m : Member}
  {args : List TypeId}

/-! ### Members that fit -/

theorem accepts_ref (htarget : (s.types.get ref).referenceTarget? = some type) :
    s.types.accepts ref type = true := by
  rw [TypeTable.accepts, htarget]
  simp

theorem accepts_self (type : TypeId) : s.types.accepts type type = true := by
  simp [TypeTable.accepts]

theorem fits_alone (name : String) (operator : Bool) (self ret arg : TypeId)
    (native : Native) :
    ((Member.mk name operator [Member.self self] ret native).provided type).fits
      s.types (.member [arg]) = s.types.accepts self arg := by
  simp [Member.provided, Function.make, Function.fits, Function.acceptsCount,
    Function.fixedParams, CallSite.member, Member.self]

theorem fits_provided (name param : String) (operator : Bool)
    (self rhs ret arg other : TypeId) (native : Native) :
    ((Member.mk name operator [Member.self self, ⟨param, rhs⟩] ret
      native).provided type).fits
      s.types (.member [arg, other]) =
        (s.types.accepts self arg && s.types.accepts rhs other) := by
  simp [Member.provided, Function.make, Function.fits, Function.acceptsCount,
    Function.fixedParams, CallSite.member, Member.self]

theorem fits_of_accepts {name param : String} {operator : Bool}
    {self rhs ret arg other : TypeId} {native : Native}
    (hself : s.types.accepts self arg = true)
    (hrhs : s.types.accepts rhs other = true) :
    ((Member.mk name operator [Member.self self, ⟨param, rhs⟩] ret
      native).provided type).fits s.types (.member [arg, other]) = true := by
  rw [fits_provided, hself, hrhs]
  rfl

theorem fits_offered (h : (s.types.get type).Offers s.types type ref m args)
    (htarget : (s.types.get ref).referenceTarget? = some type) :
    (m.provided type).fits s.types (.member args) = true := by
  have href := accepts_ref htarget
  cases h with
  | copy _ => exact fits_of_accepts href href
  | assign _ _ => exact fits_of_accepts href (accepts_self _)
  | assignThrough _ => exact fits_of_accepts href (accepts_self _)
  | assignAcross _ _ => exact fits_of_accepts href (accepts_self _)
  | arith _ _ _ => exact fits_of_accepts (accepts_self _) (accepts_self _)
  | arithAssign _ _ _ => exact fits_of_accepts href (accepts_self _)

/-! ### Members with a name -/

/-- The member comes first among those of the list that go by its name. -/
def Leads (m : Member) (ms : List Member) : Prop :=
  ∃ rest, labelled ms m.isOperator m.name = m :: rest

theorem Leads.append {ms : List Member} (h : Leads m ms) (more : List Member) :
    Leads m (ms ++ more) := by
  obtain ⟨rest, hrest⟩ := h
  refine ⟨rest ++ labelled more m.isOperator m.name, ?_⟩
  rw [labelled, List.filter_append]
  exact congrArg (· ++ _) hrest

theorem Leads.skip {ms before : List Member} (h : Leads m ms)
    (hbefore : labelled before m.isOperator m.name = []) :
    Leads m (before ++ ms) := by
  obtain ⟨rest, hrest⟩ := h
  refine ⟨rest, ?_⟩
  rw [labelled] at hbefore hrest ⊢
  rw [List.filter_append, hbefore, hrest, List.nil_append]

theorem leads_aggregateMembers (hmember : m ∈ Member.memberwise type ref)
    (hnone : s.catalogue.called? type m [type, type] = none) :
    Leads m (s.aggregateMembers type ref) := by
  let keep : Member → Bool := fun m => !(s.functions.resolve s.types
    (if m.isOperator then (s.membersOf type).findOperator m.name
      else (s.membersOf type).findFunction m.name)
        (.member [type, type])).isSome
  have haggregate : s.aggregateMembers type ref =
      (Member.memberwise type ref).filter keep := rfl
  have hkept : keep m = true := congrArg (fun found => !found.isSome) hnone
  rw [haggregate]
  simp only [Member.memberwise, Member.copying, List.mem_cons, List.not_mem_nil,
    or_false] at hmember ⊢
  rcases hmember with rfl | rfl
  · exact ⟨_,
      congrArg (labelled · false "construct") (List.filter_cons_of_pos hkept)⟩
  · rw [List.filter_cons, List.filter_cons_of_pos hkept]
    split
    · exact ⟨_, rfl⟩
    · exact ⟨_, rfl⟩

theorem leads_numeric {kind : CoreKind} (size : Nat) {symbol : String}
    {op : Arith} (hop : (symbol, op) ∈ Arith.numeric) :
    Leads (.binary symbol type type (.arith op kind type))
      (Member.numeric type ref size kind) ∧
      Leads (.update (symbol ++ "=") ref type type (.arithAssign op kind))
        (Member.numeric type ref size kind) := by
  have hfirst : ∀ (sources : List CoreKind) (name : String), name ≠ "=" →
      labelled (Member.bytewise type ref size ++ sources.map fun source =>
        Member.function "construct"
          [Member.self ref, ⟨"rhs", source.typeId⟩] .void
          (.convert source kind)) true name = [] := by
    intro sources name hname
    simp [labelled, Member.bytewise, Member.copying, Member.function,
      Member.operator, hname]
  unfold Member.numeric
  dsimp only
  generalize (CoreKind.all.filter fun k => k.isNumeric && k != kind) = sources
  simp only [Arith.numeric, List.mem_cons, Prod.mk.injEq, List.not_mem_nil,
    or_false] at hop
  have hnames : symbol ≠ "=" ∧ symbol ++ "=" ≠ "=" := by
    rcases hop with ⟨rfl, -⟩ | ⟨rfl, -⟩ | ⟨rfl, -⟩ | ⟨rfl, -⟩ |
      ⟨rfl, -⟩ <;> decide
  have harith : Leads (.binary symbol type type (.arith op kind type))
      ((Arith.numeric ++ if kind.isInteger then Arith.bitwise else []).map
        fun entry =>
          Member.binary entry.1 type type (.arith entry.2 kind type)) := by
    rcases hop with ⟨rfl, rfl⟩ | ⟨rfl, rfl⟩ | ⟨rfl, rfl⟩ | ⟨rfl, rfl⟩ |
      ⟨rfl, rfl⟩ <;>
      exact ⟨_, rfl⟩
  have hupdate :
      Leads (.update (symbol ++ "=") ref type type (.arithAssign op kind))
      (Arith.numeric.map fun entry => Member.operator (entry.1 ++ "=")
        [Member.self ref, ⟨"rhs", type⟩] type (.arithAssign entry.2 kind)) := by
    rcases hop with ⟨rfl, rfl⟩ | ⟨rfl, rfl⟩ | ⟨rfl, rfl⟩ | ⟨rfl, rfl⟩ |
      ⟨rfl, rfl⟩ <;>
      exact ⟨_, rfl⟩
  have hbetween :
      labelled ((Arith.numeric ++ if kind.isInteger then Arith.bitwise
        else []).map
        fun entry => Member.binary entry.1 type type (.arith entry.2 kind type))
          true (symbol ++ "=") = [] := by
    rcases hop with ⟨rfl, -⟩ | ⟨rfl, -⟩ | ⟨rfl, -⟩ | ⟨rfl, -⟩ | ⟨rfl, -⟩ <;>
      cases kind.isInteger <;> rfl
  constructor
  · exact ((((harith.skip (hfirst sources _ hnames.1)).append _).append
      _).append _).append _
  · rw [List.append_assoc _ _ (Arith.numeric.map _)]
    exact ((((hupdate.skip hbetween).skip (hfirst sources _ hnames.2)).append
      _).append _).append _

theorem exists_membersFor {copying native : Native} (ref address : TypeId)
    (hrecord : (s.types.get type).isRecord = false)
    (hcopying : (s.types.get type).copying? s.types = some copying)
    (hnative : copying.assigning? = some native) :
    ∃ more, s.membersFor type ref address =
      Member.copying type ref copying native ++ more := by
  unfold TypeEntry.copying? at hcopying
  unfold TypeEntry.isRecord at hrecord
  unfold membersFor
  simp only
  cases hshape : (s.types.get type).shape with
  | core kind =>
      rw [hshape] at hcopying
      cases kind <;> cases hcopying <;> cases hnative <;> exact ⟨_, rfl⟩
  | callable kind =>
      rw [hshape] at hcopying
      cases hcopying
      cases hnative
      exact ⟨_, rfl⟩
  | structural body =>
      rw [hshape] at hcopying hrecord
      have hkind : (body.kind == .enumKind) = true := by simpa using hrecord
      simp only [hkind, if_true, Option.some.injEq] at hcopying ⊢
      cases hcopying
      cases hnative
      exact ⟨_, rfl⟩
  | template kind args =>
      rw [hshape] at hcopying
      cases kind with
      | ref =>
          obtain ⟨target, -, rfl⟩ := Option.map_eq_some_iff.1 hcopying
          cases hnative
      | address =>
          obtain ⟨target, htarget, rfl⟩ := Option.map_eq_some_iff.1 hcopying
          cases hnative
          simp only [htarget]
          exact ⟨_, rfl⟩
      | array =>
          obtain ⟨parts, hparts, rfl⟩ := Option.map_eq_some_iff.1 hcopying
          simp only [hparts]
          split at hnative
          · rename_i haggregate
            cases hnative
            rw [if_pos haggregate, if_pos haggregate]
            exact ⟨_, rfl⟩
          · rename_i haggregate
            cases hnative
            rw [if_neg haggregate, if_neg haggregate]
            exact ⟨_, rfl⟩

theorem membersFor_record (ref address : TypeId)
    (hrecord : (s.types.get type).isRecord = true) :
    s.membersFor type ref address = s.aggregateMembers type ref ∧
      (s.types.get type).copying? s.types = some .copyMembers := by
  unfold TypeEntry.isRecord at hrecord
  unfold membersFor TypeEntry.copying?
  simp only
  split at hrecord
  · rename_i body hshape
    have hkind : (body.kind == .enumKind) = false := by simpa using hrecord
    simp [hshape, hkind]
  · cases hrecord

theorem membersFor_reference {target : TypeId} (ref address : TypeId)
    (htarget : (s.types.get type).referenceTarget? = some target) :
    s.membersFor type ref address = Member.reference type ref target ∧
      (s.types.get type).copying? s.types = some .copyReference := by
  obtain ⟨args, hshape⟩ : ∃ args, (s.types.get type).shape =
    .template .ref args := by
    have hreference := htarget
    unfold TypeEntry.referenceTarget? at hreference
    split at hreference
    · exact ⟨_, ‹_›⟩
    · cases hreference
  simp only [membersFor, TypeEntry.copying?, hshape, htarget, Option.map_some,
    and_self]

theorem membersFor_numeric {kind : CoreKind} (address : TypeId)
    (hkind : kind.isNumeric = true)
    (hshape : (s.types.get type).shape = .core kind) :
    s.membersFor type ref address =
      Member.numeric type ref (s.types.get type).size kind := by
  simp only [membersFor, hshape]
  cases kind <;> first | rfl | cases hkind

theorem leads_copier {copying : Native} (address : TypeId)
    (hcopying : (s.types.get type).copying? s.types = some copying)
    (hnone : s.catalogue.called? type (.copier ref copying) [type, type] =
      none) : Leads (.copier ref copying) (s.membersFor type ref address) := by
  cases hrecord : (s.types.get type).isRecord with
  | true =>
      obtain ⟨hmembers, hcopies⟩ := membersFor_record ref address hrecord
      rw [hmembers]
      cases hcopies.symm.trans hcopying
      exact leads_aggregateMembers List.mem_cons_self hnone
  | false =>
      cases hreference : (s.types.get type).referenceTarget? with
      | some target =>
          obtain ⟨hmembers, hcopies⟩ :=
            membersFor_reference ref address hreference
          rw [hmembers]
          cases hcopies.symm.trans hcopying
          exact ⟨_, rfl⟩
      | none =>
          obtain ⟨native, hnative⟩ :=
            TypeEntry.exists_assigning hreference hcopying
          obtain ⟨more, hmore⟩ :=
            exists_membersFor ref address hrecord hcopying hnative
          rw [hmore]
          exact ⟨_, rfl⟩

/-- What is offered is the first of the members that fits, unless the program
declares one. -/
theorem find_membersFor (address : TypeId)
    (h : (s.types.get type).Offers s.types type ref m args)
    (htarget : (s.types.get ref).referenceTarget? = some type)
    (hnone : s.catalogue.called? type m args = none) :
    (labelled (s.membersFor type ref address) m.isOperator m.name).find?
      (fun other => (other.provided type).fits s.types (.member args)) =
        some m := by
  have hfits := fits_offered h htarget
  have hleads : ∀ {ms}, Leads m ms → (labelled ms m.isOperator m.name).find?
      (fun other => (other.provided type).fits s.types (.member args)) =
        some m := by
    rintro ms ⟨rest, hrest⟩
    rw [hrest]
    exact List.find?_cons_of_pos hfits
  cases h with
  | copy hcopying => exact hleads (leads_copier address hcopying hnone)
  | assign hcopying hnative =>
      refine hleads ?_
      cases hrecord : (s.types.get type).isRecord with
      | true =>
          obtain ⟨hmembers, hcopies⟩ := membersFor_record ref address hrecord
          rw [hmembers]
          cases hcopies.symm.trans hcopying
          cases hnative
          exact leads_aggregateMembers
            (List.mem_cons_of_mem _ List.mem_cons_self) hnone
      | false =>
          obtain ⟨more, hmore⟩ :=
            exists_membersFor ref address hrecord hcopying hnative
          rw [hmore]
          exact ⟨_, rfl⟩
  | assignThrough hreference =>
      rw [(membersFor_reference ref address hreference).1]
      exact hleads ⟨_, rfl⟩
  | @assignAcross target hreference hother =>
      rw [(membersFor_reference ref address hreference).1]
      have hunfit :
          ((Member.update "=" ref target target
            (.assignThrough target)).provided
            type).fits s.types (.member [type, type]) = false := by
        exact (fits_provided ..).trans (by rw [hother, Bool.and_false])
      have hlist : labelled (Member.reference type ref target) true "=" =
          [.update "=" ref target target (.assignThrough target),
            .update "=" ref type target (.assignThrough target)] := rfl
      refine (congrArg (List.find? _) hlist).trans ?_
      simp only [List.find?_cons, hunfit, hfits]
  | arith hkind hshape hop =>
      rw [membersFor_numeric address hkind hshape]
      exact hleads (leads_numeric _ hop).1
  | arithAssign hkind hshape hop =>
      rw [membersFor_numeric address hkind hshape]
      exact hleads (leads_numeric _ hop).2

section Providing

variable {n : Nat} (hs : s.catalogue.Sorted) (hformed : s.types.Formed)
  (htype : s.types.Has type) (hcomplete : (s.types.get type).isComplete = true)
  (hfresh : ∀ operator name, ∀ id ∈ s.catalogue.overloads
    (s.catalogue.members type) operator name,
    ¬ s.catalogue.Provided id type)
  (href : s.types.Has ref)
    (hname : s.types.name ref = s.types.render .ref [.type type])
  (haddress : ∀ elem len, (s.types.get type).array? = some (elem, len) →
    s.types.Has address ∧
    s.types.name address = s.types.render .address [.type elem])
  (happends : s.catalogue.Appends n
    (s.provide type (s.membersFor type ref address)).catalogue)

include hs hformed htype hcomplete hfresh href hname haddress happends

theorem outfit_provide :
    (s.provide type (s.membersFor type ref address)).catalogue.Outfit type s ref
      address := by
  refine ⟨hformed, htype, hcomplete, fun id hid _ => ⟨hid, rfl⟩, ⟨href, hname⟩,
    haddress,
    fun operator name => ?_⟩
  obtain ⟨later, hlists, hlater⟩ := Catalogue.exists_overloads_provide
    (hs.placed type htype) (s.membersFor type ref address)
      (s.catalogue.members type) operator name
  rw [if_pos rfl] at hlater
  rw [← catalogue_provide] at hlists hlater
  refine ⟨_, later, [], by rw [List.append_nil]; exact hlists,
    fun id hid hprovided => ?_,
    fun id hid => ?_, hlater⟩
  · rw [Catalogue.Provided,
      happends.functions id (hs.listed _ _ _ id hid)] at hprovided
    exact hfresh operator name id hid hprovided
  · exact happends.sorted.listed _ _ _ id (hlists ▸ List.mem_append_right _ hid)

theorem furnished_provide
    (helements : ∀ elem len, (s.types.get type).array? = some (elem, len) →
      s.types.Has elem)
    (htargets : ∀ target, (s.types.get type).referenceTarget? = some target →
      s.types.Has target) :
    (s.provide type (s.membersFor type ref address)).catalogue.Furnished
      type := by
  refine ⟨htype, hcomplete, helements, htargets,
    ⟨ref, href, hname, fun htarget m args hoffers => ?_⟩,
    s, ref, address,
    outfit_provide hs hformed htype hcomplete hfresh href hname haddress
      happends⟩
  have hoffered : (s.types.get type).Offers s.types type ref m args := hoffers
  cases hfound : s.catalogue.called? type m args with
  | some id =>
      have hmem := Catalogue.mem_of_resolve hfound
      have hlisted := hs.listed _ _ _ id hmem
      refine ⟨id, happends.resolve hs (fun _ _ => ⟨rfl, rfl, rfl⟩) hfound,
        fun hprovided => ?_⟩
      rw [Catalogue.Provided, happends.functions id hlisted] at hprovided
      exact absurd hprovided (hfresh _ _ id hmem)
  | none =>
      obtain ⟨later, hlists, hlater⟩ := Catalogue.exists_overloads_provide
        (hs.placed type htype) (s.membersFor type ref address)
          (s.catalogue.members type) m.isOperator m.name
      rw [if_pos rfl] at hlater
      rw [← catalogue_provide] at hlists hlater
      have hfirst := congrArg (Option.map (Member.provided type))
        (find_membersFor address hoffered htarget hfound)
      have hmap :=
        congrArg (List.find? fun f => f.fits s.types (.member args)) hlater
      rw [List.find?_map, List.find?_map] at hmap
      obtain ⟨id, hid, hget⟩ := Option.map_eq_some_iff.1 (hmap.trans hfirst)
      refine ⟨id, ?_, fun _ => hget⟩
      obtain ⟨hfits, before, after, rfl, hbefore⟩ :=
        List.find?_eq_some_iff_append.1 hid
      refine List.find?_eq_some_iff_append.2 ⟨hfits,
        s.catalogue.overloads (s.catalogue.members type) m.isOperator m.name ++
          before, after,
        ?_, fun other hother => ?_⟩
      · rw [List.append_assoc]
        exact hlists
      · rcases List.mem_append.1 hother with hold | hnew
        · have hunfit : (s.functions.get other).fits s.types (.member args) =
              false :=
            Bool.eq_false_iff.2 (List.find?_eq_none.1 hfound other hold)
          rw [happends.functions other (hs.listed _ _ _ other hold)]
          exact congrArg (!·) hunfit
        · exact hbefore other hnew

end Providing

end Engine

end ArenaScript
