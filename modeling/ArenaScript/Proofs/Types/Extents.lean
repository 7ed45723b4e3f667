import ArenaScript.Proofs.Types.Identity
import ArenaScript.Proofs.Types.Layout

/-!
# The layout of all types

A registry that completes each declared type once, with an exact size that fits
in a word, lays out all its types soundly.  A type becomes a part of another one
only after it has been completed; so what a complete type consists of never
changes again, and no type is a part of itself.
-/

namespace ArenaScript

/-! ## Shapes and their parts -/

namespace Shape

def parts : Shape → List TypeId
  | .structural body => body.fields.map Field.type
  | .template .array [.type elem, .int _] => [elem]
  | _ => []

def align (measure : TypeId → Extent) : Shape → Nat
  | .core kind => max 1 kind.size
  | .callable _ => 8
  | .structural body => body.align
  | .template .array [.type elem, .int _] => (measure elem).align
  | .template .. => 8

/-- The extent of a complete type of this shape if its parts are measured by
`measure`. -/
inductive Measured (measure : TypeId → Extent) : Shape → Extent → Prop
  | core (kind : CoreKind) :
      Measured measure (.core kind) ⟨kind.size, max 1 kind.size⟩
  | callable (kind : CallableKind) :
      Measured measure (.callable kind) ⟨kind.size, 8⟩
  | classType {body : Structural} {whole : Extent}
      (hkind : body.kind = .classKind)
      (h : Layout.ClassLayout measure body.fields whole) :
      Measured measure (.structural body) whole
  | unionType {body : Structural} {whole : Extent}
      (hkind : body.kind = .unionKind)
      (h : Layout.UnionLayout measure body.fields whole) :
      Measured measure (.structural body) whole
  | enumType {body : Structural} (hkind : body.kind = .enumKind) :
      Measured measure (.structural body) ⟨4, 4⟩
  | array (elem : TypeId) (len : Int64) (hlen : 0 ≤ len.toInt) :
      Measured measure (.template .array [.type elem, .int len])
        ⟨len.toInt.toNat * (measure elem).size, (measure elem).align⟩
  | pointer {kind : TemplateKind} (args : List TemplateArg)
      (hkind : kind ≠ .array) :
      Measured measure (.template kind args) ⟨8, 8⟩

theorem align_congr {measure measure' : TypeId → Extent} {shape : Shape}
    (hsame : ∀ part ∈ shape.parts, measure' part = measure part) :
    shape.align measure' = shape.align measure := by
  unfold align
  split
  · rfl
  · rfl
  · rfl
  · rw [hsame _ List.mem_cons_self]
  · rfl

theorem mem_parts {body : Structural} {field : Field}
    (hfield : field ∈ body.fields) :
    field.type ∈ (Shape.structural body).parts :=
  List.mem_map_of_mem hfield

namespace Measured

variable {measure measure' : TypeId → Extent} {shape : Shape} {whole : Extent}

theorem congr (h : Measured measure shape whole)
    (hsame : ∀ part ∈ shape.parts, measure' part = measure part) :
    Measured measure' shape whole := by
  cases h with
  | core kind => exact .core kind
  | callable kind => exact .callable kind
  | classType hkind h =>
      exact .classType hkind
        (h.congr fun _ hfield => hsame _ (mem_parts hfield))
  | unionType hkind h =>
      exact .unionType hkind
        (h.congr fun _ hfield => hsame _ (mem_parts hfield))
  | enumType hkind => exact .enumType hkind
  | array elem len hlen =>
      rw [← hsame elem List.mem_cons_self]
      exact .array elem len hlen
  | pointer args hkind => exact .pointer args hkind

theorem regular (h : Measured measure shape whole)
    (hparts : ∀ part ∈ shape.parts, (measure part).Regular) :
    whole.Regular := by
  cases h with
  | core kind => exact ⟨by cases kind <;> decide, by cases kind <;> decide⟩
  | callable kind => exact ⟨by simp, by cases kind <;> decide⟩
  | classType hkind h =>
      exact h.regular fun _ hfield => hparts _ (mem_parts hfield)
  | unionType hkind h =>
      exact h.regular fun _ hfield => hparts _ (mem_parts hfield)
  | enumType hkind => exact ⟨by decide, by decide⟩
  | array elem len hlen =>
      have helem := hparts elem List.mem_cons_self
      exact ⟨helem.align, Nat.dvd_mul_left_of_dvd helem.multiple _⟩
  | pointer args hkind => exact ⟨by simp, by simp⟩

theorem classLayout {body : Structural}
    (h : Measured measure (.structural body) whole)
    (hkind : body.kind = .classKind) :
    Layout.ClassLayout measure body.fields whole := by
  cases h with
  | classType _ hlayout => exact hlayout
  | unionType hkind' _ => simp [hkind] at hkind'
  | enumType hkind' => simp [hkind] at hkind'

theorem unionLayout {body : Structural}
    (h : Measured measure (.structural body) whole)
    (hkind : body.kind = .unionKind) :
    Layout.UnionLayout measure body.fields whole := by
  cases h with
  | classType hkind' _ => simp [hkind] at hkind'
  | unionType _ hlayout => exact hlayout
  | enumType hkind' => simp [hkind] at hkind'

theorem arrayExtent {elem : TypeId} {len : Int64}
    (h : Measured measure (.template .array [.type elem, .int len]) whole) :
    0 ≤ len.toInt ∧
      whole = ⟨len.toInt.toNat * (measure elem).size,
        (measure elem).align⟩ := by
  cases h with
  | array _ _ hlen => exact ⟨hlen, rfl⟩
  | pointer _ hkind => exact absurd rfl hkind

end Measured

end Shape

theorem TypeEntry.array?_eq_some {e : TypeEntry} {elem : TypeId} {len : Nat}
    (h : e.array? = some (elem, len)) :
    ∃ n : Int64, e.shape = .template .array [.type elem, .int n] := by
  unfold array? at h
  split at h
  · rename_i elem' n hshape
    cases h
    exact ⟨n, hshape⟩
  · cases h

theorem TypeEntry.mem_parts_of_array {e : TypeEntry} {elem : TypeId} {len : Nat}
    (h : e.array? = some (elem, len)) : elem ∈ e.shape.parts := by
  obtain ⟨n, hshape⟩ := array?_eq_some h
  simp [hshape, Shape.parts]

def Structural.IsShell (body : Structural) : Prop :=
  body.complete = false ∧ body.fields = []

/-! ## Ranks -/

/-- Parts have a smaller rank than what they are parts of. -/
def Ranked (parts : TypeId → List TypeId) : Prop :=
  ∃ rank : TypeId → Nat, ∀ id, ∀ part ∈ parts id, rank part < rank id

theorem exists_bound (f : TypeId → Nat) (ids : List TypeId) :
    ∃ top, ∀ id ∈ ids, f id ≤ top := by
  induction ids with
  | nil => exact ⟨0, by simp⟩
  | cons id ids ih =>
      obtain ⟨top, htop⟩ := ih
      refine ⟨max (f id) top, ?_⟩
      intro other hother
      rcases List.mem_cons.1 hother with rfl | hmem
      · exact Nat.le_max_left _ _
      · exact Nat.le_trans (htop other hmem) (Nat.le_max_right _ _)

theorem Ranked.update {parts parts' : TypeId → List TypeId} (h : Ranked parts)
    (id : TypeId) (hsame : ∀ other, other ≠ id → parts' other = parts other)
    (hunused : ∀ other, id ∉ parts' other) : Ranked parts' := by
  obtain ⟨rank, hrank⟩ := h
  obtain ⟨top, htop⟩ := exists_bound rank (parts' id)
  refine ⟨fun other => if other = id then top + 1 else rank other, ?_⟩
  intro other part hpart
  have hne : part ≠ id := by
    rintro rfl
    exact hunused other hpart
  by_cases hother : other = id
  · subst hother
    simpa [hne] using Nat.lt_succ_of_le (htop part hpart)
  · rw [hsame other hother] at hpart
    simpa [hne, hother] using hrank other part hpart

namespace TypeTable

variable {t u : TypeTable}

/-! ## Alignment -/

def Older (t : TypeTable) : Prop :=
  ∀ id elem len, (t.get id).array? = some (elem, len) → elem.index < id.index

theorem alignFrom_enough (ht : t.Older) {n m : Nat} {id : TypeId}
    (hn : id.index < n) (hm : id.index < m) :
    t.alignFrom id n = t.alignFrom id m := by
  induction n generalizing id m with
  | zero => omega
  | succ n ih =>
      cases m with
      | zero => omega
      | succ m =>
          simp only [alignFrom]
          split
          · rfl
          · rfl
          · rfl
          · split
            · rename_i elem len harray
              have hold := ht id elem len harray
              exact ih (by omega) (by omega)
            · rfl

theorem alignOf_eq (ht : t.Older) (id : TypeId) :
    t.alignOf id = (t.get id).shape.align t.extentOf := by
  rw [alignOf, alignFrom]
  cases hshape : (t.get id).shape with
  | core kind => rfl
  | callable kind => rfl
  | structural body => rfl
  | template kind args =>
      cases harray : (t.get id).array? with
      | some array =>
          obtain ⟨elem, len⟩ := array
          obtain ⟨n, hshape'⟩ := TypeEntry.array?_eq_some harray
          rw [hshape] at hshape'
          cases hshape'
          exact alignFrom_enough ht (ht id elem len harray)
            (Nat.lt_succ_self elem.index)
      | none =>
          have hother : ∀ elem n, kind = .array → args = [.type elem, .int n] →
              False := by
            rintro elem n rfl rfl
            simp [TypeEntry.array?, hshape] at harray
          exact (Shape.align.eq_5 t.extentOf kind args hother).symm

theorem extentOf_eq (ht : t.Older) (id : TypeId) :
    t.extentOf id = ⟨(t.get id).size, (t.get id).shape.align t.extentOf⟩ := by
  rw [extentOf, alignOf_eq ht, sizeOf]

/-! ## Sound tables -/

structure LaidOut (t : TypeTable) : Prop where
  measured : ∀ id, t.Has id → (t.get id).isComplete →
    (t.get id).shape.Measured t.extentOf (t.extentOf id)
  parts : ∀ id, ∀ part ∈ (t.get id).shape.parts, t.Has part ∧
    (t.get part).isComplete
  older : t.Older
  ranked : Ranked fun id => (t.get id).shape.parts

theorem LaidOut.regular (ht : t.LaidOut) {id : TypeId} (hid : t.Has id)
    (hcomplete : (t.get id).isComplete) : (t.extentOf id).Regular := by
  obtain ⟨rank, hrank⟩ := ht.ranked
  induction hn : rank id using Nat.strongRecOn generalizing id with
  | ind n ih =>
      apply (ht.measured id hid hcomplete).regular
      intro part hpart
      obtain ⟨hhas, hpartComplete⟩ := ht.parts id part hpart
      have hsmaller := hrank id part hpart
      exact ih (rank part) (by omega) hhas hpartComplete rfl

/-! ## Complete types stay as they are -/

structure Keeps (t u : TypeTable) : Prop where
  has : ∀ id, t.Has id → u.Has id
  same : ∀ id, t.Has id → (t.get id).isComplete → u.get id = t.get id

namespace Keeps

theorem refl (t : TypeTable) : t.Keeps t := ⟨fun _ h => h, fun _ _ _ => rfl⟩

theorem trans {v : TypeTable} (htu : t.Keeps u) (huv : u.Keeps v) :
    t.Keeps v where
  has id hid := huv.has id (htu.has id hid)
  same id hid hcomplete := by
    have hsame := htu.same id hid hcomplete
    rw [huv.same id (htu.has id hid) (by rw [hsame]; exact hcomplete), hsame]

theorem complete (h : t.Keeps u) {id : TypeId}
    (hid : t.Has id ∧ (t.get id).isComplete) :
    u.Has id ∧ (u.get id).isComplete := by
  rw [h.same id hid.1 hid.2]
  exact ⟨h.has id hid.1, hid.2⟩

theorem alignFrom (h : t.Keeps u) (ht : t.LaidOut) {id : TypeId}
    (hid : t.Has id) (hcomplete : (t.get id).isComplete) (n : Nat) :
    u.alignFrom id n = t.alignFrom id n := by
  induction n generalizing id with
  | zero => rfl
  | succ n ih =>
      simp only [TypeTable.alignFrom, h.same id hid hcomplete]
      split
      · rfl
      · rfl
      · rfl
      · split
        · rename_i elem len harray
          obtain ⟨hhas, helem⟩ :=
            ht.parts id elem (TypeEntry.mem_parts_of_array harray)
          exact ih hhas helem
        · rfl

theorem extentOf (h : t.Keeps u) (ht : t.LaidOut) {id : TypeId} (hid : t.Has id)
    (hcomplete : (t.get id).isComplete) : u.extentOf id = t.extentOf id := by
  simp only [TypeTable.extentOf, sizeOf, alignOf, h.same id hid hcomplete,
    h.alignFrom ht hid hcomplete]

theorem measured (h : t.Keeps u) (ht : t.LaidOut) {id : TypeId} (hid : t.Has id)
    (hcomplete : (t.get id).isComplete) :
    (u.get id).shape.Measured u.extentOf (u.extentOf id) := by
  rw [h.same id hid hcomplete, h.extentOf ht hid hcomplete]
  apply (ht.measured id hid hcomplete).congr
  intro part hpart
  obtain ⟨hhas, hpartComplete⟩ := ht.parts id part hpart
  exact h.extentOf ht hhas hpartComplete

end Keeps

theorem LaidOut.update (ht : t.LaidOut) (id : TypeId) (hkeeps : t.Keeps u)
    (hold : ∀ other, other ≠ id → u.get other = t.get other)
    (hhas : ∀ other, u.Has other → other ≠ id → t.Has other)
    (hopen : ¬ (t.Has id ∧ (t.get id).isComplete))
    (hparts : ∀ part ∈ (u.get id).shape.parts, t.Has part ∧
      (t.get part).isComplete)
    (holder : ∀ elem len, (u.get id).array? = some (elem, len) →
      elem.index < id.index)
    (hmeasured : (u.get id).isComplete → (u.get id).shape.Measured t.extentOf
      ⟨(u.get id).size, (u.get id).shape.align t.extentOf⟩) : u.LaidOut := by
  have hallParts : ∀ other, ∀ part ∈ (u.get other).shape.parts,
      t.Has part ∧ (t.get part).isComplete := by
    intro other part hpart
    by_cases hother : other = id
    · subst hother
      exact hparts part hpart
    · rw [hold other hother] at hpart
      exact ht.parts other part hpart
  have hallOlder : u.Older := by
    intro other elem len harray
    by_cases hother : other = id
    · subst hother
      exact holder elem len harray
    · rw [hold other hother] at harray
      exact ht.older other elem len harray
  have hextents : ∀ part ∈ (u.get id).shape.parts, u.extentOf part =
      t.extentOf part :=
    fun part hpart =>
      hkeeps.extentOf ht (hparts part hpart).1 (hparts part hpart).2
  constructor
  · intro other hother hcomplete
    by_cases hid : other = id
    · subst hid
      rw [extentOf_eq hallOlder, Shape.align_congr hextents]
      exact (hmeasured hcomplete).congr hextents
    · rw [hold other hid] at hcomplete
      exact hkeeps.measured ht (hhas other hother hid) hcomplete
  · intro other part hpart
    exact hkeeps.complete (hallParts other part hpart)
  · exact hallOlder
  -- No type has the new one as a part, so that it may be ranked above its own
  -- parts.
  · apply ht.ranked.update id
    · intro other hother
      simp only [hold other hother]
    · intro other hpart
      exact hopen (hallParts other id hpart)

theorem keeps_push (t : TypeTable) (e : TypeEntry) : t.Keeps (t.push e).2 where
  has _ hid := has_push.2 (Or.inl hid)
  same _ hid _ := get_push_old hid

theorem LaidOut.push {e : TypeEntry} (ht : t.LaidOut)
    (hparts : ∀ part ∈ e.shape.parts, t.Has part ∧ (t.get part).isComplete)
    (hmeasured : e.isComplete →
      e.shape.Measured t.extentOf ⟨e.size, e.shape.align t.extentOf⟩) :
    (t.push e).2.LaidOut := by
  have hnew : (t.push e).2.get ⟨t.size⟩ = e := get_push_new t e
  apply ht.update ⟨t.size⟩ (keeps_push t e)
  · intro other hother
    rw [get_push, if_neg hother]
  · intro other hhas hother
    exact (has_push.1 hhas).resolve_right hother
  · rintro ⟨hhas, -⟩
    exact Nat.lt_irrefl _ hhas
  · rw [hnew]
    exact hparts
  · intro elem len harray
    rw [hnew] at harray
    exact (hparts elem (TypeEntry.mem_parts_of_array harray)).1
  · rw [hnew]
    exact hmeasured

/-! ## The operations -/

theorem laidOut_empty : (⟨#[]⟩ : TypeTable).LaidOut := by
  have hnone : ∀ id, (⟨#[]⟩ : TypeTable).get id = default := by
    intro id
    exact get_of_not_has (by simp [Has, size])
  constructor
  · intro id hid
    simp [Has, size] at hid
  · intro id part hpart
    rw [hnone] at hpart
    cases hpart
  · intro id elem len harray
    rw [hnone] at harray
    cases harray
  · refine ⟨fun _ => 0, fun id part hpart => ?_⟩
    simp only [hnone] at hpart
    cases hpart

theorem foldl_addEntry_laidOut (entries : List (String × Shape × Nat))
    (hentries : ∀ entry ∈ entries, entry.2.1.parts = [] ∧
      ∀ measure,
        entry.2.1.Measured measure ⟨entry.2.2, entry.2.1.align measure⟩)
    (ht : t.LaidOut) (scopes : ScopeTable) :
    (entries.foldl addEntry (t, scopes)).1.LaidOut := by
  induction entries generalizing t scopes with
  | nil => exact ht
  | cons entry rest ih =>
      simp only [List.mem_cons, forall_eq_or_imp] at hentries
      rw [List.foldl_cons]
      apply ih hentries.2
      apply ht.push
      · intro part hpart
        simp [hentries.1.1] at hpart
      · intro _
        exact hentries.1.2 t.extentOf

theorem builtin_laidOut (scopes : ScopeTable) : (builtin scopes).1.LaidOut := by
  rw [builtin_eq]
  apply foldl_addEntry_laidOut _ _ laidOut_empty
  intro entry hentry
  simp only [builtins, List.mem_append, List.mem_map] at hentry
  rcases hentry with ⟨k, -, rfl⟩ | ⟨k, -, rfl⟩
  · exact ⟨rfl, fun measure => .core k⟩
  · exact ⟨rfl, fun measure => .callable k⟩

theorem findOrCreate_push {scopes scopes' : ScopeTable} {kind : TemplateKind}
    {args : List TemplateArg} {result : TypeId × Bool}
    (h : t.findOrCreate scopes kind args = .ok (result, u, scopes')) :
    u = t ∨ ∃ e : TypeEntry, e.shape = .template kind args ∧
      t.instanceSize kind args = .ok (e.size, e.aggregate) ∧
      u = (t.push e).2 := by
  unfold findOrCreate at h
  simp only at h
  split at h
  · cases h
    exact Or.inl rfl
  · split at h
    · cases h
    · rename_i hsize
      cases h
      exact Or.inr ⟨_, rfl, hsize, rfl⟩

theorem instanceSize_measured {kind : TemplateKind} {args : List TemplateArg}
    {size : Nat} {aggregate : Bool} (hargs : t.HasArgs args)
    (h : t.instanceSize kind args = .ok (size, aggregate)) :
    (∀ part ∈ (Shape.template kind args).parts, t.Has part ∧
      (t.get part).isComplete) ∧
      (Shape.template kind args).Measured t.extentOf
        ⟨size, (Shape.template kind args).align t.extentOf⟩ := by
  unfold instanceSize at h
  simp only at h
  split at h
  · split at h <;> cases h
    exact ⟨by simp [Shape.parts], .pointer _ (by decide)⟩
  · cases h
    exact ⟨by simp [Shape.parts], .pointer _ (by decide)⟩
  · rename_i elem len
    split at h <;> cases h
    rename_i hsized
    simp only [isSized, Bool.and_eq_true, decide_eq_true_eq] at hsized
    constructor
    · intro part hpart
      rw [List.mem_singleton.1 hpart]
      exact ⟨hargs elem List.mem_cons_self, hsized.2.1⟩
    · rw [Nat.mul_comm]
      exact .array elem len hsized.1.1
  · cases h

theorem findOrCreate_laidOut {scopes scopes' : ScopeTable} {kind : TemplateKind}
    {args : List TemplateArg} {result : TypeId × Bool} (ht : t.LaidOut)
    (hargs : t.HasArgs args)
    (h : t.findOrCreate scopes kind args = .ok (result, u, scopes')) :
    u.LaidOut ∧ t.Keeps u := by
  rcases findOrCreate_push h with rfl | ⟨e, hshape, hsize, rfl⟩
  · exact ⟨ht, .refl u⟩
  · obtain ⟨hparts, hmeasured⟩ := instanceSize_measured hargs hsize
    refine ⟨ht.push ?_ ?_, keeps_push t e⟩
    · rw [hshape]
      exact hparts
    · intro _
      rw [hshape]
      exact hmeasured

theorem register_laidOut {name : String} {body : Structural} {members : ScopeId}
    {id : TypeId} (ht : t.LaidOut) (hbody : body.IsShell)
    (h : t.register name body members = .ok (id, u)) :
    u.LaidOut ∧ t.Keeps u := by
  obtain ⟨-, -, e, -, hshape, rfl⟩ := register_eq_ok h
  refine ⟨ht.push ?_ ?_, keeps_push t e⟩
  · intro part hpart
    simp [hshape, Shape.parts, hbody.2] at hpart
  · intro hcomplete
    simp [TypeEntry.isComplete, hshape, hbody.1] at hcomplete

def completed (t : TypeTable) (id : TypeId) (body : Structural)
    (fields : List Field) (variants : List (String × Int64)) : TypeEntry :=
  let placed := Layout.ofFields t.extentOf body.kind fields
  { t.get id with
    size := placed.2.size
    shape := .structural
      { body with
        fields := placed.1, variants, align := placed.2.align,
        complete := true } }

theorem complete_eq_ok {id : TypeId} {fields : List Field}
    {variants : List (String × Int64)} (hid : t.Has id)
    (h : t.complete id fields variants = .ok u) :
    ∃ body, (t.get id).shape = .structural body ∧
      (∀ field ∈ fields, (t.get field.type).isComplete) ∧ u.size = t.size ∧
      u.get id = t.completed id body fields variants ∧
      ∀ other, other ≠ id → u.get other = t.get other := by
  unfold complete at h
  split at h
  · rename_i body hbody
    split at h
    · cases h
    · rename_i hnone
      cases h
      refine ⟨body, hbody, ?_, by simp [size], ?_, fun other hother =>
        get_modify_ne hother⟩
      · intro field hfield
        have hsized := List.find?_eq_none.1 hnone field hfield
        simp only [isSized, Bool.not_eq_true, Bool.not_eq_false',
          Bool.and_eq_true] at hsized
        exact hsized.1
      · rw [get_modify hid, if_pos rfl]
        rfl
  · cases h

theorem completed_measured {id : TypeId} {body : Structural}
    {fields : List Field} {variants : List (String × Int64)} {e : TypeEntry}
    (haligned : ∀ field ∈ fields, 0 < (t.extentOf field.type).align)
    (hfits : Layout.exactSize t.extentOf body.kind fields < Word.modulus)
    (he : e = t.completed id body fields variants) :
    e.shape.Measured t.extentOf ⟨e.size, e.shape.align t.extentOf⟩ := by
  subst he
  cases hkind : body.kind with
  | classKind =>
      rw [hkind] at hfits
      refine .classType hkind ?_
      simpa only [completed, Shape.align, hkind]
        using Layout.classLayout haligned hfits
  | unionKind =>
      rw [hkind] at hfits
      refine .unionType hkind ?_
      simpa only [completed, Shape.align, hkind] using Layout.unionLayout hfits
  | enumKind =>
      simp only [completed, Shape.align, hkind, Layout.ofFields]
      exact .enumType rfl

theorem complete_laidOut {id : TypeId} {fields : List Field}
    {variants : List (String × Int64)} (ht : t.LaidOut) (hid : t.Has id)
    (hfields : ∀ field ∈ fields, t.Has field.type)
    (hopen : (t.get id).isComplete = false)
    (hfits : ∀ body, (t.get id).shape = .structural body →
      Layout.exactSize t.extentOf body.kind fields < Word.modulus)
    (h : t.complete id fields variants = .ok u) :
    u.LaidOut ∧ t.Keeps u ∧ ∃ body, (u.get id).shape = .structural body ∧
      body.complete = true ∧ body.fields.map Field.declared =
        fields.map Field.declared := by
  obtain ⟨body, hshape, hcomplete, hsize, hentry, hothers⟩ :=
    complete_eq_ok hid h
  have haligned : ∀ field ∈ fields, 0 < (t.extentOf field.type).align := by
    intro field hfield
    have halign :=
      (ht.regular (hfields field hfield) (hcomplete field hfield)).align
    omega
  have hdeclared := Layout.ofFields_declared haligned (hfits body hshape)
  have hnot : ¬ (t.Has id ∧ (t.get id).isComplete = true) := by
    rintro ⟨-, hdone⟩
    rw [hopen] at hdone
    cases hdone
  have hhas : ∀ other, u.Has other ↔ t.Has other := by
    intro other
    simp [Has, hsize]
  have hkeeps : t.Keeps u := by
    refine ⟨fun other => (hhas other).2, fun other hother hdone =>
      hothers other ?_⟩
    rintro rfl
    exact hnot ⟨hother, hdone⟩
  have hparts : ∀ part ∈ (u.get id).shape.parts, t.Has part ∧
      (t.get part).isComplete = true := by
    intro part hpart
    rw [hentry] at hpart
    have hmem : part ∈ fields.map Field.type := by
      rw [← Layout.map_type_of_declared hdeclared]
      exact hpart
    obtain ⟨field, hfield, rfl⟩ := List.mem_map.1 hmem
    exact ⟨hfields field hfield, hcomplete field hfield⟩
  have holder : ∀ elem len, (u.get id).array? = some (elem, len) →
      elem.index < id.index := by
    intro elem len harray
    rw [hentry] at harray
    cases harray
  refine ⟨?_, hkeeps, _, by rw [hentry]; rfl, rfl, hdeclared⟩
  exact ht.update id hkeeps hothers
    (fun other hother _ => (hhas other).1 hother) hnot hparts holder
    fun _ => completed_measured haligned (hfits body hshape) hentry

end TypeTable

/-! ## Histories -/

namespace Registry

variable {hash : String → UInt64} {r s : Registry}

/-- Declared types are registered as shells; a completion that succeeds is the
first one of its type, and the exact size fits in a word. -/
def Operation.Orderly (t : TypeTable) : Operation → Prop
  | .register _ body _ => body.IsShell
  | .complete id fields variants => ∀ u, t.complete id fields variants = .ok u →
      (t.get id).isComplete = false ∧
        ∀ body, (t.get id).shape = .structural body →
          Layout.exactSize t.extentOf body.kind fields < Word.modulus
  | _ => True

inductive Develops (hash : String → UInt64) (r : Registry) : Registry → Prop
  | refl : Develops hash r r
  | step {s : Registry} (op : Operation) (h : Develops hash r s)
      (hop : op.Valid s.types) (horderly : op.Orderly s.types) :
      Develops hash r (op.after hash s)

theorem onTables_laidOut {t u : TypeTable} {scopes scopes' : ScopeTable}
    {op : Operation} {answer : Answer} (ht : t.LaidOut) (hop : op.Valid t)
    (horderly : op.Orderly t)
    (h : op.onTables t scopes = .ok (answer, u, scopes')) :
    u.LaidOut ∧ t.Keeps u := by
  cases op with
  | findOrCreate kind args =>
      obtain ⟨⟨result, v, w⟩, hcreate, heq⟩ := map_eq_ok h
      cases heq
      exact TypeTable.findOrCreate_laidOut ht hop hcreate
  | register name body members =>
      obtain ⟨⟨id, v⟩, hregister, heq⟩ := map_eq_ok h
      cases heq
      exact TypeTable.register_laidOut ht horderly hregister
  | complete id fields variants =>
      obtain ⟨v, hcomplete, heq⟩ := map_eq_ok h
      cases heq
      obtain ⟨hopen, hfits⟩ := horderly _ hcomplete
      have hlaid :=
        TypeTable.complete_laidOut ht hop.1 hop.2 hopen hfits hcomplete
      exact ⟨hlaid.1, hlaid.2.1⟩
  | referenceTo target =>
      obtain ⟨⟨result, v, w⟩, hcreate, heq⟩ := map_eq_ok h
      cases heq
      exact TypeTable.findOrCreate_laidOut ht (hasArgs_single hop) hcreate
  | addressOf target =>
      obtain ⟨⟨result, v, w⟩, hcreate, heq⟩ := map_eq_ok h
      cases heq
      exact TypeTable.findOrCreate_laidOut ht (hasArgs_single hop) hcreate

theorem Sound.after_laidOut {op : Operation} (hr : r.Sound hash)
    (ht : r.types.LaidOut) (hop : op.Valid r.types)
    (horderly : op.Orderly r.types) :
    (op.after hash r).types.LaidOut ∧
    r.types.Keeps (op.after hash r).types := by
  rw [Operation.after, hr.perform_eq]
  cases htables : op.onTables r.types r.scopes with
  | error e => exact ⟨ht, .refl _⟩
  | ok result => exact onTables_laidOut ht hop horderly htables

theorem Develops.laidOut (h : Develops hash r s) (hr : r.Sound hash)
    (ht : r.types.LaidOut) :
    s.Sound hash ∧ s.types.LaidOut ∧ r.types.Keeps s.types := by
  induction h with
  | refl => exact ⟨hr, ht, .refl _⟩
  | step op h hop horderly ih =>
      obtain ⟨hs, hlaid, hkeeps⟩ := ih
      obtain ⟨hafter, hstep⟩ := hs.after_laidOut hlaid hop horderly
      exact ⟨(hs.after hop).1, hafter, hkeeps.trans hstep⟩

end Registry

/-! ## Main statement -/

structure TypeTable.SoundLayout (t : TypeTable) : Prop where
  regular : ∀ id, t.Has id → (t.get id).isComplete → (t.extentOf id).Regular
  classes : ∀ id body, t.Has id → (t.get id).shape = .structural body →
    body.complete →
    body.kind = .classKind →
      Layout.ClassLayout t.extentOf body.fields (t.extentOf id) ∧
      body.fields.Pairwise (fun f g => f.offset + t.sizeOf f.type ≤ g.offset) ∧
      ∀ field ∈ body.fields, field.offset + t.sizeOf field.type ≤ t.sizeOf id
  unions : ∀ id body, t.Has id → (t.get id).shape = .structural body →
    body.complete →
    body.kind = .unionKind →
    Layout.UnionLayout t.extentOf body.fields (t.extentOf id)
  arrays : ∀ id elem (len : Int64), t.Has id →
    (t.get id).shape = .template .array [.type elem, .int len] →
      0 ≤ len.toInt ∧ t.sizeOf id = len.toInt.toNat * t.sizeOf elem
  founded : WellFounded fun part whole => part ∈ (t.get whole).shape.parts
  acyclic : ∀ id,
    ¬ Relation.TransGen
      (fun part whole => part ∈ (t.get whole).shape.parts) id id

namespace TypeTable.LaidOut

variable {t : TypeTable}

theorem measured_structural (ht : t.LaidOut) {id : TypeId} {body : Structural}
    (hid : t.Has id) (hshape : (t.get id).shape = .structural body)
    (hcomplete : body.complete) :
    (Shape.structural body).Measured t.extentOf (t.extentOf id) := by
  rw [← hshape]
  apply ht.measured id hid
  simpa [TypeEntry.isComplete, hshape] using hcomplete

theorem founded (ht : t.LaidOut) :
    WellFounded fun part whole => part ∈ (t.get whole).shape.parts := by
  obtain ⟨rank, hrank⟩ := ht.ranked
  exact Subrelation.wf (fun hpart => hrank _ _ hpart) (measure rank).wf

theorem acyclic (ht : t.LaidOut) (id : TypeId) :
    ¬ Relation.TransGen (fun part whole => part ∈ (t.get whole).shape.parts)
      id id := by
  obtain ⟨rank, hrank⟩ := ht.ranked
  have hsmaller : ∀ {part whole : TypeId},
      Relation.TransGen (fun part whole => part ∈ (t.get whole).shape.parts)
        part whole →
        rank part < rank whole := by
    intro part whole h
    induction h with
    | single hpart => exact hrank _ _ hpart
    | tail _ hpart ih => exact Nat.lt_trans ih (hrank _ _ hpart)
  intro hself
  exact Nat.lt_irrefl _ (hsmaller hself)

theorem soundLayout (ht : t.LaidOut) : t.SoundLayout where
  regular _ hid hcomplete := ht.regular hid hcomplete
  classes id body hid hshape hcomplete hkind := by
    have hlayout :=
      (ht.measured_structural hid hshape hcomplete).classLayout hkind
    exact ⟨hlayout, hlayout.ordered, fun _ hfield => hlayout.inside hfield⟩
  unions id body hid hshape hcomplete hkind :=
    (ht.measured_structural hid hshape hcomplete).unionLayout hkind
  arrays id elem len hid hshape := by
    have hmeasured :=
      ht.measured id hid (by simp [TypeEntry.isComplete, hshape])
    rw [hshape] at hmeasured
    obtain ⟨hlen, hextent⟩ := hmeasured.arrayExtent
    exact ⟨hlen, congrArg Extent.size hextent⟩
  founded := ht.founded
  acyclic := ht.acyclic

end TypeTable.LaidOut

namespace Registry

variable {hash : String → UInt64} {r s t : Registry}

def HasFields (t : TypeTable) (id : TypeId) (fields : List Field) : Prop :=
  ∃ body, (t.get id).shape = .structural body ∧ body.complete = true ∧
    body.fields.map Field.declared = fields.map Field.declared

theorem complete_hasFields {id : TypeId} {fields : List Field}
    {variants : List (String × Int64)} {answer : Answer} (hr : r.Sound hash)
    (hlaid : r.types.LaidOut)
    (hop : (Operation.complete id fields variants).Valid r.types)
    (horderly : (Operation.complete id fields variants).Orderly r.types)
    (h : (Operation.complete id fields variants).perform hash r =
      .ok answer s) : s.types.Has id ∧ HasFields s.types id fields := by
  rw [hr.perform_eq] at h
  obtain ⟨u, scopes', htables, rfl⟩ := settle_eq_ok h
  obtain ⟨v, hcomplete, heq⟩ := map_eq_ok htables
  cases heq
  obtain ⟨hopen, hfits⟩ := horderly _ hcomplete
  obtain ⟨-, hkeeps, hfields⟩ :=
    TypeTable.complete_laidOut hlaid hop.1 hop.2 hopen hfits hcomplete
  exact ⟨hkeeps.has id hop.1, hfields⟩

theorem HasFields.later {u v : TypeTable} {id : TypeId} {fields : List Field}
    (h : HasFields u id fields) (hid : u.Has id) (hkeeps : u.Keeps v) :
    HasFields v id fields := by
  obtain ⟨body, hshape, hcomplete, hfields⟩ := h
  have hsame :=
    hkeeps.same id hid (by simpa [TypeEntry.isComplete, hshape] using hcomplete)
  exact ⟨body, by rw [hsame, hshape], hcomplete, hfields⟩

theorem layout_sound (hash : String → UInt64) (scopes : ScopeTable)
    (r : Registry) (h : Develops hash (new hash scopes) r) :
    r.types.SoundLayout ∧
      ∀ id fields variants answer s t,
        (Operation.complete id fields variants).Valid r.types →
          (Operation.complete id fields variants).Orderly r.types →
            (Operation.complete id fields variants).perform hash r =
              .ok answer s →
              Develops hash s t → HasFields t.types id fields := by
  have hnew : (new hash scopes).types.LaidOut := by
    rw [new_eq]
    exact TypeTable.builtin_laidOut scopes
  obtain ⟨hr, hlaid, -⟩ := h.laidOut (new_sound hash scopes) hnew
  refine ⟨hlaid.soundLayout, ?_⟩
  intro id fields variants answer s t hop horderly hperform hst
  have hafter : (Operation.complete id fields variants).after hash r = s := by
    rw [Operation.after, hperform]
  have hsound := (hr.after hop).1
  have hslaid := (hr.after_laidOut hlaid hop horderly).1
  rw [hafter] at hsound hslaid
  obtain ⟨hid, hfields⟩ := complete_hasFields hr hlaid hop horderly hperform
  exact hfields.later hid (hst.laidOut hsound hslaid).2.2

def shellOnly : Registry :=
  (Operation.register "Pair" (.shell .classKind) ⟨0⟩).after (fun _ => 0)
    (new (fun _ => 0) .empty)

def paired : Registry :=
  (Operation.complete ⟨15⟩
    [⟨"first", .bool, 0, none⟩, ⟨"second", .int64, 0, none⟩] []).after
    (fun _ => 0) shellOnly

theorem layout_sound_paired :
    Develops (fun _ => 0) (new (fun _ => 0) .empty) paired ∧
    paired.types.SoundLayout ∧
      paired.types.extentOf ⟨15⟩ = ⟨16, 8⟩ ∧
      ((paired.types.get ⟨15⟩).structural?.map fun body =>
        body.fields.map Field.offset) = some [0, 8] := by
  have hshape : (shellOnly.types.get ⟨15⟩).shape =
      .structural (.shell .classKind) := by rfl
  have hvalid :
      (Operation.complete ⟨15⟩
        [⟨"first", .bool, 0, none⟩, ⟨"second", .int64, 0, none⟩]
        []).Valid shellOnly.types := by
    refine ⟨by change (_ : Nat) < _; decide +kernel, ?_⟩
    simp only [List.mem_cons, List.not_mem_nil, or_false, forall_eq_or_imp,
      forall_eq]
    exact ⟨by change (_ : Nat) < _; decide +kernel,
      by change (_ : Nat) < _; decide +kernel⟩
  have horderly :
      (Operation.complete ⟨15⟩
        [⟨"first", .bool, 0, none⟩, ⟨"second", .int64, 0, none⟩]
        []).Orderly shellOnly.types := by
    intro u _
    refine ⟨by decide +kernel, ?_⟩
    intro body hbody
    rw [hshape] at hbody
    cases hbody
    decide +kernel
  have hdevelops : Develops (fun _ => 0) (new (fun _ => 0) .empty) paired :=
    .step _ (.step _ .refl trivial ⟨rfl, rfl⟩) hvalid horderly
  exact ⟨hdevelops, (layout_sound _ _ paired hdevelops).1, by decide +kernel,
    by decide +kernel⟩

end Registry

end ArenaScript
