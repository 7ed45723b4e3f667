import ArenaScript.Proofs.Types.Rendering

/-!
# How the table of types grows

Types are added at the end under names that are not in use.  What is there keeps
its name and, unless it is a declared type, its shape.  A table that has grown
this way from the built-in types is well named: no name is given out twice, and
the name of an instance is its rendering.
-/

namespace ArenaScript

/-- Two states of one type: the body of a declared type may change, and nothing
else that counts. -/
structure TypeEntry.Same (e f : TypeEntry) : Prop where
  name : f.name = e.name
  shape : f.shape = e.shape ∨
    ∃ body body', e.shape = .structural body ∧ f.shape = .structural body'

namespace TypeEntry.Same

variable {e f g : TypeEntry}

theorem refl (e : TypeEntry) : e.Same e := ⟨rfl, Or.inl rfl⟩

theorem trans (hef : e.Same f) (hfg : f.Same g) : e.Same g := by
  refine ⟨hfg.name.trans hef.name, ?_⟩
  rcases hef.shape with hf | ⟨body, body', he, hf⟩
  · rw [← hf]
    exact hfg.shape
  · rcases hfg.shape with hg | ⟨_, body'', -, hg⟩
    · exact Or.inr ⟨body, body', he, hg.trans hf⟩
    · exact Or.inr ⟨body, body'', he, hg⟩

theorem template_iff (h : e.Same f) (kind : TemplateKind)
    (args : List TemplateArg) :
    f.shape = .template kind args ↔ e.shape = .template kind args := by
  rcases h.shape with hf | ⟨body, body', he, hf⟩
  · rw [hf]
  · simp [he, hf]

theorem structural_iff (h : e.Same f) :
    (∃ body, f.shape = .structural body) ↔
    ∃ body, e.shape = .structural body := by
  rcases h.shape with hf | ⟨body, body', he, hf⟩
  · rw [hf]
  · simp [he, hf]

end TypeEntry.Same

theorem TypeEntry.shape_of_structural? {e : TypeEntry} {body : Structural}
    (h : e.structural? = some body) : e.shape = .structural body := by
  unfold structural? at h
  split at h
  · cases h
    assumption
  · cases h

namespace TypeTable

variable {t u v : TypeTable}

/-! ## Looking up and adding -/

theorem size_push (t : TypeTable) (e : TypeEntry) :
    (t.push e).2.size = t.size + 1 := by
  simp [push, size]

theorem has_push {e : TypeEntry} {id : TypeId} :
    (t.push e).2.Has id ↔ t.Has id ∨ id = ⟨t.size⟩ := by
  cases id with
  | mk index =>
      simp only [Has, size_push, TypeId.mk.injEq]
      omega

theorem get_push_old {e : TypeEntry} {id : TypeId} (h : t.Has id) :
    (t.push e).2.get id = t.get id := by
  have hlt : id.index < t.types.size := h
  simp [get, push, Array.getElem?_push, Nat.ne_of_lt hlt]

theorem get_push_new (t : TypeTable) (e : TypeEntry) :
    (t.push e).2.get ⟨t.size⟩ = e := by
  simp [get, push, size]

theorem name_push_old {e : TypeEntry} {id : TypeId} (h : t.Has id) :
    (t.push e).2.name id = t.name id := by
  rw [name, get_push_old h, name]

theorem name_push_new (t : TypeTable) (e : TypeEntry) :
    (t.push e).2.name ⟨t.size⟩ = e.name := by
  rw [name, get_push_new]

theorem get_of_lt {i : Nat} (h : i < t.types.size) :
    t.get ⟨i⟩ = t.types[i] := by
  simp [get, h]

theorem findByName?_eq_some {name : String} {id : TypeId}
    (h : t.findByName? name = some id) : t.Has id ∧ t.name id = name := by
  simp only [findByName?, Option.map_eq_some_iff] at h
  obtain ⟨i, hi, rfl⟩ := h
  obtain ⟨hlt, hname, -⟩ := Array.findIdx?_eq_some_iff_getElem.1 hi
  refine ⟨hlt, ?_⟩
  rw [TypeTable.name, get_of_lt hlt]
  simpa using hname

theorem findByName?_eq_none {name : String} :
    t.findByName? name = none ↔ ∀ id, t.Has id → t.name id ≠ name := by
  simp only [findByName?, Option.map_eq_none_iff, Array.findIdx?_eq_none_iff]
  constructor
  · intro h id hid
    have hlt : id.index < t.types.size := hid
    have hentry := h t.types[id.index] (Array.getElem_mem hlt)
    rw [TypeTable.name, get_of_lt hlt]
    simpa using hentry
  · intro h e he
    obtain ⟨i, hlt, rfl⟩ := Array.mem_iff_getElem.1 he
    have hname := h ⟨i⟩ hlt
    rw [TypeTable.name, get_of_lt hlt] at hname
    simpa using hname

theorem findByName?_name (ht : t.DistinctNames) {id : TypeId} (hid : t.Has id) :
    t.findByName? (t.name id) = some id := by
  cases hfind : t.findByName? (t.name id) with
  | none => exact absurd rfl (findByName?_eq_none.1 hfind id hid)
  | some found =>
      obtain ⟨hfound, hname⟩ := findByName?_eq_some hfind
      rw [ht found id hfound hid hname]

/-! ## Growth -/

structure Extends (t u : TypeTable) : Prop where
  size : t.size ≤ u.size
  same : ∀ id, t.Has id → (t.get id).Same (u.get id)

namespace Extends

theorem refl (t : TypeTable) : t.Extends t :=
  ⟨Nat.le_refl _, fun _ _ => .refl _⟩

theorem has (h : t.Extends u) {id : TypeId} (hid : t.Has id) : u.Has id :=
  Nat.lt_of_lt_of_le hid h.size

theorem trans (htu : t.Extends u) (huv : u.Extends v) : t.Extends v where
  size := Nat.le_trans htu.size huv.size
  same id hid := (htu.same id hid).trans (huv.same id (htu.has hid))

theorem push (t : TypeTable) (e : TypeEntry) : t.Extends (t.push e).2 where
  size := by
    rw [size_push]
    omega
  same id hid := by
    rw [get_push_old hid]
    exact .refl _

theorem name (h : t.Extends u) {id : TypeId} (hid : t.Has id) :
    u.name id = t.name id :=
  (h.same id hid).name

theorem hasArgs (h : t.Extends u) {args : List TemplateArg}
    (hargs : t.HasArgs args) : u.HasArgs args :=
  fun id hid => h.has (hargs id hid)

theorem renderArgs (h : t.Extends u) {args : List TemplateArg}
    (hargs : t.HasArgs args) : u.renderArgs args = t.renderArgs args := by
  have hmap : args.map u.renderArg = args.map t.renderArg := by
    apply List.map_congr_left
    intro arg harg
    cases arg with
    | type id => exact h.name (hargs id harg)
    | int n => rfl
  simp only [TypeTable.renderArgs, hmap]

theorem render (h : t.Extends u) (kind : TemplateKind) {args : List TemplateArg}
    (hargs : t.HasArgs args) : u.render kind args = t.render kind args := by
  simp only [TypeTable.render, h.renderArgs hargs]

end Extends

theorem get_modify {f : TypeEntry → TypeEntry} {index : Nat} {id : TypeId}
    (hid : t.Has id) :
    (⟨t.types.modify index f⟩ : TypeTable).get id =
      if index = id.index then f (t.get id) else t.get id := by
  have hlt : id.index < t.types.size := hid
  by_cases hindex : index = id.index
  · simp [get, hindex, hlt, Array.getElem_modify]
  · simp [get, hindex, hlt, Array.getElem_modify]

theorem get_of_not_has {id : TypeId} (h : ¬ t.Has id) : t.get id = default := by
  have hsize : t.types.size ≤ id.index := Nat.le_of_not_lt h
  simp [get, hsize]

theorem get_push (t : TypeTable) (e : TypeEntry) (id : TypeId) :
    (t.push e).2.get id = if id = ⟨t.size⟩ then e else t.get id := by
  by_cases hnew : id = ⟨t.size⟩
  · rw [if_pos hnew, hnew, get_push_new]
  · rw [if_neg hnew]
    by_cases hold : t.Has id
    · exact get_push_old hold
    · have hout : ¬ (t.push e).2.Has id := by
        rw [has_push]
        exact not_or.2 ⟨hold, hnew⟩
      rw [get_of_not_has hold, get_of_not_has hout]

theorem get_modify_ne {f : TypeEntry → TypeEntry} {id other : TypeId}
    (h : other ≠ id) :
    (⟨t.types.modify id.index f⟩ : TypeTable).get other = t.get other := by
  by_cases hold : t.Has other
  · rw [get_modify hold, if_neg]
    intro hindex
    cases id
    cases other
    simp_all
  · have hout : ¬ (⟨t.types.modify id.index f⟩ : TypeTable).Has other := by
      simpa [Has, size] using hold
    rw [get_of_not_has hold, get_of_not_has hout]

theorem modify_extends {f : TypeEntry → TypeEntry} {id : TypeId}
    (hf : (t.get id).Same (f (t.get id))) :
    t.Extends ⟨t.types.modify id.index f⟩ := by
  constructor
  · simp [size]
  · intro other hother
    rw [get_modify hother]
    split
    · rename_i hindex
      have hsame : other = id := by
        cases id
        cases other
        simp_all
      rw [hsame]
      exact hf
    · exact .refl _

theorem complete_extends {id : TypeId} {fields : List Field}
    {variants : List (String × Int64)}
    (h : t.complete id fields variants = .ok u) :
    t.Extends u ∧ u.size = t.size := by
  unfold complete at h
  split at h
  · rename_i body hbody
    split at h
    · cases h
    · cases h
      refine ⟨modify_extends ⟨rfl, Or.inr ⟨body, _, hbody, rfl⟩⟩, ?_⟩
      simp [size]
  · cases h

theorem setOrigin_extends (t : TypeTable) (id : TypeId) (origin : TemplateId)
    (args : List TemplateArg) :
    t.Extends (t.setOrigin id origin args) ∧ (t.setOrigin id origin args).size =
      t.size := by
  refine ⟨modify_extends ?_, by simp [setOrigin, size]⟩
  split
  · rename_i body hbody
    exact ⟨rfl, Or.inr ⟨body, _, hbody, rfl⟩⟩
  · exact .refl _

theorem markInitialized_extends (t : TypeTable) (id : TypeId) :
    t.Extends (t.markInitialized id) ∧ (t.markInitialized id).size = t.size :=
  ⟨modify_extends ⟨rfl, Or.inl rfl⟩, by simp [markInitialized, size]⟩

/-! ## Complete types -/

def NoNewShell (t u : TypeTable) : Prop :=
  ∀ id, (t.get id).isComplete → (u.get id).isComplete

namespace NoNewShell

theorem refl (t : TypeTable) : t.NoNewShell t := fun _ h => h

theorem trans (htu : t.NoNewShell u) (huv : u.NoNewShell v) : t.NoNewShell v :=
  fun id h => huv id (htu id h)

theorem push (t : TypeTable) {e : TypeEntry} (he : e.isComplete) :
    t.NoNewShell (t.push e).2 := by
  intro id h
  rw [get_push]
  split
  · exact he
  · exact h

theorem modify {f : TypeEntry → TypeEntry} {id : TypeId}
    (hf : (t.get id).isComplete → (f (t.get id)).isComplete) :
    t.NoNewShell ⟨t.types.modify id.index f⟩ := by
  intro other h
  by_cases hother : other = id
  · subst hother
    by_cases hid : t.Has other
    · rw [get_modify hid, if_pos rfl]
      exact hf h
    · have hout : ¬ (⟨t.types.modify other.index f⟩ : TypeTable).Has other := by
        simpa [Has, size] using hid
      rwa [get_of_not_has hout, ← get_of_not_has hid]
  · rwa [get_modify_ne hother]

end NoNewShell

theorem setOrigin_noNewShell (t : TypeTable) (id : TypeId) (origin : TemplateId)
    (args : List TemplateArg) : t.NoNewShell (t.setOrigin id origin args) := by
  refine .modify fun h => ?_
  split
  · rename_i body hbody
    simpa [TypeEntry.isComplete, hbody] using h
  · exact h

theorem markInitialized_noNewShell (t : TypeTable) (id : TypeId) :
    t.NoNewShell (t.markInitialized id) := .modify fun h => h

theorem complete_noNewShell {id : TypeId} {fields : List Field}
    {variants : List (String × Int64)}
    (h : t.complete id fields variants = .ok u) :
    t.NoNewShell u ∧ (u.get id).isComplete := by
  unfold complete at h
  split at h
  · rename_i body hbody
    split at h
    · cases h
    · cases h
      refine ⟨.modify fun _ => rfl, ?_⟩
      by_cases hid : t.Has id
      · rw [get_modify hid, if_pos rfl]
        rfl
      · rw [get_of_not_has hid] at hbody
        cases hbody
  · cases h

/-! ## Well-named tables -/

namespace DistinctNames

theorem push (ht : t.DistinctNames) {e : TypeEntry}
    (hnew : t.findByName? e.name = none) : (t.push e).2.DistinctNames := by
  intro id id' hid hid' hname
  rcases has_push.1 hid with hold | rfl
  · rcases has_push.1 hid' with hold' | rfl
    · rw [name_push_old hold, name_push_old hold'] at hname
      exact ht id id' hold hold' hname
    · rw [name_push_old hold, name_push_new] at hname
      exact absurd hname (findByName?_eq_none.1 hnew id hold)
  · rcases has_push.1 hid' with hold' | rfl
    · rw [name_push_new, name_push_old hold'] at hname
      exact absurd hname.symm (findByName?_eq_none.1 hnew id' hold')
    · rfl

theorem of_same (ht : t.DistinctNames) (h : t.Extends u)
    (hsize : u.size = t.size) : u.DistinctNames := by
  intro id id' hid hid' hname
  rw [Has, hsize] at hid hid'
  rw [h.name hid, h.name hid'] at hname
  exact ht id id' hid hid' hname

end DistinctNames

/-- No declared type has a name that looks like that of an instance. -/
def Unreserved (t : TypeTable) : Prop :=
  ∀ id body, t.Has id → (t.get id).shape = .structural body →
    reserved (t.name id) = false

structure WellNamed (t : TypeTable) : Prop where
  distinct : t.DistinctNames
  rendered : ∀ id kind args, t.Has id → (t.get id).shape = .template kind args →
    t.name id = t.render kind args ∧ WellShaped kind args ∧ t.HasArgs args
  plain : ∀ id, t.Has id → reserved (t.name id) = true →
    (∃ kind args, (t.get id).shape = .template kind args) ∨
      ∃ body, (t.get id).shape = .structural body

namespace WellNamed

/-- A name that is the rendering of an instance belongs to that instance. -/
theorem template_of_name (ht : t.WellNamed) (hu : t.Unreserved) {id : TypeId}
    {kind : TemplateKind} {args : List TemplateArg} (hid : t.Has id)
    (hshape : WellShaped kind args) (hargs : t.HasArgs args)
    (hname : t.name id = t.render kind args) :
    (t.get id).shape = .template kind args := by
  have hreserved : reserved (t.name id) = true := by
    rw [hname, reserved_render]
  rcases ht.plain id hid hreserved with ⟨kind', args', htemplate⟩ |
    ⟨body, hbody⟩
  · obtain ⟨hname', hshape', hargs'⟩ := ht.rendered id kind' args' hid htemplate
    have hsame : t.render kind' args' = t.render kind args := by
      rw [← hname', hname]
    obtain ⟨rfl, rfl⟩ :=
      render_inj ht.distinct hshape' hshape hargs' hargs hsame
    exact htemplate
  · have hplain := hu id body hid hbody
    rw [hreserved] at hplain
    cases hplain

theorem of_same (ht : t.WellNamed) (h : t.Extends u) (hsize : u.size = t.size) :
    u.WellNamed := by
  have hhas : ∀ id, u.Has id → t.Has id := by
    intro id hid
    simpa [Has, hsize] using hid
  constructor
  · exact ht.distinct.of_same h hsize
  · intro id kind args hid htemplate
    have hold := ((h.same id (hhas id hid)).template_iff kind args).1 htemplate
    obtain ⟨hname, hshape, hargs⟩ := ht.rendered id kind args (hhas id hid) hold
    rw [h.name (hhas id hid), hname]
    exact ⟨(h.render kind hargs).symm, hshape, h.hasArgs hargs⟩
  · intro id hid hreserved
    have hsame := h.same id (hhas id hid)
    rw [h.name (hhas id hid)] at hreserved
    rcases ht.plain id (hhas id hid) hreserved with
      ⟨kind, args, htemplate⟩ | hbody
    · exact Or.inl ⟨kind, args, (hsame.template_iff kind args).2 htemplate⟩
    · exact Or.inr (hsame.structural_iff.2 hbody)

theorem push (ht : t.WellNamed) {e : TypeEntry}
    (hnew : t.findByName? e.name = none)
    (hrendered : ∀ kind args, e.shape = .template kind args →
      e.name = t.render kind args ∧ WellShaped kind args ∧ t.HasArgs args)
    (hplain : reserved e.name = true →
      (∃ kind args, e.shape = .template kind args) ∨
        ∃ body, e.shape = .structural body) : (t.push e).2.WellNamed := by
  have hextends := Extends.push t e
  constructor
  · exact ht.distinct.push hnew
  · intro id kind args hid htemplate
    rcases has_push.1 hid with hold | rfl
    · rw [get_push_old hold] at htemplate
      obtain ⟨hname, hshape, hargs⟩ := ht.rendered id kind args hold htemplate
      rw [name_push_old hold, hname]
      exact ⟨(hextends.render kind hargs).symm, hshape, hextends.hasArgs hargs⟩
    · rw [get_push_new] at htemplate
      obtain ⟨hname, hshape, hargs⟩ := hrendered kind args htemplate
      rw [name_push_new, hname]
      exact ⟨(hextends.render kind hargs).symm, hshape, hextends.hasArgs hargs⟩
  · intro id hid hreserved
    rcases has_push.1 hid with hold | rfl
    · rw [name_push_old hold] at hreserved
      rw [get_push_old hold]
      exact ht.plain id hold hreserved
    · rw [name_push_new] at hreserved
      rw [get_push_new]
      exact hplain hreserved

end WellNamed

/-! ## The built-in types -/

def builtins : List (String × Shape × Nat) :=
  CoreKind.all.map (fun k => (k.name, .core k, k.size)) ++
    [CallableKind.function, CallableKind.method].map fun k =>
      (k.name, .callable k, k.size)

def addEntry (tables : TypeTable × ScopeTable) (entry : String × Shape × Nat) :
    TypeTable × ScopeTable :=
  (tables.1.addBuiltin tables.2 entry.1 entry.2.1 entry.2.2 false).2

theorem builtin_eq (scopes : ScopeTable) :
    builtin scopes = builtins.foldl addEntry (⟨#[]⟩, scopes) := rfl

theorem findByName?_push_ne {e : TypeEntry} {name : String}
    (h : t.findByName? name = none) (hne : e.name ≠ name) :
    (t.push e).2.findByName? name = none := by
  rw [findByName?_eq_none] at h ⊢
  intro id hid
  rcases has_push.1 hid with hold | rfl
  · rw [name_push_old hold]
    exact h id hold
  · rw [name_push_new]
    exact hne

theorem foldl_addEntry_wellNamed (entries : List (String × Shape × Nat))
    (hplain : ∀ entry ∈ entries, reserved entry.1 = false ∧
      ∀ kind args, entry.2.1 ≠ .template kind args)
    (hnodup : (entries.map (·.1)).Nodup) (ht : t.WellNamed)
    (hnew : ∀ entry ∈ entries, t.findByName? entry.1 = none)
    (scopes : ScopeTable) :
    (entries.foldl addEntry (t, scopes)).1.WellNamed := by
  induction entries generalizing t scopes with
  | nil => exact ht
  | cons entry rest ih =>
      simp only [List.map_cons, List.nodup_cons, List.mem_map, not_exists,
        not_and] at hnodup
      simp only [List.mem_cons, forall_eq_or_imp] at hplain hnew
      rw [List.foldl_cons]
      apply ih hplain.2 hnodup.2
      · apply ht.push hnew.1
        · intro kind args htemplate
          exact absurd htemplate (hplain.1.2 kind args)
        · intro hreserved
          simp [hplain.1.1] at hreserved
      · intro other hother
        exact findByName?_push_ne (hnew.2 other hother) fun hname =>
          hnodup.1 other hother hname.symm

theorem builtin_wellNamed (scopes : ScopeTable) :
    (builtin scopes).1.WellNamed := by
  rw [builtin_eq]
  apply foldl_addEntry_wellNamed
  · intro entry hentry
    simp only [builtins, List.mem_append, List.mem_map] at hentry
    rcases hentry with ⟨k, -, rfl⟩ | ⟨k, -, rfl⟩
    · exact ⟨by cases k <;> decide, by simp⟩
    · exact ⟨by cases k <;> decide, by simp⟩
  · decide
  · constructor
    · intro id _ hid
      simp [Has, size] at hid
    · intro id _ _ hid
      simp [Has, size] at hid
    · intro id hid
      simp [Has, size] at hid
  · intro entry _
    simp [findByName?]

/-! ## The operations -/

theorem wellShaped_of_instanceSize {kind : TemplateKind}
    {args : List TemplateArg} {result : Nat × Bool}
    (h : t.instanceSize kind args = .ok result) : WellShaped kind args := by
  unfold instanceSize at h
  simp only at h
  split at h
  · exact .ref _
  · exact .address _
  · exact .array _ _
  · cases h

/-- Either the name is in use, or a new entry is made under it. -/
theorem findOrCreate_cases {scopes scopes' : ScopeTable} {kind : TemplateKind}
    {args : List TemplateArg} {id : TypeId} {created : Bool}
    (h : t.findOrCreate scopes kind args = .ok ((id, created), u, scopes')) :
    (created = false ∧ u = t ∧ scopes' = scopes ∧
      t.findByName? (t.render kind args) = some id) ∨
    (id = ⟨t.size⟩ ∧ t.findByName? (t.render kind args) = none ∧
      WellShaped kind args ∧
      ∃ e : TypeEntry, e.name = t.render kind args ∧
        e.shape = .template kind args ∧
        u = (t.push e).2) := by
  unfold findOrCreate at h
  simp only at h
  split at h
  · rename_i found hfound
    cases h
    exact Or.inl ⟨rfl, rfl, rfl, hfound⟩
  · rename_i hnew
    split at h
    · cases h
    · rename_i size aggregate hsize
      cases h
      exact Or.inr ⟨rfl, hnew, wellShaped_of_instanceSize hsize, _, rfl,
        rfl, rfl⟩

theorem findOrCreate_scopes {scopes scopes' : ScopeTable} {kind : TemplateKind}
    {args : List TemplateArg} {result : TypeId × Bool}
    (h : t.findOrCreate scopes kind args = .ok (result, u, scopes')) :
    scopes' = scopes ∨ scopes' = (scopes.create .members none).2 := by
  unfold findOrCreate at h
  simp only at h
  split at h
  · cases h
    exact .inl rfl
  · split at h
    · cases h
    · cases h
      exact .inr rfl

theorem register_eq_ok {name : String} {body : Structural} {members : ScopeId}
    {id : TypeId} (h : t.register name body members = .ok (id, u)) :
    id = ⟨t.size⟩ ∧ t.findByName? name = none ∧
      ∃ e : TypeEntry, e.name = name ∧ e.shape = .structural body ∧
        u = (t.push e).2 := by
  unfold register at h
  split at h
  · cases h
  · rename_i hnew
    cases h
    exact ⟨rfl, hnew, _, rfl, rfl, rfl⟩

theorem findOrCreate_noNewShell {scopes scopes' : ScopeTable}
    {kind : TemplateKind} {args : List TemplateArg} {result : TypeId × Bool}
    (h : t.findOrCreate scopes kind args = .ok (result, u, scopes')) :
    t.NoNewShell u := by
  rcases findOrCreate_cases h with ⟨-, rfl, -, -⟩ | ⟨-, -, -, e, -, hshape, rfl⟩
  · exact .refl u
  · exact .push t (by simp [TypeEntry.isComplete, hshape])

theorem register_members {name : String} {body : Structural} {members : ScopeId}
    {id : TypeId} (h : t.register name body members = .ok (id, u)) :
    (u.get id).members = members := by
  unfold register at h
  split at h
  · cases h
  · cases h
    exact congrArg TypeEntry.members (get_push_new t _)

theorem register_new {name : String} (hnew : t.findByName? name = none)
    (body : Structural) (members : ScopeId) :
    ∃ u, t.register name body members = .ok (⟨t.size⟩, u) := by
  unfold register
  rw [hnew]
  exact ⟨_, rfl⟩

theorem register_shell {name : String} {kind : StructKind} {members : ScopeId}
    {id : TypeId} (h : t.register name (.shell kind) members = .ok (id, u)) :
    u.Has id ∧ u.name id = name ∧ (u.get id).isComplete = false := by
  obtain ⟨rfl, -, e, hname, hshape, rfl⟩ := register_eq_ok h
  refine ⟨has_push.2 (.inr rfl), (name_push_new t e).trans hname, ?_⟩
  rw [get_push_new, TypeEntry.isComplete, hshape]
  rfl

theorem register_noNewShell {name : String} {body : Structural}
    {members : ScopeId} {id : TypeId}
    (h : t.register name body members = .ok (id, u)) {other : TypeId}
    (hother : other ≠ id) (hcomplete : (t.get other).isComplete) :
    (u.get other).isComplete := by
  obtain ⟨rfl, -, e, -, -, rfl⟩ := register_eq_ok h
  rwa [get_push, if_neg hother]

theorem findOrCreate_found {scopes : ScopeTable} {kind : TemplateKind}
    {args : List TemplateArg} {id : TypeId} (ht : t.DistinctNames)
    (hid : t.Has id) (hname : t.name id = t.render kind args) :
    t.findOrCreate scopes kind args = .ok ((id, false), t, scopes) := by
  have hfind : t.findByName? (t.render kind args) = some id := by
    rw [← hname]
    exact findByName?_name ht hid
  simp [findOrCreate, hfind]

end TypeTable

end ArenaScript
