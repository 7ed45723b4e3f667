import ArenaScript.Proofs.Types.Registry

/-!
# Types have one identity

A registry is used through its operations, which mention only handles that it
has given out.  Each operation extends the table and keeps it well named, hence
so does every history.  Instances with the same template and arguments are
therefore one type, and unless a declared type has taken the name of
an instance, different ones are different types.
-/

namespace ArenaScript.Registry

def new (hash : String → UInt64) (scopes : ScopeTable) : Registry :=
  TypeTable.builtins.foldl
    (fun r entry =>
      match addBuiltin hash entry.1 entry.2.1 entry.2.2 false r with
      | .ok _ r => r
      | .error _ r => r)
    ⟨⟨#[]⟩, scopes, fun _ => []⟩

theorem new_eq (hash : String → UInt64) (scopes : ScopeTable) :
    new hash scopes =
      indexed hash (TypeTable.builtin scopes).1
        (TypeTable.builtin scopes).2 := by
  have hfold : ∀ (entries : List (String × Shape × Nat)) (t : TypeTable)
      (scopes : ScopeTable),
      entries.foldl
        (fun r entry =>
          match addBuiltin hash entry.1 entry.2.1 entry.2.2 false r with
          | .ok _ r => r
          | .error _ r => r) (indexed hash t scopes) =
        indexed hash (entries.foldl TypeTable.addEntry (t, scopes)).1
          (entries.foldl TypeTable.addEntry (t, scopes)).2 := by
    intro entries
    induction entries with
    | nil => intro t scopes; rfl
    | cons entry rest ih =>
        intro t scopes
        rw [List.foldl_cons, List.foldl_cons, addBuiltin_indexed]
        exact ih _ _
  exact hfold TypeTable.builtins ⟨#[]⟩ scopes

namespace Operation

def Valid (t : TypeTable) : Operation → Prop
  | .findOrCreate _ args => t.HasArgs args
  | .register .. => True
  | .complete id fields _ => t.Has id ∧ ∀ field ∈ fields, t.Has field.type
  | .referenceTo target => t.Has target
  | .addressOf target => t.Has target

def after (hash : String → UInt64) (op : Operation) (r : Registry) : Registry :=
  match op.perform hash r with
  | .ok _ s => s
  | .error _ s => s

end Operation

/-- The registries that a registry may become. -/
inductive Reaches (hash : String → UInt64) (r : Registry) : Registry → Prop
  | refl : Reaches hash r r
  | step {s : Registry} (op : Operation) (h : Reaches hash r s)
      (hop : op.Valid s.types) :
      Reaches hash r (op.after hash s)

/-! ## One operation -/

variable {hash : String → UInt64} {t u : TypeTable}
  {scopes scopes' : ScopeTable}

theorem findOrCreate_grows {kind : TemplateKind} {args : List TemplateArg}
    {id : TypeId} {created : Bool} (ht : t.WellNamed) (hargs : t.HasArgs args)
    (h : t.findOrCreate scopes kind args = .ok ((id, created), u, scopes')) :
    u.WellNamed ∧ t.Extends u ∧ u.Has id ∧ u.name id = t.render kind args := by
  rcases TypeTable.findOrCreate_cases h with
    ⟨-, rfl, -, hfound⟩ | ⟨rfl, hnew, hshape, e, hname, htemplate, rfl⟩
  · obtain ⟨hid, hname⟩ := TypeTable.findByName?_eq_some hfound
    exact ⟨ht, .refl u, hid, hname⟩
  · refine ⟨?_, .push t e, TypeTable.has_push.2 (Or.inr rfl), ?_⟩
    · apply ht.push (by rw [hname]; exact hnew)
      · intro kind' args' htemplate'
        rw [htemplate] at htemplate'
        cases htemplate'
        exact ⟨hname, hshape, hargs⟩
      · intro _
        exact Or.inl ⟨kind, args, htemplate⟩
    · rw [TypeTable.name_push_new, hname]

theorem register_grows {name : String} {body : Structural} {members : ScopeId}
    {id : TypeId} (ht : t.WellNamed)
    (h : t.register name body members = .ok (id, u)) :
    u.WellNamed ∧ t.Extends u := by
  obtain ⟨-, hnew, e, hname, hbody, rfl⟩ := TypeTable.register_eq_ok h
  refine ⟨?_, .push t e⟩
  apply ht.push (by rw [hname]; exact hnew)
  · intro kind args htemplate
    rw [hbody] at htemplate
    cases htemplate
  · intro _
    exact Or.inr ⟨body, hbody⟩

theorem complete_grows {id : TypeId} {fields : List Field}
    {variants : List (String × Int64)} (ht : t.WellNamed)
    (h : t.complete id fields variants = .ok u) :
    u.WellNamed ∧ t.Extends u := by
  obtain ⟨hextends, hsize⟩ := TypeTable.complete_extends h
  exact ⟨ht.of_same hextends hsize, hextends⟩

theorem map_eq_ok {α β : Type} {x : Except Failure α} {f : α → β} {b : β}
    (h : x.map f = .ok b) : ∃ a, x = .ok a ∧ f a = b := by
  cases x with
  | error e => cases h
  | ok a =>
      cases h
      exact ⟨a, rfl, rfl⟩

theorem hasArgs_single {target : TypeId} (h : t.Has target) :
    t.HasArgs [.type target] := by
  intro id hid
  simp only [List.mem_singleton, TemplateArg.type.injEq] at hid
  rw [hid]
  exact h

theorem onTables_grows {op : Operation} {answer : Answer} (ht : t.WellNamed)
    (hop : op.Valid t) (h : op.onTables t scopes = .ok (answer, u, scopes')) :
    u.WellNamed ∧ t.Extends u := by
  cases op with
  | findOrCreate kind args =>
      obtain ⟨⟨⟨id, created⟩, v, w⟩, hcreate, heq⟩ := map_eq_ok h
      cases heq
      have hgrows := findOrCreate_grows ht hop hcreate
      exact ⟨hgrows.1, hgrows.2.1⟩
  | register name body members =>
      obtain ⟨⟨id, v⟩, hregister, heq⟩ := map_eq_ok h
      cases heq
      exact register_grows ht hregister
  | complete id fields variants =>
      obtain ⟨v, hcomplete, heq⟩ := map_eq_ok h
      cases heq
      exact complete_grows ht hcomplete
  | referenceTo target =>
      obtain ⟨⟨⟨id, created⟩, v, w⟩, hcreate, heq⟩ := map_eq_ok h
      cases heq
      have hgrows := findOrCreate_grows ht (hasArgs_single hop) hcreate
      exact ⟨hgrows.1, hgrows.2.1⟩
  | addressOf target =>
      obtain ⟨⟨⟨id, created⟩, v, w⟩, hcreate, heq⟩ := map_eq_ok h
      cases heq
      have hgrows := findOrCreate_grows ht (hasArgs_single hop) hcreate
      exact ⟨hgrows.1, hgrows.2.1⟩

/-! ## Histories -/

structure Sound (hash : String → UInt64) (r : Registry) : Prop where
  wellNamed : r.types.WellNamed
  index : r = indexed hash r.types r.scopes

variable {r s : Registry}

theorem Sound.perform_eq (hr : r.Sound hash) (op : Operation) :
    op.perform hash r = settle hash r (op.onTables r.types r.scopes) := by
  have h := perform_indexed hash r.types r.scopes op
  rwa [← hr.index] at h

theorem Sound.find?_eq (hr : r.Sound hash) (name : String) :
    r.find? hash name = r.types.findByName? name := by
  have h := find?_indexed hash r.types r.scopes name
  rwa [← hr.index] at h

theorem Sound.findOrCreate_eq (hr : r.Sound hash) (kind : TemplateKind)
    (args : List TemplateArg) :
    findOrCreate hash kind args r =
      settle hash r (r.types.findOrCreate r.scopes kind args) := by
  have h := findOrCreate_indexed hash r.types r.scopes kind args
  rwa [← hr.index] at h

theorem new_sound (hash : String → UInt64) (scopes : ScopeTable) :
    (new hash scopes).Sound hash := by
  rw [new_eq]
  exact ⟨TypeTable.builtin_wellNamed scopes, rfl⟩

theorem Sound.after (hr : r.Sound hash) {op : Operation}
    (hop : op.Valid r.types) :
    (op.after hash r).Sound hash ∧ r.types.Extends (op.after hash r).types := by
  rw [Operation.after, hr.perform_eq]
  cases htables : op.onTables r.types r.scopes with
  | error e => exact ⟨hr, .refl _⟩
  | ok result =>
      obtain ⟨answer, u, scopes'⟩ := result
      obtain ⟨hu, hextends⟩ := onTables_grows hr.wellNamed hop htables
      exact ⟨⟨hu, rfl⟩, hextends⟩

theorem Reaches.sound (h : Reaches hash r s) (hr : r.Sound hash) :
    s.Sound hash ∧ r.types.Extends s.types := by
  induction h with
  | refl => exact ⟨hr, .refl _⟩
  | step op h hop ih =>
      obtain ⟨hs, hextends⟩ := ih
      obtain ⟨hafter, hstep⟩ := hs.after hop
      exact ⟨hafter, hextends.trans hstep⟩

/-! ## Instances -/

structure Named (t : TypeTable) (kind : TemplateKind) (args : List TemplateArg)
    (id : TypeId) : Prop where
  known : t.HasArgs args
  has : t.Has id
  name : t.name id = t.render kind args

variable {kind kind' : TemplateKind} {args args' : List TemplateArg}
  {id id' : TypeId} {created created' : Bool}

theorem Named.later (h : Named t kind args id) (htu : t.Extends u) :
    Named u kind args id where
  known := htu.hasArgs h.known
  has := htu.has h.has
  name := by rw [htu.name h.has, h.name, htu.render kind h.known]

theorem Named.template (h : Named t kind args id) (ht : t.WellNamed)
    (hu : t.Unreserved) (hshape : WellShaped kind args) :
    (t.get id).shape = .template kind args :=
  ht.template_of_name hu h.has hshape h.known h.name

theorem Named.found (h : Named r.types kind args id) (hr : r.Sound hash) :
    findOrCreate hash kind args r = .ok (id, false) r := by
  rw [hr.findOrCreate_eq,
    TypeTable.findOrCreate_found hr.wellNamed.distinct h.has h.name]
  exact congrArg _ hr.index.symm

theorem Sound.named (hr : r.Sound hash) (hargs : r.types.HasArgs args)
    (h : findOrCreate hash kind args r = .ok (id, created) s) :
    s.Sound hash ∧ r.types.Extends s.types ∧ Named s.types kind args id := by
  rw [hr.findOrCreate_eq] at h
  obtain ⟨u, scopes', hcreate, rfl⟩ := settle_eq_ok h
  obtain ⟨hu, hextends, hid, hname⟩ :=
    findOrCreate_grows hr.wellNamed hargs hcreate
  have hrender := hextends.render kind hargs
  exact ⟨⟨hu, rfl⟩, hextends, hextends.hasArgs hargs, hid,
    hname.trans hrender.symm⟩

/-! ## Main statement -/

structure Canonical (hash : String → UInt64) (r : Registry) : Prop where
  searches : ∀ name, r.find? hash name = r.types.findByName? name
  performs : ∀ op : Operation,
    op.perform hash r = settle hash r (op.onTables r.types r.scopes)
  distinct : r.types.DistinctNames
  found : ∀ id, r.types.Has id → r.find? hash (r.types.name id) = some id
  again : ∀ kind args id created s t, r.types.HasArgs args →
    findOrCreate hash kind args r = .ok (id, created) s → Reaches hash s t →
      findOrCreate hash kind args t = .ok (id, false) t
  shape : ∀ kind args id created s t, r.types.HasArgs args →
    WellShaped kind args →
    findOrCreate hash kind args r = .ok (id, created) s → Reaches hash s t →
      t.types.Unreserved → (t.types.get id).shape = .template kind args
  differ : ∀ kind args id created s t kind' args' id' created' u,
    r.types.HasArgs args → WellShaped kind args → t.types.HasArgs args' →
      WellShaped kind' args' →
        findOrCreate hash kind args r = .ok (id, created) s → Reaches hash s t →
          findOrCreate hash kind' args' t = .ok (id', created') u →
          u.types.Unreserved →
            (kind, args) ≠ (kind', args') → id ≠ id'
  failed : ∀ (op : Operation) e s, op.perform hash r = .error e s → s = r

theorem identity_canonical (hash : String → UInt64) (scopes : ScopeTable)
    (r : Registry) (h : Reaches hash (new hash scopes) r) :
    r.Canonical hash := by
  have hr : r.Sound hash := (h.sound (new_sound hash scopes)).1
  constructor
  · exact hr.find?_eq
  · exact hr.perform_eq
  · exact hr.wellNamed.distinct
  · intro id hid
    rw [hr.find?_eq, TypeTable.findByName?_name hr.wellNamed.distinct hid]
  · intro kind args id created s t hargs hfirst hst
    obtain ⟨hs, -, hnamed⟩ := hr.named hargs hfirst
    obtain ⟨ht, hextends⟩ := hst.sound hs
    exact (hnamed.later hextends).found ht
  · intro kind args id created s t hargs hshape hfirst hst hunreserved
    obtain ⟨hs, -, hnamed⟩ := hr.named hargs hfirst
    obtain ⟨ht, hextends⟩ := hst.sound hs
    exact (hnamed.later hextends).template ht.wellNamed hunreserved hshape
  · intro kind args id created s t kind' args' id' created' u hargs hshape
      hargs' hshape' hfirst hst hsecond hunreserved hne hid
    obtain ⟨hs, -, hnamed⟩ := hr.named hargs hfirst
    obtain ⟨ht, hextends⟩ := hst.sound hs
    obtain ⟨hu, hlater, hnamed'⟩ := ht.named hargs' hsecond
    have htemplate :=
      ((hnamed.later hextends).later hlater).template hu.wellNamed
        hunreserved hshape
    have htemplate' := hnamed'.template hu.wellNamed hunreserved hshape'
    rw [hid, htemplate'] at htemplate
    cases htemplate
    exact hne rfl
  · intro op e s hfail
    rw [hr.perform_eq] at hfail
    exact settle_eq_error hfail

def collided : Registry :=
  (Operation.referenceTo ⟨15⟩).after (fun _ => 0)
    ((Operation.findOrCreate .array [.type .int32, .int 4]).after (fun _ => 0)
      (new (fun _ => 0) .empty))

theorem identity_canonical_collided :
    Reaches (fun _ => 0) (new (fun _ => 0) .empty) collided ∧
      collided.Canonical (fun _ => 0) ∧ collided.types.name ⟨16⟩ =
        "Ref<Array<Int32, 4>>" := by
  have hfirst : (Operation.findOrCreate .array [.type .int32, .int 4]).Valid
      (new (fun _ => 0) .empty).types := by
    intro id hid
    simp only [List.mem_cons, TemplateArg.type.injEq, reduceCtorEq,
      List.not_mem_nil, or_false] at hid
    rw [hid]
    decide +kernel
  have hreach : Reaches (fun _ => 0) (new (fun _ => 0) .empty) collided :=
    .step _ (.step _ .refl hfirst) (by change (_ : Nat) < _; decide +kernel)
  exact ⟨hreach, identity_canonical _ _ collided hreach, by decide +kernel⟩

end ArenaScript.Registry
