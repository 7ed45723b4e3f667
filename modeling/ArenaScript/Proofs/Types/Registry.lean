import ArenaScript.Proofs.Types.Growth

/-!
# The registry of types

A registry searches its table through an index: handles are chained by the hash
of their names, and told apart by the names themselves.  Whatever the hash
function, the registry does what the table functions say.
-/

namespace ArenaScript

structure Registry where
  types : TypeTable
  scopes : ScopeTable
  /-- For each hash the handles of the types whose names have it, in order of
  registration. -/
  chains : UInt64 → List TypeId

namespace Registry

abbrev Action := EStateM Failure Registry

def ofExcept {α : Type} (x : Except Failure α) : Action α :=
  match x with
  | .ok a => pure a
  | .error e => throw e

theorem get_bind {α : Type} (f : Registry → Action α) (r : Registry) :
    (get >>= f) r = f r r := rfl

theorem bind_ok {α β : Type} {x : Action α} {f : α → Action β}
    {r s : Registry} {a : α} (h : x r = .ok a s) : (x >>= f) r = f a s := by
  simp only [bind, EStateM.bind, h]

section Actions

variable (hash : String → UInt64)

def find? (r : Registry) (name : String) : Option TypeId :=
  (r.chains (hash name)).find? fun id => r.types.name id == name

def push (entry : TypeEntry) : Action TypeId :=
  modifyGet fun r =>
    let (id, types) := r.types.push entry
    let chain := r.chains (hash entry.name) ++ [id]
    (id, { r with
      types, chains := fun h => if h = hash entry.name then chain else
        r.chains h })

def addBuiltin (name : String) (shape : Shape) (size : Nat) (aggregate : Bool) :
    Action TypeId := do
  let members ← modifyGet fun r =>
    let (members, scopes) := r.scopes.create .members none
    (members, { r with scopes })
  push hash { name, shape, size, members, aggregate, initialized := false }

def register (name : String) (body : Structural) (members : ScopeId) :
    Action TypeId := do
  let r ← get
  match r.find? hash name with
  | some _ => throw (Failure.redefinition name)
  | none =>
      push hash
        { name, shape := .structural body, size := 0, members
          aggregate := body.kind != .enumKind, initialized := false }

def complete (id : TypeId) (fields : List Field)
    (variants : List (String × Int64)) : Action Unit := do
  let r ← get
  let types ← ofExcept (r.types.complete id fields variants)
  modify fun r => { r with types }

def findOrCreate (kind : TemplateKind) (args : List TemplateArg) :
    Action (TypeId × Bool) := do
  let r ← get
  let name := r.types.render kind args
  match r.find? hash name with
  | some id => pure (id, false)
  | none =>
      let (size, aggregate) ← ofExcept (r.types.instanceSize kind args)
      let id ← addBuiltin hash name (.template kind args) size aggregate
      pure (id, true)

end Actions

/-! ## The index -/

def handles (t : TypeTable) : List TypeId := (List.range t.size).map TypeId.mk

def indexed (hash : String → UInt64) (types : TypeTable) (scopes : ScopeTable) :
    Registry where
  types
  scopes
  chains h := (handles types).filter fun id => hash (types.name id) = h

variable {hash : String → UInt64} {t u : TypeTable} {scopes : ScopeTable}

@[simp] theorem indexed_types : (indexed hash t scopes).types = t := rfl

theorem mem_handles {id : TypeId} : id ∈ handles t ↔ t.Has id := by
  cases id
  simp [handles, TypeTable.Has]

theorem handles_push (t : TypeTable) (e : TypeEntry) :
    handles (t.push e).2 = handles t ++ [⟨t.size⟩] := by
  simp [handles, TypeTable.size_push, List.range_succ]

theorem find?_handles (t : TypeTable) (name : String) :
    ((handles t).find? fun id => t.name id == name) = t.findByName? name := by
  have hsearch : ((List.range t.size).find? fun i => t.name ⟨i⟩ == name) =
      t.types.findIdx? (·.name == name) := by
    have hname : ∀ {i : Nat} (h : i < t.types.size),
        t.name ⟨i⟩ = t.types[i].name := by
      intro i h
      rw [TypeTable.name, TypeTable.get_of_lt h]
    ext i
    rw [List.find?_range_eq_some, Array.findIdx?_eq_some_iff_getElem]
    constructor
    · rintro ⟨hi, hmem, hfirst⟩
      have hlt : i < t.types.size := by simpa [TypeTable.size] using hmem
      refine ⟨hlt, by rw [← hname hlt]; exact hi, fun k hk => ?_⟩
      rw [← hname (Nat.lt_trans hk hlt)]
      simpa using hfirst k hk
    · rintro ⟨hlt, hi, hfirst⟩
      refine ⟨by rw [hname hlt]; exact hi, by simpa [TypeTable.size] using hlt,
        fun k hk => ?_⟩
      rw [hname (Nat.lt_trans hk hlt)]
      simpa using hfirst k hk
  rw [handles, List.find?_map, TypeTable.findByName?, ← hsearch]
  rfl

theorem find?_indexed (hash : String → UInt64) (t : TypeTable)
    (scopes : ScopeTable) (name : String) :
    (indexed hash t scopes).find? hash name = t.findByName? name := by
  rw [← find?_handles]
  simp only [find?, indexed, List.find?_filter]
  congr 1
  funext id
  by_cases hname : t.name id = name
  · simp [hname]
  · simp [hname]

theorem push_indexed (hash : String → UInt64) (t : TypeTable)
    (scopes : ScopeTable) (e : TypeEntry) :
    push hash e (indexed hash t scopes) =
      .ok ⟨t.size⟩ (indexed hash (t.push e).2 scopes) := by
  have hold : ∀ h,
      ((handles t).filter fun id => hash ((t.push e).2.name id) = h) =
      (handles t).filter fun id => hash (t.name id) = h := by
    intro h
    apply List.filter_congr
    intro id hid
    rw [TypeTable.name_push_old (mem_handles.1 hid)]
  have hchains : (fun h => if h = hash e.name then
        ((handles t).filter fun id => hash (t.name id) = hash e.name) ++
          [⟨t.size⟩]
      else (handles t).filter fun id => hash (t.name id) = h) =
      (indexed hash (t.push e).2 scopes).chains := by
    funext h
    simp only [indexed, handles_push, List.filter_append, hold]
    by_cases hh : h = hash e.name
    · simp [hh, TypeTable.name_push_new]
    · simp [hh, TypeTable.name_push_new, Ne.symm hh]
  change (.ok ⟨t.size⟩ ⟨(t.push e).2, scopes, fun h => if h = hash e.name then
        ((handles t).filter fun id => hash (t.name id) = hash e.name) ++
          [⟨t.size⟩]
      else (handles t).filter fun id => hash (t.name id) = h⟩ :
    EStateM.Result Failure Registry TypeId) = _
  rw [hchains]
  rfl

theorem addBuiltin_indexed (name : String) (shape : Shape) (size : Nat)
    (aggregate : Bool) :
    addBuiltin hash name shape size aggregate (indexed hash t scopes) =
      .ok (t.addBuiltin scopes name shape size aggregate).1
        (indexed hash (t.addBuiltin scopes name shape size aggregate).2.1
          (t.addBuiltin scopes name shape size aggregate).2.2) :=
  push_indexed hash t (scopes.create .members none).2 _

theorem chains_of_same (hash : String → UInt64) (scopes : ScopeTable)
    (h : t.Extends u) (hsize : u.size = t.size) :
    (indexed hash t scopes).chains = (indexed hash u scopes).chains := by
  have hhandles : handles u = handles t := by simp [handles, hsize]
  funext k
  simp only [indexed, hhandles]
  apply List.filter_congr
  intro id hid
  rw [h.name (mem_handles.1 hid)]

/-! ## Operations -/

inductive Operation where
  | findOrCreate (kind : TemplateKind) (args : List TemplateArg)
  | register (name : String) (body : Structural) (members : ScopeId)
  | complete (id : TypeId) (fields : List Field)
      (variants : List (String × Int64))
  | referenceTo (target : TypeId)
  | addressOf (target : TypeId)

inductive Answer where
  | interned (id : TypeId) (created : Bool)
  | type (id : TypeId)
  | done

namespace Operation

def perform (hash : String → UInt64) : Operation → Action Answer
  | .findOrCreate kind args =>
      (fun result => .interned result.1 result.2) <$>
        Registry.findOrCreate hash kind args
  | .register name body members =>
      .type <$> Registry.register hash name body members
  | .complete id fields variants =>
      (fun _ => .done) <$> Registry.complete id fields variants
  | .referenceTo target =>
      (fun result => .type result.1) <$> Registry.findOrCreate hash .ref
        [.type target]
  | .addressOf target =>
      (fun result => .type result.1) <$> Registry.findOrCreate hash .address
        [.type target]

def onTables (t : TypeTable) (scopes : ScopeTable) :
    Operation → Except Failure (Answer × TypeTable × ScopeTable)
  | .findOrCreate kind args =>
      (t.findOrCreate scopes kind args).map fun (result, tables) =>
        (.interned result.1 result.2, tables)
  | .register name body members =>
      (t.register name body members).map fun (id, t) => (.type id, t, scopes)
  | .complete id fields variants =>
      (t.complete id fields variants).map fun t => (.done, t, scopes)
  | .referenceTo target =>
      (t.findOrCreate scopes .ref [.type target]).map fun (result, tables) =>
        (.type result.1, tables)
  | .addressOf target =>
      (t.findOrCreate scopes .address [.type target]).map
        fun (result, tables) => (.type result.1, tables)

end Operation

def settle {α : Type} (hash : String → UInt64) (r : Registry) :
    Except Failure (α × TypeTable × ScopeTable) →
    EStateM.Result Failure Registry α
  | .ok (a, t, scopes) => .ok a (indexed hash t scopes)
  | .error e => .error e r

theorem settle_eq_ok {α : Type} {r s : Registry}
    {y : Except Failure (α × TypeTable × ScopeTable)} {a : α}
    (h : settle hash r y = .ok a s) :
    ∃ t scopes, y = .ok (a, t, scopes) ∧ s = indexed hash t scopes := by
  cases y with
  | error e => cases h
  | ok result =>
      cases h
      exact ⟨_, _, rfl, rfl⟩

theorem settle_eq_error {α : Type} {r s : Registry}
    {y : Except Failure (α × TypeTable × ScopeTable)} {e : Failure}
    (h : settle hash r y = .error e s) : s = r := by
  cases y with
  | error e => cases h; rfl
  | ok result => cases h

theorem map_settle {α β : Type} {x : Action α} {r : Registry}
    {y : Except Failure (α × TypeTable × ScopeTable)}
    (h : x r = settle hash r y) (f : α → β) :
    (f <$> x) r = settle hash r (y.map fun (a, tables) => (f a, tables)) := by
  simp only [Functor.map, EStateM.map, h]
  cases y with
  | error e => rfl
  | ok result => rfl

theorem findOrCreate_indexed (hash : String → UInt64) (t : TypeTable)
    (scopes : ScopeTable) (kind : TemplateKind) (args : List TemplateArg) :
    findOrCreate hash kind args (indexed hash t scopes) =
      settle hash (indexed hash t scopes)
        (t.findOrCreate scopes kind args) := by
  unfold findOrCreate TypeTable.findOrCreate
  rw [get_bind]
  simp only [indexed_types, find?_indexed]
  cases t.findByName? (t.render kind args) with
  | some id => rfl
  | none =>
      cases t.instanceSize kind args with
      | error e => rfl
      | ok result =>
          change (addBuiltin hash (t.render kind args) (.template kind args)
            result.1 result.2 >>= fun id => pure (id, true)) _ = _
          rw [bind_ok (addBuiltin_indexed _ _ _ _)]
          rfl

theorem register_indexed (name : String) (body : Structural)
    (members : ScopeId) :
    register hash name body members (indexed hash t scopes) =
      settle hash (indexed hash t scopes)
        ((t.register name body members).map fun (id, u) =>
          (id, u, scopes)) := by
  unfold register TypeTable.register
  rw [get_bind]
  simp only [find?_indexed]
  cases t.findByName? name with
  | some id => rfl
  | none => exact push_indexed hash t scopes _

theorem complete_indexed (id : TypeId) (fields : List Field)
    (variants : List (String × Int64)) :
    complete id fields variants (indexed hash t scopes) =
      settle hash (indexed hash t scopes)
        ((t.complete id fields variants).map fun u => ((), u, scopes)) := by
  unfold complete
  rw [get_bind]
  simp only [indexed_types]
  cases hcomplete : t.complete id fields variants with
  | error e => rfl
  | ok u =>
      obtain ⟨hextends, hsize⟩ := TypeTable.complete_extends hcomplete
      have hchains := chains_of_same hash scopes hextends hsize
      change (.ok () ⟨u, scopes, (indexed hash t scopes).chains⟩ :
        EStateM.Result Failure Registry Unit) = _
      rw [hchains]
      rfl

/-- For every hash function, a registry does what the table functions say. -/
theorem perform_indexed (hash : String → UInt64) (t : TypeTable)
    (scopes : ScopeTable) (op : Operation) :
    op.perform hash (indexed hash t scopes) =
      settle hash (indexed hash t scopes) (op.onTables t scopes) := by
  cases op with
  | findOrCreate kind args =>
      exact map_settle (findOrCreate_indexed hash t scopes kind args) _
  | register name body members =>
      refine (map_settle (register_indexed name body members) Answer.type).trans
        ?_
      simp only [Operation.onTables]
      cases t.register name body members <;> rfl
  | complete id fields variants =>
      refine (map_settle (complete_indexed id fields variants) fun _ =>
        Answer.done).trans ?_
      simp only [Operation.onTables]
      cases t.complete id fields variants <;> rfl
  | referenceTo target =>
      exact map_settle
        (findOrCreate_indexed hash t scopes .ref [.type target]) _
  | addressOf target =>
      exact map_settle
        (findOrCreate_indexed hash t scopes .address [.type target]) _

end Registry

end ArenaScript
