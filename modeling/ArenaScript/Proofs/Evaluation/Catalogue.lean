import ArenaScript.Engine.Members
import ArenaScript.Proofs.Types.Growth

/-!
# The catalogue

Types, scopes, functions and the list of processed declarations are only ever
added to.  An overload list grows at its end, and what is appended to it belongs
to a type that is still being declared, or to none, unless the engine provides
it.  The engine provides copying for a class or union only where no function
before it accepts another instance.

For this the catalogue has to be in order: the handles in overload lists have
been given out, each type has a member scope of its own, and only the members of
types that have been initialized are provided by the engine.
-/

namespace ArenaScript

/-! ## Types stay what they are -/

/-- A shape without the template it is an instance of. -/
def Shape.fixed : Shape → Shape
  | .structural body => .structural { body with origin := none }
  | shape => shape

namespace TypeEntry

/-- What an entry keeps for good: all but the template it is an instance of, and
whether the members the engine provides have been added. -/
def fixed (e : TypeEntry) : TypeEntry :=
  { e with shape := e.shape.fixed, initialized := false }

def isRecord (e : TypeEntry) : Bool :=
  match e.shape with
  | .structural body => body.kind != .enumKind
  | _ => false

theorem isComplete_fixed (e : TypeEntry) :
    e.fixed.isComplete = e.isComplete := by
  unfold fixed isComplete
  cases e.shape <;> rfl

theorem array?_fixed (e : TypeEntry) : e.fixed.array? = e.array? := by
  unfold fixed array?
  cases e.shape <;> rfl

theorem referenceTarget?_fixed (e : TypeEntry) :
    e.fixed.referenceTarget? = e.referenceTarget? := by
  unfold fixed referenceTarget?
  cases e.shape <;> rfl

theorem addressTarget?_fixed (e : TypeEntry) :
    e.fixed.addressTarget? = e.addressTarget? := by
  unfold fixed addressTarget?
  cases e.shape <;> rfl

theorem isRecord_fixed (e : TypeEntry) : e.fixed.isRecord = e.isRecord := by
  unfold fixed isRecord
  cases e.shape <;> rfl

end TypeEntry

structure TypeTable.Grown (t u : TypeTable) : Prop where
  size : t.size ≤ u.size
  entry : ∀ id, t.Has id → (u.get id).fixed = (t.get id).fixed

namespace TypeTable.Grown

variable {t u v : TypeTable}

theorem refl (t : TypeTable) : t.Grown t := ⟨Nat.le_refl _, fun _ _ => rfl⟩

theorem trans (htu : t.Grown u) (huv : u.Grown v) : t.Grown v where
  size := Nat.le_trans htu.size huv.size
  entry id hid := by
    have hu : u.Has id := Nat.lt_of_lt_of_le hid htu.size
    rw [huv.entry id hu, htu.entry id hid]

theorem push (t : TypeTable) (e : TypeEntry) : t.Grown (t.push e).2 where
  size := by
    rw [size_push]
    omega
  entry id hid := by rw [get_push_old hid]

theorem modify {f : TypeEntry → TypeEntry} (hf : ∀ e, (f e).fixed = e.fixed)
    (index : Nat) : t.Grown ⟨t.types.modify index f⟩ where
  size := by simp [TypeTable.size]
  entry id hid := by
    rw [get_modify hid]
    split
    · exact hf _
    · rfl

theorem setOrigin (t : TypeTable) (id : TypeId) (template : TemplateId)
    (args : List TemplateArg) : t.Grown (t.setOrigin id template args) := by
  refine modify (fun e => ?_) id.index
  split
  · rename_i hbody
    simp only [TypeEntry.fixed, hbody, Shape.fixed]
  · rfl

theorem markInitialized (t : TypeTable) (id : TypeId) :
    t.Grown (t.markInitialized id) :=
  modify (f := fun e => { e with initialized := true }) (fun _ => rfl) id.index

theorem findOrCreate {scopes scopes' : ScopeTable} {kind : TemplateKind}
    {args : List TemplateArg} {result : TypeId × Bool}
    (h : t.findOrCreate scopes kind args = .ok (result, u, scopes')) :
    t.Grown u := by
  rcases findOrCreate_cases h with ⟨-, rfl, -, -⟩ | ⟨-, -, -, e, -, -, rfl⟩
  · exact refl u
  · exact push t e

theorem complete (h : t.Grown u) {id : TypeId} (hid : t.size ≤ id.index)
    {fields : List Field} {variants : List (String × Int64)}
    (hcomplete : u.complete id fields variants = .ok v) : t.Grown v := by
  have hold : ∀ other, t.Has other → v.get other = u.get other := by
    intro other hother
    have hlt : other.index < t.size := hother
    have hne : other ≠ id := by
      rintro rfl
      omega
    unfold TypeTable.complete at hcomplete
    split at hcomplete
    · split at hcomplete
      · cases hcomplete
      · cases hcomplete
        exact get_modify_ne hne
    · cases hcomplete
  refine ⟨?_, fun other hother => ?_⟩
  · rw [(complete_extends hcomplete).2]
    exact h.size
  · rw [hold other hother, h.entry other hother]

theorem name (h : t.Grown u) {id : TypeId} (hid : t.Has id) :
    u.name id = t.name id := by
  have hname : (u.get id).fixed.name = (t.get id).fixed.name :=
    congrArg TypeEntry.name (h.entry id hid)
  exact hname

theorem render (h : t.Grown u) {target : TypeId} (htarget : t.Has target)
    {kind : TemplateKind} :
    u.render kind [.type target] = t.render kind [.type target] := by
  simp only [TypeTable.render, renderArgs_single, h.name htarget]

theorem aggregate (h : t.Grown u) {id : TypeId} (hid : t.Has id) :
    (u.get id).aggregate = (t.get id).aggregate := by
  have haggregate := congrArg TypeEntry.aggregate (h.entry id hid)
  exact haggregate

theorem members (h : t.Grown u) {id : TypeId} (hid : t.Has id) :
    (u.get id).members = (t.get id).members := by
  have hmembers := congrArg TypeEntry.members (h.entry id hid)
  exact hmembers

theorem array? (h : t.Grown u) {id : TypeId} (hid : t.Has id) :
    (u.get id).array? = (t.get id).array? := by
  have harray := congrArg TypeEntry.array? (h.entry id hid)
  rwa [TypeEntry.array?_fixed, TypeEntry.array?_fixed] at harray

theorem isComplete (h : t.Grown u) {id : TypeId} (hid : t.Has id) :
    (u.get id).isComplete = (t.get id).isComplete := by
  have hcomplete := congrArg TypeEntry.isComplete (h.entry id hid)
  rwa [TypeEntry.isComplete_fixed, TypeEntry.isComplete_fixed] at hcomplete

theorem sizeOf (h : t.Grown u) (id : TypeId) (hid : t.Has id) :
    u.sizeOf id = t.sizeOf id := by
  have hsize := congrArg TypeEntry.size (h.entry id hid)
  exact hsize

end TypeTable.Grown

/-! ## Scopes -/

namespace Scope

/-- The overloads of a name, or of an operator. -/
def overloads (s : Scope) (operator : Bool) (name : String) : List FunctionId :=
  if operator then s.findOperator name else s.findFunction name

def register (s : Scope) (operator : Bool) (name : String) (id : FunctionId) :
    Scope :=
  if operator then s.registerOperator name id else s.registerFunction name id

theorem overloads_register (s : Scope) (operator other : Bool)
    (name text : String) (id : FunctionId) :
    (s.register operator name id).overloads other text =
      s.overloads other text ++ if other = operator ∧ text = name then [id]
        else [] := by
  unfold overloads register registerOperator registerFunction findOperator
    findFunction
  cases operator <;> cases other <;> simp [Overloads.get_push] <;>
    split <;> simp_all

theorem overloads_congr {s s' : Scope} (hfunctions : s'.functions = s.functions)
    (hoperators : s'.operators = s.operators) (operator : Bool)
    (name : String) :
    s'.overloads operator name = s.overloads operator name := by
  unfold overloads findOperator findFunction
  rw [hfunctions, hoperators]

end Scope

namespace ScopeTable

variable {t : ScopeTable}

theorem get_modify (t : ScopeTable) (id other : ScopeId) (f : Scope → Scope) :
    (t.modify id f).get other =
      if other = id ∧ id.index < t.size then f (t.get id) else t.get other := by
  cases id with | mk i =>
  cases other with | mk j =>
  by_cases hlt : j < t.scopes.size
  · by_cases hij : i = j
    · subst hij
      simp [get, modify, size, hlt, Array.getElem_modify]
    · have hne : j ≠ i := fun h => hij h.symm
      simp [get, modify, size, hlt, hij, hne, Array.getElem_modify]
  · have hout : ¬ (j = i ∧ i < t.scopes.size) := by
      rintro ⟨rfl, h⟩
      exact hlt h
    simp [get, modify, size, hlt, hout]

theorem mem_of_lookup {entries : List ((NodeKey × ScopeId) × ScopeId)}
    {key : NodeKey × ScopeId} {scope : ScopeId}
    (h : entries.lookup key = some scope) : (key, scope) ∈ entries := by
  induction entries with
  | nil => cases h
  | cons entry rest ih =>
      rw [List.lookup_cons] at h
      split at h
      · rename_i hkey
        cases h
        rw [eq_of_beq hkey]
        exact List.mem_cons_self
      · exact List.mem_cons_of_mem entry (ih h)

theorem overloads_create (t : ScopeTable) (kind : ScopeKind)
    (parent : Option ScopeId) (id : ScopeId) (operator : Bool) (name : String) :
    ((t.create kind parent).2.get id).overloads operator name =
      (t.get id).overloads operator name := by
  by_cases hlt : id.index < t.scopes.size
  · simp [get, create, hlt, Array.getElem?_push, Nat.ne_of_lt hlt]
  · have hnone : (t.get id).overloads operator name = [] := by
      simp [get, hlt, Scope.overloads, Scope.findOperator, Scope.findFunction,
        Overloads.get, Bindings.get?_empty]
    rw [hnone]
    by_cases heq : id.index = t.scopes.size
    · simp [get, create, heq, Scope.overloads, Scope.findOperator,
        Scope.findFunction, Overloads.get, Bindings.get?_empty]
    · simp [get, create, hlt, heq, Array.getElem?_push, Scope.overloads,
        Scope.findOperator, Scope.findFunction, Overloads.get,
        Bindings.get?_empty]

end ScopeTable

namespace FunctionTable

theorem get_add_old (t : FunctionTable) (f : Function) {id : FunctionId}
    (h : id.index < t.size) : (t.add f).2.get id = t.get id := by
  have hlt : id.index < t.functions.size := h
  simp [get, add, hlt, Array.getElem?_push, Nat.ne_of_lt hlt]

theorem size_add (t : FunctionTable) (f : Function) :
    (t.add f).2.size = t.size + 1 := by
  simp [size, add]

theorem get_add_new (t : FunctionTable) (f : Function) :
    (t.add f).2.get ⟨t.size⟩ = f := by
  simp [get, add, size]

end FunctionTable

theorem Function.fits_congr {types types' : TypeTable} {f : Function}
    (h : ∀ p ∈ f.params,
      (types'.get p.type).referenceTarget? =
        (types.get p.type).referenceTarget?)
    (site : CallSite) : f.fits types' site = f.fits types site := by
  have hfixed : ∀ p ∈ f.fixedParams, p ∈ f.params := by
    intro p hp
    unfold fixedParams at hp
    split at hp
    · exact List.dropLast_subset _ hp
    · exact hp
  have haccepts : ∀ pair ∈ f.fixedParams.zip site.args,
      types'.accepts pair.1.type pair.2 = types.accepts pair.1.type pair.2 := by
    intro pair hpair
    rw [TypeTable.accepts, TypeTable.accepts,
      h pair.1 (hfixed _ (List.of_mem_zip hpair).1)]
  have hall :
      ((f.fixedParams.zip site.args).all fun pair =>
        types'.accepts pair.1.type pair.2) =
      (f.fixedParams.zip site.args).all fun pair =>
        types.accepts pair.1.type pair.2 := by
    rw [Bool.eq_iff_iff, List.all_eq_true, List.all_eq_true]
    exact ⟨fun hpairs pair hpair => haccepts pair hpair ▸ hpairs pair hpair,
      fun hpairs pair hpair => (haccepts pair hpair).symm ▸ hpairs pair hpair⟩
  exact congrArg (_ && ·) hall

/-! ## Order -/

def Member.provided (owner : TypeId) (m : Member) : Function :=
  .make m.name m.params m.ret
    { synthesized := true,
      constructs := !m.isOperator && m.name == "construct" } (some owner)
    (.native m.native)

/-- What an engine has registered. -/
structure Catalogue where
  types : TypeTable
  scopes : ScopeTable
  functions : FunctionTable
  declared : List NodeKey

def Engine.catalogue (s : Engine) : Catalogue :=
  ⟨s.types, s.scopes, s.functions, s.declared⟩

namespace Catalogue

variable {n m : Nat} {k l j : Catalogue}

def members (k : Catalogue) (type : TypeId) : ScopeId :=
  (k.types.get type).members

def overloads (k : Catalogue) (scope : ScopeId) (operator : Bool)
    (name : String) : List FunctionId :=
  (k.scopes.get scope).overloads operator name

/-- The function is a member of a type that the engine provides. -/
def Provided (k : Catalogue) (id : FunctionId) (type : TypeId) : Prop :=
  (k.functions.get id).owner = some type ∧
    (k.functions.get id).traits.synthesized = true

/-- One function may come before another in an overload list: it has not been
added after it, and if the other is copying that the engine provides for a class
or union, then it is provided as well or does not accept another instance. -/
def Precedes (k : Catalogue) (id later : FunctionId) : Prop :=
  id.index ≤ later.index ∧ ∀ type, k.Provided later type →
    ¬ k.Provided id type →
    (k.types.get type).isRecord = true →
      (k.functions.get id).fits k.types (.member [type, type]) = false

structure Sorted (k : Catalogue) : Prop where
  listed : ∀ scope operator name, ∀ id ∈ k.overloads scope operator name,
    id.index < k.functions.size
  ordered : ∀ scope operator name,
    (k.overloads scope operator name).Pairwise k.Precedes
  initialized : ∀ scope operator name, ∀ id ∈ k.overloads scope operator name,
    ∀ type,
    k.Provided id type → (k.types.get type).initialized = true
  typed : ∀ id, id.index < k.functions.size → ∀ p ∈ (k.functions.get id).params,
    k.types.Has p.type
  names : k.types.DistinctNames
  apart : ∀ type other, k.types.Has type → k.types.Has other →
    k.members type = k.members other → type = other
  placed : ∀ type, k.types.Has type → (k.members type).index < k.scopes.size
  nodes : ∀ entry ∈ k.scopes.byNode, entry.2.index < k.scopes.size
  keys : ∀ entry ∈ k.scopes.byNode, ∀ other ∈ k.scopes.byNode,
    entry.2 = other.2 →
    entry.1.1 = other.1.1
  processed : ∀ entry ∈ k.scopes.byNode, ∀ type, k.types.Has type →
    k.members type = entry.2 → entry.1.1 ∈ k.declared

/-- The catalogue `l` has come about from `k` by additions.  What has been added
to overload lists belongs to none of the first `n` types, or is provided by the
engine. -/
structure Appends (n : Nat) (k l : Catalogue) : Prop where
  size : k.types.size ≤ l.types.size
  initialized : ∀ type, (k.types.get type).initialized = true →
    (l.types.get type).initialized = true
  functions_size : k.functions.size ≤ l.functions.size
  functions : ∀ id, id.index < k.functions.size →
    l.functions.get id = k.functions.get id
  lists : ∀ scope operator name, ∃ later,
    l.overloads scope operator name = k.overloads scope operator name ++ later ∧
      ∀ id ∈ later, ∀ type, type.index < n → (l.functions.get id).owner =
        some type →
        l.Provided id type
  sorted : l.Sorted

namespace Appends

theorem refl (hk : k.Sorted) : Appends n k k where
  size := Nat.le_refl _
  initialized _ h := h
  functions_size := Nat.le_refl _
  functions _ _ := rfl
  lists _ _ _ := ⟨[], (List.append_nil _).symm, nofun⟩
  sorted := hk

theorem weaken (h : Appends n k l) (hmn : m ≤ n) : Appends m k l :=
  { h with
    lists := fun scope operator name => by
      obtain ⟨later, hlists, hlater⟩ := h.lists scope operator name
      exact ⟨later, hlists, fun id hid type htype =>
        hlater id hid type (Nat.lt_of_lt_of_le htype hmn)⟩ }

theorem trans (hkl : Appends n k l) (hlj : Appends n l j) : Appends n k j where
  size := Nat.le_trans hkl.size hlj.size
  initialized type h := hlj.initialized type (hkl.initialized type h)
  functions_size := Nat.le_trans hkl.functions_size hlj.functions_size
  functions id hid := by
    rw [hlj.functions id (Nat.lt_of_lt_of_le hid hkl.functions_size),
      hkl.functions id hid]
  lists scope operator name := by
    obtain ⟨later, hlists, hlater⟩ := hkl.lists scope operator name
    obtain ⟨last, hlists', hlast⟩ := hlj.lists scope operator name
    refine ⟨later ++ last, by rw [hlists', hlists, List.append_assoc],
      fun id hid => ?_⟩
    rcases List.mem_append.1 hid with hid | hid
    · have hlisted : id.index < l.functions.size := by
        refine hkl.sorted.listed scope operator name id ?_
        rw [hlists]
        exact List.mem_append_right _ hid
      intro type htype howner
      rw [hlj.functions id hlisted] at howner
      rw [Provided, hlj.functions id hlisted]
      exact hlater id hid type htype howner
    · exact hlast id hid
  sorted := hlj.sorted

end Appends

/-! ## Additions -/

theorem Precedes.congr {id later : FunctionId} (h : k.Precedes id later)
    (hid : l.functions.get id = k.functions.get id)
    (hlater : l.functions.get later = k.functions.get later)
    (hfits : ∀ site, (k.functions.get id).fits l.types site =
      (k.functions.get id).fits k.types site)
    (hrecord : ∀ type, k.Provided later type →
      (l.types.get type).isRecord = (k.types.get type).isRecord) :
        l.Precedes id later := by
  refine ⟨h.1, fun type hprovided hnot hkind => ?_⟩
  rw [Provided, hlater] at hprovided
  rw [Provided, hid] at hnot
  rw [hid, hfits]
  exact h.2 type hprovided hnot (hrecord type hprovided ▸ hkind)

theorem Appends.addFunction (hk : k.Sorted) {f : Function}
    (hf : ∀ p ∈ f.params, k.types.Has p.type) :
    Appends n k { k with functions := (k.functions.add f).2 } := by
  have hold : ∀ id : FunctionId, id.index < k.functions.size →
      (k.functions.add f).2.get id = k.functions.get id := fun _ h =>
    FunctionTable.get_add_old _ f h
  have hsize := FunctionTable.size_add k.functions f
  refine { size := Nat.le_refl _, initialized := fun _ h => h,
           functions_size := ?_,
           functions := hold,
           lists := fun _ _ _ => ⟨[], (List.append_nil _).symm, nofun⟩,
           sorted :=
             { hk with
               listed := ?_, ordered := ?_, initialized := ?_, typed := ?_ } }
  · rw [hsize]
    omega
  · intro scope operator name id hid
    have hlt := hk.listed scope operator name id hid
    rw [hsize]
    omega
  · intro scope operator name
    refine (hk.ordered scope operator name).imp_of_mem fun hid hlater h => ?_
    exact h.congr (hold _ (hk.listed _ _ _ _ hid))
      (hold _ (hk.listed _ _ _ _ hlater)) (fun _ => rfl) fun _ _ => rfl
  · intro scope operator name id hid type hprovided
    rw [Provided, hold id (hk.listed scope operator name id hid)] at hprovided
    exact hk.initialized scope operator name id hid type hprovided
  · intro id hid
    rw [hsize] at hid
    by_cases hlt : id.index < k.functions.size
    · rw [hold id hlt]
      exact hk.typed id hlt
    · have hnew : id = ⟨k.functions.size⟩ := by
        have hindex : id.index = k.functions.size := by omega
        rw [← hindex]
      rw [hnew, FunctionTable.get_add_new]
      exact hf

section Scopes

variable {scopes : ScopeTable}

theorem Sorted.with_scopes (hk : k.Sorted) (hsize : k.scopes.size ≤ scopes.size)
    (hlists : ∀ scope operator name,
      (scopes.get scope).overloads operator name =
        k.overloads scope operator name)
    (hnodes : ∀ entry ∈ scopes.byNode, entry ∈ k.scopes.byNode ∨
      k.scopes.size ≤ entry.2.index ∧ entry.2.index < scopes.size)
    (hkeys : ∀ entry ∈ scopes.byNode, ∀ other ∈ scopes.byNode,
      entry.2 = other.2 →
      entry.1.1 = other.1.1) : ({ k with scopes } : Catalogue).Sorted where
  listed scope operator name id hid := by
    rw [overloads, hlists] at hid
    exact hk.listed scope operator name id hid
  ordered scope operator name := by
    rw [overloads, hlists]
    exact hk.ordered scope operator name
  initialized scope operator name id hid := by
    rw [overloads, hlists] at hid
    exact hk.initialized scope operator name id hid
  typed := hk.typed
  names := hk.names
  apart := hk.apart
  placed type htype := Nat.lt_of_lt_of_le (hk.placed type htype) hsize
  nodes entry hentry := by
    rcases hnodes entry hentry with hold | hnew
    · exact Nat.lt_of_lt_of_le (hk.nodes entry hold) hsize
    · exact hnew.2
  keys := hkeys
  processed entry hentry type htype hmembers := by
    rcases hnodes entry hentry with hold | hnew
    · exact hk.processed entry hold type htype hmembers
    · have hplaced : (k.members type).index < k.scopes.size :=
        hk.placed type htype
      have hindex : (k.members type).index = entry.2.index :=
        congrArg ScopeId.index hmembers
      omega

theorem Appends.with_scopes
    (hlists : ∀ scope operator name,
      (scopes.get scope).overloads operator name =
        k.overloads scope operator name)
    (hsorted : ({ k with scopes } : Catalogue).Sorted) :
    Appends n k { k with scopes } where
  size := Nat.le_refl _
  initialized _ h := h
  functions_size := Nat.le_refl _
  functions _ _ := rfl
  lists scope operator name := by
    refine ⟨[], ?_, nofun⟩
    rw [overloads, hlists, List.append_nil]
  sorted := hsorted

end Scopes

theorem Appends.createScope (hk : k.Sorted) (kind : ScopeKind)
    (parent : Option ScopeId) :
    Appends n k { k with scopes := (k.scopes.create kind parent).2 } := by
  have hlists := k.scopes.overloads_create kind parent
  refine .with_scopes hlists
    (hk.with_scopes ?_ hlists (fun entry h => .inl h) hk.keys)
  simp [ScopeTable.create, ScopeTable.size]

theorem Appends.scopeFor (hk : k.Sorted) (key : NodeKey) (kind : ScopeKind)
    (parent : ScopeId) :
    Appends n k { k with scopes := (k.scopes.scopeFor key kind parent).2 } := by
  unfold ScopeTable.scopeFor
  split
  · exact .refl hk
  · have hlists := k.scopes.overloads_create kind (some parent)
    have hsize : k.scopes.size <
        (k.scopes.create kind (some parent)).2.size := by
      simp [ScopeTable.create, ScopeTable.size]
    refine .with_scopes hlists
      (hk.with_scopes (Nat.le_of_lt hsize) hlists ?_ ?_)
    · intro entry hentry
      rcases List.mem_cons.1 hentry with rfl | hold
      · exact .inr ⟨Nat.le_refl _, hsize⟩
      · exact .inl hold
    · intro entry hentry other hother heq
      rcases List.mem_cons.1 hentry with rfl | hold
      · rcases List.mem_cons.1 hother with rfl | hold'
        · rfl
        · have hlt := hk.nodes other hold'
          rw [← heq] at hlt
          exact absurd hlt (Nat.lt_irrefl _)
      · rcases List.mem_cons.1 hother with rfl | hold'
        · have hlt := hk.nodes entry hold
          rw [heq] at hlt
          exact absurd hlt (Nat.lt_irrefl _)
        · exact hk.keys entry hold other hold' heq

theorem Appends.updateScope (hk : k.Sorted) (id : ScopeId) {f : Scope → Scope}
    (hf : ∀ operator name, (f (k.scopes.get id)).overloads operator name =
      k.overloads id operator name) :
    Appends n k { k with scopes := k.scopes.modify id f } := by
  have hlists : ∀ scope operator name,
      ((k.scopes.modify id f).get scope).overloads operator name =
      k.overloads scope operator name := by
    intro scope operator name
    rw [ScopeTable.get_modify]
    split
    · rename_i h
      rw [h.1, hf]
    · rfl
  refine .with_scopes hlists
    (hk.with_scopes ?_ hlists (fun entry h => .inl h) hk.keys)
  simp [ScopeTable.modify, ScopeTable.size]

section Register

variable {scope : ScopeId} {operator : Bool} {name : String} {id : FunctionId}

theorem overloads_registered (k : Catalogue) (scope : ScopeId) (operator : Bool)
    (name : String) (id : FunctionId) (other : ScopeId) (op : Bool)
    (text : String) :
    ((k.scopes.modify scope (·.register operator name id)).get other).overloads
      op text = k.overloads other op text ∨
      (other = scope ∧ op = operator ∧ text = name) ∧
        ((k.scopes.modify scope (·.register operator name id)).get
          other).overloads op text = k.overloads other op text ++ [id] := by
  rw [ScopeTable.get_modify]
  split
  · rename_i hother
    rw [Scope.overloads_register, hother.1]
    split
    · rename_i hlabel
      exact .inr ⟨⟨rfl, hlabel⟩, rfl⟩
    · exact .inl (List.append_nil _)
  · exact .inl rfl

theorem mem_overloads_registered {other : ScopeId} {op : Bool} {text : String}
    {id' : FunctionId} (h : id' ∈
      ((k.scopes.modify scope (·.register operator name id)).get
        other).overloads op text) :
    id' ∈ k.overloads other op text ∨ id' = id := by
  rcases k.overloads_registered scope operator name id other op text with
    hlist | ⟨-, hlist⟩
  · rw [hlist] at h
    exact .inl h
  · rw [hlist] at h
    simpa using h

theorem Sorted.register (hk : k.Sorted) (hid : id.index < k.functions.size)
    (hordered : ∀ other ∈ k.overloads scope operator name, k.Precedes other id)
    (hinitialized : ∀ type, k.Provided id type →
      (k.types.get type).initialized = true) :
    ({ k with scopes := k.scopes.modify scope (·.register operator name id) } :
      Catalogue).Sorted :=
  have hsize : k.scopes.size ≤
      (k.scopes.modify scope (·.register operator name id)).size := by
    simp [ScopeTable.modify, ScopeTable.size]
  { hk with
    listed := by
      intro other op text id' hid'
      rcases mem_overloads_registered hid' with h | rfl
      · exact hk.listed other op text id' h
      · exact hid
    ordered := by
      intro other op text
      rcases k.overloads_registered scope operator name id other op text with
        h | ⟨⟨rfl, rfl, rfl⟩, h⟩
      · rw [overloads, h]
        exact hk.ordered other op text
      · rw [overloads, h]
        refine List.pairwise_append.2
          ⟨hk.ordered other op text, List.pairwise_singleton _ _, ?_⟩
        intro earlier hearlier id' hid'
        obtain rfl := List.mem_singleton.1 hid'
        exact hordered earlier hearlier
    initialized := by
      intro other op text id' hid'
      rcases mem_overloads_registered hid' with h | rfl
      · exact hk.initialized other op text id' h
      · exact hinitialized
    placed := fun type htype => Nat.lt_of_lt_of_le (hk.placed type htype) hsize
    nodes := fun entry hentry =>
      Nat.lt_of_lt_of_le (hk.nodes entry hentry) hsize }

theorem Appends.register (hk : k.Sorted) (scope : ScopeId) (operator : Bool)
    (name : String) {id : FunctionId} (hid : id.index < k.functions.size)
    (hordered : ∀ other ∈ k.overloads scope operator name, k.Precedes other id)
    (hmember : ∀ type, type.index < n → (k.functions.get id).owner = some type →
      k.Provided id type)
    (hinitialized : ∀ type, k.Provided id type →
      (k.types.get type).initialized = true) :
    Appends n k { k with
      scopes := k.scopes.modify scope (·.register operator name id) } where
  size := Nat.le_refl _
  initialized _ h := h
  functions_size := Nat.le_refl _
  functions _ _ := rfl
  lists other op text := by
    rcases k.overloads_registered scope operator name id other op text with
      h | ⟨-, h⟩
    · exact ⟨[], by rw [overloads, h, List.append_nil], nofun⟩
    · exact ⟨[id], h, fun id' hid' => List.mem_singleton.1 hid' ▸ hmember⟩
  sorted := hk.register hid hordered hinitialized

end Register

theorem Appends.markDeclared (hk : k.Sorted) (key : NodeKey) :
    Appends n k { k with declared := key :: k.declared } :=
  { Appends.refl hk with
    sorted := { hk with
      processed := fun entry hentry type htype hmembers =>
        List.mem_cons_of_mem key
          (hk.processed entry hentry type htype hmembers) } }

structure Vacant (k : Catalogue) (scope : ScopeId) : Prop where
  lt : scope.index < k.scopes.size
  free : ∀ type, k.types.Has type → k.members type ≠ scope
  processed : ∀ entry ∈ k.scopes.byNode, entry.2 = scope →
    entry.1.1 ∈ k.declared

theorem Sorted.vacant_create (hk : k.Sorted) (kind : ScopeKind)
    (parent : Option ScopeId) :
    ({ k with scopes := (k.scopes.create kind parent).2 } : Catalogue).Vacant
      (k.scopes.create kind parent).1 where
  lt := by simp [ScopeTable.create, ScopeTable.size]
  free type htype hmembers := by
    have hlt := hk.placed type htype
    have hindex : (k.members type).index = k.scopes.size :=
      congrArg ScopeId.index hmembers
    omega
  processed entry hentry heq := by
    have hlt := hk.nodes entry hentry
    have hindex : entry.2.index = k.scopes.size := congrArg ScopeId.index heq
    omega

theorem Sorted.vacant_scopeFor (hk : k.Sorted) {key : NodeKey}
    (hkey : key ∉ k.declared) (kind : ScopeKind) (parent : ScopeId) :
    ({ k with scopes := (k.scopes.scopeFor key kind parent).2
              declared := key :: k.declared } : Catalogue).Vacant
      (k.scopes.scopeFor key kind parent).1 := by
  unfold ScopeTable.scopeFor
  split
  · rename_i scope hfound
    have hentry : ((key, parent), scope) ∈ k.scopes.byNode :=
      ScopeTable.mem_of_lookup hfound
    refine ⟨hk.nodes _ hentry, fun type htype hmembers => ?_,
      fun entry h heq => ?_⟩
    · exact hkey (hk.processed _ hentry type htype hmembers)
    · rw [hk.keys entry h _ hentry heq]
      exact List.mem_cons_self
  · have hvacant := hk.vacant_create kind (some parent)
    refine ⟨hvacant.lt, hvacant.free, fun entry hentry heq => ?_⟩
    rcases List.mem_cons.1 hentry with rfl | hold
    · exact List.mem_cons_self
    · exact List.mem_cons_of_mem key (hvacant.processed entry hold heq)

section Types

variable {e : TypeEntry}

theorem get_default_of_new (k : Catalogue) :
    k.types.get ⟨k.types.size⟩ = default :=
  TypeTable.get_of_not_has (Nat.lt_irrefl _)

theorem get_push_ne (k : Catalogue) (e : TypeEntry) {type : TypeId}
    (h : type ≠ ⟨k.types.size⟩) :
    (k.types.push e).2.get type = k.types.get type := by
  rw [TypeTable.get_push, if_neg h]

theorem get_push_initialized (k : Catalogue) (e : TypeEntry) {type : TypeId}
    (h : (k.types.get type).initialized = true) :
    (k.types.push e).2.get type = k.types.get type := by
  refine k.get_push_ne e ?_
  rintro rfl
  rw [get_default_of_new] at h
  cases h

theorem size_le_push (k : Catalogue) (e : TypeEntry) :
    k.types.size ≤ (k.types.push e).2.size := by
  rw [TypeTable.size_push]
  omega

theorem Sorted.addType (hk : k.Sorted)
    (hname : k.types.findByName? e.name = none) (hvacant : k.Vacant e.members) :
    ({ k with types := (k.types.push e).2 } : Catalogue).Sorted :=
  have hmembers : ∀ type, k.types.Has type →
      ({ k with types := (k.types.push e).2 } : Catalogue).members type =
        k.members type := by
    intro type htype
    rw [members, members, TypeTable.get_push_old htype]
  have hnew : ({ k with types := (k.types.push e).2 } : Catalogue).members
      ⟨k.types.size⟩ = e.members := by
    rw [members, TypeTable.get_push_new]
  { hk with
    ordered := by
      intro scope operator name
      refine (hk.ordered scope operator name).imp_of_mem fun hid hlater h => ?_
      refine h.congr rfl rfl (fun site => ?_) fun type hprovided => ?_
      · refine Function.fits_congr (fun p hp => ?_) site
        rw [TypeTable.get_push_old (hk.typed _ (hk.listed _ _ _ _ hid) p hp)]
      · rw [k.get_push_initialized e
          (hk.initialized _ _ _ _ hlater type hprovided)]
    initialized := by
      intro scope operator name id hid type h
      have htype := hk.initialized scope operator name id hid type h
      rw [k.get_push_initialized e htype, htype]
    typed := fun id hid p hp =>
      Nat.lt_of_lt_of_le (hk.typed id hid p hp) (k.size_le_push e)
    names := hk.names.push hname
    apart := by
      intro type other htype hother hsame
      rcases TypeTable.has_push.1 htype with htype | rfl
      · rcases TypeTable.has_push.1 hother with hother | rfl
        · rw [hmembers type htype, hmembers other hother] at hsame
          exact hk.apart type other htype hother hsame
        · rw [hmembers type htype, hnew] at hsame
          exact absurd hsame (hvacant.free type htype)
      · rcases TypeTable.has_push.1 hother with hother | rfl
        · rw [hmembers other hother, hnew] at hsame
          exact absurd hsame.symm (hvacant.free other hother)
        · rfl
    placed := by
      intro type htype
      rcases TypeTable.has_push.1 htype with htype | rfl
      · rw [hmembers type htype]
        exact hk.placed type htype
      · rw [hnew]
        exact hvacant.lt
    processed := by
      intro entry hentry type htype hsame
      rcases TypeTable.has_push.1 htype with htype | rfl
      · rw [hmembers type htype] at hsame
        exact hk.processed entry hentry type htype hsame
      · rw [hnew] at hsame
        exact hvacant.processed entry hentry hsame.symm }

theorem Appends.addType (hk : k.Sorted)
    (hname : k.types.findByName? e.name = none) (hvacant : k.Vacant e.members) :
    Appends n k { k with types := (k.types.push e).2 } where
  size := k.size_le_push e
  initialized type h := by rw [k.get_push_initialized e h, h]
  functions_size := Nat.le_refl _
  functions _ _ := rfl
  lists _ _ _ := ⟨[], (List.append_nil _).symm, nofun⟩
  sorted := hk.addType hname hvacant

section Modify

variable {id : TypeId} {f : TypeEntry → TypeEntry}

/-- An entry in the place of another one from which it differs in nothing the
catalogue depends on. -/
structure Amended (e e' : TypeEntry) : Prop where
  isRecord : e'.isRecord = e.isRecord
  name : e'.name = e.name
  members : e'.members = e.members
  referenceTarget? : e'.referenceTarget? = e.referenceTarget?
  initialized : e.initialized = true → e'.initialized = true

theorem Amended.mark (e : TypeEntry) :
    Amended e { e with initialized := true } :=
  ⟨rfl, rfl, rfl, rfl, fun _ => rfl⟩

theorem Amended.of_fixed {e e' : TypeEntry} (h : e'.fixed = e.fixed)
    (hinitialized : e'.initialized = e.initialized) : Amended e e' where
  isRecord := by rw [← TypeEntry.isRecord_fixed, h, TypeEntry.isRecord_fixed]
  name := (congrArg TypeEntry.name h : e'.fixed.name = e.fixed.name)
  members := (congrArg TypeEntry.members h : e'.fixed.members = e.fixed.members)
  referenceTarget? := by
    rw [← TypeEntry.referenceTarget?_fixed, h, TypeEntry.referenceTarget?_fixed]
  initialized := hinitialized.trans

theorem get_modified (k : Catalogue) (id : TypeId) (f : TypeEntry → TypeEntry)
    (type : TypeId) :
    (⟨k.types.types.modify id.index f⟩ : TypeTable).get type =
      k.types.get type ∨
      type = id ∧ (⟨k.types.types.modify id.index f⟩ : TypeTable).get type =
        f (k.types.get id) := by
  by_cases heq : type = id
  · subst heq
    by_cases htype : k.types.Has type
    · exact .inr ⟨rfl, by rw [TypeTable.get_modify htype, if_pos rfl]⟩
    · have hout :
          ¬ (⟨k.types.types.modify type.index f⟩ : TypeTable).Has type := by
        simpa [TypeTable.Has, TypeTable.size] using htype
      exact .inl
        (by rw [TypeTable.get_of_not_has htype, TypeTable.get_of_not_has hout])
  · exact .inl (TypeTable.get_modify_ne heq)

theorem initialized_modified
    (hinitialized : (k.types.get id).initialized = true →
      (f (k.types.get id)).initialized = true) {type : TypeId}
    (htype : (k.types.get type).initialized = true) :
    ((⟨k.types.types.modify id.index f⟩ : TypeTable).get type).initialized =
      true := by
  rcases k.get_modified id f type with h | ⟨rfl, h⟩
  · rw [h, htype]
  · rw [h, hinitialized htype]

theorem Sorted.modifyType (hk : k.Sorted)
    (h : Amended (k.types.get id) (f (k.types.get id))) :
    ({ k with types := ⟨k.types.types.modify id.index f⟩ } :
      Catalogue).Sorted :=
  have hhas : ∀ type, (⟨k.types.types.modify id.index f⟩ : TypeTable).Has type ↔
      k.types.Has type := by
    intro type
    simp [TypeTable.Has, TypeTable.size]
  have hsame : ∀ type,
      (⟨k.types.types.modify id.index f⟩ : TypeTable).name type =
        k.types.name type ∧
      ({ k with types := ⟨k.types.types.modify id.index f⟩ } :
        Catalogue).members type = k.members type := by
    intro type
    unfold TypeTable.name members
    rcases k.get_modified id f type with h' | ⟨rfl, h'⟩
    · rw [h']
      exact ⟨rfl, rfl⟩
    · rw [h']
      exact ⟨h.name, h.members⟩
  { hk with
    ordered := by
      intro scope operator name
      refine (hk.ordered scope operator name).imp fun hlater => ?_
      refine hlater.congr rfl rfl
        (fun site => Function.fits_congr (fun p _ => ?_) site) fun type _ => ?_
      · rcases k.get_modified id f p.type with h' | ⟨heq, h'⟩
        · rw [h']
        · rw [h', heq, h.referenceTarget?]
      · rcases k.get_modified id f type with h' | ⟨rfl, h'⟩
        · rw [h']
        · rw [h', h.isRecord]
    initialized := fun scope operator name id hid type hprovided =>
      initialized_modified h.initialized
        (hk.initialized scope operator name id hid type hprovided)
    typed := fun id hid p hp => (hhas p.type).2 (hk.typed id hid p hp)
    names := by
      intro type other htype hother hnames
      rw [(hsame type).1, (hsame other).1] at hnames
      exact hk.names type other ((hhas type).1 htype)
        ((hhas other).1 hother) hnames
    apart := by
      intro type other htype hother hscopes
      rw [(hsame type).2, (hsame other).2] at hscopes
      exact hk.apart type other ((hhas type).1 htype)
        ((hhas other).1 hother) hscopes
    placed := by
      intro type htype
      rw [(hsame type).2]
      exact hk.placed type ((hhas type).1 htype)
    processed := by
      intro entry hentry type htype hscope
      rw [(hsame type).2] at hscope
      exact hk.processed entry hentry type ((hhas type).1 htype) hscope }

theorem Appends.modifyType (hk : k.Sorted)
    (h : Amended (k.types.get id) (f (k.types.get id))) :
    Appends n k { k with types := ⟨k.types.types.modify id.index f⟩ } where
  size := by simp [TypeTable.size]
  initialized _ := initialized_modified h.initialized
  functions_size := Nat.le_refl _
  functions _ _ := rfl
  lists _ _ _ := ⟨[], (List.append_nil _).symm, nofun⟩
  sorted := hk.modifyType h

end Modify

end Types

/-! ## What the engine provides -/

variable {owner : TypeId}

def provide (owner : TypeId) (k : Catalogue) (m : Member) : Catalogue :=
  { k with
    functions := (k.functions.add (m.provided owner)).2
    scopes := k.scopes.modify (k.members owner)
      (·.register m.isOperator m.name ⟨k.functions.size⟩) }

/-- No declared function under the label of a member accepts another instance of
a class or union. -/
def Free (k : Catalogue) (owner : TypeId) (ms : List Member) : Prop :=
  (k.types.get owner).isRecord = true → ∀ m ∈ ms,
    ∀ id ∈ k.overloads (k.members owner) m.isOperator m.name,
      ¬ k.Provided id owner →
      (k.functions.get id).fits k.types (.member [owner, owner]) = false

theorem Appends.provide_one (hk : k.Sorted)
    (hinitialized : (k.types.get owner).initialized = true) {m : Member}
    (hm : ∀ p ∈ m.params, k.types.Has p.type) (hfree : k.Free owner [m]) :
    Appends n k (k.provide owner m) := by
  have hadd := Appends.addFunction (n := n) hk (f := m.provided owner) hm
  have hnew : ∀ type,
      ({ k with functions := (k.functions.add (m.provided owner)).2 } :
        Catalogue).Provided ⟨k.functions.size⟩ type ↔ type = owner := by
    intro type
    rw [Provided, FunctionTable.get_add_new]
    exact ⟨fun h => (Option.some.inj h.1).symm,
      fun h => ⟨congrArg some h.symm, rfl⟩⟩
  refine hadd.trans
    (.register hadd.sorted (k.members owner) m.isOperator m.name ?_ ?_ ?_ ?_)
  · rw [FunctionTable.size_add]
    exact Nat.lt_succ_self _
  · intro id hid
    have hlisted := hk.listed _ _ _ id hid
    refine ⟨Nat.le_of_lt hlisted, fun type hprovided hnot hrecord => ?_⟩
    obtain rfl := (hnew type).1 hprovided
    rw [Provided, hadd.functions id hlisted] at hnot
    rw [hadd.functions id hlisted]
    exact hfree hrecord m List.mem_cons_self id hid hnot
  · intro type _ howner
    refine (hnew type).2 ?_
    rw [FunctionTable.get_add_new] at howner
    exact (Option.some.inj howner).symm
  · intro type hprovided
    rw [(hnew type).1 hprovided]
    exact hinitialized

theorem overloads_provide (hplaced : (k.members owner).index < k.scopes.size)
    (m : Member) (scope : ScopeId) (operator : Bool) (name : String) :
    (k.provide owner m).overloads scope operator name =
      k.overloads scope operator name ++
      if scope = k.members owner ∧ operator = m.isOperator ∧ name = m.name
        then [⟨k.functions.size⟩] else [] := by
  unfold overloads provide
  rw [ScopeTable.get_modify]
  by_cases hscope : scope = k.members owner
  · rw [if_pos ⟨hscope, hplaced⟩, Scope.overloads_register, hscope]
    simp only [true_and]
  · rw [if_neg fun h => hscope h.1, if_neg fun h => hscope h.1, List.append_nil]

def labelled (ms : List Member) (operator : Bool) (name : String) :
    List Member :=
  ms.filter fun m => operator = m.isOperator ∧ name = m.name

theorem exists_provide_eq (owner : TypeId) (ms : List Member) (k : Catalogue) :
    ∃ scopes functions, ms.foldl (provide owner) k =
      { k with scopes, functions } := by
  induction ms generalizing k with
  | nil => exact ⟨_, _, rfl⟩
  | cons m ms ih => exact ih (k.provide owner m)

theorem Free.provide {m : Member} {ms : List Member} (hk : k.Sorted)
    (hplaced : (k.members owner).index < k.scopes.size)
    (h : k.Free owner (m :: ms)) : (k.provide owner m).Free owner ms := by
  intro hrecord other hother id hid hnot
  have hold : ∀ id : FunctionId, id.index < k.functions.size →
      (k.provide owner m).functions.get id = k.functions.get id := fun _ hlt =>
    FunctionTable.get_add_old _ _ hlt
  have hsame : (k.provide owner m).members owner = k.members owner := rfl
  rw [hsame, overloads_provide hplaced] at hid
  rcases List.mem_append.1 hid with hid | hid
  · have hlisted := hk.listed _ _ _ id hid
    rw [Provided, hold id hlisted] at hnot
    rw [hold id hlisted]
    exact h hrecord other (List.mem_cons_of_mem m hother) id hid hnot
  · split at hid
    · obtain rfl := List.mem_singleton.1 hid
      refine absurd ?_ hnot
      rw [Provided, Catalogue.provide, FunctionTable.get_add_new]
      exact ⟨rfl, rfl⟩
    · cases hid

theorem Appends.provide (hk : k.Sorted) (howner : k.types.Has owner)
    (hinitialized : (k.types.get owner).initialized = true) {ms : List Member}
    (hms : ∀ m ∈ ms, ∀ p ∈ m.params, k.types.Has p.type)
    (hfree : k.Free owner ms) :
    Appends n k (ms.foldl (Catalogue.provide owner) k) := by
  induction ms generalizing k with
  | nil => exact .refl hk
  | cons m ms ih =>
      obtain ⟨hm, hms⟩ := List.forall_mem_cons.1 hms
      have hone : Appends n k (k.provide owner m) := by
        refine .provide_one hk hinitialized hm fun hrecord other hother => ?_
        obtain rfl := List.mem_singleton.1 hother
        exact hfree hrecord other List.mem_cons_self
      exact hone.trans (ih hone.sorted howner hinitialized hms
        (hfree.provide hk (hk.placed owner howner)))

theorem functions_provide {id : FunctionId} (h : id.index < k.functions.size)
    (ms : List Member) :
    (ms.foldl (provide owner) k).functions.get id = k.functions.get id := by
  induction ms generalizing k with
  | nil => rfl
  | cons m ms ih =>
      have hone : id.index < (k.provide owner m).functions.size := by
        rw [provide, FunctionTable.size_add]
        omega
      rw [List.foldl_cons, ih hone, provide, FunctionTable.get_add_old _ _ h]

theorem exists_overloads_provide
    (hplaced : (k.members owner).index < k.scopes.size) (ms : List Member)
    (scope : ScopeId) (operator : Bool) (name : String) :
    ∃ later, (ms.foldl (provide owner) k).overloads scope operator name =
        k.overloads scope operator name ++ later ∧
      later.map (ms.foldl (provide owner) k).functions.get =
        if scope = k.members owner then
          (labelled ms operator name).map (·.provided owner)
        else [] := by
  induction ms generalizing k with
  | nil => exact ⟨[], by simp [labelled]⟩
  | cons m ms ih =>
      have hsame : (k.provide owner m).members owner = k.members owner := rfl
      have hsize : (k.provide owner m).scopes.size = k.scopes.size := by
        simp [provide, ScopeTable.modify, ScopeTable.size]
      obtain ⟨later, hlists, hlater⟩ :=
        ih (k := k.provide owner m) (by rwa [hsame, hsize])
      have hnew : (ms.foldl (provide owner) (k.provide owner m)).functions.get
          ⟨k.functions.size⟩ = m.provided owner := by
        rw [functions_provide, provide, FunctionTable.get_add_new]
        rw [provide, FunctionTable.size_add]
        exact Nat.lt_succ_self _
      rw [overloads_provide hplaced] at hlists
      refine ⟨_, by rw [List.foldl_cons, hlists, List.append_assoc], ?_⟩
      rw [List.foldl_cons, List.map_append, hlater, hsame]
      by_cases hscope : scope = k.members owner
      · by_cases hlabel : operator = m.isOperator ∧ name = m.name
        · simp [labelled, hscope, hlabel, hnew]
        · simp [labelled, hscope, hlabel]
      · simp [hscope]

end Catalogue

def Engine.provide (s : Engine) (owner : TypeId) (ms : List Member) : Engine :=
  let k := ms.foldl (Catalogue.provide owner) s.catalogue
  { s with scopes := k.scopes, functions := k.functions }

theorem Engine.catalogue_provide (s : Engine) (owner : TypeId)
    (ms : List Member) :
    (s.provide owner ms).catalogue =
      ms.foldl (Catalogue.provide owner) s.catalogue := by
  obtain ⟨scopes, functions, h⟩ :=
    Catalogue.exists_provide_eq owner ms s.catalogue
  unfold provide
  rw [h]
  rfl

theorem Eval.addMember_run (owner : TypeId) (ms : List Member) (s : Engine) :
    ms.forM (addMember owner) s = .ok () (s.provide owner ms) := by
  induction ms generalizing s with
  | nil => rfl
  | cons m ms ih => exact ih (s.provide owner [m])

/-- Copying is provided for a class or union only where it is not declared. -/
theorem Engine.free_membersFor (s : Engine) (type ref address : TypeId) :
    s.catalogue.Free type (s.membersFor type ref address) := by
  intro hrecord m hm id hid _
  have hnone : s.functions.resolve s.types
      (s.catalogue.overloads (s.catalogue.members type) m.isOperator m.name)
      (.member [type, type]) = none := by
    unfold TypeEntry.isRecord at hrecord
    unfold membersFor at hm
    simp only at hm
    split at hrecord
    · rename_i body hbody
      have hkind : (body.kind == .enumKind) = false := by simpa using hrecord
      have hshape : (s.types.get type).shape = .structural body := hbody
      rw [hshape] at hm
      simp only [hkind, Bool.false_eq_true, if_false, aggregateMembers,
        List.mem_filter, Bool.not_eq_true', Option.isSome_eq_false_iff,
          Option.isNone_iff_eq_none] at hm
      exact hm.2
    · cases hrecord
  have hunfit := List.find?_eq_none.1 hnone id hid
  exact Bool.eq_false_iff.2 hunfit

end ArenaScript
