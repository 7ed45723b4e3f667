import ArenaScript.Proofs.Evaluation.Members
import ArenaScript.Proofs.Evaluation.Signatures

/-!
# Initialization

Members are provided to a type when it is first used.  To this end the types of
references to it, and of addresses of the elements of an array, are found or
created; the members are then added to the member scope of the type, and to no
other.  None of this can fail.

Which members these are depends on the type alone.  So after any series of
initializations each type has the members it has if it alone is initialized, up
to the numbers that functions and new types get.
-/

namespace ArenaScript

open Handles (Known)
open Engine (Good Quiet Reached)

namespace TypeTable

def Named (t : TypeTable) (name : String) : Prop :=
  ∃ id, t.Has id ∧ t.name id = name

/-- The names of the types that the members of a type need besides it. -/
def companions (t : TypeTable) (type : TypeId) : List String :=
  t.render .ref [.type type] ::
    ((t.get type).array?.map fun parts =>
      t.render .address [.type parts.1]).toList

end TypeTable

def Scope.links (s : Scope) : Scope :=
  { s with kind := .universe, functions := .empty, operators := .empty }

theorem Scope.links_register (s : Scope) (operator : Bool) (name : String)
    (id : FunctionId) : (s.register operator name id).links = s.links := by
  unfold register
  split <;> rfl

theorem ScopeTable.links_create (t : ScopeTable) (kind : ScopeKind)
    (id : ScopeId) :
    ((t.create kind none).2.get id).links = (t.get id).links := by
  by_cases hlt : id.index < t.scopes.size
  · simp [get, create, hlt, Array.getElem?_push, Nat.ne_of_lt hlt]
  · by_cases heq : id.index = t.scopes.size
    · simp [get, create, heq, Scope.links]
    · simp [get, create, hlt, heq, Array.getElem?_push]

/-- Which members come under a label can be told from their outlines. -/
theorem Catalogue.map_labelled (ms : List Member) (names : TypeId → String)
    (owner : TypeId) (operator : Bool) (name : String) :
    ((labelled ms operator name).map fun m =>
      (m.provided owner).signature names) =
      ((ms.map (Member.outline names owner)).filter fun o =>
        operator = o.1 ∧ name = o.2.name).map Prod.snd := by
  rw [List.filter_map, List.map_map]
  rfl

/-! ## Creating instances -/

namespace Engine

structure Enlarged (w u : Engine) : Prop where
  arena : u.arena = w.arena
  functions : u.functions = w.functions
  overloads : ∀ scope operator name,
    u.catalogue.overloads scope operator name =
      w.catalogue.overloads scope operator name
  scopes : w.scopes.size ≤ u.scopes.size
  links : ∀ scope, (u.scopes.get scope).links = (w.scopes.get scope).links
  size : w.types.size ≤ u.types.size
  get : ∀ {type}, w.types.Has type → u.types.get type = w.types.get type

theorem Enlarged.refl (w : Engine) : w.Enlarged w :=
  ⟨rfl, rfl, fun _ _ _ => rfl, Nat.le_refl _, fun _ => rfl, Nat.le_refl _,
    fun _ => rfl⟩

theorem Enlarged.trans {w u v : Engine} (hwu : w.Enlarged u)
    (huv : u.Enlarged v) : w.Enlarged v where
  arena := huv.arena.trans hwu.arena
  functions := huv.functions.trans hwu.functions
  overloads scope operator name :=
    (huv.overloads scope operator name).trans
      (hwu.overloads scope operator name)
  scopes := Nat.le_trans hwu.scopes huv.scopes
  links scope := (huv.links scope).trans (hwu.links scope)
  size := Nat.le_trans hwu.size huv.size
  get htype :=
    (huv.get (Nat.lt_of_lt_of_le htype hwu.size)).trans (hwu.get htype)

theorem Enlarged.grown {w u : Engine} (h : w.Enlarged u) :
    w.types.Grown u.types :=
  ⟨h.size, fun _ htype => by rw [h.get htype]⟩

structure Obtains (w : Engine) (kind : TemplateKind) (target id : TypeId)
    (u : Engine) : Prop where
  has : u.types.Has id
  name : u.types.name id = w.types.render kind [.type target]
  tables : u = w ∨ ∃ e : TypeEntry,
    e.name = w.types.render kind [.type target] ∧
    e.shape = .template kind [.type target] ∧ e.members = ⟨w.scopes.size⟩ ∧
    u = { w with
      types := (w.types.push e).2, scopes := (w.scopes.create .members none).2 }

theorem exists_obtains {w : Engine} {kind : TemplateKind} {target : TypeId}
    {size : Nat × Bool}
    (hsize : w.types.instanceSize kind [.type target] = .ok size) :
    ∃ id u, Eval.instantiateBuiltin kind [.type target] w = .ok id u ∧
      w.Obtains kind target id u := by
  cases hfound : w.types.findByName? (w.types.render kind [.type target]) with
  | some id =>
      obtain ⟨hid, hname⟩ := TypeTable.findByName?_eq_some hfound
      refine ⟨id, w, ?_, hid, hname, .inl rfl⟩
      simp only [Eval.instantiateBuiltin, TypeTable.findOrCreate, hfound]
  | none =>
      let e : TypeEntry :=
        { name := w.types.render kind [.type target],
          shape := .template kind [.type target]
          size := size.1, aggregate := size.2, members := ⟨w.scopes.size⟩,
          initialized := false }
      refine ⟨⟨w.types.size⟩, _, ?_, TypeTable.has_push.2 (.inr rfl),
        TypeTable.name_push_new w.types e, .inr ⟨e, rfl, rfl, rfl, rfl⟩⟩
      simp only [Eval.instantiateBuiltin, TypeTable.findOrCreate, hfound, hsize]
      rfl

theorem Obtains.enlarged {w u : Engine} {kind : TemplateKind}
    {target id : TypeId} (h : w.Obtains kind target id u) : w.Enlarged u := by
  rcases h.tables with rfl | ⟨e, -, -, -, rfl⟩
  · exact .refl u
  · refine ⟨rfl, rfl, w.scopes.overloads_create .members none, ?_,
      w.scopes.links_create .members, ?_,
      TypeTable.get_push_old⟩
    · simp [ScopeTable.create, ScopeTable.size]
    · rw [TypeTable.size_push]
      omega

theorem Obtains.named {w u : Engine} {kind : TemplateKind} {target id : TypeId}
    (h : w.Obtains kind target id u) {name : String} :
    u.types.Named name ↔ w.types.Named name ∨
      name = w.types.render kind [.type target] := by
  constructor
  · rintro ⟨other, hother, rfl⟩
    rcases h.tables with rfl | ⟨e, hname, -, -, rfl⟩
    · exact .inl ⟨other, hother, rfl⟩
    · rcases TypeTable.has_push.1 hother with hold | rfl
      · exact .inl ⟨other, hold, (TypeTable.name_push_old hold).symm⟩
      · exact .inr ((TypeTable.name_push_new w.types e).trans hname)
  · rintro (⟨other, hother, rfl⟩ | rfl)
    · exact ⟨other, Nat.lt_of_lt_of_le hother h.enlarged.size,
        h.enlarged.grown.name hother⟩
    · exact ⟨id, h.has, h.name⟩

/-- The types that `w` has and `s` has not are references and addresses of types
of `s`, with member scopes that `s` has not. -/
structure Spawned (s w : Engine) : Prop where
  scopes : s.scopes.size ≤ w.scopes.size
  fresh : ∀ type, w.types.Has type → s.types.size ≤ type.index → ∃ kind target,
    s.types.Has target ∧ WellShaped kind [.type target] ∧
      (w.types.get type).shape = .template kind [.type target] ∧
      w.types.name type = s.types.render kind [.type target] ∧
      s.scopes.size ≤ (w.types.get type).members.index

theorem Spawned.refl (s : Engine) : s.Spawned s :=
  ⟨Nat.le_refl _, fun _ htype hnew => absurd htype (Nat.not_lt.2 hnew)⟩

theorem Spawned.obtains {s w u : Engine} (h : s.Spawned w)
    (hgrown : s.types.Grown w.types) {kind : TemplateKind} {target id : TypeId}
    (htarget : s.types.Has target) (hkind : WellShaped kind [.type target])
    (hu : w.Obtains kind target id u) : s.Spawned u := by
  have hmore := hu.enlarged
  refine ⟨Nat.le_trans h.scopes hmore.scopes, fun type htype hnew => ?_⟩
  by_cases hold : w.types.Has type
  · rw [hmore.grown.name hold, hmore.get hold]
    exact h.fresh type hold hnew
  · rcases hu.tables with rfl | ⟨e, hname, hshape, hmembers, rfl⟩
    · exact absurd htype hold
    · obtain rfl := (TypeTable.has_push.1 htype).resolve_left hold
      refine ⟨kind, target, htarget, hkind, ?_, ?_, ?_⟩
      · rw [TypeTable.get_push_new, hshape]
      · rw [TypeTable.name_push_new, hname, hgrown.render htarget]
      · rw [TypeTable.get_push_new, hmembers]
        exact h.scopes

/-! ## One type -/

def signatures (s : Engine) (type : TypeId) (operator : Bool) (name : String) :
    List Signature :=
  (s.catalogue.memberList type operator name).map fun id =>
    (s.functions.get id).signature s.types.name

/-- Whether members are still to be provided to the type. -/
def pending (s : Engine) (type : TypeId) : Bool :=
  !((s.types.get type).initialized || !(s.types.get type).isComplete ||
    type = .void)

theorem ensureInitialized_of_not_pending {s : Engine} {type : TypeId}
    (h : s.pending type = false) :
    Eval.ensureInitialized type s = .ok () s := by
  have hskip :
      ((s.types.get type).initialized || !(s.types.get type).isComplete ||
        type = .void) = true := by
    simpa only [pending, Bool.not_eq_false'] using h
  simp only [Eval.ensureInitialized, Bind.bind, EStateM.bind, Eval.read,
    hskip, if_true]
  rfl

theorem ne_void_of_pending {s : Engine} {type : TypeId}
    (h : s.pending type = true) : type ≠ .void := by
  rintro rfl
  simp [pending] at h

def marked (w : Engine) (type : TypeId) : Engine :=
  { w with types := w.types.markInitialized type }

theorem ensureInitialized_of_pending {w : Engine} {type : TypeId}
    (h : w.pending type = true) :
    Eval.ensureInitialized type w = (do
      let ref ← Eval.referenceTo type
      let address ← Eval.elementAddress type
      let members ← Eval.read fun s => s.membersFor type ref address
      members.forM (Eval.addMember type)) (w.marked type) := by
  have hopen :
      ((w.types.get type).initialized || !(w.types.get type).isComplete ||
        type = .void) = false := by
    simpa only [pending, Bool.not_eq_true'] using h
  simp only [Eval.ensureInitialized, Bind.bind, EStateM.bind, Eval.read, hopen,
    Bool.false_eq_true, if_false]
  rfl

theorem get_marked {w : Engine} (type : TypeId) {other : TypeId}
    (hother : w.types.Has other) :
    (w.marked type).types.get other =
      { w.types.get other with
        initialized := (w.types.get other).initialized || other = type } := by
  unfold marked TypeTable.markInitialized
  by_cases heq : other = type
  · subst heq
    simp [TypeTable.get_modify hother]
  · simp [TypeTable.get_modify_ne heq, heq]

theorem has_marked {w : Engine} {type other : TypeId} :
    (w.marked type).types.Has other ↔ w.types.Has other := by
  simp [marked, TypeTable.markInitialized, TypeTable.Has, TypeTable.size]

theorem grown_marked (w : Engine) (type : TypeId) :
    w.types.Grown (w.marked type).types :=
  .modify (f := fun entry => { entry with initialized := true })
    (fun _ => rfl) type.index

theorem named_marked {w : Engine} {type : TypeId} {name : String} :
    (w.marked type).types.Named name ↔ w.types.Named name := by
  refine exists_congr fun other => ?_
  rw [has_marked]
  refine and_congr_right fun hother => ?_
  rw [(grown_marked w type).name hother]

theorem Spawned.marked {s w : Engine} (h : s.Spawned w) (type : TypeId) :
    s.Spawned (w.marked type) := by
  refine ⟨h.scopes, fun other hother hnew => ?_⟩
  have hold := has_marked.1 hother
  rw [(grown_marked w type).name hold, get_marked type hold]
  exact h.fresh other hold hnew

structure Opened (w : Engine) (type ref address : TypeId) (u : Engine) :
    Prop where
  run : Eval.ensureInitialized type w =
    .ok () (u.provide type (u.membersFor type ref address))
  enlarged : (w.marked type).Enlarged u
  ref_name : u.types.name ref = w.types.render .ref [.type type]
  address_name : ∀ parts, (w.types.get type).array? = some parts →
    u.types.name address = w.types.render .address [.type parts.1]
  named : ∀ name, u.types.Named name ↔ w.types.Named name ∨
    name ∈ w.types.companions type
  spawned : ∀ {s : Engine}, s.Closed → s.types.Has type →
    s.types.Grown w.types → s.Spawned w →
    s.Spawned u

theorem exists_elementAddress (w : Engine) (type : TypeId) :
    ∃ address u, Eval.elementAddress type w = .ok address u ∧
      ((w.types.get type).array? = none ∧ u = w ∨
        ∃ parts, (w.types.get type).array? = some parts ∧
        w.Obtains .address parts.1 address u) := by
  cases hparts : (w.types.get type).array? with
  | none =>
      refine ⟨.void, w, ?_, .inl ⟨rfl, rfl⟩⟩
      simp only [Eval.elementAddress, Bind.bind, EStateM.bind,
        Eval.read, hparts]
      rfl
  | some parts =>
      have hsize : w.types.instanceSize .address [.type parts.1] =
          .ok (8, false) := rfl
      obtain ⟨address, u, hrun, hu⟩ := exists_obtains hsize
      refine ⟨address, u, ?_, .inr ⟨parts, rfl, hu⟩⟩
      simp only [Eval.elementAddress, Bind.bind, EStateM.bind,
        Eval.read, hparts]
      exact hrun

theorem exists_opened {w : Engine} (hw : w.Closed) {type : TypeId}
    (htype : w.types.Has type) (hpending : w.pending type = true) :
    ∃ ref address u, w.Opened type ref address u := by
  have hsize : (w.marked type).types.instanceSize .ref [.type type] =
      .ok (8, false) := by
    simp [TypeTable.instanceSize, ne_void_of_pending hpending]
  obtain ⟨ref, u, href, hu⟩ := exists_obtains hsize
  obtain ⟨address, v, haddress, hv⟩ := u.exists_elementAddress type
  have harray : (u.types.get type).array? = (w.types.get type).array? := by
    rw [hu.enlarged.get (has_marked.2 htype), get_marked type htype]
    rfl
  rw [harray] at hv
  have hmore : u.Enlarged v := by
    rcases hv with ⟨-, rfl⟩ | ⟨parts, -, hv⟩
    · exact .refl v
    · exact hv.enlarged
  have hrender : ∀ {parts}, (w.types.get type).array? = some parts →
      u.types.render .address [.type parts.1] =
        w.types.render .address [.type parts.1] := by
    intro parts hparts
    have helem : w.types.Has parts.1 :=
      (TypeEntry.known_array? (hw.types type) parts hparts).1
    rw [hu.enlarged.grown.render (has_marked.2 helem),
      (grown_marked w type).render helem]
  refine ⟨ref, address, v, ?_, hu.enlarged.trans hmore, ?_, fun parts hparts =>
    ?_, fun name => ?_,
    fun hs hstype hgrown hspawned => ?_⟩
  · have href' : Eval.referenceTo type (w.marked type) = .ok ref u := href
    rw [ensureInitialized_of_pending hpending, Eval.bind_ok href',
      Eval.bind_ok haddress]
    exact Eval.addMember_run type _ v
  · rw [hmore.grown.name hu.has, hu.name, (grown_marked w type).render htype]
  · rcases hv with ⟨hnone, -⟩ | ⟨parts', hparts', hv⟩
    · rw [hnone] at hparts
      cases hparts
    · rw [hparts'] at hparts
      cases hparts
      rw [hv.name, hrender hparts']
  · have href : u.types.Named name ↔ _ := hu.named
    rw [named_marked, (grown_marked w type).render htype] at href
    rw [TypeTable.companions, List.mem_cons]
    rcases hv with ⟨hnone, rfl⟩ | ⟨parts, hparts, hv⟩
    · simp [hnone, href]
    · rw [hv.named, hrender hparts, hparts, href, or_assoc]
      simp
  · have hmarked := hgrown.trans (grown_marked w type)
    have hspawned' :=
      (hspawned.marked type).obtains hmarked hstype (.ref type) hu
    rcases hv with ⟨-, rfl⟩ | ⟨parts, hparts, hv⟩
    · exact hspawned'
    · rw [hgrown.array? hstype] at hparts
      have helem := (TypeEntry.known_array? (hs.types type) parts hparts).1
      exact hspawned'.obtains (hmarked.trans hu.enlarged.grown) helem
        (.address _) hv

theorem map_signature {s w : Engine} (hs : s.Good fun s => s.catalogue.Sorted)
    (h : s.Quiet w) (type : TypeId) (operator : Bool) (name : String) :
    ((s.catalogue.memberList type operator name).map fun id =>
      (w.functions.get id).signature w.types.name) =
        s.signatures type operator name := by
  refine List.map_congr_left fun id hid => ?_
  have hfunction : w.functions.get id = s.functions.get id :=
    (h.grows.catalogue hs.inv).functions id (hs.inv.listed _ _ _ id hid)
  rw [hfunction]
  exact Function.signature_congr (fun type htype => h.grows.types.name htype)
    (hs.closed.functions id)

theorem Quiet.members {s w : Engine} (h : s.Quiet w) {type : TypeId}
    (htype : s.types.Has type) :
    w.catalogue.members type = s.catalogue.members type :=
  h.grows.types.members htype

namespace Opened

variable {w u : Engine} {type ref address : TypeId}

theorem reached (hw : w.Good fun w => w.catalogue.Sorted)
    (htype : w.types.Has type) (h : w.Opened type ref address u) :
    Reached (fun w => w.catalogue.Sorted) Quiet w
      (u.provide type (u.membersFor type ref address)) := by
  have hreached := (Sound.ensureInitialized hw htype).reached
  rwa [Eval.after_ok h.run] at hreached

theorem members (htype : w.types.Has type) (h : w.Opened type ref address u) :
    u.catalogue.members type = w.catalogue.members type :=
  ((grown_marked w type).trans h.enlarged.grown).members htype

theorem overloads (hw : w.Good fun w => w.catalogue.Sorted)
    (htype : w.types.Has type) (h : w.Opened type ref address u)
    (scope : ScopeId) (operator : Bool) (name : String) :
    ∃ later, (u.provide type
      (u.membersFor type ref address)).catalogue.overloads scope operator
        name = w.catalogue.overloads scope operator name ++ later ∧
      later.map (u.provide type (u.membersFor type ref address)).functions.get =
        if scope = w.catalogue.members type then
          (Catalogue.labelled (u.membersFor type ref address) operator name).map
            (·.provided type)
        else [] := by
  have hplaced : (u.catalogue.members type).index <
      u.catalogue.scopes.size := by
    rw [h.members htype]
    exact Nat.lt_of_lt_of_le (hw.inv.placed type htype) h.enlarged.scopes
  obtain ⟨later, hlists, hlater⟩ := Catalogue.exists_overloads_provide hplaced
    (u.membersFor type ref address) scope operator name
  refine ⟨later, ?_, ?_⟩
  · rw [catalogue_provide, hlists, h.enlarged.overloads]
    rfl
  · rw [h.members htype] at hlater
    exact hlater

theorem signatures (hw : w.Good fun w => w.catalogue.Sorted)
    (htype : w.types.Has type) (h : w.Opened type ref address u)
    (operator : Bool) (name : String) :
    (u.provide type (u.membersFor type ref address)).signatures type
      operator name = w.signatures type operator name ++
        (Catalogue.labelled (u.membersFor type ref address) operator name).map
          fun m => (m.provided type).signature u.types.name := by
  have hreached := h.reached hw htype
  obtain ⟨later, hlists, hlater⟩ :=
    h.overloads hw htype (w.catalogue.members type) operator name
  rw [if_pos rfl] at hlater
  have hnew := congrArg (List.map (Function.signature u.types.name)) hlater
  rw [List.map_map, List.map_map] at hnew
  rw [Engine.signatures, Catalogue.memberList, hreached.rel.members htype,
    hlists, List.map_append, ← map_signature hw hreached.rel]
  exact congrArg (_ ++ ·) hnew

theorem pending {other : TypeId} (hother : w.types.Has other)
    (h : w.Opened type ref address u) :
    (u.provide type (u.membersFor type ref address)).pending other =
      (w.pending other && !decide (other = type)) := by
  have hget :
      (u.provide type (u.membersFor type ref address)).types.get other = _ :=
    (h.enlarged.get (has_marked.2 hother)).trans (get_marked type hother)
  rw [Engine.pending, hget]
  by_cases heq : other = type
  · simp [heq]
  · simp [heq, Engine.pending, TypeEntry.isComplete]

end Opened

theorem fits_grown {s w : Engine} (hs : s.catalogue.Sorted)
    (hgrown : s.types.Grown w.types) {id : FunctionId}
    (hid : id.index < s.functions.size)
    (hfunction : w.functions.get id = s.functions.get id) (site : CallSite) :
    (w.functions.get id).fits w.types site =
      (s.functions.get id).fits s.types site := by
  rw [hfunction]
  exact Function.fits_congr
    (fun p hp => hgrown.referenceTarget? (hs.typed id hid p hp)) site

theorem declaresCopying_grown {s w : Engine} (hs : s.catalogue.Sorted)
    (hgrown : s.types.Grown w.types) {type : TypeId} (htype : s.types.Has type)
    {operator : Bool} {name : String}
    (hlists : w.catalogue.overloads (s.catalogue.members type) operator name =
      s.catalogue.overloads (s.catalogue.members type) operator name)
    (hfunctions : ∀ id : FunctionId, id.index < s.functions.size →
      w.functions.get id = s.functions.get id) :
    w.declaresCopying type operator name =
      s.declaresCopying type operator name := by
  have hmembers : w.catalogue.members type = s.catalogue.members type :=
    hgrown.members htype
  rw [declaresCopying, declaresCopying, hmembers, hlists, Bool.eq_iff_iff,
    FunctionTable.resolve, FunctionTable.resolve, List.find?_isSome,
    List.find?_isSome]
  refine exists_congr fun id => and_congr_right fun hid => ?_
  have hlisted := hs.listed _ _ _ id hid
  rw [fits_grown hs hgrown hlisted (hfunctions id hlisted)]

theorem Quiet.signatures_eq {s w : Engine} (h : s.Quiet w)
    (hs : s.Good fun s => s.catalogue.Sorted) {type : TypeId}
    (htype : s.types.Has type) {operator : Bool} {name : String}
    (hlists : w.catalogue.overloads (s.catalogue.members type) operator name =
      s.catalogue.overloads (s.catalogue.members type) operator name) :
    w.signatures type operator name = s.signatures type operator name := by
  rw [signatures, Catalogue.memberList, h.members htype, hlists]
  exact map_signature hs h type operator name

theorem scopes_provide (u : Engine) (owner : TypeId) (ms : List Member) :
    (u.provide owner ms).scopes.size = u.scopes.size ∧
      ∀ scope, ((u.provide owner ms).scopes.get scope).links =
        (u.scopes.get scope).links := by
  induction ms generalizing u with
  | nil => exact ⟨rfl, fun _ => rfl⟩
  | cons m ms ih =>
      obtain ⟨hsize, hlinks⟩ := ih (u.provide owner [m])
      refine ⟨hsize.trans ?_, fun scope => (hlinks scope).trans ?_⟩
      · simp [provide, Catalogue.provide, ScopeTable.modify, ScopeTable.size,
          catalogue]
      · change ((u.scopes.modify _ _).get scope).links = _
        rw [ScopeTable.get_modify]
        split
        · rename_i h
          rw [Scope.links_register, h.1]
        · rfl

/-! ## Several types -/

structure Primed (s : Engine) (done : List TypeId) (w : Engine) : Prop where
  known : ∀ type ∈ done, s.types.Has type
  reached : Reached (fun w => w.catalogue.Sorted) Quiet s w
  spawned : s.Spawned w
  links : ∀ scope, (w.scopes.get scope).links = (s.scopes.get scope).links
  pending : ∀ type, s.types.Has type →
    (w.pending type = true ↔ s.pending type = true ∧ type ∉ done)
  named : ∀ name, w.types.Named name ↔
    s.types.Named name ∨ ∃ type ∈ done, s.pending type = true ∧
      name ∈ s.types.companions type
  others : ∀ scope, (∀ type ∈ done, s.catalogue.members type ≠ scope) →
    ∀ operator name,
    w.catalogue.overloads scope operator name =
      s.catalogue.overloads scope operator name
  signatures : ∀ type ∈ done, ∀ operator name, w.signatures type operator name =
    ((Eval.ensureInitialized type).after s).signatures type operator name

namespace Primed

variable {s w u : Engine} {done : List TypeId} {type ref address : TypeId}

theorem refl (hs : s.Good fun s => s.catalogue.Sorted) : s.Primed [] s where
  known := nofun
  reached := .refl hs
  spawned := .refl s
  links _ := rfl
  pending _ _ := by simp
  named _ := by simp
  others _ _ _ _ := rfl
  signatures := nofun

theorem grown (h : s.Primed done w) : s.types.Grown w.types :=
  h.reached.rel.grows.types

theorem has (h : s.Primed done w) (htype : s.types.Has type) :
    w.types.Has type :=
  Nat.lt_of_lt_of_le htype h.grown.size

theorem overloads_eq (h : s.Primed done w) (hs : s.catalogue.Sorted)
    (htype : s.types.Has type) (hnew : type ∉ done) (operator : Bool)
    (name : String) :
    w.catalogue.overloads (s.catalogue.members type) operator name =
      s.catalogue.overloads (s.catalogue.members type) operator name := by
  refine h.others _ (fun other hother hsame => ?_) operator name
  rw [hs.apart other type (h.known other hother) htype hsame] at hother
  exact hnew hother

theorem signatures_eq (h : s.Primed done w)
    (hs : s.Good fun s => s.catalogue.Sorted) (htype : s.types.Has type)
    (hnew : type ∉ done) (operator : Bool) (name : String) :
    w.signatures type operator name = s.signatures type operator name :=
  h.reached.rel.signatures_eq hs htype
    (h.overloads_eq hs.inv htype hnew operator name)

theorem companions_eq (h : s.Primed done w) (hs : s.Closed)
    (htype : s.types.Has type) :
    w.types.companions type = s.types.companions type := by
  rw [TypeTable.companions, TypeTable.companions, h.grown.render htype,
    h.grown.array? htype]
  cases hparts : (s.types.get type).array? with
  | none => rfl
  | some parts =>
      have helem := (TypeEntry.known_array? (hs.types type) parts hparts).1
      rw [Option.map_some, Option.map_some, h.grown.render helem]

theorem skip (h : s.Primed done w) (hs : s.Good fun s => s.catalogue.Sorted)
    (htype : s.types.Has type) (hpending : w.pending type = false) :
    s.Primed (type :: done) w := by
  have hdone : s.pending type = true → type ∈ done := by
    intro hs
    refine Classical.byContradiction fun hnew => ?_
    rw [(h.pending type htype).2 ⟨hs, hnew⟩] at hpending
    cases hpending
  refine { h with
    known := ?_, pending := ?_, named := ?_, others := ?_, signatures := ?_ }
  · exact List.forall_mem_cons.2 ⟨htype, h.known⟩
  · intro other hother
    rw [h.pending other hother, List.mem_cons, not_or]
    refine and_congr_right fun hother => ⟨fun hnew => ⟨?_, hnew⟩, And.right⟩
    rintro rfl
    exact hnew (hdone hother)
  · intro name
    rw [h.named]
    refine or_congr_right ⟨?_, ?_⟩
    · rintro ⟨other, hother, hrest⟩
      exact ⟨other, List.mem_cons_of_mem _ hother, hrest⟩
    · rintro ⟨other, hother, hrest⟩
      rcases List.mem_cons.1 hother with rfl | hother
      · exact ⟨other, hdone hrest.1, hrest⟩
      · exact ⟨other, hother, hrest⟩
  · exact fun scope hscope => h.others scope (List.forall_mem_cons.1 hscope).2
  · refine List.forall_mem_cons.2 ⟨fun operator name => ?_, h.signatures⟩
    by_cases hin : type ∈ done
    · exact h.signatures type hin operator name
    · have hidle : s.pending type = false := by
        rw [← Bool.not_eq_true]
        exact fun hs => hin (hdone hs)
      rw [Eval.after_ok (ensureInitialized_of_not_pending hidle)]
      exact h.signatures_eq hs htype hin operator name

theorem outlines_eq {v : Engine} {ref' address' : TypeId} (h : s.Primed done w)
    (hs : s.Good fun s => s.catalogue.Sorted) (htype : s.types.Has type)
    (hnew : type ∉ done) (hu : w.Opened type ref address u)
    (hv : s.Opened type ref' address' v) :
    (u.membersFor type ref address).map (Member.outline u.types.name type) =
      (v.membersFor type ref' address').map
        (Member.outline v.types.name type) := by
  have hu' := h.grown.trans ((grown_marked w type).trans hu.enlarged.grown)
  have hv' := (grown_marked s type).trans hv.enlarged.grown
  refine outline_membersFor hs.closed hu' hv' htype ?_ (fun parts hparts => ?_)
    fun operator name => ?_
  · rw [hu.ref_name, hv.ref_name, h.grown.render htype]
  · have helem := (TypeEntry.known_array? (hs.closed.types type) parts hparts).1
    have hparts' := (h.grown.array? htype).trans hparts
    rw [hu.address_name parts hparts', hv.address_name parts hparts,
      h.grown.render helem]
  · have hlists :=
      (hu.enlarged.overloads (s.catalogue.members type) operator name).trans
      (h.overloads_eq hs.inv htype hnew operator name)
    rw [declaresCopying_grown hs.inv hu' htype hlists fun id hid => ?_,
      declaresCopying_grown hs.inv hv' htype
        (hv.enlarged.overloads _ operator name) fun id _ => ?_]
    · rw [hv.enlarged.functions]
      rfl
    · rw [hu.enlarged.functions]
      exact (h.reached.rel.grows.catalogue hs.inv).functions id hid

theorem provide (h : s.Primed done w) (hs : s.Good fun s => s.catalogue.Sorted)
    (htype : s.types.Has type) (hpending : w.pending type = true)
    (hu : w.Opened type ref address u) :
    s.Primed (type :: done)
      (u.provide type (u.membersFor type ref address)) := by
  obtain ⟨hidle, hnew⟩ := (h.pending type htype).1 hpending
  have hreached := hu.reached h.reached.good (h.has htype)
  have hmembers : w.catalogue.members type = s.catalogue.members type :=
    h.reached.rel.members htype
  have hothers : ∀ scope, scope ≠ s.catalogue.members type → ∀ operator name,
      (u.provide type (u.membersFor type ref address)).catalogue.overloads scope
        operator name = w.catalogue.overloads scope operator name := by
    intro scope hscope operator name
    obtain ⟨later, hlists, hlater⟩ :=
      hu.overloads h.reached.good (h.has htype) scope operator name
    rw [hmembers, if_neg hscope, List.map_eq_nil_iff] at hlater
    rw [hlists, hlater, List.append_nil]
  obtain ⟨hsize, hlinks⟩ :=
    u.scopes_provide type (u.membersFor type ref address)
  exact
    { known := List.forall_mem_cons.2 ⟨htype, h.known⟩
      reached := h.reached.trans hreached
      spawned := by
        have hspawned := hu.spawned hs.closed htype h.grown h.spawned
        refine ⟨?_, hspawned.fresh⟩
        rw [hsize]
        exact hspawned.scopes
      links := fun scope => by
        rw [hlinks, hu.enlarged.links]
        exact h.links scope
      pending := by
        intro other hother
        rw [hu.pending (h.has hother), List.mem_cons, not_or, Bool.and_eq_true,
          h.pending other hother]
        simp only [Bool.not_eq_true', decide_eq_false_iff_not]
        exact ⟨fun ⟨⟨ha, hb⟩, hc⟩ => ⟨ha, hc, hb⟩, fun ⟨ha, hc, hb⟩ =>
          ⟨⟨ha, hb⟩, hc⟩⟩
      named := by
        intro name
        have hnamed := hu.named name
        rw [h.companions_eq hs.closed htype, h.named, or_assoc] at hnamed
        refine hnamed.trans (or_congr_right ⟨?_, ?_⟩)
        · rintro (⟨other, hother, hrest⟩ | hcompanion)
          · exact ⟨other, List.mem_cons_of_mem _ hother, hrest⟩
          · exact ⟨type, List.mem_cons_self, hidle, hcompanion⟩
        · rintro ⟨other, hother, hrest⟩
          rcases List.mem_cons.1 hother with rfl | hother
          · exact .inr hrest.2
          · exact .inl ⟨other, hother, hrest⟩
      others := by
        intro scope hscope operator name
        obtain ⟨hfirst, hrest⟩ := List.forall_mem_cons.1 hscope
        rw [hothers scope hfirst.symm, h.others scope hrest]
      signatures := by
        refine List.forall_mem_cons.2
          ⟨fun operator name => ?_, fun other hother operator name => ?_⟩
        · obtain ⟨ref', address', v, hv⟩ := exists_opened hs.closed htype hidle
          rw [Eval.after_ok hv.run, hu.signatures h.reached.good (h.has htype),
            hv.signatures hs htype, h.signatures_eq hs htype hnew,
            Catalogue.map_labelled, Catalogue.map_labelled,
            h.outlines_eq hs htype hnew hu hv]
        · rw [← h.signatures other hother]
          have hwother := h.has (h.known other hother)
          refine hreached.rel.signatures_eq h.reached.good hwother
            (hothers _ ?_ operator name)
          rw [h.reached.rel.members (h.known other hother)]
          intro hsame
          rw [hs.inv.apart other type (h.known other hother) htype
            hsame] at hother
          exact hnew hother }

/-- Any type of `s` can be initialized next. -/
theorem step (h : s.Primed done w) (hs : s.Good fun s => s.catalogue.Sorted)
    (htype : s.types.Has type) :
    ∃ t, Eval.ensureInitialized type w = .ok () t ∧
      s.Primed (type :: done) t := by
  cases hpending : w.pending type with
  | false =>
      exact ⟨w, ensureInitialized_of_not_pending hpending,
        h.skip hs htype hpending⟩
  | true =>
      obtain ⟨ref, address, u, hu⟩ :=
        exists_opened h.reached.closed (h.has htype) hpending
      exact ⟨_, hu.run, h.provide hs htype hpending hu⟩

theorem run (h : s.Primed done w) (hs : s.Good fun s => s.catalogue.Sorted)
    {types : List TypeId} (htypes : ∀ type ∈ types, s.types.Has type) :
    ∃ t, types.forM Eval.ensureInitialized w = .ok () t ∧
      s.Primed (types.reverse ++ done) t := by
  induction types generalizing w done with
  | nil => exact ⟨w, rfl, h⟩
  | cons type types ih =>
      obtain ⟨htype, htypes⟩ := List.forall_mem_cons.1 htypes
      obtain ⟨u, hstep, hu⟩ := h.step hs htype
      obtain ⟨t, hrun, ht⟩ := ih hu htypes
      refine ⟨t, ?_, ?_⟩
      · exact (Eval.bind_ok hstep).trans hrun
      · rw [List.reverse_cons, List.append_assoc]
        exact ht

end Primed

end Engine

end ArenaScript
