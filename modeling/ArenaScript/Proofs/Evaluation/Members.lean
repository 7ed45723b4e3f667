import ArenaScript.Proofs.Evaluation.Reachable

/-!
# Declared members come first

The catalogue of every engine is in order.  For a type that was not initialized
before the last of its members had been declared this means that the members
which the program declares come before those that the engine provides, and that
no copying is provided for a class or union that declares it.

A type is not initialized in the course of its own declaration unless the
declaration makes code run that uses the type.  Once a type is there, nothing
but its own declaration adds declared members to it.
-/

namespace ArenaScript

open Engine (Good Lasting Enduring Grows)

/-! ## The catalogue of a new engine -/

namespace Catalogue

variable {k : Catalogue}

theorem Sorted.empty : (⟨⟨#[]⟩, .empty, .empty, []⟩ : Catalogue).Sorted := by
  have hnone : ∀ type, ¬ (⟨#[]⟩ : TypeTable).Has type :=
    fun type => Nat.not_lt_zero _
  have hlist : ∀ scope operator name,
      (⟨⟨#[]⟩, .empty, .empty, []⟩ : Catalogue).overloads scope operator name =
        [] := by
    intro scope operator name
    have hscope : ScopeTable.empty.get scope =
        { kind := .universe, parent := none } := by
      obtain ⟨index⟩ := scope
      cases index with
      | zero => rfl
      | succ n => rfl
    rw [overloads, hscope]
    simp [Scope.overloads, Scope.findOperator, Scope.findFunction,
      Overloads.get, Bindings.get?_empty]
  refine ⟨?_, ?_, ?_, ?_, ?_, ?_, ?_, ?_, ?_, ?_⟩
  · intro scope operator name id hid
    rw [hlist] at hid
    cases hid
  · intro scope operator name
    rw [hlist]
    exact .nil
  · intro scope operator name id hid
    rw [hlist] at hid
    cases hid
  · exact fun id hid => absurd hid (Nat.not_lt_zero _)
  · exact fun type _ htype => absurd htype (hnone type)
  · exact fun type _ htype => absurd htype (hnone type)
  · exact fun type htype => absurd htype (hnone type)
  · exact fun _ h => absurd h List.not_mem_nil
  · exact fun _ h => absurd h List.not_mem_nil
  · exact fun _ h => absurd h List.not_mem_nil

theorem Sorted.foldl_addEntry {types : TypeTable} {scopes : ScopeTable}
    {functions : FunctionTable} {declared : List NodeKey}
    (hk : Sorted ⟨types, scopes, functions, declared⟩)
    {entries : List (String × Shape × Nat)} (hnodup : (entries.map (·.1)).Nodup)
    (hnew : ∀ entry ∈ entries, types.findByName? entry.1 = none) :
    Sorted ⟨(entries.foldl TypeTable.addEntry (types, scopes)).1,
      (entries.foldl TypeTable.addEntry (types, scopes)).2, functions,
        declared⟩ := by
  induction entries generalizing types scopes with
  | nil => exact hk
  | cons entry rest ih =>
      obtain ⟨hentry, hrest⟩ := List.forall_mem_cons.1 hnew
      obtain ⟨hfirst, hnodup⟩ := List.nodup_cons.1 hnodup
      have hscope := Appends.createScope (n := 0) hk .members none
      refine ih (Appends.addType (n := 0) hscope.sorted hentry
        (hk.vacant_create .members none)).sorted hnodup fun other hother => ?_
      exact TypeTable.findByName?_push_ne (hrest other hother) fun hname =>
        hfirst (List.mem_map.2 ⟨other, hother, hname.symm⟩)

end Catalogue

namespace Engine

theorem sorted_addToUniverse {s : Engine} (hs : s.catalogue.Sorted)
    {f : Function} (hparams : ∀ p ∈ f.params, s.types.Has p.type)
    (howner : f.owner = none) : (s.addToUniverse f).catalogue.Sorted := by
  have hadd := Catalogue.Appends.addFunction (n := 0) hs hparams
  have hfunction := FunctionTable.get_add_new s.functions f
  have hnot : ∀ type,
      ¬ ({ s.catalogue with functions := (s.functions.add f).2 } :
        Catalogue).Provided ⟨s.functions.size⟩ type := by
    intro type hprovided
    have hmember := hprovided.1
    rw [hfunction, howner] at hmember
    cases hmember
  have hlisted : s.functions.size < (s.functions.add f).2.size := by
    rw [FunctionTable.size_add]
    exact Nat.lt_succ_self _
  refine (Catalogue.Appends.register (n := 0) hadd.sorted .universe false f.name
    hlisted ?_ ?_ fun type h => absurd h (hnot type)).sorted
  · exact fun id hid =>
      ⟨Nat.le_of_lt (hs.listed _ _ _ id hid), fun type h =>
        absurd h (hnot type)⟩
  · exact fun type htype => absurd htype (Nat.not_lt_zero _)

theorem sorted_new (limits : Limits) (sink : Sink)
    (source : Option ModuleSource) (searchPaths : List String) :
    (Engine.new limits sink source searchPaths).catalogue.Sorted := by
  have hbuiltin :
      (⟨(TypeTable.builtin .empty).1, (TypeTable.builtin .empty).2,
        .empty, []⟩ : Catalogue).Sorted := by
    rw [TypeTable.builtin_eq]
    refine Catalogue.Sorted.empty.foldl_addEntry (by decide) fun entry _ => ?_
    simp [TypeTable.findByName?]
  have hnames :
      (⟨(TypeTable.builtin .empty).1,
        universeNames (TypeTable.builtin .empty).2,
        .empty, []⟩ : Catalogue).Sorted := by
    unfold universeNames
    refine (Catalogue.Appends.updateScope (n := 0) hbuiltin .universe
      fun operator name => ?_).sorted
    exact Scope.overloads_congr rfl rfl operator name
  have hvoid : (TypeTable.builtin .empty).1.Has .void := by decide
  have hprinter : ∀ p ∈ [(⟨"...", .void⟩ : Param)],
      (TypeTable.builtin .empty).1.Has p.type := by
    intro p hp
    obtain rfl := List.mem_singleton.1 hp
    exact hvoid
  refine sorted_addToUniverse (sorted_addToUniverse ?_ ?_ ?_) ?_ ?_
  · exact hnames
  · exact hprinter
  · rfl
  · exact hprinter
  · rfl

instance : Enduring fun s => s.catalogue.Sorted where
  quiet hs _ h := (h.grows.catalogue hs.inv).sorted
  tree _ hs := hs.inv
  push _ _ hs := hs.inv
  call _ _ _ hs _ := hs.inv
  bind _ _ _ ht _ _ := ht.inv
  new := sorted_new
  pop hs _ := hs.inv

end Engine

/-! ## The order of members -/

namespace Catalogue

variable {k l : Catalogue} {type : TypeId}

/-- The function is a member of a type that the program declares. -/
def Declared (k : Catalogue) (id : FunctionId) (type : TypeId) : Prop :=
  (k.functions.get id).owner = some type ∧
    (k.functions.get id).traits.synthesized = false

theorem Declared.not_provided {id : FunctionId} (h : k.Declared id type) :
    ¬ k.Provided id type :=
  fun hprovided => Bool.false_ne_true (h.2.symm.trans hprovided.2)

def memberList (k : Catalogue) (type : TypeId) (operator : Bool)
    (name : String) : List FunctionId :=
  k.overloads (k.members type) operator name

/-- All members that the program declares have been added before any that the
engine provides.  This fails if the type was initialized before the last of its
members had been declared. -/
def Settled (k : Catalogue) (type : TypeId) : Prop :=
  ∀ operator name, ∀ id ∈ k.memberList type operator name,
    ∀ operator' name', ∀ later ∈ k.memberList type operator' name',
      k.Declared id type → k.Provided later type → id.index < later.index

structure DeclaresFirst (k : Catalogue) (type : TypeId) : Prop where
  /-- In every overload list declared members come before provided ones. -/
  first : ∀ operator name, ∃ declared provided,
    k.memberList type operator name = declared ++ provided ∧
      (∀ id ∈ declared, ¬ k.Provided id type) ∧ ∀ id ∈ provided,
        ¬ k.Declared id type
  /-- A class or union is provided copying only where it declares none. -/
  copying : (k.types.get type).isRecord = true → ∀ operator name,
    ∀ id ∈ k.memberList type operator name, k.Declared id type →
      (k.functions.get id).fits k.types (.member [type, type]) = true →
        ∀ later ∈ k.memberList type operator name, ¬ k.Provided later type
  /-- A call that fits a declared member does not go to a provided one. -/
  wins : ∀ operator name site, ∀ id ∈ k.memberList type operator name,
    k.Declared id type →
    (k.functions.get id).fits k.types site = true → ∃ chosen,
      k.functions.resolve k.types (k.memberList type operator name) site =
        some chosen ∧
        ¬ k.Provided chosen type

theorem exists_split {α : Type} {p q : α → Prop} {xs : List α}
    (hpq : ∀ a, p a → ¬ q a) (h : xs.Pairwise fun a b => p a → ¬ q b) :
    ∃ before after, xs = before ++ after ∧ (∀ a ∈ before, ¬ p a) ∧ ∀ a ∈ after,
      ¬ q a := by
  induction xs with
  | nil => exact ⟨[], [], rfl, nofun, nofun⟩
  | cons a xs ih =>
      obtain ⟨ha, hxs⟩ := List.pairwise_cons.1 h
      by_cases hp : p a
      · refine ⟨[], a :: xs, rfl, nofun, fun b hb => ?_⟩
        rcases List.mem_cons.1 hb with rfl | hb
        · exact hpq b hp
        · exact ha b hb hp
      · obtain ⟨before, after, rfl, hbefore, hafter⟩ := ih hxs
        exact ⟨a :: before, after, rfl, List.forall_mem_cons.2 ⟨hp, hbefore⟩,
          hafter⟩

/-- Where declared members come first, order decides the rest. -/
theorem DeclaresFirst.of_first (hk : k.Sorted)
    (h : ∀ operator name, ∃ declared provided,
      k.memberList type operator name = declared ++ provided ∧
        (∀ id ∈ declared, ¬ k.Provided id type) ∧ ∀ id ∈ provided,
          ¬ k.Declared id type) : k.DeclaresFirst type where
  first := h
  copying hrecord operator name id hid hdeclared hfits later hlater
    hprovided := by
    have hordered := hk.ordered (k.members type) operator name
    obtain ⟨declared, provided, hlist, hfirst, hlast⟩ := h operator name
    rw [hlist] at hid hlater
    rw [← memberList, hlist] at hordered
    have hid' : id ∈ declared :=
      (List.mem_append.1 hid).resolve_right fun hin =>
        hlast id hin hdeclared
    have hlater' : later ∈ provided :=
      (List.mem_append.1 hlater).resolve_left fun hin =>
        hfirst later hin hprovided
    have hprecedes :=
      (List.pairwise_append.1 hordered).2.2 id hid' later hlater'
    rw [hprecedes.2 type hprovided hdeclared.not_provided hrecord] at hfits
    cases hfits
  wins operator name site id hid hdeclared hfits := by
    obtain ⟨declared, provided, hlist, hfirst, hlast⟩ := h operator name
    rw [hlist] at hid
    have hid' : id ∈ declared :=
      (List.mem_append.1 hid).resolve_right fun hin =>
        hlast id hin hdeclared
    have hsome :
        (declared.find? fun id =>
          (k.functions.get id).fits k.types site).isSome = true :=
      List.find?_isSome.2 ⟨id, hid', hfits⟩
    obtain ⟨chosen, hchosen⟩ := Option.isSome_iff_exists.1 hsome
    refine ⟨chosen, ?_, hfirst chosen (List.mem_of_find?_eq_some hchosen)⟩
    rw [FunctionTable.resolve, hlist, List.find?_append, hchosen]
    rfl

theorem Sorted.declaresFirst (hk : k.Sorted) (h : k.Settled type) :
    k.DeclaresFirst type := by
  refine .of_first hk fun operator name => ?_
  refine exists_split
    (fun id hprovided hdeclared => hdeclared.not_provided hprovided) ?_
  refine (hk.ordered (k.members type) operator name).imp_of_mem ?_
  intro id later hid hlater hprecedes hprovided hdeclared
  have hlt :=
    h operator name later hlater operator name id hid hdeclared hprovided
  have hle := hprecedes.1
  omega

theorem Sorted.settled (hk : k.Sorted)
    (h : (k.types.get type).initialized = false) : k.Settled type := by
  intro _ _ _ _ operator name later hlater _ hprovided
  rw [hk.initialized _ operator name later hlater type hprovided] at h
  cases h

theorem DeclaresFirst.append {n : Nat} (h : k.DeclaresFirst type)
    (hk : k.Sorted) (hn : type.index < n)
    (hmembers : l.members type = k.members type) (hl : k.Appends n l) :
    l.DeclaresFirst type := by
  refine .of_first hl.sorted fun operator name => ?_
  obtain ⟨declared, provided, hlist, hfirst, hlast⟩ := h.first operator name
  obtain ⟨later, hlists, hlater⟩ := hl.lists (k.members type) operator name
  have hsame : ∀ id ∈ k.memberList type operator name,
      l.functions.get id = k.functions.get id := fun id hid =>
    hl.functions id (hk.listed _ _ _ id hid)
  rw [hlist] at hsame
  refine ⟨declared, provided ++ later, ?_, fun id hid => ?_,
    fun id hid hdeclared => ?_⟩
  · rw [memberList, hmembers, hlists, ← memberList, hlist, List.append_assoc]
  · rw [Provided, hsame id (List.mem_append_left _ hid)]
    exact hfirst id hid
  · rcases List.mem_append.1 hid with hid | hid
    · rw [Declared, hsame id (List.mem_append_right _ hid)] at hdeclared
      exact hlast id hid hdeclared
    · exact hdeclared.not_provided (hlater id hid type hn hdeclared.1)

end Catalogue

namespace Engine

/-- The type is there, and its declared members come first. -/
structure Arranged (type : TypeId) (s : Engine) : Prop where
  sorted : s.catalogue.Sorted
  has : s.types.Has type
  first : s.catalogue.DeclaresFirst type

theorem Arranged.grows {type : TypeId} {s t : Engine} (hs : s.Arranged type)
    (h : s.Grows t) : t.Arranged type where
  sorted := (h.catalogue hs.sorted).sorted
  has := Nat.lt_of_lt_of_le hs.has h.types.size
  first := hs.first.append hs.sorted hs.has (h.types.members
    hs.has) (h.catalogue hs.sorted)

instance (type : TypeId) : Lasting (Arranged type) where
  quiet hs _ h := hs.inv.grows h.grows
  tree _ hs := hs.inv.grows (.of_catalogue rfl rfl rfl)
  push _ _ hs := hs.inv.grows (.of_catalogue rfl rfl rfl)
  call _ _ _ hs _ := hs.inv.grows (.of_catalogue rfl rfl rfl)
  bind _ _ _ ht _ _ :=
    ht.inv.grows (.of_catalogue rfl (Arena.modifyTop_capacity ..) rfl)
  pop hs _ := hs.inv.grows (.popFrame _)

structure OrderedMembers (s : Engine) : Prop where
  settled : ∀ type, (s.types.get type).initialized = false →
    s.catalogue.Settled type
  first : ∀ type, s.catalogue.Settled type → s.catalogue.DeclaresFirst type

end Engine

/-- Members that a program declares come before those that the engine provides,
in every reachable engine and at any time during a request, but for types that
were initialized in the course of their own declaration.  Once they do, they do
for good. -/
theorem Reachable.declared_members_first {s : Engine} (hs : Reachable s) :
    s.OrderedMembers ∧ ∀ (fuel : Nat) (request : Request), s.Knows request →
      Calls.Throughout Engine.OrderedMembers fuel request.perform s ∧
      ∀ type, s.types.Has type → s.catalogue.DeclaresFirst type →
        Calls.Throughout (fun t => t.catalogue.DeclaresFirst type) fuel
          request.perform s ∧
        ((request.perform (Calls.ofFuel fuel)).after s).catalogue.DeclaresFirst
          type := by
  have hordered : ∀ t : Engine, (t.Good fun t => t.catalogue.Sorted) →
      t.OrderedMembers :=
    fun t ht => ⟨fun type => ht.inv.settled, fun type => ht.inv.declaresFirst⟩
  have hgood : s.Good fun t => t.catalogue.Sorted := hs.good
  refine ⟨hordered s hgood, fun fuel request hrequest =>
    ⟨?_, fun type htype hfirst => ?_⟩⟩
  · exact hs.throughout hordered fuel hrequest
  · have harranged : s.Good (Engine.Arranged type) :=
      ⟨hgood.closed, hgood.inv, htype, hfirst⟩
    exact ⟨hs.throughout_of_good harranged (fun _ ht => ht.inv.first) fuel
      hrequest,
      (hs.reached harranged fuel hrequest).inv.first⟩

/-! ### A class that is initialized in time, and one that is not -/

namespace Copied

def node (kind : NodeKind) (text : String) (children : List Node) : Node :=
  ⟨kind, text, .dummy, 0, children⟩

/-- `construct(rhs: Ref<C>) {}`. -/
def copy : Node :=
  node .function "construct"
    [node .parameters ""
      [node .parameter "rhs" [node .typeName "Ref" [node .typeName "C" []]]],
      node .block "" []]

/-- `g(): Int32 { return 1 }`. -/
def one : Node :=
  node .function "g"
    [node .parameters "" [], node .typeName "Int32" [],
      node .block "" [node .returnStmt "" [node .integerLiteral "1" []]]]

/-- `f(x: Array<Int32, C().g()>) {}`; the length of the array is computed when
`f` is declared. -/
def user : Node :=
  node .function "f"
    [node .parameters "" [node .parameter "x" [node .typeName "Array"
        [node .typeName "Int32" [],
          node .expression "" [node .identifier "C" [], node .call "" [],
            node .operator "." [], node .identifier "g" [],
            node .call "" []]]]],
      node .block "" []]

/-- `{ a: C; b = a; }`. -/
def use : Node :=
  node .block ""
    [node .variableDefinition "a" [node .typeName "C" []],
      node .variableDefinition "b" [node .identifier "a" []]]

def engine (members : List Node) : Engine :=
  (Engine.new { stackCapacity := 64, maxCallDepth := 4 } ⟨.buffer, ""⟩ none
    []).afterItems 30 [node .classDecl "C" members]

theorem reachable (members : List Node) : Reachable (engine members) :=
  .items (.new _ _ _ _ (by decide)) 30 _

end Copied

open Copied in
theorem Reachable.declared_members_first_copied :
    let used :=
      ((Request.item use).perform (Calls.ofFuel 30)).after (engine [copy])
    Reachable (engine [copy]) ∧ (engine [copy]).types.Has ⟨15⟩ ∧
      ((engine [copy]).types.get ⟨15⟩).initialized = false ∧
      (used.types.get ⟨15⟩).initialized = true ∧
      used.catalogue.DeclaresFirst ⟨15⟩ := by
  have htype : (engine [copy]).types.Has ⟨15⟩ := by decide +kernel
  have hfresh : ((engine [copy]).types.get ⟨15⟩).initialized = false := by
    decide +kernel
  have hall := declared_members_first (reachable [copy])
  have hfirst := hall.1.first ⟨15⟩ (hall.1.settled ⟨15⟩ hfresh)
  refine ⟨reachable _, htype, hfresh, by decide +kernel, ?_⟩
  exact ((hall.2 30 (.item use) trivial).2 ⟨15⟩ htype hfirst).2

open Copied in
/-- A class whose declaration uses it is provided copying before it declares its
own. -/
theorem Reachable.provided_member_wins :
    let k := (engine [one, user, copy]).catalogue
    Reachable (engine [one, user, copy]) ∧ (k.types.get ⟨15⟩).isRecord = true ∧
      (k.types.get ⟨15⟩).isComplete = true ∧
      k.memberList ⟨15⟩ false "construct" = [⟨3⟩, ⟨45⟩] ∧
      k.Provided ⟨3⟩ ⟨15⟩ ∧ k.Declared ⟨45⟩ ⟨15⟩ ∧
      (k.functions.get ⟨45⟩).fits k.types (.member [⟨15⟩, ⟨15⟩]) = true ∧
      k.functions.resolve k.types (k.memberList ⟨15⟩ false "construct")
        (.member [⟨15⟩, ⟨15⟩]) = some ⟨3⟩ := by
  refine ⟨reachable _, ?_⟩
  unfold Catalogue.Provided Catalogue.Declared
  decide +kernel

end ArenaScript
