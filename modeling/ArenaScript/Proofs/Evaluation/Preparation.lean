import ArenaScript.Proofs.Evaluation.Initialization
import ArenaScript.Proofs.Evaluation.ValueCalls

/-!
# Preparation

Before a value is copied or assigned its type is given its members, and then the
first of them is run that takes the operands.  This never fails, and it is the
member that the engine provides, if the program does not declare one and the
type that is called a reference to the type is one.
-/

namespace ArenaScript

open Engine (Good Quiet Reached Enduring)

/-! ## Types that have what they offer -/

theorem TypeTable.fresh_push {t : TypeTable} {e : TypeEntry}
    (he : e.initialized = false) (h : ∀ type, (t.get type).initialized = false)
    (type : TypeId) : ((t.push e).2.get type).initialized = false := by
  rw [get_push]
  split
  · exact he
  · exact h type

namespace Engine

structure IsCore (s : Engine) (type : TypeId) (kind : CoreKind) : Prop where
  has : s.types.Has type
  shape : (s.types.get type).shape = .core kind
  size : s.types.sizeOf type = kind.size

theorem IsCore.grows {s t : Engine} {type : TypeId} {kind : CoreKind}
    (hs : s.IsCore type kind) (h : s.types.Grown t.types) :
    t.IsCore type kind where
  has := Nat.lt_of_lt_of_le hs.has h.size
  shape := by
    have hshape : (t.types.get type).shape.fixed =
        (s.types.get type).shape.fixed :=
      congrArg TypeEntry.shape (h.entry type hs.has)
    rw [hs.shape] at hshape
    exact TypeEntry.core_of_fixed hshape
  size := (TypeEntry.size_of_fixed (h.entry type hs.has)).trans hs.size

/-- The catalogue is in order, the core types are what they were, and all types
that have been initialized have what they offer. -/
structure Stocked (s : Engine) : Prop where
  sorted : s.catalogue.Sorted
  formed : s.types.Formed
  core : ∀ kind : CoreKind, s.IsCore kind.typeId kind
  furnished : ∀ type, (s.types.get type).initialized = true →
    s.catalogue.Furnished type

theorem Stocked.ne_void {s : Engine} {type : TypeId} (hs : s.Stocked)
    (h : (s.types.get type).shape ≠ .core .void) : type ≠ .void := by
  rintro rfl
  exact h (hs.core .void).shape

theorem Stocked.grows {s t : Engine} (hs : s.Stocked) (h : s.Grows t) :
    t.Stocked where
  sorted := (h.catalogue hs.sorted).sorted
  formed := (h.supplies hs.sorted).formed hs.formed
  core kind := (hs.core kind).grows h.types
  furnished type hinitialized := by
    rcases (h.supplies hs.sorted).furnished hs.formed type hinitialized with
      hold | hnew
    · have hfurnished := hs.furnished type hold
      exact hfurnished.later hs.sorted (h.catalogue hs.sorted)
        (h.types.entry type hfurnished.has)
        (fun id hid _ =>
          ⟨Nat.lt_of_lt_of_le hid h.types.size, h.types.entry id hid⟩)
        fun id hid => .of_fixed (h.types.entry id hid)
    · exact hnew

theorem foldl_addEntry_stocked {entries : List (String × Shape × Nat)}
    {tables : TypeTable × ScopeTable}
    (hentries : ∀ entry ∈ entries, (∀ body, entry.2.1 ≠ .structural body) ∧
      ∀ kind args, entry.2.1 ≠ .template kind args)
    (hformed : tables.1.Formed)
    (hfresh : ∀ type, (tables.1.get type).initialized = false) :
    (entries.foldl TypeTable.addEntry tables).1.Formed ∧
      ∀ type, ((entries.foldl TypeTable.addEntry tables).1.get
        type).initialized = false := by
  induction entries generalizing tables with
  | nil => exact ⟨hformed, hfresh⟩
  | cons entry rest ih =>
      obtain ⟨hentry, hrest⟩ := List.forall_mem_cons.1 hentries
      exact ih hrest (hformed.push (.plain hentry.1 hentry.2))
        (TypeTable.fresh_push rfl hfresh)

theorem Stocked.new (limits : Limits) (sink : Sink)
    (source : Option ModuleSource) (searchPaths : List String) :
    (Engine.new limits sink source searchPaths).Stocked := by
  have hempty : ∀ type, (⟨#[]⟩ : TypeTable).get type = default := fun _ => rfl
  have hbuiltin : (TypeTable.builtin .empty).1.Formed ∧
      ∀ type, ((TypeTable.builtin .empty).1.get type).initialized = false := by
    rw [TypeTable.builtin_eq]
    refine foldl_addEntry_stocked (fun entry hentry => ?_) (fun type => ?_)
      fun type => ?_
    · simp only [TypeTable.builtins, List.mem_append, List.mem_map] at hentry
      rcases hentry with ⟨k, -, rfl⟩ | ⟨k, -, rfl⟩
      · exact ⟨fun _ h => Shape.noConfusion h, fun _ _ h => Shape.noConfusion h⟩
      · exact ⟨fun _ h => Shape.noConfusion h, fun _ _ h => Shape.noConfusion h⟩
    · rw [hempty]
      exact .core rfl
    · rw [hempty]
      rfl
  refine ⟨sorted_new limits sink source searchPaths, hbuiltin.1, fun kind => ?_,
    fun type h => ?_⟩
  · have hhas : (TypeTable.builtin .empty).1.Has kind.typeId := by
      cases kind <;> decide
    exact ⟨hhas, by cases kind <;> rfl, by cases kind <;> rfl⟩
  · cases (hbuiltin.2 type).symm.trans h

instance : Enduring Stocked where
  quiet hs _ h := hs.inv.grows h.grows
  tree _ hs := hs.inv.grows (.of_catalogue rfl rfl rfl)
  push _ _ hs := hs.inv.grows (.of_catalogue rfl rfl rfl)
  call _ _ _ hs _ := hs.inv.grows (.of_catalogue rfl rfl rfl)
  bind _ _ _ ht _ _ :=
    ht.inv.grows (.of_catalogue rfl (Arena.modifyTop_capacity ..) rfl)
  new := Stocked.new
  pop hs _ := hs.inv.grows (.popFrame _)

end Engine

/-! ## Types that are used for the first time -/

/-- The type that goes by the name of references to this one is one, if there is
such a type. -/
def TypeTable.Referable (t : TypeTable) (type : TypeId) : Prop :=
  ∀ ref, t.findByName? (t.render .ref [.type type]) = some ref →
    (t.get ref).referenceTarget? = some type

namespace Engine

variable {s t u : Engine} {type ref address : TypeId}

def Declares (s : Engine) (type : TypeId) (operator : Bool) (name : String)
    (args : List TypeId) : Prop :=
  ∃ id ∈ s.catalogue.memberList type operator name,
    ¬ s.catalogue.Provided id type ∧
    (s.functions.get id).fits s.types (.member args) = true

def DeclaresCopying (s : Engine) (type : TypeId) : Prop :=
  s.Declares type false "construct" [type, type]

structure Prepares (s t : Engine) : Prop where
  quiet : s.Quiet t
  arena : { t.arena with bytes := s.arena.bytes } = s.arena
  undeclared : ∀ {type operator name args}, s.types.Has type →
    ¬ s.Declares type operator name args → ¬ t.Declares type operator name args
  referable : ∀ type, s.types.Has type → s.types.Referable type →
    t.types.Referable type

theorem Prepares.refl (s : Engine) : s.Prepares s :=
  ⟨.refl s, rfl, fun _ h => h, fun _ _ h => h⟩

theorem Prepares.trans (hst : s.Prepares t) (htu : t.Prepares u) :
    s.Prepares u where
  quiet := hst.quiet.trans htu.quiet
  arena := by
    have harena :=
      congrArg (fun a : Arena => { a with bytes := s.arena.bytes }) htu.arena
    exact harena.trans hst.arena
  undeclared htype h :=
    htu.undeclared (Nat.lt_of_lt_of_le htype hst.quiet.grows.types.size)
      (hst.undeclared htype h)
  referable type htype h :=
    htu.referable type (Nat.lt_of_lt_of_le htype hst.quiet.grows.types.size)
      (hst.referable type htype h)

theorem Prepares.mark (h : s.Prepares t) : t.arena.mark = s.arena.mark := by
  have hmark := congrArg Arena.mark h.arena
  exact hmark

theorem Prepares.frames (h : s.Prepares t) :
    t.arena.frames = s.arena.frames := by
  have hframes := congrArg Arena.frames h.arena
  exact hframes

theorem Prepares.fixed (h : s.Prepares t) (htype : s.types.Has type) :
    (t.types.get type).fixed = (s.types.get type).fixed :=
  h.quiet.grows.types.entry type htype

theorem Prepares.copying (h : s.Prepares t) (hs : s.Closed)
    (htype : s.types.Has type) :
    (t.types.get type).copying? t.types = (s.types.get type).copying? s.types :=
  TypeEntry.copying?_congr (h.fixed htype) fun _ _ hparts =>
    h.quiet.grows.types.aggregate (TypeEntry.known_array?
      (hs.types type) _ hparts).1

theorem Prepares.offers (h : s.Prepares t) (hs : s.Closed)
    (htype : s.types.Has type) {m : Member} {args : List TypeId}
    (hoffers : (s.types.get type).Offers s.types type ref m args) :
    (t.types.get type).Offers t.types type ref m args := by
  have hgrown := h.quiet.grows.types
  refine hoffers.congr (h.fixed htype).symm (fun elem len hparts => ?_)
    fun target htarget => ?_
  · rw [hgrown.array? htype] at hparts
    exact (hgrown.aggregate
      (TypeEntry.known_array? (hs.types type) _ hparts).1).symm
  · rw [hgrown.referenceTarget? htype] at htarget
    have hknown :=
      TypeEntry.known_referenceTarget? (hs.types type) target htarget
    rw [TypeTable.accepts, TypeTable.accepts, hgrown.referenceTarget? hknown]

theorem Spawned.referable (h : s.Spawned t) (hs : s.catalogue.Sorted)
    (hgrown : s.types.Grown t.types) (htype : s.types.Has type)
    (href : s.types.Referable type) : t.types.Referable type := by
  intro ref hfound
  obtain ⟨hhas, hname⟩ := TypeTable.findByName?_eq_some hfound
  rw [hgrown.render htype] at hname
  by_cases hold : s.types.Has ref
  · rw [hgrown.name hold] at hname
    have hfirst : s.types.findByName? (s.types.name ref) = some ref :=
      TypeTable.findByName?_name hs.names hold
    rw [hname] at hfirst
    rw [hgrown.referenceTarget? hold]
    exact href ref hfirst
  · obtain ⟨kind, target, htarget, -, hshape, hrendered, -⟩ :=
      h.fresh ref hhas (Nat.le_of_not_lt hold)
    obtain ⟨rfl, hargs⟩ :=
      TypeTable.render_kind_inj (hrendered.symm.trans hname)
    rw [TypeTable.renderArgs_single, TypeTable.renderArgs_single] at hargs
    rw [← hs.names target type htarget htype hargs]
    simp only [TypeEntry.referenceTarget?, hshape]

theorem Opened.undeclared (hs : s.Good fun s => s.catalogue.Sorted)
    (htype : s.types.Has type) (h : s.Opened type ref address u)
    {other : TypeId} {operator : Bool} {name : String} {args : List TypeId}
    (hother : s.types.Has other)
    (hnone : ¬ s.Declares other operator name args) :
    ¬ (u.provide type (u.membersFor type ref address)).Declares other operator
      name args := by
  rintro ⟨id, hid, hnot, hfits⟩
  have hquiet := (h.reached hs htype).rel
  have hgrows := hquiet.grows.catalogue hs.inv
  obtain ⟨later, hlists, hlater⟩ :=
    h.overloads hs htype (s.catalogue.members other) operator name
  rw [Catalogue.memberList, hquiet.members hother, hlists] at hid
  rcases List.mem_append.1 hid with hold | hnew
  · have hlisted := hs.inv.listed _ _ _ id hold
    have hsame := hgrows.functions id hlisted
    refine hnone ⟨id, hold, fun hprovided => hnot ?_, ?_⟩
    · rw [Catalogue.Provided, hsame]
      exact hprovided
    · rw [← hfits]
      exact (fits_grown hs.inv hquiet.grows.types hlisted hsame _).symm
  · have hmem :
        (u.provide type (u.membersFor type ref address)).functions.get id ∈
        later.map (u.provide type
          (u.membersFor type ref address)).functions.get :=
      List.mem_map_of_mem hnew
    rw [hlater] at hmem
    split at hmem
    · rename_i hsame
      obtain ⟨m, -, hm⟩ := List.mem_map.1 hmem
      obtain rfl := hs.inv.apart other type hother htype hsame
      refine hnot ?_
      rw [Catalogue.Provided]
      exact hm ▸ ⟨rfl, rfl⟩
    · cases hmem

/-- A type is used: it has its members afterwards, and nothing has happened to
the arena. -/
theorem exists_prepared (hs : s.Good Stocked) (htype : s.types.Has type)
    (hcomplete : (s.types.get type).isComplete = true) (hvoid : type ≠ .void) :
    ∃ t, Eval.ensureInitialized type s = .ok () t ∧ s.Prepares t ∧
      t.Good Stocked ∧
      t.arena = s.arena ∧ (t.types.get type).initialized = true := by
  cases hpending : s.pending type with
  | false =>
      refine ⟨s, ensureInitialized_of_not_pending hpending, .refl s,
        hs, rfl, ?_⟩
      simpa [Engine.pending, hcomplete, hvoid] using hpending
  | true =>
      have hsorted : s.Good fun s => s.catalogue.Sorted :=
        ⟨hs.closed, hs.inv.sorted⟩
      obtain ⟨ref, address, u, hu⟩ := exists_opened hs.closed htype hpending
      have hreached := (Sound.ensureInitialized hs htype).reached
      rw [Eval.after_ok hu.run] at hreached
      have hgrown := hreached.rel.grows.types
      have harena : u.arena = s.arena := hu.enlarged.arena
      have hspawned := hu.spawned hs.closed htype (.refl _) (.refl s)
      refine ⟨_, hu.run, ⟨hreached.rel, ?_,
        fun hother => hu.undeclared hsorted htype hother,
        fun other hother => hspawned.referable hs.inv.sorted hgrown hother⟩,
        hreached.good,
        harena, ?_⟩
      · change ({ u.arena with bytes := s.arena.bytes } : Arena) = s.arena
        rw [harena]
      · have hget :=
          (hu.enlarged.get (has_marked.2 htype)).trans (get_marked type htype)
        have hinitialized :
            ((u.provide type (u.membersFor type ref address)).types.get
              type).initialized = _ := congrArg TypeEntry.initialized hget
        rw [hinitialized]
        simp

/-! ## The member that is chosen -/

theorem exists_answer {m : TypeId → Member} {args : List TypeId}
    {operator : Bool} {name : String} (hs : s.Good Stocked)
    (htype : s.types.Has type)
    (hcomplete : (s.types.get type).isComplete = true) (hvoid : type ≠ .void)
    (hlabel : ∀ ref, (m ref).isOperator = operator ∧ (m ref).name = name)
    (hundeclared : ¬ s.Declares type operator name args)
    (hreferable : s.types.Referable type)
    (hoffers : ∀ ref, (s.types.get type).Offers s.types type ref (m ref) args) :
    ∃ id ref t, Eval.ensureInitialized type s = .ok () t ∧ s.Prepares t ∧
      t.Good Stocked ∧
      t.arena = s.arena ∧
      t.functions.resolve t.types (t.catalogue.memberList type operator name)
        (.member args) = some id ∧
      t.functions.get id = (m ref).provided type ∧
      (t.types.get ref).referenceTarget? = some type := by
  obtain ⟨t, hrun, hst, ht, harena, hinitialized⟩ :=
    exists_prepared hs htype hcomplete hvoid
  obtain ⟨ref, href, hname, hanswers⟩ :=
    (ht.inv.furnished type hinitialized).answers
  have hfound : t.types.findByName? (t.types.name ref) = some ref :=
    TypeTable.findByName?_name ht.inv.sorted.names href
  have htarget := hst.referable type htype hreferable ref (hname ▸ hfound)
  obtain ⟨id, hid, hprovided⟩ :=
    hanswers htarget _ _ (hst.offers hs.closed htype (hoffers ref))
  obtain ⟨hoperator, hlabelled⟩ := hlabel ref
  rw [Catalogue.called?, hoperator, hlabelled] at hid
  refine ⟨id, ref, t, hrun, hst, ht, harena, hid, hprovided ?_, htarget⟩
  refine Classical.byContradiction fun hnot =>
    hst.undeclared htype hundeclared ?_
  exact ⟨id, Catalogue.mem_of_resolve hid, hnot,
    (List.find?_eq_some_iff_append.1 hid).1⟩

theorem invoke_provided {id : FunctionId} {m : Member}
    {args adapted : List Value}
    (hfunction : s.functions.get id = m.provided type)
    (hlength : m.params.length ≤ args.length)
    (hadapted : s.adaptArgs m.params args = .ok adapted) (n : Nat) :
    (Calls.ofFuel (n + 1)).invoke id args s =
      (Calls.ofFuel n).runNative m.native adapted s := by
  have hparams : (s.functions.get id).fixedParams = m.params := by
    rw [hfunction]
    rfl
  have hbody : (s.functions.get id).body = .native m.native := by
    rw [hfunction]
    rfl
  rw [← hparams] at hlength hadapted
  exact Calls.invokeStep_native (Calls.ofFuel n) hbody hlength hadapted

section Adapting

variable {name : String} {param target : TypeId} {addr word : Nat}
  {params : List Param} {args adapted : List Value}

theorem adaptArgs_place
    (hparam : (s.types.get param).referenceTarget? = some type)
    (hrest : s.adaptArgs params args = .ok adapted) :
    s.adaptArgs (⟨name, param⟩ :: params) (⟨type, addr⟩ :: args) =
      .ok (⟨type, addr⟩ :: adapted) := by
  have hplace : s.placeOf ⟨type, addr⟩ type = .ok ⟨type, addr⟩ := if_pos rfl
  simp [adaptArgs, hparam, hplace, hrest, Bind.bind, Except.bind, Pure.pure,
    Except.pure]

theorem adaptArgs_value (hplain : (s.types.get type).referenceTarget? = none)
    (hrest : s.adaptArgs params args = .ok adapted) :
    s.adaptArgs (⟨name, type⟩ :: params) (⟨type, addr⟩ :: args) =
      .ok (⟨type, addr⟩ :: adapted) := by
  simp [adaptArgs, hplain, hrest, Bind.bind, Except.bind, Pure.pure,
    Except.pure]

theorem adaptArgs_reference
    (htarget : (s.types.get type).referenceTarget? = some target)
    (hother : type ≠ target) (hword : s.arena.readWord addr = .ok word)
    (hrest : s.adaptArgs params args = .ok adapted) :
    s.adaptArgs (⟨name, type⟩ :: params) (⟨type, addr⟩ :: args) =
      .ok (⟨target, word⟩ :: adapted) := by
  have hplace : s.placeOf ⟨type, addr⟩ target = .ok ⟨target, word⟩ := by
    simp [placeOf, hother, htarget, stripRef, hword, Except.map]
  simp [adaptArgs, htarget, hplace, hrest, Bind.bind, Except.bind, Pure.pure,
    Except.pure]

end Adapting

theorem exists_copyConstruct {native : Native} (hs : s.Good Stocked)
    (htype : s.types.Has type)
    (hcomplete : (s.types.get type).isComplete = true) (hvoid : type ≠ .void)
    (hundeclared : ¬ s.DeclaresCopying type)
    (hreferable : s.types.Referable type)
    (hnative : (s.types.get type).copying? s.types = some native)
    (dst src : Nat) :
    ∃ t, s.Prepares t ∧ t.Good Stocked ∧ t.arena = s.arena ∧ ∀ n,
      (Calls.ofFuel (n + 2)).copyConstruct ⟨type, dst⟩ ⟨type, src⟩ s =
        (do
          let _ ← (Calls.ofFuel n).runNative native [⟨type, dst⟩, ⟨type, src⟩]
          pure ()) t := by
  obtain ⟨id, ref, t, hrun, hst, ht, harena, hid, hfunction, htarget⟩ :=
    exists_answer (m := fun ref => .copier ref native) hs htype hcomplete hvoid
      (fun _ => ⟨rfl, rfl⟩) hundeclared hreferable fun _ => .copy hnative
  refine ⟨t, hst, ht, harena, fun n => ?_⟩
  have hchosen : t.memberFunction? type "construct" [⟨type, src⟩] =
      some id := hid
  have hconstructor : Calls.constructorFor type [⟨type, src⟩] s =
      .ok (some id) t := by
    rw [Calls.constructorFor, Eval.bind_ok hrun]
    exact congrArg (EStateM.Result.ok · t) hchosen
  have hsynthesized : (t.functions.get id).traits.synthesized = true := by
    rw [hfunction]; rfl
  have hinvoke : (Calls.ofFuel (n + 1)).invoke id [⟨type, dst⟩, ⟨type, src⟩] t =
      (Calls.ofFuel n).runNative native [⟨type, dst⟩, ⟨type, src⟩] t := by
    refine invoke_provided (m := .copier ref native) hfunction
      (Nat.le_refl _) ?_ n
    exact adaptArgs_place htarget (adaptArgs_place htarget rfl)
  have hstep : (Calls.ofFuel (n + 2)).copyConstruct ⟨type, dst⟩ ⟨type, src⟩ s =
      (Calls.ofFuel (n + 1)).runConstructor id ⟨type, dst⟩ [⟨type, src⟩] t := by
    change (Calls.ofFuel (n + 1)).copyConstructStep _ _ s = _
    rw [Calls.copyConstructStep, if_neg hvoid, Eval.bind_ok hconstructor]
  rw [hstep, Calls.runConstructor, Eval.bind_read]
  simp only [hsynthesized, Bool.not_true, Bool.false_eq_true, if_false]
  exact Eval.bind_congr hinvoke

theorem tryOperator_eq {c : Calls} {symbol : String} {receiver : Value}
    {others : List Value} {id : FunctionId} {x : Eval (Option Value)}
    (hrun : Eval.ensureInitialized receiver.type s = .ok () t)
    (hid : t.functions.resolve t.types
      (t.catalogue.memberList receiver.type true symbol)
        (.member ((receiver :: others).map Value.type)) = some id)
    (hinvoke : c.invoke id (receiver :: others) t = x t) :
    c.tryOperator symbol (receiver :: others) s =
      (do
        match ← x with
        | some value => pure (some value)
        | none => some <$> Eval.read Engine.voidValue) t := by
  have hmember :
      t.functions.resolve t.types
        ((t.membersOf receiver.type).findOperator symbol)
    (.member ((receiver :: others).map Value.type)) = some id := hid
  have hchosen : t.operatorFor? symbol receiver (receiver :: others) =
      some id := by
    simp only [operatorFor?, hmember]
  rw [Calls.tryOperator, Eval.bind_ok hrun, Eval.bind_read, hchosen]
  exact Eval.bind_congr hinvoke

theorem binaryOperator_eq {c : Calls} {symbol : String} {l r : Value}
    {x : Eval (Option Value)} (htry : c.tryOperator symbol [l, r] s =
      (do
        match ← x with
        | some value => pure (some value)
        | none => some <$> Eval.read Engine.voidValue) t) :
    c.binaryOperator symbol l r s =
      (do
        match ← x with
        | some value => pure value
        | none => Eval.read Engine.voidValue) t := by
  rw [Calls.binaryOperator]
  simp only [Bind.bind, EStateM.bind, htry]
  cases x t with
  | ok result u => cases result <;> rfl
  | error e u => rfl

theorem exists_binaryOperator {m : TypeId → Member} {symbol : String}
    (dst : Nat) (rhs : Value) (hs : s.Good Stocked) (htype : s.types.Has type)
    (hcomplete : (s.types.get type).isComplete = true) (hvoid : type ≠ .void)
    (hlabel : ∀ ref, (m ref).isOperator = true ∧ (m ref).name = symbol)
    (hparams : ∀ ref, (m ref).params.length = 2)
    (hundeclared : ¬ s.Declares type true symbol [type, rhs.type])
    (hreferable : s.types.Referable type)
    (hoffers : ∀ ref,
      (s.types.get type).Offers s.types type ref (m ref) [type, rhs.type]) :
    ∃ ref t, s.Prepares t ∧ t.Good Stocked ∧ t.arena = s.arena ∧
      (t.types.get ref).referenceTarget? = some type ∧
      (Calls.ofFuel 0).binaryOperator symbol ⟨type, dst⟩ rhs s =
        .error .outOfFuel t ∧
      ∀ adapted, t.adaptArgs (m ref).params [⟨type, dst⟩, rhs] =
        .ok adapted → ∀ n,
        (Calls.ofFuel (n + 1)).binaryOperator symbol ⟨type, dst⟩ rhs s =
          (do
            match ← (Calls.ofFuel n).runNative (m ref).native adapted with
            | some value => pure value
            | none => Eval.read Engine.voidValue) t := by
  obtain ⟨id, ref, t, hrun, hst, ht, harena, hid, hfunction, htarget⟩ :=
    exists_answer hs htype hcomplete hvoid hlabel hundeclared hreferable hoffers
  have hoperator : ∀ (c : Calls) {x : Eval (Option Value)},
      c.invoke id [⟨type, dst⟩, rhs] t = x t →
      c.binaryOperator symbol ⟨type, dst⟩ rhs s =
        (do
          match ← x with
          | some value => pure value
          | none => Eval.read Engine.voidValue) t :=
    fun _ _ hinvoke => binaryOperator_eq (tryOperator_eq hrun hid hinvoke)
  refine ⟨ref, t, hst, ht, harena, htarget, ?_, fun adapted hadapted n => ?_⟩
  · exact hoperator (.ofFuel 0) (x := Eval.exhausted) rfl
  · have hlength : (m ref).params.length ≤ [⟨type, dst⟩, rhs].length :=
      Nat.le_of_eq (hparams ref)
    exact hoperator (.ofFuel (n + 1))
      (invoke_provided hfunction hlength hadapted n)

end Engine

end ArenaScript
