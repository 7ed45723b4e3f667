import ArenaScript.Proofs.Evaluation.Copying
import ArenaScript.Proofs.Evaluation.Pointers

/-!
# Elements of arrays

An element is reached by the operator of the array, or from the address of the
first one.  The operator takes the size of the elements, which are complete
before there is an array of them.  The other ways take the stride of the
addresses, so they agree with each other, and with the operator unless the
addresses have been used before the elements were complete.
-/

namespace ArenaScript

open Engine (Good Stocked)
open Catalogue (labelled)

section Addresses

variable {base size len : Nat} {n : Int}

theorem elementAddress_of_lt (hn : 0 ≤ n ∧ n < len)
    (hfits : base + n.toNat * size < Word.modulus) :
    elementAddress base n len size = .ok (base + n.toNat * size) := by
  have hmul : Word.mul n.toNat size = n.toNat * size :=
    Word.wrap_of_lt (Nat.lt_of_le_of_lt (Nat.le_add_left _ _) hfits)
  rw [elementAddress, if_pos, hmul, Word.add_of_lt hfits]
  simpa using hn

theorem elementAddress_outside (base size : Nat) (hn : ¬ (0 ≤ n ∧ n < len)) :
    ∃ e : Failure, elementAddress base n len size = .error e ∧
      e.fault = .invalidMemoryAccess base size := by
  refine ⟨_, if_neg ?_, rfl⟩
  simpa using hn

end Addresses

/-! ## Ways to an element -/

namespace Calls

def method (c : Calls) (receiver : Value) (name : String) : Eval Value := do
  match ← c.callMethod receiver name [] with
  | some value => pure value
  | none => Eval.read Engine.voidValue

inductive Access
  | index
  | data
  | follow
  | get
  deriving DecidableEq

def element (c : Calls) (a i : Value) : Access → Eval Value
  | .index => c.binaryOperator "[]" a i
  | .data => do c.binaryOperator "[]" (← c.method a "data") i
  | .follow => do
    c.unaryOperator "*" (← c.binaryOperator "+" (← c.method a "data") i)
  | .get => do c.method (← c.binaryOperator "+" (← c.method a "data") i) "get"

theorem method_ok {c : Calls} {receiver value : Value} {name : String}
    {s t : Engine} (h : c.callMethod receiver name [] s = .ok (some value) t) :
    c.method receiver name s = .ok value t := by
  rw [method, Eval.bind_ok h]
  rfl

end Calls

namespace Engine

variable {s t u : Engine} {array elem address type : TypeId}
  {len stride a i p word addr : Nat} {n : Int} {scalar : Scalar}
    {contents : List UInt8}

/-! ## Addresses with nothing declared for them -/

structure PlainAddress (s : Engine) (address elem : TypeId) : Prop where
  pointsTo : s.PointsTo address elem
  index : ¬ s.Declares address true "[]" [address, .int32]
  shift : ¬ s.Declares address true "+" [address, .int32]
  get : ¬ s.Declares address false "get" [address]
  follow : ∀ p, s.operatorFor? "*" ⟨address, p⟩ [⟨address, p⟩] = none

theorem MovesBySize.of_puts (hput : s.Puts type contents t)
    (h : s.MovesBySize address elem) : t.MovesBySize address elem := by
  rw [hput.same]
  exact h

theorem PlainAddress.puts (h : s.PlainAddress address elem)
    (hput : s.Puts type contents t)
    (hframes : t.arena.frames = s.arena.frames) :
    t.PlainAddress address elem where
  pointsTo := by
    rw [hput.same]
    exact ⟨h.pointsTo.has, h.pointsTo.target⟩
  index := hput.undeclared h.index
  shift := hput.undeclared h.shift
  get := hput.undeclared h.get
  follow p := by
    have hscopes : t.scopes = s.scopes := by rw [hput.same]
    have hfunctions : t.functions = s.functions := by rw [hput.same]
    rw [← h.follow p]
    simp only [operatorFor?, operatorCandidates, gather, visibleScopes,
      membersOf, hframes, hscopes, hfunctions, hput.types]

theorem PlainAddress.used (h : s.PlainAddress address elem)
    (hs : s.Good Stocked) (hrun : Eval.ensureInitialized address s = .ok () t)
    (hst : s.Prepares t) : t.PlainAddress address elem where
  pointsTo := h.pointsTo.grown hst.quiet.grows.types
  index := hst.undeclared h.pointsTo.has h.index
  shift := hst.undeclared h.pointsTo.has h.shift
  get := hst.undeclared h.pointsTo.has h.get
  follow p := h.pointsTo.no_follow hs hrun (h.follow p)

section Moving

variable (hs : s.Good Stocked) (h : s.PlainAddress address elem)
  (hstrides : s.Strides address elem stride)
    (hword : s.arena.readWord p = .ok word)
  (hread : s.arena.readScalar i .int32 = .ok scalar)
    (hn : Scalar.Represents .int32 n scalar)
  (haddr : offsetAddress word n stride = .ok addr)
include hs h hstrides hword hread hn haddr

theorem PlainAddress.index_ok (fuel : Nat) :
    (Calls.ofFuel (fuel + 1)).binaryOperator "[]" ⟨address, p⟩ ⟨.int32, i⟩ s =
      .ok ⟨elem, addr⟩ s := by
  rw [hstrides.index hs.inv h.index]
  refine Eval.bind_inspect ?_
  exact (shifted_eq hs.inv hword hread hn address stride false).trans haddr

theorem PlainAddress.exists_shift (hroom : s.arena.mark + 8 ≤ s.arena.capacity)
    (hbound : addr < Word.modulus) :
    ∃ t, (∀ fuel,
      (Calls.ofFuel (fuel + 1)).binaryOperator "+" ⟨address, p⟩ ⟨.int32, i⟩ s =
        .ok ⟨address, s.arena.mark⟩ t) ∧
      t.Strides address elem stride ∧ t.PlainAddress address elem ∧
      t.arena.readWord s.arena.mark = .ok addr := by
  obtain ⟨t, halloc, ht, hframes, hresult⟩ :=
    h.pointsTo.exists_alloc hs hbound hroom
  refine ⟨t, fun fuel => ?_, hstrides.puts ht, h.puts ht hframes, hresult⟩
  rw [hstrides.shift (.inl ⟨rfl, rfl⟩) h.shift hs.inv]
  exact (Eval.bind_inspect
    ((shifted_eq hs.inv hword hread hn address stride false).trans haddr)).trans
      halloc

end Moving

/-! ## Arrays -/

theorem membersFor_array
    (hparts : (s.types.get array).array? = some (elem, len))
    (ref address : TypeId) :
    ∃ copying, (copying = Member.memberwise array ref ∨
        ∃ size, copying = Member.bytewise array ref size) ∧
      s.membersFor array ref address =
        copying ++ Member.array ref elem address len (s.types.sizeOf elem) := by
  obtain ⟨n, hshape⟩ := TypeEntry.array?_eq_some hparts
  simp only [membersFor, hshape, hparts]
  refine ⟨_, ?_, rfl⟩
  split
  · exact .inl rfl
  · exact .inr ⟨_, rfl⟩

theorem find_index {kind : CoreKind} {ref : TypeId} (hs : s.Stocked)
    (href : s.types.accepts ref array = true) (elem address : TypeId)
    (len size : Nat) (hkind : kind ∈ [CoreKind.int32, .int64]) :
    (labelled (Member.array ref elem address len size) true "[]").find?
        (fun m =>
          (m.provided array).fits s.types (.member [array, kind.typeId])) =
      some (.operator "[]" [Member.self ref, ⟨"index", kind.typeId⟩] elem
        (.arrayIndex elem len size)) := by
  have hlist : labelled (Member.array ref elem address len size) true "[]" =
      [.int32, .int64].map fun index =>
        .operator "[]" [Member.self ref, ⟨"index", index⟩] elem
        (.arrayIndex elem len size) := rfl
  rw [hlist]
  simp only [List.mem_cons, List.not_mem_nil, or_false] at hkind
  rcases hkind with rfl | rfl
  · exact List.find?_cons_of_pos (fits_of_accepts href (accepts_self _))
  · rw [List.map_cons, List.find?_cons_of_neg]
    · exact List.find?_cons_of_pos (fits_of_accepts href (accepts_self _))
    · have hnone : (s.types.get .int32).referenceTarget? = none :=
        not_reference_core hs .int32
      have hwide : s.types.accepts .int32 CoreKind.int64.typeId = false := by
        rw [TypeTable.accepts, hnone]
        rfl
      rw [Member.operator, fits_provided, hwide, Bool.and_false]
      exact Bool.false_ne_true

/-- The type is one of arrays, and the program declares none of the operations
on it that lead to an element. -/
structure PlainArray (s : Engine) (array elem : TypeId) (len : Nat) : Prop where
  has : s.types.Has array
  parts : (s.types.get array).array? = some (elem, len)
  referable : s.types.Referable array
  index : ∀ kind ∈ [CoreKind.int32, .int64],
    ¬ s.Declares array true "[]" [array, kind.typeId]
  data : ¬ s.Declares array false "data" [array]

namespace PlainArray

variable (hs : s.Good Stocked) (h : s.PlainArray array elem len)
include h

theorem shape : ∃ args, (s.types.get array).shape = .template .array args := by
  have hparts := h.parts
  unfold TypeEntry.array? at hparts
  split at hparts
  · exact ⟨_, ‹_›⟩
  · cases hparts

theorem complete : (s.types.get array).isComplete = true := by
  obtain ⟨args, hshape⟩ := h.shape
  simp only [TypeEntry.isComplete, hshape]

include hs

theorem ne_void : array ≠ .void := by
  obtain ⟨args, hshape⟩ := h.shape
  exact hs.inv.ne_void (by simp [hshape])

/-- An array that is used has its operators, which are given the size of the
elements. -/
theorem exists_used :
    ∃ t ref address, Eval.ensureInitialized array s = .ok () t ∧ s.Prepares t ∧
    t.Good Stocked ∧ t.arena = s.arena ∧ (t.types.get ref).referenceTarget? =
      some array ∧
    t.types.findByName? (t.types.render .address [.type elem]) = some address ∧
    ∀ {operator name args m}, ¬ s.Declares array operator name args →
      (operator, name) ∈ [(true, "[]"), (false, "data")] →
      (labelled (Member.array ref elem address len (s.types.sizeOf elem))
        operator name).find?
        (fun m => (m.provided array).fits t.types (.member args)) = some m →
      ∃ id, t.functions.resolve t.types
        (t.catalogue.memberList array operator name)
          (.member args) = some id ∧ t.functions.get id = m.provided array := by
  obtain ⟨t, u, ref, address, hrun, hst, ht, harena, houtfit⟩ :=
    exists_outfit hs h.has h.complete (h.ne_void hs)
  have hparts : (u.types.get array).array? = some (elem, len) := by
    have hkept :=
      congrArg TypeEntry.array?
        (houtfit.kept array houtfit.has houtfit.complete).2
    rw [TypeEntry.array?_fixed, TypeEntry.array?_fixed] at hkept
    rw [← hkept]
    exact (hst.quiet.grows.types.array? h.has).trans h.parts
  obtain ⟨helem, hcomplete, -⟩ := (houtfit.formed array).array elem len hparts
  obtain ⟨hhas, hfixed⟩ := houtfit.kept elem helem hcomplete
  have hsize : u.types.sizeOf elem = s.types.sizeOf elem := by
    have hold := (TypeEntry.known_array? (hs.closed.types array) _ h.parts).1
    exact (TypeEntry.size_of_fixed hfixed).symm.trans
      (hst.quiet.grows.types.sizeOf elem hold)
  have hfound : ∀ {id : TypeId} {name}, t.types.Has id ∧
      t.types.name id = name →
      t.types.findByName? name = some id := fun hid =>
    hid.2 ▸ TypeTable.findByName?_name ht.inv.sorted.names hid.1
  refine ⟨t, ref, address, hrun, hst, ht, harena,
    hst.referable array h.has h.referable ref (hfound houtfit.reference),
    hfound (houtfit.elements elem len hparts), fun hundeclared hlabel hm => ?_⟩
  refine houtfit.exists_resolve (hst.undeclared h.has hundeclared) ?_
  obtain ⟨copying, hcopying, hmembers⟩ := membersFor_array hparts ref address
  rw [chosen?, hmembers, hsize]
  simp only [List.mem_cons, Prod.mk.injEq, List.not_mem_nil, or_false] at hlabel
  rcases hcopying with rfl | ⟨size, rfl⟩ <;> rcases hlabel with ⟨rfl, rfl⟩ |
    ⟨rfl, rfl⟩ <;> exact hm

variable {kind : CoreKind}

theorem exists_index (hkind : kind ∈ [CoreKind.int32, .int64])
    (hread : s.arena.readScalar i kind = .ok scalar)
    (hn : Scalar.Represents kind n scalar) (a : Nat) :
    ∃ t, ∀ fuel,
      (Calls.ofFuel (fuel + 1)).binaryOperator "[]" ⟨array, a⟩
        ⟨kind.typeId, i⟩ s = (do
        let addr ← Eval.ofExcept (elementAddress a n len (s.types.sizeOf elem))
        pure (Value.mk elem addr)) t := by
  obtain ⟨t, ref, address, hrun, hst, ht, harena, htarget, -, hfind⟩ :=
    h.exists_used hs
  obtain ⟨id, hid, hfunction⟩ := hfind (h.index kind hkind) (by simp)
    (find_index ht.inv (accepts_ref htarget) elem address len
      (s.types.sizeOf elem) hkind)
  have hsigned : kind.isSigned = true := by
    simp only [List.mem_cons, List.not_mem_nil, or_false] at hkind
    rcases hkind with rfl | rfl <;> rfl
  obtain ⟨v, hv, rfl⟩ := readInt_eq ht.inv hsigned (harena.symm ▸ hread) hn
  refine ⟨t, fun fuel => ?_⟩
  have hplain := not_reference_core ht.inv kind
  refine (binaryOperator_provided ⟨array, a⟩ hrun hid hfunction (Nat.le_refl _)
    (adaptArgs_place htarget (adaptArgs_value hplain rfl)) fuel).trans ?_
  simp only [Member.operator, Calls.runNative, List.getD_cons_zero,
    List.getD_cons_succ, bind_assoc, pure_bind]
  exact Eval.bind_inspect hv

theorem exists_data (a : Nat) :
    ∃ t address, Eval.ensureInitialized array s = .ok () t ∧
    s.Prepares t ∧ t.Good Stocked ∧ t.arena = s.arena ∧
    t.types.findByName? (t.types.render .address [.type elem]) = some address ∧
    ∀ fuel,
      (Calls.ofFuel (fuel + 1)).callMethod ⟨array, a⟩ "data" [] s =
        (some <$> Eval.allocAddress address a) t := by
  obtain ⟨t, ref, address, hrun, hst, ht, harena, htarget, haddress, hfind⟩ :=
    h.exists_used hs
  have hm :
      (labelled (Member.array ref elem address len (s.types.sizeOf elem)) false
        "data").find?
      (fun m => (m.provided array).fits t.types (.member [array])) =
        some (.function "data" [Member.self ref] address
          (.arrayData address)) :=
    List.find?_cons_of_pos ((fits_alone ..).trans (accepts_ref htarget))
  obtain ⟨id, hid, hfunction⟩ := hfind h.data (by simp) hm
  refine ⟨t, address, hrun, hst, ht, harena, haddress, fun fuel => ?_⟩
  exact callMethod_provided ⟨array, a⟩ [] hrun hid hfunction (Nat.le_refl _)
    (adaptArgs_place htarget rfl) fuel

theorem bound (hlive : s.arena.inBounds a (s.types.sizeOf array) = true) :
    a + s.types.sizeOf elem * len ≤ s.arena.capacity := by
  obtain ⟨-, -, hsize, -⟩ := (hs.inv.formed array).array elem len h.parts
  have htotal : s.types.sizeOf array = s.types.sizeOf elem * len := hsize
  rw [← htotal]
  exact (hs.closed.wellFormed.range_le hlive).1

section Within

variable (hlive : s.arena.inBounds a (s.types.sizeOf array) = true)
  (hcapacity : s.arena.capacity < 2 ^ 63) (hn : 0 ≤ n ∧ n < len)
include hlive hcapacity hn

theorem element_lt :
    s.types.sizeOf elem < 2 ^ 63 ∧ a + n.toNat * s.types.sizeOf elem <
      2 ^ 63 := by
  have hbound := h.bound hs hlive
  have hpos : 0 < len := by omega
  have hone : s.types.sizeOf elem ≤ s.types.sizeOf elem * len :=
    Nat.le_mul_of_pos_right _ hpos
  have hbelow : n.toNat * s.types.sizeOf elem ≤ s.types.sizeOf elem * len := by
    rw [Nat.mul_comm]
    exact Nat.mul_le_mul_left _ (by omega)
  omega

theorem index_ok (hkind : kind ∈ [CoreKind.int32, .int64])
    (hread : s.arena.readScalar i kind = .ok scalar)
    (hscalar : Scalar.Represents kind n scalar) :
    ∃ t, ∀ fuel,
      (Calls.ofFuel (fuel + 1)).binaryOperator "[]" ⟨array, a⟩
        ⟨kind.typeId, i⟩ s =
      .ok ⟨elem, a + n.toNat * s.types.sizeOf elem⟩ t := by
  obtain ⟨t, hrun⟩ := h.exists_index hs hkind hread hscalar a
  have hlt := (h.element_lt hs hlive hcapacity hn).2
  have haddr := elementAddress_of_lt hn (Nat.lt_trans hlt (by decide))
  exact ⟨t, fun fuel => (hrun fuel).trans (Eval.bind_inspect haddr)⟩

end Within

/-- An index that is out of bounds is reported as such, with the place of the
array. -/
theorem index_outside (hn : ¬ (0 ≤ n ∧ n < len))
    (hkind : kind ∈ [CoreKind.int32, .int64])
    (hread : s.arena.readScalar i kind = .ok scalar)
    (hscalar : Scalar.Represents kind n scalar) (a : Nat) :
    ∃ e t, e.fault = .invalidMemoryAccess a (s.types.sizeOf elem) ∧ ∀ fuel,
      (Calls.ofFuel (fuel + 1)).binaryOperator "[]" ⟨array, a⟩
        ⟨kind.typeId, i⟩ s = .error (.failed e) t := by
  obtain ⟨t, hrun⟩ := h.exists_index hs hkind hread hscalar a
  obtain ⟨e, haddr, hfault⟩ := elementAddress_outside a (s.types.sizeOf elem) hn
  refine ⟨e, t, hfault, fun fuel => (hrun fuel).trans (Eval.bind_error ?_)⟩
  simp only [Eval.ofExcept, Eval.inspect, haddr]

end PlainArray

/-! ## Main statement -/

def inUse (s : Engine) (type : TypeId) : Engine :=
  (Eval.ensureInitialized type).after s

def addressType? (s : Engine) (elem : TypeId) : Option TypeId :=
  s.types.findByName? (s.types.render .address [.type elem])

section Accessing

variable (hs : s.Good Stocked) (h : s.PlainArray array elem len)
  (haddress : (s.inUse array).addressType? elem = some address)
  (hplain : (s.inUse array).PlainAddress address elem)
  (hread : s.arena.readScalar i .int32 = .ok scalar)
  (hroom : s.arena.mark + 16 ≤ s.arena.capacity)
include hs h haddress hplain hread hroom

theorem PlainArray.exists_first (ha : a < Word.modulus) :
    ∃ t, (∀ fuel, (Calls.ofFuel (fuel + 1)).method ⟨array, a⟩ "data" s =
        .ok ⟨address, s.arena.mark⟩ t) ∧ t.Good Stocked ∧
        t.PlainAddress address elem ∧
      t.types.Has elem ∧ t.types.sizeOf elem = s.types.sizeOf elem ∧
      t.arena.mark + 8 ≤ t.arena.capacity ∧
      t.arena.readWord s.arena.mark = .ok a ∧
      t.arena.readScalar i .int32 = .ok scalar ∧
      ((s.inUse array).MovesBySize address elem →
        t.MovesBySize address elem) := by
  obtain ⟨u, address', hrun, hsu, hu, harena, hname, hdata⟩ :=
    h.exists_data hs a
  have hused : s.inUse array = u := Eval.after_ok hrun
  rw [hused] at haddress hplain ⊢
  obtain rfl : address' = address := Option.some.inj (hname.symm.trans haddress)
  have helem := (TypeEntry.known_array? (hs.closed.types array) _ h.parts).1
  obtain ⟨t, halloc, ht, hframes, hfirst⟩ :=
    hplain.pointsTo.exists_alloc hu ha (by rw [harena]; omega)
  rw [harena] at halloc hfirst
  refine ⟨t, fun fuel => ?_, ht.good, hplain.puts ht hframes, ?_, ?_, ?_,
    hfirst, ?_,
    fun hsized => hsized.of_puts ht⟩
  · refine Calls.method_ok ((hdata fuel).trans ?_)
    rw [map_eq_pure_bind]
    exact Eval.bind_ok halloc
  · rw [ht.types]
    exact Nat.lt_of_lt_of_le helem hsu.quiet.grows.types.size
  · rw [ht.types, hsu.quiet.grows.types.sizeOf elem helem]
  · rw [ht.gains.mark, ht.gains.capacity, length_lowBytes, harena]
    omega
  · exact ht.gains.readScalar_below (harena.symm ▸ hread)

variable (hlive : s.arena.inBounds a (s.types.sizeOf array) = true)
  (hcapacity : s.arena.capacity < 2 ^ 63) (hn : 0 ≤ n ∧ n < len)
  (hscalar : Scalar.Represents .int32 n scalar)
include hlive hcapacity hn hscalar

theorem PlainArray.exists_stride :
    ∃ stride, (stride = s.types.sizeOf elem ∨ stride = 0) ∧
      ((s.inUse array).MovesBySize address elem →
        stride = s.types.sizeOf elem) ∧
      ∀ access : Calls.Access, ∃ t, ∀ fuel,
        (Calls.ofFuel (fuel + 1)).element ⟨array, a⟩ ⟨.int32, i⟩ access s =
          .ok ⟨elem, a + n.toNat * if access = .index then s.types.sizeOf elem
            else stride⟩ t := by
  obtain ⟨hsize, hlast⟩ := h.element_lt hs hlive hcapacity hn
  have ha : a < Word.modulus := by
    have hword : Word.modulus = 2 ^ 64 := rfl
    omega
  obtain ⟨u, hmethod, hu, hplain', helem, hsame, hroom', hfirst, hread',
    hkept⟩ :=
    h.exists_first hs haddress hplain hread hroom ha
  -- The operators of addresses may be older than the elements: then they move
  -- by nothing.
  obtain ⟨v, stride, hrun, huv, hv, harena, hstrides, hstride, hmoves⟩ :=
    hplain'.pointsTo.exists_strides hu helem
  rw [hsame] at hstride hmoves
  have hplain'' := hplain'.used hu hrun huv
  rw [← harena] at hroom' hfirst hread'
  have haddr : offsetAddress a n stride = .ok (a + n.toNat * stride) := by
    obtain ⟨m, rfl⟩ := Int.eq_ofNat_of_zero_le hn.1
    rcases hstride with rfl | rfl
    · exact offsetAddress_of_lt hsize hlast
    · exact offsetAddress_of_lt (by decide) (by omega)
  obtain ⟨w, hshift, hstrides', hfollow, hmoved⟩ :=
    hplain''.exists_shift hv hstrides hfirst hread' hscalar haddr hroom'
      (offsetAddress_lt haddr)
  have hthere : ∀ fuel,
      (Calls.ofFuel (fuel + 1)).binaryOperator "+" ⟨address, s.arena.mark⟩
      ⟨.int32, i⟩ u = .ok ⟨address, v.arena.mark⟩ w := fun fuel =>
    (binaryOperator_used hrun hstrides.used _).trans (hshift fuel)
  refine ⟨stride, hstride, fun hsized => hmoves (hkept hsized),
    fun access => ?_⟩
  cases access with
  | index =>
    obtain ⟨t, hrun⟩ := h.index_ok hs hlive hcapacity hn (by simp) hread hscalar
    rw [if_pos rfl]
    exact ⟨t, hrun⟩
  | data =>
    rw [if_neg nofun]
    refine ⟨v, fun fuel => (Eval.bind_ok (hmethod fuel)).trans ?_⟩
    exact (binaryOperator_used hrun hstrides.used _).trans
      (hplain''.index_ok hv hstrides hfirst hread' hscalar haddr fuel)
  | follow =>
    rw [if_neg nofun]
    refine ⟨w, fun fuel => (Eval.bind_ok (hmethod fuel)).trans ?_⟩
    refine (Eval.bind_ok (hthere fuel)).trans ?_
    exact hstrides'.dereference (hfollow.follow _) hmoved _
  | get =>
    rw [if_neg nofun]
    refine ⟨w, fun fuel => (Eval.bind_ok (hmethod fuel)).trans ?_⟩
    refine (Eval.bind_ok (hthere fuel)).trans ?_
    refine Calls.method_ok ((hstrides'.get hfollow.get fuel).trans ?_)
    exact Eval.bind_inspect hmoved

end Accessing

structure ReachesElements (s : Engine) : Prop where
  /-- All ways lead to the element of the index, by the size that the elements
  have, unless the addresses have been used before the elements were complete.
  Then the ways that go by the address of the first element still agree, on that
  address. -/
  agree : ∀ {a i : Value} {elem address : TypeId} {len : Nat} {n : Int},
    s.PlainArray a.type elem len → (s.inUse a.type).addressType? elem =
      some address →
    (s.inUse a.type).PlainAddress address elem → i.type = .int32 →
    s.ReadsAs i n →
    0 ≤ n ∧ n < len → s.arena.inBounds a.addr (s.types.sizeOf a.type) = true →
    s.arena.capacity < 2 ^ 63 → s.arena.mark + 16 ≤ s.arena.capacity →
    ∃ stride, (stride = s.types.sizeOf elem ∨ stride = 0) ∧
      ((s.inUse a.type).MovesBySize address elem →
        stride = s.types.sizeOf elem) ∧
      ∀ access : Calls.Access, ∃ t, ∀ fuel,
        (Calls.ofFuel (fuel + 1)).element a i access s =
        .ok ⟨elem, a.addr + n.toNat * if access = .index then
          s.types.sizeOf elem else stride⟩ t
  /-- They have not been if they have not been used at all. -/
  unused : ∀ {a : Value} {elem address : TypeId} {len : Nat},
    s.PlainArray a.type elem len →
    ((s.inUse a.type).types.get address).initialized = false →
    (s.inUse a.type).MovesBySize address elem
  /-- An address that is moved forth and back again by the same number is the
  same, whatever happens in between. -/
  back : ∀ {p i q j r : Value} {target : TypeId} {n : Int} {fuel fuel' : Nat}
    {t t' u : Engine},
    s.PointsTo p.type target → ¬ s.Declares p.type true "+" [p.type, .int32] →
    i.type = .int32 →
    s.ReadsAs i n → (Calls.ofFuel fuel).binaryOperator "+" p i s = .ok q t →
    t'.Good Stocked → t.Grows t' →
    ¬ t'.Declares p.type true "-" [p.type, .int32] →
    j.type = .int32 → t'.ReadsAs j n → t'.arena.readWord q.addr =
      t.arena.readWord q.addr →
    (Calls.ofFuel fuel').binaryOperator "-" q j t' = .ok r u →
    r.type = p.type ∧ ∃ word, s.arena.readWord p.addr = .ok word ∧
      u.arena.readWord r.addr = .ok word
  /-- An index that is out of bounds is reported with the place of the array. -/
  outside : ∀ {a i : Value} {elem : TypeId} {len : Nat} {kind : CoreKind}
    {n : Int},
    s.PlainArray a.type elem len → kind ∈ [CoreKind.int32, .int64] →
    i.type = kind.typeId →
    s.ReadsAs i n → ¬ (0 ≤ n ∧ n < len) →
    ∃ e t, e.fault = .invalidMemoryAccess a.addr (s.types.sizeOf elem) ∧ ∀ fuel,
      (Calls.ofFuel (fuel + 1)).binaryOperator "[]" a i s = .error (.failed e) t

theorem reachesElements (hs : s.Good Stocked) : s.ReachesElements where
  agree {a i elem address len n} h haddress hplain htype hn hbounds hlive
    hcapacity hroom := by
    obtain ⟨type, addr⟩ := i
    obtain rfl : type = .int32 := htype
    obtain ⟨scalar, hread, hscalar⟩ := hn.represents (hs.inv.core .int32) rfl
    exact h.exists_stride hs haddress hplain hread hroom hlive hcapacity
      hbounds hscalar
  unused {a elem address len} h hunused := by
    obtain ⟨t, ref, first, hrun, -, ht, -⟩ := h.exists_used hs
    have hused : s.inUse a.type = t := Eval.after_ok hrun
    rw [hused] at hunused ⊢
    exact .of_unused ht.inv hunused
  back {p i q j r target n fuel fuel' t t' u} h hplus hi hn hthere ht' hgrows
    hminus hj hn' hkept
      hback := by
    obtain ⟨type, addr⟩ := i
    obtain rfl : type = .int32 := hi
    obtain ⟨type, addr⟩ := j
    obtain rfl : type = .int32 := hj
    exact h.there_and_back hs hplus hthere ht' hgrows hminus hkept hn hn' hback
  outside {a i elem len kind n} h hkind htype hn hbounds := by
    obtain ⟨type, addr⟩ := i
    obtain rfl : type = kind.typeId := htype
    have hinteger : kind.isInteger = true := by
      simp only [List.mem_cons, List.not_mem_nil, or_false] at hkind
      rcases hkind with rfl | rfl <;> rfl
    obtain ⟨scalar, hread, hscalar⟩ := hn.represents (hs.inv.core kind) hinteger
    exact h.index_outside hs hbounds hkind hread hscalar a.addr

end Engine

/-- Elements are where their arrays and the addresses of their arrays say, in
every reachable engine and at any time during a request. -/
theorem Reachable.elements_reached {s : Engine} (hs : Reachable s) :
    s.ReachesElements ∧ ∀ (fuel : Nat) (request : Request), s.Knows request →
      Calls.Throughout Engine.ReachesElements fuel request.perform s :=
  ⟨Engine.reachesElements hs.good, fun fuel _ hrequest =>
    hs.throughout (fun _ => Engine.reachesElements) fuel hrequest⟩

/-! ### Arrays of numbers, and of a class -/

namespace Elements

open Cells
  (node variableOf arrayOf run provides refers undeclared referable reachable)

variable {s : Engine} {array elem address : TypeId} {len : Nat}

def untouched (s : Engine) (array elem address : TypeId) (len : Nat) : Bool :=
  let used := s.inUse array
  array.index < s.types.size && (s.types.get array).array? ==
    some (elem, len) && refers s array &&
    provides s true "[]" array && provides s false "data" array &&
    used.addressType? elem == some address && address.index < used.types.size &&
    (used.types.get address).addressTarget? == some elem &&
    provides used true "[]" address && provides used true "+" address &&
    provides used false "get" address &&
      (used.catalogue.memberList address true "*").isEmpty &&
    (used.operatorCandidates "*").isEmpty

theorem plain (h : untouched s array elem address len = true) :
    s.PlainArray array elem len ∧ (s.inUse array).addressType? elem =
      some address ∧
      (s.inUse array).PlainAddress address elem := by
  simp only [untouched, Bool.and_eq_true, decide_eq_true_eq, beq_iff_eq,
    List.isEmpty_iff] at h
  obtain ⟨⟨⟨⟨⟨⟨⟨⟨⟨⟨⟨⟨hhas, hparts⟩, hrefers⟩, hindex⟩, hdata⟩, haddress⟩,
    hknown⟩, htarget⟩, hmove⟩,
    hshift⟩, hget⟩, hmembers⟩, hfree⟩ := h
  refine ⟨⟨hhas, hparts, referable hrefers, fun _ _ => undeclared hindex,
    undeclared hdata⟩, haddress,
    ⟨hknown, htarget⟩, undeclared hmove, undeclared hshift, undeclared hget,
    fun p => ?_⟩
  refine Engine.operatorFor?_eq_none.2 ⟨fun id hid => ?_, fun id hid => ?_⟩
  · cases (hmembers ▸ hid : id ∈ [])
  · cases (hfree ▸ hid : id ∈ [])

def number (name value : String) : Node :=
  node .variableDefinition name
    [node .typeName "Int32" [],
      node .expression "" [node .integerLiteral value []]]

def row : Engine :=
  run [arrayOf "a" "Int32" "3", number "i" "2", number "j" "3"]

theorem checked_row :
    untouched row ⟨15⟩ .int32 ⟨17⟩ 3 = true ∧
      ((row.inUse ⟨15⟩).types.get ⟨17⟩).initialized = false ∧
      row.lookupVariable "a" = .ok (some ⟨⟨15⟩, 8⟩) ∧
      row.readScalar ⟨.int32, 20⟩ = .ok (.int 2) ∧
      row.readScalar ⟨.int32, 24⟩ = .ok (.int 3) ∧
      row.arena.inBounds 8 (row.types.sizeOf ⟨15⟩) = true ∧
      row.types.sizeOf .int32 = 4 ∧ row.arena.capacity = 128 ∧
      row.arena.mark = 28 := by
  decide +kernel

/-- `h(): Int32 { p: Address<C>; q = p; return 1 }`. -/
def early : Node :=
  node .function "h"
    [node .parameters "" [], node .typeName "Int32" [],
      node .block ""
        [node .variableDefinition "p"
          [node .typeName "Address" [node .typeName "C" []]],
          node .variableDefinition "q"
            [node .expression "" [node .identifier "p" []]],
          node .returnStmt ""
            [node .expression "" [node .integerLiteral "1" []]]]]

/-- `class C { x: Int32; pad: Array<Int32, h()> }`; the length is computed
before `C` is complete. -/
def padded : Node :=
  node .classDecl "C"
    [variableOf "x" "Int32",
      node .variableDefinition "pad"
        [node .typeName "Array" [node .typeName "Int32" [],
          node .expression "" [node .identifier "h" [], node .call "" []]]]]

def pair : Engine := run [early, padded, arrayOf "a" "C" "2", number "i" "1"]

theorem checked_pair :
    untouched pair ⟨20⟩ ⟨15⟩ ⟨16⟩ 2 = true ∧ pair.types.sizeOf ⟨15⟩ = 8 ∧
      pair.lookupVariable "a" = .ok (some ⟨⟨20⟩, 12⟩) ∧
      pair.lookupVariable "i" = .ok (some ⟨.int32, 28⟩) ∧
      pair.readScalar ⟨.int32, 28⟩ = .ok (.int 1) ∧
      pair.arena.mark + 16 ≤ pair.arena.capacity ∧
      ((Calls.ofFuel 1).element ⟨⟨20⟩, 12⟩ ⟨.int32, 28⟩ .index).value? pair =
        some ⟨⟨15⟩, 20⟩ ∧
      ∀ access ∈ [.data, .follow, .get],
        ((Calls.ofFuel 1).element ⟨⟨20⟩, 12⟩ ⟨.int32, 28⟩ access).value? pair =
          some ⟨⟨15⟩, 12⟩ := by
  decide +kernel

end Elements

open Elements in
open Cells (reachable) in
theorem Reachable.elements_reached_row :
    Reachable row ∧ row.lookupVariable "a" = .ok (some ⟨⟨15⟩, 8⟩) ∧
      row.ReadsAs ⟨.int32, 20⟩ 2 ∧ row.ReadsAs ⟨.int32, 24⟩ 3 ∧
      (∀ access, ∃ t, ∀ fuel,
        (Calls.ofFuel (fuel + 1)).element ⟨⟨15⟩, 8⟩ ⟨.int32, 20⟩ access row =
          .ok ⟨.int32, 16⟩ t) ∧
      ∃ e t, e.fault = .invalidMemoryAccess 8 4 ∧ ∀ fuel,
        (Calls.ofFuel (fuel + 1)).binaryOperator "[]" ⟨⟨15⟩, 8⟩
          ⟨.int32, 24⟩ row = .error (.failed e) t := by
  have hreaches : row.ReachesElements := (elements_reached (reachable _)).1
  obtain ⟨huntouched, hunused, ha, hi, hj, hlive, hsize, hcapacity, hmark⟩ :=
    checked_row
  obtain ⟨harray, haddress, hplain⟩ := plain huntouched
  have hinside : row.ReadsAs ⟨.int32, 20⟩ 2 := ⟨_, hi, by decide⟩
  have hbeyond : row.ReadsAs ⟨.int32, 24⟩ 3 := ⟨_, hj, by decide⟩
  refine ⟨reachable _, ha, hinside, hbeyond, ?_, ?_⟩
  · obtain ⟨stride, -, hmoves, hall⟩ :=
      hreaches.agree (a := ⟨⟨15⟩, 8⟩) harray haddress hplain rfl hinside
        (by decide) hlive
        (by rw [hcapacity]; decide) (by rw [hmark, hcapacity]; decide)
    obtain rfl := hmoves (hreaches.unused (a := ⟨⟨15⟩, 8⟩) harray hunused)
    simp only [ite_self, hsize] at hall
    exact hall
  · have hkind : CoreKind.int32 ∈ [CoreKind.int32, .int64] := by decide
    have hout :=
      hreaches.outside (a := ⟨⟨15⟩, 8⟩) harray hkind rfl hbeyond (by decide)
    rwa [hsize] at hout

open Elements in
open Cells (reachable) in
/-- Addresses that have been used before their class was complete are not moved:
of the ways to the second element only the index of the array leads there, and
the others lead to the first one. -/
theorem stride_of_incomplete :
    Reachable pair ∧ pair.PlainArray ⟨20⟩ ⟨15⟩ 2 ∧ pair.types.sizeOf ⟨15⟩ = 8 ∧
      (pair.inUse ⟨20⟩).addressType? ⟨15⟩ = some ⟨16⟩ ∧
      (pair.inUse ⟨20⟩).PlainAddress ⟨16⟩ ⟨15⟩ ∧
      pair.lookupVariable "a" = .ok (some ⟨⟨20⟩, 12⟩) ∧
      pair.lookupVariable "i" = .ok (some ⟨.int32, 28⟩) ∧
      pair.readScalar ⟨.int32, 28⟩ = .ok (.int 1) ∧
      pair.arena.mark + 16 ≤ pair.arena.capacity ∧
      ((Calls.ofFuel 1).element ⟨⟨20⟩, 12⟩ ⟨.int32, 28⟩ .index).value? pair =
        some ⟨⟨15⟩, 20⟩ ∧
      ∀ access ∈ [.data, .follow, .get],
        ((Calls.ofFuel 1).element ⟨⟨20⟩, 12⟩ ⟨.int32, 28⟩ access).value? pair =
          some ⟨⟨15⟩, 12⟩ := by
  obtain ⟨huntouched, hsize, ha, hi, hvalue, hroom, hindex, hothers⟩ :=
    checked_pair
  obtain ⟨harray, haddress, hplain⟩ := plain huntouched
  exact ⟨reachable _, harray, hsize, haddress, hplain, ha, hi, hvalue, hroom,
    hindex, hothers⟩

end ArenaScript
