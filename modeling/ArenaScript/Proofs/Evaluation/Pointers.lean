import ArenaScript.Proofs.Evaluation.Outfits
import ArenaScript.Proofs.Evaluation.Selection
import ArenaScript.Proofs.Evaluation.Temporaries

/-!
# Addresses as values

The operators that move an address are given their stride together with all
other members of its type, when the type is used for the first time: the size
that the target has then.  A target that is complete keeps its size, so the
stride is right from then on.  A target that is not complete yet has no size,
and addresses of it are not moved at all, even when it has been completed.
-/

namespace ArenaScript

open Engine (Good Stocked)
open Catalogue (labelled)

/-! ## Steps of a given size -/

section Offsets

variable {base size addr : Nat} {n : Int}

theorem offsetAddress_eq_ok (h : offsetAddress base n size = .ok addr) :
    (addr : Int) = base + n * size := by
  dsimp only [offsetAddress] at h
  split at h
  · rename_i hfits
    simp only [Bool.and_eq_true, decide_eq_true_eq] at hfits
    cases h
    exact Int.toNat_of_nonneg hfits.2
  · cases h

theorem offsetAddress_of_lt {i : Nat} (hsize : size < 2 ^ 63)
    (h : base + i * size < 2 ^ 63) :
    offsetAddress base i size = .ok (base + i * size) := by
  have hdelta : (i : Int) * Int.ofNat size = ((i * size : Nat) : Int) := by
    push_cast; rfl
  dsimp only [offsetAddress]
  rw [hdelta, if_pos]
  · exact congrArg Except.ok (Int.toNat_natCast _)
  · simp only [Bool.and_eq_true, decide_eq_true_eq, Int.ofNat_eq_natCast]
    omega

theorem offsetAddress_back {word : Nat}
    (hthere : offsetAddress base n size = .ok addr)
    (hback : offsetAddress addr (-n) size = .ok word) : word = base := by
  have hthere := offsetAddress_eq_ok hthere
  have hback := offsetAddress_eq_ok hback
  rw [Int.neg_mul] at hback
  omega

end Offsets

namespace Engine

variable {s t u : Engine} {value : Value} {n : Int}

/-! ## Operands -/

variable {word i p : Nat}

theorem ReadsAs.represents {kind : CoreKind} (h : s.ReadsAs value n)
    (htype : s.IsCore value.type kind) (hinteger : kind.isInteger) :
    ∃ scalar, s.arena.readScalar value.addr kind = .ok scalar ∧
      Scalar.Represents kind n scalar := by
  obtain ⟨scalar, hread, hn⟩ := h
  have hscalar : s.arena.readScalar value.addr kind = .ok scalar := by
    simpa only [readScalar, htype.scalarKind, Bind.bind, Except.bind]
      using hread
  obtain ⟨m, hm⟩ := Arena.exists_represents hinteger hscalar
  obtain rfl := Option.some.inj (hm.integer_eq.symm.trans hn)
  exact ⟨scalar, hscalar, hm⟩

theorem readInt_eq {kind : CoreKind} {scalar : Scalar} (hs : s.Stocked)
    (hkind : kind.isSigned) (hread : s.arena.readScalar i kind = .ok scalar)
    (hn : Scalar.Represents kind n scalar) :
    ∃ v, s.readInt ⟨kind.typeId, i⟩ = .ok v ∧ v.toInt = n := by
  refine ⟨scalar.toInt64, ?_, ?_⟩
  · simp only [Engine.readInt, readScalar, (hs.core kind).scalarKind, Bind.bind,
      Except.bind, hread]
    rfl
  · rw [Scalar.toInt64_eq hn.integer_eq]
    exact CoreKind.wrapInt_of_holds (hn.holds.widen hkind)

theorem shifted_eq {scalar : Scalar} (hs : s.Stocked)
    (hword : s.arena.readWord p = .ok word)
    (hread : s.arena.readScalar i .int32 = .ok scalar)
    (hn : Scalar.Represents .int32 n scalar) (address : TypeId) (stride : Nat)
    (backwards : Bool) :
    s.shifted ⟨address, p⟩ ⟨.int32, i⟩ stride backwards =
      offsetAddress word (if backwards then -n else n) stride := by
  have hholds := hn.holds
  obtain ⟨v, hv, rfl⟩ := readInt_eq hs rfl hread hn
  have hsame : (if backwards then -v else v).toInt = if backwards then -v.toInt
      else v.toInt := by
    cases backwards with
    | false => rfl
    | true =>
      simp only [CoreKind.Holds, CoreKind.isSigned, CoreKind.width,
        CoreKind.size, if_true] at hholds
      simp only [if_true, Int64.toInt_neg]
      exact Int.bmod_eq_of_le (by omega) (by omega)
  have hint : s.readInt ⟨.int32, i⟩ = .ok v := hv
  simp only [shifted, hword, hint, Bind.bind, Except.bind, hsame]

theorem shifted_eq_ok {address : TypeId} {stride addr : Nat} {backwards : Bool}
    (hs : s.Stocked)
    (h : s.shifted ⟨address, p⟩ ⟨.int32, i⟩ stride backwards = .ok addr) :
    ∃ word scalar n, s.arena.readWord p = .ok word ∧
      s.arena.readScalar i .int32 = .ok scalar ∧
      Scalar.Represents .int32 n scalar ∧
      offsetAddress word (if backwards then -n else n) stride = .ok addr := by
  cases hword : s.arena.readWord p with
  | error e => simp [shifted, hword, Bind.bind, Except.bind] at h
  | ok word =>
    have hkind : s.scalarKind .int32 = .ok .int32 := (hs.core .int32).scalarKind
    cases hread : s.arena.readScalar i .int32 with
    | error e =>
      simp [shifted, hword, readInt, readScalar, hkind, hread, Bind.bind,
        Except.bind, Except.map] at h
    | ok scalar =>
      obtain ⟨n, hn⟩ := Arena.exists_represents rfl hread
      exact ⟨word, scalar, n, rfl, rfl, hn,
        (shifted_eq hs hword hread hn address _ _).symm.trans h⟩

/-! ## Types of addresses -/

variable {address target type : TypeId} {stride : Nat} {contents : List UInt8}

structure PointsTo (s : Engine) (address target : TypeId) : Prop where
  has : s.types.Has address
  target : (s.types.get address).addressTarget? = some target

/-- The members that the type has been given move its values by the current size
of the target. -/
def MovesBySize (s : Engine) (address target : TypeId) : Prop :=
  ∀ id ∈ s.catalogue.memberList address true "[]",
    s.catalogue.Provided id address → ∀ size,
    (s.functions.get id).body = .native (.addressIndex target size) →
    size = s.types.sizeOf target

theorem MovesBySize.of_unused (hs : s.Stocked)
    (hunused : (s.types.get address).initialized = false) :
    s.MovesBySize address target := by
  intro id hid hprovided
  have hused := hs.sorted.initialized _ _ _ id hid address hprovided
  exact absurd (hunused.symm.trans hused) Bool.false_ne_true

structure Strides (s : Engine) (address target : TypeId) (stride : Nat) :
    Prop where
  pointsTo : s.PointsTo address target
  initialized : (s.types.get address).initialized = true
  outfit : ∃ u ref other, s.catalogue.Outfit address u ref other ∧
    u.types.sizeOf target = stride

namespace PointsTo

variable (h : s.PointsTo address target)
include h

theorem shape :
    ∃ args, (s.types.get address).shape =
      .template .address (.type target :: args) := by
  have htarget := h.target
  unfold TypeEntry.addressTarget? at htarget
  split at htarget
  · cases htarget
    exact ⟨_, ‹_›⟩
  · cases htarget

theorem complete : (s.types.get address).isComplete = true := by
  obtain ⟨args, hshape⟩ := h.shape
  simp only [TypeEntry.isComplete, hshape]

theorem not_reference : (s.types.get address).referenceTarget? = none := by
  obtain ⟨args, hshape⟩ := h.shape
  simp only [TypeEntry.referenceTarget?, hshape]

theorem ne_void (hs : s.Stocked) : address ≠ .void := by
  obtain ⟨args, hshape⟩ := h.shape
  exact hs.ne_void (by simp [hshape])

theorem grown (hst : s.types.Grown t.types) : t.PointsTo address target where
  has := Nat.lt_of_lt_of_le h.has hst.size
  target := by
    have htarget := congrArg TypeEntry.addressTarget? (hst.entry address h.has)
    rw [TypeEntry.addressTarget?_fixed,
      TypeEntry.addressTarget?_fixed] at htarget
    rw [htarget, h.target]

theorem membersFor (ref other : TypeId) :
    s.membersFor address ref other =
      Member.address address ref target (s.types.sizeOf address)
        (s.types.sizeOf target) := by
  obtain ⟨args, hshape⟩ := h.shape
  simp only [Engine.membersFor, hshape, h.target]
  rfl

end PointsTo

theorem Strides.used (h : s.Strides address target stride) :
    Eval.ensureInitialized address s = .ok () s :=
  ensureInitialized_of_not_pending (by simp [Engine.pending, h.initialized])

theorem PointsTo.of_outfit {ref other : TypeId} (h : s.PointsTo address target)
    (houtfit : s.catalogue.Outfit address u ref other) :
    u.PointsTo address target where
  has := houtfit.has
  target := by
    have htarget := congrArg TypeEntry.addressTarget?
      (houtfit.kept address houtfit.has houtfit.complete).2
    rw [TypeEntry.addressTarget?_fixed,
      TypeEntry.addressTarget?_fixed] at htarget
    rw [← htarget]
    exact h.target

/-- The stride is the size that the target has had then. -/
theorem PointsTo.exists_outfit (hs : s.Good Stocked)
    (h : s.PointsTo address target) (hhas : s.types.Has target) :
    ∃ t u ref other, Eval.ensureInitialized address s = .ok () t ∧
      t.catalogue.Outfit address u ref other ∧
        ((s.types.get address).initialized = true ∧ t = s ∨
          u.types.sizeOf target = s.types.sizeOf target) := by
  cases hpending : s.pending address with
  | false =>
    have hinitialized : (s.types.get address).initialized = true := by
      simpa [Engine.pending, h.complete, h.ne_void hs.inv] using hpending
    obtain ⟨u, ref, other, houtfit⟩ :=
      (hs.inv.furnished address hinitialized).outfit
    exact ⟨s, u, ref, other, ensureInitialized_of_not_pending hpending, houtfit,
      .inl ⟨hinitialized, rfl⟩⟩
  | true =>
    have hopen :
        ((s.types.get address).initialized ||
          !(s.types.get address).isComplete || address = .void) = false := by
      simpa only [Engine.pending, Bool.not_eq_true'] using hpending
    obtain ⟨ref, other, u, hrun, hu, href, hother, hname, hpointer⟩ :=
      exists_provided hs.closed h.has hopen
    refine ⟨_, u, ref, other, hrun, ?_,
      .inr (hu.grown_marked.sizeOf target hhas)⟩
    exact hu.outfit h.has hopen href hother hname hpointer hs.inv.sorted
      hs.inv.formed

/-- A type of addresses is used.  The stride is the current size, or nothing at
all if the type has been used before its target was complete. -/
theorem PointsTo.exists_strides (hs : s.Good Stocked)
    (h : s.PointsTo address target) (hhas : s.types.Has target) :
    ∃ t stride, Eval.ensureInitialized address s = .ok () t ∧ s.Prepares t ∧
      t.Good Stocked ∧
      t.arena = s.arena ∧ t.Strides address target stride ∧
      (stride = s.types.sizeOf target ∨ stride = 0) ∧
      (s.MovesBySize address target → stride = s.types.sizeOf target) := by
  obtain ⟨t, hrun, hst, ht, harena, hinitialized⟩ :=
    exists_prepared hs h.has h.complete (h.ne_void hs.inv)
  obtain ⟨t', u, ref, other, hrun', houtfit, hwhen⟩ := h.exists_outfit hs hhas
  obtain ⟨-, rfl⟩ := EStateM.Result.ok.inj (hrun.symm.trans hrun')
  have hlater := h.grown hst.quiet.grows.types
  refine ⟨t, u.types.sizeOf target, hrun, hst, ht, harena,
    ⟨hlater, hinitialized, u, ref, other, houtfit, rfl⟩, ?_, fun hmoves => ?_⟩
  · by_cases hsized : u.types.Has target ∧
      (u.types.get target).isComplete = true
    · have hsize :=
        TypeEntry.size_of_fixed (houtfit.kept target hsized.1 hsized.2).2
      exact .inl (hsize.symm.trans (hst.quiet.grows.types.sizeOf target hhas))
    · refine .inr ?_
      by_cases hknown : u.types.Has target
      · exact (houtfit.formed target).incomplete
          (by simpa [hknown] using hsized)
      · rw [TypeTable.sizeOf, TypeTable.get_of_not_has hknown]
        rfl
  · rcases hwhen with ⟨-, rfl⟩ | hsize
    · obtain ⟨before, mine, after, hlist, -, -, hmembers⟩ :=
        houtfit.members true "[]"
      rw [(hlater.of_outfit houtfit).membersFor ref other] at hmembers
      have hlabelled :
          labelled (Member.address address ref target (u.types.sizeOf address)
            (u.types.sizeOf target)) true "[]" =
            [.operator "[]" [Member.self address, ⟨"index", .int32⟩] target
              (.addressIndex target (u.types.sizeOf target))] := rfl
      rw [hlabelled] at hmembers
      obtain ⟨id, rest, rfl, hid, -⟩ := List.map_eq_cons_iff.1 hmembers
      refine hmoves id ?_ ?_ _ (congrArg Function.body hid)
      · rw [Catalogue.memberList, hlist]
        simp
      · exact ⟨congrArg Function.owner hid, congrArg (·.traits.synthesized) hid⟩
    · exact hsize

/-! ## Operators -/

theorem binaryOperator_used {receiver rhs : Value} {symbol : String}
    (hrun : Eval.ensureInitialized receiver.type s = .ok () t)
    (hagain : Eval.ensureInitialized receiver.type t = .ok () t) (c : Calls) :
    c.binaryOperator symbol receiver rhs s =
      c.binaryOperator symbol receiver rhs t := by
  have htry : c.tryOperator symbol [receiver, rhs] s =
      c.tryOperator symbol [receiver, rhs] t := by
    rw [Calls.tryOperator, Eval.bind_ok hrun, Eval.bind_ok hagain]
  exact Eval.bind_congr htry

theorem Strides.exists_resolve {operator : Bool} {name : String}
    {args : List TypeId} {m : Member} (h : s.Strides address target stride)
    (hundeclared : ¬ s.Declares address operator name args)
    (hlabelled : ∀ ref size,
      labelled (Member.address address ref target size stride) operator name =
        [m]) (hfits : (m.provided address).fits s.types (.member args) = true) :
    ∃ id, s.functions.resolve s.types
      (s.catalogue.memberList address operator name)
        (.member args) = some id ∧ s.functions.get id = m.provided address := by
  obtain ⟨u, ref, other, houtfit, rfl⟩ := h.outfit
  refine houtfit.exists_resolve hundeclared ?_
  rw [chosen?, (h.pointsTo.of_outfit houtfit).membersFor, hlabelled]
  exact List.find?_cons_of_pos hfits

theorem Strides.adaptArgs_pair (hs : s.Stocked)
    (h : s.Strides address target stride) (name : String) :
    s.adaptArgs [Member.self address, ⟨name, .int32⟩]
      [⟨address, p⟩, ⟨.int32, i⟩] = .ok [⟨address, p⟩, ⟨.int32, i⟩] :=
  adaptArgs_value h.pointsTo.not_reference
    (adaptArgs_value (not_reference_core hs .int32) rfl)

theorem Strides.index (hs : s.Stocked) (h : s.Strides address target stride)
    (hundeclared : ¬ s.Declares address true "[]" [address, .int32]) (n : Nat) :
    (Calls.ofFuel (n + 1)).binaryOperator "[]" ⟨address, p⟩ ⟨.int32, i⟩ s =
      (do
        let addr ← Eval.inspect fun s =>
          s.shifted ⟨address, p⟩ ⟨.int32, i⟩ stride false
        pure (Value.mk target addr)) s := by
  obtain ⟨id, hid, hfunction⟩ := h.exists_resolve hundeclared (fun _ _ => rfl)
    (fits_of_accepts (accepts_self _) (accepts_self _))
  refine (binaryOperator_provided ⟨address, p⟩ h.used hid hfunction
    (Nat.le_refl _) (h.adaptArgs_pair hs "index") n).trans ?_
  simp only [Member.operator, Calls.runNative, List.getD_cons_zero,
    List.getD_cons_succ, bind_assoc, pure_bind]

section Shifting

variable {symbol : String} {backwards : Bool}
  (hsymbol : symbol = "+" ∧ backwards = false ∨ symbol = "-" ∧ backwards = true)
  (hundeclared : ¬ s.Declares address true symbol [address, .int32])
include hsymbol hundeclared

theorem Strides.exists_shift (h : s.Strides address target stride) :
    ∃ id, s.functions.resolve s.types
      (s.catalogue.memberList address true symbol)
        (.member [address, .int32]) = some id ∧
      s.functions.get id = (Member.operator symbol
          [Member.self address, ⟨"offset", .int32⟩] address
          (.shiftAddress address stride backwards)).provided address := by
  refine h.exists_resolve hundeclared ?_
    (fits_of_accepts (accepts_self _) (accepts_self _))
  rcases hsymbol with ⟨rfl, rfl⟩ | ⟨rfl, rfl⟩ <;> exact fun _ _ => rfl

theorem Strides.shift (hs : s.Stocked) (h : s.Strides address target stride)
    (n : Nat) :
    (Calls.ofFuel (n + 1)).binaryOperator symbol ⟨address, p⟩ ⟨.int32, i⟩ s =
      (do
        let addr ← Eval.inspect fun s =>
          s.shifted ⟨address, p⟩ ⟨.int32, i⟩ stride backwards
        Eval.allocAddress address addr) s := by
  obtain ⟨id, hid, hfunction⟩ := h.exists_shift hsymbol hundeclared
  refine (binaryOperator_provided ⟨address, p⟩ h.used hid hfunction
    (Nat.le_refl _) (h.adaptArgs_pair hs "offset") n).trans ?_
  simp only [Member.operator, Calls.runNative, List.getD_cons_zero,
    List.getD_cons_succ, bind_assoc, map_eq_pure_bind, pure_bind, bind_pure]

theorem Strides.shift_eq_ok (hs : s.Stocked)
    (h : s.Strides address target stride) {fuel : Nat} {q : Value}
    (hrun : (Calls.ofFuel fuel).binaryOperator symbol ⟨address, p⟩
      ⟨.int32, i⟩ s = .ok q t) :
    ∃ addr, s.shifted ⟨address, p⟩ ⟨.int32, i⟩ stride backwards = .ok addr ∧
      Eval.allocAddress address addr s = .ok q t := by
  cases fuel with
  | zero =>
    obtain ⟨id, hid, -⟩ := h.exists_shift hsymbol hundeclared
    rw [binaryOperator_exhausted ⟨address, p⟩ h.used hid] at hrun
    cases hrun
  | succ fuel =>
    rw [h.shift hsymbol hundeclared hs] at hrun
    obtain ⟨addr, u, hlook, halloc⟩ := Eval.bind_eq_ok hrun
    obtain ⟨haddr, rfl⟩ := Eval.inspect_eq_ok hlook
    exact ⟨addr, haddr, halloc⟩

end Shifting

theorem Strides.get (h : s.Strides address target stride)
    (hundeclared : ¬ s.Declares address false "get" [address]) (n : Nat) :
    (Calls.ofFuel (n + 1)).callMethod ⟨address, p⟩ "get" [] s =
      (do
        let addr ← Eval.inspect fun s => s.arena.readWord p
        pure (some (Value.mk target addr))) s := by
  obtain ⟨id, hid, hfunction⟩ := h.exists_resolve hundeclared (fun _ _ => rfl)
    ((fits_alone ..).trans (accepts_self _))
  refine (callMethod_provided ⟨address, p⟩ [] h.used hid hfunction
    (Nat.le_refl _) (adaptArgs_value h.pointsTo.not_reference rfl) n).trans ?_
  rfl

theorem Strides.dereference (h : s.Strides address target stride) {word : Nat}
    (hnone : s.operatorFor? "*" ⟨address, p⟩ [⟨address, p⟩] = none)
    (hread : s.arena.readWord p = .ok word) (c : Calls) :
    c.unaryOperator "*" ⟨address, p⟩ s = .ok ⟨target, word⟩ s := by
  have htry : c.tryOperator "*" [⟨address, p⟩] s = .ok none s := by
    rw [Calls.tryOperator, Eval.bind_ok h.used, Eval.bind_read, hnone]
    rfl
  have hstrip : Eval.stripRef ⟨address, p⟩ s = .ok ⟨address, p⟩ s := by
    simp [Eval.stripRef, Eval.inspect, Engine.stripRef,
      h.pointsTo.not_reference]
  have hlast : Calls.dereference ⟨address, p⟩ ⟨address, p⟩ s =
      .ok ⟨target, word⟩ s := by
    rw [Calls.dereference, Eval.bind_read, h.pointsTo.target]
    exact Eval.bind_inspect hread
  rw [Calls.unaryOperator]
  refine (Eval.bind_ok htry).trans ((Eval.bind_ok hstrip).trans ?_)
  rw [if_neg fun hne => hne rfl]
  exact hlast

/-! ## There and back -/

theorem Strides.grows (hs : s.Stocked) (h : s.Strides address target stride)
    (hst : s.Grows t) : t.Strides address target stride where
  pointsTo := h.pointsTo.grown hst.types
  initialized := (hst.catalogue hs.sorted).initialized address h.initialized
  outfit := by
    obtain ⟨u, ref, other, houtfit, hsize⟩ := h.outfit
    exact ⟨u, ref, other, houtfit.grows hs hst, hsize⟩

theorem Strides.puts (h : s.Strides address target stride)
    (hput : s.Puts type contents t) : t.Strides address target stride := by
  rw [hput.same]
  exact ⟨⟨h.pointsTo.has, h.pointsTo.target⟩, h.initialized, h.outfit⟩

theorem PointsTo.sizeOf (hs : s.Stocked) (h : s.PointsTo address target) :
    s.types.sizeOf address = 8 ∧ (s.types.get address).aggregate = false :=
  (hs.formed address).address target h.target

theorem PointsTo.exists_alloc (hs : s.Good Stocked)
    (h : s.PointsTo address target) (hword : word < Word.modulus)
    (hroom : s.arena.mark + 8 ≤ s.arena.capacity) :
    ∃ t, Eval.allocAddress address word s = .ok ⟨address, s.arena.mark⟩ t ∧
      s.Puts address (lowBytes word 8) t ∧ t.arena.frames = s.arena.frames ∧
      t.arena.readWord s.arena.mark = .ok word := by
  obtain ⟨hsize, hplain⟩ := h.sizeOf hs.inv
  obtain ⟨t, halloc, ht⟩ := exists_allocAddress hs h.has hsize word hroom
  exact ⟨t, halloc, ht, ht.frames hplain,
    ht.gains.readWord hs.closed.wellFormed hword⟩

theorem PointsTo.allocAddress_eq_ok (hs : s.Good Stocked)
    (h : s.PointsTo address target) (hword : word < Word.modulus) {q : Value}
    (hrun : Eval.allocAddress address word s = .ok q t) :
    q = ⟨address, s.arena.mark⟩ ∧ s.Puts address (lowBytes word 8) t ∧
      t.arena.readWord s.arena.mark = .ok word := by
  have hroom : s.arena.mark + 8 ≤ s.arena.capacity := by
    obtain ⟨place, u, hplace, -⟩ := Eval.bind_eq_ok hrun
    obtain ⟨arena, hallocate, -⟩ := Eval.onArena_eq_ok hplace
    obtain ⟨contents, hlength, hfits, -⟩ := Arena.allocate_eq_ok hallocate
    rwa [hlength, (h.sizeOf hs.inv).1] at hfits
  obtain ⟨t', halloc, ht, -, hread⟩ := h.exists_alloc hs hword hroom
  obtain ⟨rfl, rfl⟩ := EStateM.Result.ok.inj (halloc.symm.trans hrun)
  exact ⟨rfl, ht, hread⟩

/-- An address that is moved forth and back again by the same number is the
same, whatever its stride is and whatever happens in between. -/
theorem PointsTo.there_and_back (hs : s.Good Stocked)
    (h : s.PointsTo address target)
    (hplus : ¬ s.Declares address true "+" [address, .int32])
    {fuel fuel' j : Nat} {q r : Value}
    (hthere : (Calls.ofFuel fuel).binaryOperator "+" ⟨address, p⟩
      ⟨.int32, i⟩ s = .ok q t) {t' : Engine} (ht' : t'.Good Stocked)
        (hgrows : t.Grows t')
        (hminus : ¬ t'.Declares address true "-" [address, .int32])
    (hkept : t'.arena.readWord q.addr = t.arena.readWord q.addr)
    (hi : s.ReadsAs ⟨.int32, i⟩ n) (hj : t'.ReadsAs ⟨.int32, j⟩ n)
    (hback : (Calls.ofFuel fuel').binaryOperator "-" q ⟨.int32, j⟩ t' =
      .ok r u) :
    r.type = address ∧ ∃ word, s.arena.readWord p = .ok word ∧
      u.arena.readWord r.addr = .ok word := by
  have hhas :=
    TypeEntry.known_addressTarget? (hs.closed.types address) target h.target
  obtain ⟨v, stride, hrun, hsv, hv, harena, hstrides, -, -⟩ :=
    h.exists_strides hs hhas
  rw [binaryOperator_used hrun hstrides.used] at hthere
  obtain ⟨addr, hshifted, halloc⟩ :=
    hstrides.shift_eq_ok (.inl ⟨rfl, rfl⟩) (hsv.undeclared h.has hplus)
      hv.inv hthere
  obtain ⟨word, scalar, m, hword, hread, hm, haddr⟩ :=
    shifted_eq_ok hv.inv hshifted
  obtain ⟨rfl, ht, hmoved⟩ :=
    hstrides.pointsTo.allocAddress_eq_ok hv (offsetAddress_lt haddr) halloc
  obtain ⟨scalar', hread', hn⟩ := hi.represents (hs.inv.core .int32) rfl
  obtain rfl : scalar' = scalar :=
    Except.ok.inj (hread'.symm.trans (harena ▸ hread))
  obtain rfl : m = n := Option.some.inj (hm.integer_eq.symm.trans hn.integer_eq)
  have hstrides' := (hstrides.puts ht).grows ht.good.inv hgrows
  obtain ⟨back, hshifted, halloc⟩ :=
    hstrides'.shift_eq_ok (.inr ⟨rfl, rfl⟩) hminus ht'.inv hback
  obtain ⟨other, hsecond, hother⟩ := hj.represents (ht'.inv.core .int32) rfl
  rw [shifted_eq ht'.inv (hkept.trans hmoved) hsecond hother] at hshifted
  obtain rfl := offsetAddress_back haddr hshifted
  obtain ⟨rfl, -, hresult⟩ :=
    hstrides'.pointsTo.allocAddress_eq_ok ht' (offsetAddress_lt hshifted) halloc
  exact ⟨rfl, back, harena ▸ hword, hresult⟩

/-! ## Operators that are not declared -/

theorem operatorFor?_eq_none {symbol : String} {v : Value} {args : List Value} :
    s.operatorFor? symbol v args = none ↔
      (∀ id ∈ s.catalogue.memberList v.type true symbol,
        (s.functions.get id).fits s.types (.member (args.map Value.type)) =
          false) ∧
      ∀ id ∈ s.operatorCandidates symbol,
        (s.functions.get id).fits s.types (.free (args.map Value.type)) =
          false := by
  have hmembers : (s.membersOf v.type).findOperator symbol =
    s.catalogue.memberList v.type true symbol := rfl
  rw [operatorFor?, hmembers]
  simp only [← Bool.not_eq_true]
  cases hfound :
    s.functions.resolve s.types (s.catalogue.memberList v.type true symbol)
      (.member (args.map Value.type)) with
  | some id =>
    have hfits := (List.find?_eq_some_iff_append.1 hfound).1
    simp only [reduceCtorEq, false_iff, not_and]
    exact fun hall => absurd hfits (hall id (Catalogue.mem_of_resolve hfound))
  | none =>
    have hnone := List.find?_eq_none.1 hfound
    simp only [FunctionTable.resolve, List.find?_eq_none]
    exact ⟨fun h => ⟨hnone, h⟩, And.right⟩

theorem PointsTo.overloads_follow (hs : s.Good Stocked)
    (h : s.PointsTo address target)
    (hrun : Eval.ensureInitialized address s = .ok () t) (scope : ScopeId) :
    t.catalogue.overloads scope true "*" =
      s.catalogue.overloads scope true "*" := by
  cases hpending : s.pending address with
  | false =>
    obtain ⟨-, rfl⟩ :=
      EStateM.Result.ok.inj ((ensureInitialized_of_not_pending
        hpending).symm.trans hrun)
    rfl
  | true =>
    obtain ⟨ref, other, u, hu⟩ := exists_opened hs.closed h.has hpending
    obtain ⟨-, rfl⟩ := EStateM.Result.ok.inj (hu.run.symm.trans hrun)
    have hgrown := (grown_marked s address).trans hu.enlarged.grown
    obtain ⟨later, hlists, hlater⟩ :=
      hu.overloads ⟨hs.closed, hs.inv.sorted⟩ h.has scope true "*"
    have hnone : labelled (u.membersFor address ref other) true "*" = [] := by
      rw [(h.grown hgrown).membersFor]
      rfl
    rw [hnone, List.map_nil, ite_self, List.map_eq_nil_iff] at hlater
    rw [hlists, hlater, List.append_nil]

theorem PointsTo.no_follow (hs : s.Good Stocked) (h : s.PointsTo address target)
    (hrun : Eval.ensureInitialized address s = .ok () t) {p : Nat}
    (hnone : s.operatorFor? "*" ⟨address, p⟩ [⟨address, p⟩] = none) :
    t.operatorFor? "*" ⟨address, p⟩ [⟨address, p⟩] = none := by
  have hsorted : s.Good fun s => s.catalogue.Sorted :=
    ⟨hs.closed, hs.inv.sorted⟩
  obtain ⟨t', hrun', ht⟩ := (Primed.refl hsorted).step hsorted h.has
  obtain ⟨-, rfl⟩ := EStateM.Result.ok.inj (hrun'.symm.trans hrun)
  have hquiet := ht.reached.rel
  have hlists := h.overloads_follow hs hrun
  have hmembers : t'.catalogue.memberList address true "*" =
      s.catalogue.memberList address true "*" := by
    rw [Catalogue.memberList, Catalogue.memberList,
      hquiet.members h.has, hlists]
  have hcandidates : t'.operatorCandidates "*" = s.operatorCandidates "*" := by
    have hfind : (fun id => (t'.scopes.get id).findOperator "*") =
      fun id => (s.scopes.get id).findOperator "*" := funext hlists
    rw [operatorCandidates, operatorCandidates, gather, gather,
      ht.visibleScopes_eq, hfind]
  have hfits : ∀ id : FunctionId, id.index < s.functions.size → ∀ site,
      (t'.functions.get id).fits t'.types site =
        (s.functions.get id).fits s.types site :=
    fun id hid => fits_grown hs.inv.sorted hquiet.grows.types hid
      ((hquiet.grows.catalogue hs.inv.sorted).functions id hid)
  obtain ⟨hown, hfree⟩ := operatorFor?_eq_none.1 hnone
  refine operatorFor?_eq_none.2 ⟨fun id hid => ?_, fun id hid => ?_⟩
  · rw [hmembers] at hid
    rw [hfits id (hs.inv.sorted.listed _ _ _ id hid)]
    exact hown id hid
  · rw [hcandidates] at hid
    obtain ⟨scope, -, hlisted⟩ := List.mem_flatMap.1 (List.mem_eraseDups.1 hid)
    rw [hfits id (hs.inv.sorted.listed scope true "*" id hlisted)]
    exact hfree id hid

end Engine

end ArenaScript
