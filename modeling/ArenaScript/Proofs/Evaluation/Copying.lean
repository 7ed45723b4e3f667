import ArenaScript.Proofs.Arena.Copies
import ArenaScript.Proofs.Evaluation.Preparation

/-!
# Copying

The engine copies what a program does not copy itself: a class field by field,
an array of aggregates element by element, and anything else byte by byte.  Each
of the parts is looked at like the whole, so its type is given its members and
its constructor is chosen in turn.

By induction on the type, a copy has the data of its source, and nothing else
has changed: neither padding, nor bytes elsewhere, nor the frames.  There are
two exceptions.  The parameters of the constructor have the type that is called
a reference to the type, which need not be one; and the size of a class is
computed modulo the size of a word, so that its fields may not fit in it.
-/

namespace ArenaScript

open Engine (Good Stocked)

/-! ## Types whose bytes are copied -/

namespace TypeEntry

/-- Scalars, enumerations, callables, references, addresses and unions: they
have no parts that are copied one by one. -/
def isWhole (e : TypeEntry) : Bool :=
  match e.shape with
  | .core kind => kind != .void
  | .callable _ => true
  | .structural body => body.complete && body.kind != .classKind
  | .template kind _ => kind != .array

variable {t : TypeTable} {e : TypeEntry}

theorem isWhole_fixed (e : TypeEntry) : e.fixed.isWhole = e.isWhole := by
  unfold fixed isWhole
  cases e.shape <;> rfl

theorem isComplete_of_isWhole (h : e.isWhole = true) : e.isComplete = true := by
  unfold isWhole at h
  unfold isComplete
  split at h
  · simp [*]
  · simp [*]
  · rename_i body hshape
    rw [hshape]
    exact (Bool.and_eq_true_iff.1 h).1
  · simp [*]

theorem exists_copying (he : e.Formed t) (h : e.isWhole = true) :
    ∃ native, e.copying? t = some native := by
  unfold isWhole at h
  unfold copying?
  cases hshape : e.shape with
  | core kind =>
      rw [hshape] at h
      cases kind <;> first | exact ⟨_, rfl⟩ | cases h
  | callable kind => exact ⟨_, rfl⟩
  | structural body => exact ⟨_, rfl⟩
  | template kind args =>
      rw [hshape] at h
      cases he.shaped kind args hshape with
      | ref target => exact ⟨.copyReference, by simp [referenceTarget?, hshape]⟩
      | address target =>
          exact ⟨.copyBytes e.size, by simp [addressTarget?, hshape]⟩
      | array elem len => cases h

end TypeEntry

namespace Engine

variable {s t : Engine} {type : TypeId}

theorem parts_whole (hwhole : (s.types.get type).isWhole = true)
    (dst src : Nat) : s.parts ⟨type, dst⟩ ⟨type, src⟩ = none := by
  unfold TypeEntry.isWhole at hwhole
  cases hshape : (s.types.get type).shape with
  | core => simp [parts, TypeEntry.structural?, TypeEntry.array?, hshape]
  | callable => simp [parts, TypeEntry.structural?, TypeEntry.array?, hshape]
  | structural body =>
      rw [hshape] at hwhole
      have hkind : (body.kind == .classKind) = false := by
        simpa using (Bool.and_eq_true_iff.1 hwhole).2
      simp [parts, TypeEntry.structural?, TypeEntry.array?, hshape,
        Option.filter, hkind]
  | template kind args =>
      rw [hshape] at hwhole
      cases kind with
      | array => cases hwhole
      | ref | address =>
          simp [parts, TypeEntry.structural?, TypeEntry.array?, hshape]

theorem runNative_whole (c : Calls) {native : Native}
    (hformed : (s.types.get type).Formed s.types)
    (hwhole : (s.types.get type).isWhole = true)
    (hnative : (s.types.get type).copying? s.types = some native)
    (dst src : Nat) :
    c.runNative native [⟨type, dst⟩, ⟨type, src⟩] s =
      (do
        Eval.onArena (Arena.copy src dst (s.types.sizeOf type))
        pure none) s := by
  have hparts := parts_whole hwhole dst src
  unfold TypeEntry.isWhole at hwhole
  unfold TypeEntry.copying? at hnative
  cases hshape : (s.types.get type).shape with
  | core kind =>
      rw [hshape] at hnative
      cases kind <;> cases hnative <;> rfl
  | callable kind =>
      rw [hshape] at hnative
      cases hnative
      rfl
  | structural body =>
      rw [hshape] at hwhole hnative
      simp only at hnative
      split at hnative
      · cases hnative
        rfl
      · cases hnative
        change (Calls.memberwise c.copyConstruct ⟨type, dst⟩ ⟨type, src⟩ >>=
          fun _ => pure none) s = _
        simp only [Calls.memberwise, Bind.bind, EStateM.bind, Eval.read, hparts]
  | template kind args =>
      rw [hshape] at hwhole hnative
      cases kind with
      | ref =>
          obtain ⟨target, htarget, heq⟩ := Option.map_eq_some_iff.1 hnative
          cases heq
          rw [TypeTable.sizeOf, hformed.reference target htarget]
          rfl
      | address =>
          obtain ⟨target, -, heq⟩ := Option.map_eq_some_iff.1 hnative
          cases heq
          rfl
      | array => cases hwhole

inductive PlainType (s : Engine) : TypeId → Prop
  | whole {type : TypeId} (hvoid : type ≠ .void)
      (hwhole : (s.types.get type).isWhole = true)
      (hundeclared : ¬ s.DeclaresCopying type) : PlainType s type
  | array {type elem : TypeId} {len : Nat} (hvoid : type ≠ .void)
      (hparts : (s.types.get type).array? = some (elem, len))
      (helem : PlainType s elem) (hundeclared : ¬ s.DeclaresCopying type) :
      PlainType s type
  | record {type : TypeId} {body : Structural} (hvoid : type ≠ .void)
      (hshape : (s.types.get type).shape = .structural body)
      (hcomplete : body.complete = true) (hkind : body.kind = .classKind)
      (hfields : ∀ field ∈ body.fields, PlainType s field.type)
      (hundeclared : ¬ s.DeclaresCopying type) : PlainType s type

/-- The offsets at which a value has data; the other bytes of the value are
padding. -/
inductive Data (s : Engine) : TypeId → Nat → Prop
  | whole {type : TypeId} {i : Nat} (hwhole : (s.types.get type).isWhole = true)
      (hi : i < s.types.sizeOf type) : Data s type i
  | element {type elem : TypeId} {len k i : Nat}
      (hparts : (s.types.get type).array? = some (elem, len)) (hk : k < len)
      (hi : Data s elem i) : Data s type (k * s.types.sizeOf elem + i)
  | field {type : TypeId} {body : Structural} {field : Field} {i : Nat}
      (hshape : (s.types.get type).shape = .structural body)
      (hkind : body.kind = .classKind) (hfield : field ∈ body.fields)
      (hi : Data s field.type i) : Data s type (field.offset + i)

inductive Visits (s : Engine) : TypeId → TypeId → Prop
  | self (type : TypeId) : Visits s type type
  | element {type elem part : TypeId} {len : Nat}
      (hparts : (s.types.get type).array? = some (elem, len)) (hlen : 0 < len)
      (haggregate : (s.types.get elem).aggregate = true)
      (h : Visits s elem part) :
      Visits s type part
  | field {type part : TypeId} {body : Structural} {field : Field}
      (hshape : (s.types.get type).shape = .structural body)
      (hkind : body.kind = .classKind) (hfield : field ∈ body.fields)
      (h : Visits s field.type part) : Visits s type part

def FitsWord (s : Engine) (type : TypeId) : Prop :=
  ∀ body, (s.types.get type).shape = .structural body → body.kind = .classKind →
    Layout.exactSize s.types.extentOf .classKind body.fields < Word.modulus

/-- For all parts that are copied one by one, the type that is called a
reference to the part is one, and if the part is a class its size has not been
wrapped around. -/
def Unobstructed (s : Engine) (type : TypeId) : Prop :=
  ∀ part, s.Visits type part → s.types.Referable part ∧ s.FitsWord part

theorem PlainType.has (h : s.PlainType type) : s.types.Has type := by
  refine Classical.byContradiction fun hnot => ?_
  have hget := TypeTable.get_of_not_has hnot
  cases h with
  | whole _ hwhole _ =>
      rw [hget] at hwhole
      cases hwhole
  | array _ hparts _ _ =>
      rw [hget] at hparts
      cases hparts
  | record _ hshape _ _ _ _ =>
      rw [hget] at hshape
      cases hshape

theorem PlainType.isComplete (h : s.PlainType type) :
    (s.types.get type).isComplete = true := by
  cases h with
  | whole _ hwhole _ => exact TypeEntry.isComplete_of_isWhole hwhole
  | array _ hparts _ _ =>
      obtain ⟨n, hshape⟩ := TypeEntry.array?_eq_some hparts
      simp only [TypeEntry.isComplete, hshape]
  | record _ hshape hcomplete _ _ _ =>
      simp only [TypeEntry.isComplete, hshape, hcomplete]

theorem PlainType.ne_void (h : s.PlainType type) : type ≠ .void := by
  cases h <;> assumption

theorem PlainType.undeclared (h : s.PlainType type) :
    ¬ s.DeclaresCopying type := by
  cases h <;> assumption

/-! ## Where data is -/

theorem data_whole (hwhole : (s.types.get type).isWhole = true) {i : Nat} :
    s.Data type i ↔ i < s.types.sizeOf type := by
  refine ⟨fun h => ?_, .whole hwhole⟩
  cases h with
  | whole _ hi => exact hi
  | element hparts _ _ =>
      obtain ⟨n, hshape⟩ := TypeEntry.array?_eq_some hparts
      simp [TypeEntry.isWhole, hshape] at hwhole
  | field hshape hkind _ _ => simp [TypeEntry.isWhole, hshape, hkind] at hwhole

theorem data_array {elem : TypeId} {len : Nat}
    (hparts : (s.types.get type).array? = some (elem, len)) {i : Nat} :
    s.Data type i ↔ ∃ k < len, ∃ j, s.Data elem j ∧
      i = k * s.types.sizeOf elem + j := by
  obtain ⟨n, hshape⟩ := TypeEntry.array?_eq_some hparts
  constructor
  · intro h
    cases h with
    | whole hwhole _ => simp [TypeEntry.isWhole, hshape] at hwhole
    | element hparts' hk hi =>
        rw [hparts] at hparts'
        cases hparts'
        exact ⟨_, hk, _, hi, rfl⟩
    | field hshape' _ _ _ =>
        rw [hshape] at hshape'
        cases hshape'
  · rintro ⟨k, hk, j, hj, rfl⟩
    exact .element hparts hk hj

theorem data_class {body : Structural}
    (hshape : (s.types.get type).shape = .structural body)
    (hkind : body.kind = .classKind) {i : Nat} :
    s.Data type i ↔ ∃ field ∈ body.fields, ∃ j, s.Data field.type j ∧
      i = field.offset + j := by
  constructor
  · intro h
    cases h with
    | whole hwhole _ => simp [TypeEntry.isWhole, hshape, hkind] at hwhole
    | element hparts _ _ =>
        obtain ⟨n, hshape'⟩ := TypeEntry.array?_eq_some hparts
        rw [hshape] at hshape'
        cases hshape'
    | field hshape' _ hfield hi =>
        rw [hshape] at hshape'
        cases hshape'
        exact ⟨_, hfield, _, hi, rfl⟩
  · rintro ⟨field, hfield, j, hj, rfl⟩
    exact .field hshape hkind hfield hj

/-! ## What is copied one by one -/

theorem visits_whole {part : TypeId}
    (hwhole : (s.types.get type).isWhole = true) (h : s.Visits type part) :
    part = type := by
  cases h with
  | self => rfl
  | element hparts _ _ _ =>
      obtain ⟨n, hshape⟩ := TypeEntry.array?_eq_some hparts
      simp [TypeEntry.isWhole, hshape] at hwhole
  | field hshape hkind _ _ => simp [TypeEntry.isWhole, hshape, hkind] at hwhole

theorem visits_array {elem part : TypeId} {len : Nat}
    (hparts : (s.types.get type).array? = some (elem, len))
    (h : s.Visits type part) : part = type ∨ s.Visits elem part := by
  cases h with
  | self => exact .inl rfl
  | element hother _ _ hpart =>
      rw [hparts] at hother
      cases hother
      exact .inr hpart
  | field hother _ _ _ =>
      obtain ⟨n, hshape⟩ := TypeEntry.array?_eq_some hparts
      rw [hshape] at hother
      cases hother

theorem visits_record {body : Structural} {part : TypeId}
    (hshape : (s.types.get type).shape = .structural body)
    (h : s.Visits type part) :
    part = type ∨ ∃ field ∈ body.fields, s.Visits field.type part := by
  cases h with
  | self => exact .inl rfl
  | element hparts _ _ _ =>
      obtain ⟨n, hother⟩ := TypeEntry.array?_eq_some hparts
      rw [hshape] at hother
      cases hother
  | field hother _ hfield hpart =>
      rw [hshape] at hother
      cases hother
      exact .inr ⟨_, hfield, hpart⟩

theorem PlainType.data_flat (h : s.PlainType type) (hs : s.types.Formed)
    (hflat : (s.types.get type).aggregate = false) {i : Nat} :
    s.Data type i ↔ i < s.types.sizeOf type := by
  induction h generalizing i with
  | whole _ hwhole _ => exact data_whole hwhole
  | @array type elem len _ hparts _ _ ih =>
      obtain ⟨-, -, hsize, haggregate⟩ := (hs type).array elem len hparts
      have hdata : ∀ {j}, s.Data elem j ↔ j < s.types.sizeOf elem :=
        ih (haggregate.symm.trans hflat)
      have htotal : s.types.sizeOf type = s.types.sizeOf elem * len := hsize
      rw [data_array hparts, htotal]
      constructor
      · rintro ⟨k, hk, j, hj, rfl⟩
        have hbound := hdata.1 hj
        calc k * s.types.sizeOf elem + j < k * s.types.sizeOf elem +
          s.types.sizeOf elem := by omega
          _ = (k + 1) * s.types.sizeOf elem := (Nat.succ_mul ..).symm
          _ ≤ len * s.types.sizeOf elem := Nat.mul_le_mul_right _ hk
          _ = s.types.sizeOf elem * len := Nat.mul_comm ..
      · intro hi
        have hpositive : 0 < s.types.sizeOf elem := Nat.pos_of_lt_mul_right hi
        refine ⟨i / s.types.sizeOf elem, ?_, i % s.types.sizeOf elem, ?_, ?_⟩
        · exact Nat.div_lt_of_lt_mul hi
        · exact hdata.2 (Nat.mod_lt _ hpositive)
        · rw [Nat.mul_comm, Nat.div_add_mod]
  | @record type body _ hshape _ hkind _ _ _ =>
      have hrecord :=
        (hs type).record (by simp [TypeEntry.isRecord, hshape, hkind])
      rw [hflat] at hrecord
      cases hrecord

/-! ## Values that have parts -/

def pairsAt (dst src : Nat) (pieces : List (Nat × TypeId)) :
    List (Value × Value) :=
  pieces.map fun piece => (⟨piece.2, dst + piece.1⟩, ⟨piece.2, src + piece.1⟩)

/-- With fuel `n`, values of the type are copied from any engine that `base`
leads to. -/
def CanCopy (base : Engine) (n : Nat) (type : TypeId) : Prop :=
  ∀ s : Engine, base.Prepares s → s.Good Stocked → ∀ dst src,
    s.arena.Apart dst src (base.types.sizeOf type) →
      ∃ t, (Calls.ofFuel n).copyConstruct ⟨type, dst⟩ ⟨type, src⟩ s = .ok () t ∧
        s.Prepares t ∧
        t.Good Stocked ∧ s.arena.Copied (base.Data type) dst src t.arena

theorem exists_pieces {base : Engine} {n total : Nat}
    {pieces : List (Nat × TypeId)}
    (hpieces : ∀ piece ∈ pieces, base.CanCopy n piece.2)
    (hdata : ∀ piece ∈ pieces, ∀ i, base.Data piece.2 i →
      i < base.types.sizeOf piece.2)
        (hordered : pieces.Pairwise fun p q =>
          p.1 + base.types.sizeOf p.2 ≤ q.1)
    (hinside : ∀ piece ∈ pieces, piece.1 + base.types.sizeOf piece.2 ≤ total)
    (hs : base.Prepares s) (hgood : s.Good Stocked) {dst src : Nat}
    (hapart : s.arena.Apart dst src total) :
    ∃ t, (pairsAt dst src pieces).forM
        (fun pair => (Calls.ofFuel n).copyConstruct pair.1 pair.2) s =
          .ok () t ∧
      s.Prepares t ∧ t.Good Stocked ∧ s.arena.Copied
        (fun i => ∃ piece ∈ pieces, ∃ j, base.Data piece.2 j ∧
          i = piece.1 + j) dst src
        t.arena := by
  induction pieces generalizing s with
  | nil => exact ⟨s, rfl, .refl s, hgood,
    ⟨fun i hi => by simp at hi, fun _ _ => rfl⟩⟩
  | cons piece rest ih =>
      obtain ⟨hpiece, hpieces⟩ := List.forall_mem_cons.1 hpieces
      obtain ⟨hfirst, hdata⟩ := List.forall_mem_cons.1 hdata
      obtain ⟨hbefore, hordered⟩ := List.pairwise_cons.1 hordered
      obtain ⟨hroom, hinside⟩ := List.forall_mem_cons.1 hinside
      obtain ⟨t, hrun, hst, ht, hcopied⟩ :=
        hpiece s hs hgood _ _ (hapart.piece hroom)
      obtain ⟨u, hrest, htu, hu, hcopied'⟩ :=
        ih hpieces hdata hordered hinside (hs.trans hst) ht
        (hapart.congr hst.mark)
      refine ⟨u, ?_, hst.trans htu, hu, ?_⟩
      · exact (Eval.bind_ok hrun).trans hrest
      · have hall := hcopied.shift.append hcopied' ?_ ?_
        · exact hall.congr fun i => by simp
        · rintro i ⟨j, hj, rfl⟩ i' ⟨q, hq, j', -, rfl⟩
          have hlt := hfirst j hj
          have hle := hbefore q hq
          omega
        · rintro i ⟨j, hj, rfl⟩ i' ⟨q, hq, j', hj', rfl⟩
          have hlt := hfirst j hj
          have hlt' := hdata q hq j' hj'
          have hle := hinside q hq
          have hdisjoint := hapart.disjoint
          omega

theorem parts_record {body : Structural} (dst src : Nat)
    (hshape : (s.types.get type).shape = .structural body)
    (hkind : body.kind = .classKind) :
    s.parts ⟨type, dst⟩ ⟨type, src⟩ = some (body.fields.map fun field =>
      (⟨field.type, Word.add dst field.offset⟩,
        ⟨field.type, Word.add src field.offset⟩)) := by
  simp only [parts, TypeEntry.structural?, hshape, Option.filter, hkind,
    BEq.rfl, if_true, Value.view]

theorem parts_class {body : Structural} {dst src total : Nat}
    (hshape : (s.types.get type).shape = .structural body)
    (hkind : body.kind = .classKind)
    (hinside : ∀ field ∈ body.fields, field.offset ≤ total)
    (hdst : dst + total < Word.modulus) (hsrc : src + total < Word.modulus) :
    s.parts ⟨type, dst⟩ ⟨type, src⟩ =
      some (pairsAt dst src
        (body.fields.map fun field => (field.offset, field.type))) := by
  rw [parts_record dst src hshape hkind, pairsAt, List.map_map]
  refine congrArg some (List.map_congr_left fun field hfield => ?_)
  have hoffset := hinside field hfield
  rw [Word.add_of_lt (by omega), Word.add_of_lt (by omega)]
  rfl

theorem parts_elements {elem : TypeId} {len : Nat} (dst src : Nat)
    (hparts : (s.types.get type).array? = some (elem, len)) :
    s.parts ⟨type, dst⟩ ⟨type, src⟩ = some ((List.range len).map fun i =>
      (s.element ⟨type, dst⟩ elem i, s.element ⟨type, src⟩ elem i)) := by
  obtain ⟨n, hshape⟩ := TypeEntry.array?_eq_some hparts
  have hnone : (s.types.get type).structural? = none := by
    simp only [TypeEntry.structural?, hshape]
  simp only [parts, hnone, Option.filter, hparts, Option.map_some]

theorem parts_array {elem : TypeId} {len dst src : Nat}
    (hparts : (s.types.get type).array? = some (elem, len))
    (hdst : dst + s.types.sizeOf elem * len < Word.modulus)
    (hsrc : src + s.types.sizeOf elem * len < Word.modulus) :
    s.parts ⟨type, dst⟩ ⟨type, src⟩ = some (pairsAt dst src
      ((List.range len).map fun i => (i * s.types.sizeOf elem, elem))) := by
  rw [parts_elements dst src hparts, pairsAt, List.map_map]
  refine congrArg some (List.map_congr_left fun i hi => ?_)
  have hle : i * s.types.sizeOf elem ≤ s.types.sizeOf elem * len := by
    rw [Nat.mul_comm]
    exact Nat.mul_le_mul_left _ (Nat.le_of_lt (List.mem_range.1 hi))
  have hmul : Word.mul i (s.types.sizeOf elem) = i * s.types.sizeOf elem :=
    Word.wrap_of_lt (by omega)
  simp only [element, Value.view, hmul, Function.comp_apply]
  rw [Word.add_of_lt (by omega), Word.add_of_lt (by omega)]

section CanCopy

variable {base : Engine} {native : Native} {n : Nat}

theorem PlainType.exists_native (h : base.PlainType type) (hbase : base.Closed)
    (hreferable : base.types.Referable type)
    (hnative : (base.types.get type).copying? base.types = some native)
    (hs : base.Prepares s) (hgood : s.Good Stocked) (dst src : Nat) :
    ∃ t, s.Prepares t ∧ t.Good Stocked ∧ t.arena = s.arena ∧ ∀ n,
      (Calls.ofFuel (n + 2)).copyConstruct ⟨type, dst⟩ ⟨type, src⟩ s =
        (do
          let _ ← (Calls.ofFuel n).runNative native [⟨type, dst⟩, ⟨type, src⟩]
          pure ()) t := by
  have hgrown := hs.quiet.grows.types
  refine exists_copyConstruct hgood (Nat.lt_of_lt_of_le h.has hgrown.size) ?_
    h.ne_void
    (hs.undeclared h.has h.undeclared) (hs.referable type h.has hreferable)
      ?_ dst src
  · rw [hgrown.isComplete h.has, h.isComplete]
  · rw [hs.copying hbase h.has, hnative]

theorem PlainType.canCopy_bytes (h : base.PlainType type) (hbase : base.Closed)
    (hreferable : base.types.Referable type)
    (hnative : (base.types.get type).copying? base.types = some native)
    (hdata : ∀ {i}, base.Data type i ↔ i < base.types.sizeOf type)
    (hrun : ∀ t : Engine, base.Prepares t → t.Good Stocked →
      ∀ (c : Calls) (dst src : Nat),
      c.runNative native [⟨type, dst⟩, ⟨type, src⟩] t =
        (do
          Eval.onArena (Arena.copy src dst (base.types.sizeOf type))
          pure none) t) : base.CanCopy (n + 2) type := by
  intro s hs hgood dst src hapart
  obtain ⟨t, hst, ht, harena, hcopy⟩ :=
    h.exists_native hbase hreferable hnative hs hgood dst src
  rw [← harena] at hapart
  obtain ⟨bytes, hbytes, hcopied⟩ := hapart.exists_copy ht.closed.wellFormed
  have hstore : Eval.onArena (Arena.copy src dst (base.types.sizeOf type)) t =
      .ok () { t with arena := { t.arena with bytes } } := by
    simp only [Eval.onArena, hbytes]
  have hreached := (Sound.copy ht src dst (base.types.sizeOf type)).reached
  rw [Eval.after_ok hstore] at hreached
  refine ⟨_, ?_, hst.trans ⟨hreached.rel, rfl, fun _ h => h, fun _ _ h => h⟩,
    hreached.good, ?_⟩
  · rw [hcopy n]
    simp only [Bind.bind, EStateM.bind, hrun t (hs.trans hst) ht, hstore]
    rfl
  · rw [← harena]
    exact hcopied.congr fun i => hdata.symm

/-- The values of a type are copied part by part, and these are the parts: where
they begin, in order, and of what types they are. -/
structure MadeOf (base : Engine) (type : TypeId)
    (pieces : List (Nat × TypeId)) : Prop where
  native : (base.types.get type).copying? base.types = some .copyMembers
  ordered : pieces.Pairwise fun p q => p.1 + base.types.sizeOf p.2 ≤ q.1
  inside : ∀ piece ∈ pieces, piece.1 + base.types.sizeOf piece.2 ≤
    base.types.sizeOf type
  data : ∀ i, base.Data type i ↔ ∃ piece ∈ pieces, ∃ j, base.Data piece.2 j ∧
    i = piece.1 + j
  parts : ∀ t : Engine, base.Prepares t → ∀ dst src,
    dst + base.types.sizeOf type < Word.modulus → src + base.types.sizeOf type <
      Word.modulus →
      t.parts ⟨type, dst⟩ ⟨type, src⟩ = some (pairsAt dst src pieces)

theorem PlainType.canCopy_pieces (h : base.PlainType type) (hbase : base.Closed)
    (hreferable : base.types.Referable type) {pieces : List (Nat × TypeId)}
    (hmade : base.MadeOf type pieces)
    (hpieces : ∀ piece ∈ pieces, base.CanCopy n piece.2)
    (hlt : ∀ piece ∈ pieces, ∀ i, base.Data piece.2 i →
      i < base.types.sizeOf piece.2) : base.CanCopy (n + 2) type := by
  intro s hs hgood dst src hapart
  obtain ⟨t, hst, ht, harena, hcopy⟩ :=
    h.exists_native hbase hreferable hmade.native hs hgood dst src
  rw [← harena] at hapart
  have hword : ∀ {addr}, t.arena.inBounds addr (base.types.sizeOf type) = true →
      addr + base.types.sizeOf type < Word.modulus := by
    intro addr hin
    have hmark := ht.closed.mark_lt
    simp only [Arena.inBounds, Bool.and_eq_true, decide_eq_true_eq] at hin
    omega
  have hviews :=
    hmade.parts t (hs.trans hst) dst src (hword hapart.target)
      (hword hapart.source)
  obtain ⟨u, hrun, htu, hu, hcopied⟩ :=
    exists_pieces hpieces hlt hmade.ordered hmade.inside
      (hs.trans hst) ht hapart
  refine ⟨u, ?_, hst.trans htu, hu, ?_⟩
  · have hmembers : Calls.memberwise (Calls.ofFuel n).copyConstruct ⟨type, dst⟩
        ⟨type, src⟩ t = .ok () u := by
      rw [Calls.memberwise, Eval.bind_read, hviews]
      exact hrun
    rw [hcopy n]
    have hnone :
        (Calls.ofFuel n).runNative .copyMembers [⟨type, dst⟩, ⟨type, src⟩] t =
        .ok none u := Eval.bind_ok hmembers
    simp only [Bind.bind, EStateM.bind, hnone]
    rfl
  · rw [← harena]
    exact hcopied.congr fun i => (hmade.data i).symm

structure Copyable (base : Engine) (type : TypeId) : Prop where
  inside : ∀ i, base.Data type i → i < base.types.sizeOf type
  eventually : ∃ depth, ∀ n, depth ≤ n → base.CanCopy n type

theorem copyable_whole (h : base.PlainType type) (hbase : base.Good Stocked)
    (hreferable : base.types.Referable type)
    (hwhole : (base.types.get type).isWhole = true) : base.Copyable type := by
  refine ⟨fun i hi => (data_whole hwhole).1 hi, 2, fun n hn => ?_⟩
  obtain ⟨m, rfl⟩ := Nat.exists_eq_add_of_le' hn
  obtain ⟨native, hnative⟩ :=
    TypeEntry.exists_copying (hbase.inv.formed type) hwhole
  refine h.canCopy_bytes hbase.closed hreferable hnative (data_whole hwhole) ?_
  intro t hbt ht c dst src
  have hsize := hbt.quiet.grows.types.sizeOf type h.has
  have hwhole' : (t.types.get type).isWhole = true := by
    rw [← TypeEntry.isWhole_fixed, hbt.fixed h.has,
      TypeEntry.isWhole_fixed, hwhole]
  rw [← hsize]
  exact runNative_whole c (ht.inv.formed type) hwhole'
    ((hbt.copying hbase.closed h.has).trans hnative) dst src

theorem copying?_array {elem : TypeId} {len : Nat}
    (hparts : (base.types.get type).array? = some (elem, len)) :
    (base.types.get type).copying? base.types = some
      (if (base.types.get elem).aggregate then .copyMembers
        else .copyBytes (base.types.sizeOf type)) := by
  obtain ⟨k, hshape⟩ := TypeEntry.array?_eq_some hparts
  simp only [TypeEntry.copying?, hshape, hparts, Option.map_some,
    TypeTable.sizeOf]

theorem copyable_flat_array {elem : TypeId} {len : Nat}
    (h : base.PlainType type) (hbase : base.Good Stocked)
    (hreferable : base.types.Referable type)
    (hparts : (base.types.get type).array? = some (elem, len))
    (hflat : (base.types.get elem).aggregate = false) : base.Copyable type := by
  have hdata : ∀ {i}, base.Data type i ↔ i < base.types.sizeOf type := by
    refine h.data_flat hbase.inv.formed ?_
    rw [((hbase.inv.formed type).array elem len hparts).2.2.2, hflat]
  refine ⟨fun i => hdata.1, 2, fun n hn => ?_⟩
  obtain ⟨m, rfl⟩ := Nat.exists_eq_add_of_le' hn
  have hnative := copying?_array hparts
  rw [hflat] at hnative
  exact h.canCopy_bytes hbase.closed hreferable hnative hdata
    fun _ _ _ _ _ _ => rfl

/-- Finitely many types that can be copied have a depth in common. -/
theorem exists_depth {pieces : List (Nat × TypeId)}
    (hcopyable : ∀ piece ∈ pieces, base.Copyable piece.2) :
    ∃ depth, ∀ n, depth ≤ n → ∀ piece ∈ pieces, base.CanCopy n piece.2 := by
  induction pieces with
  | nil => exact ⟨0, fun _ _ => nofun⟩
  | cons piece rest ih =>
      rw [List.forall_mem_cons] at hcopyable
      obtain ⟨first, hfirst⟩ := hcopyable.1.eventually
      obtain ⟨others, hothers⟩ := ih hcopyable.2
      refine ⟨max first others, fun n hn => ?_⟩
      rw [List.forall_mem_cons]
      exact ⟨hfirst n (by omega), hothers n (by omega)⟩

theorem PlainType.copyable_pieces (h : base.PlainType type)
    (hbase : base.Closed) (hreferable : base.types.Referable type)
    {pieces : List (Nat × TypeId)} (hmade : base.MadeOf type pieces)
    (hcopyable : ∀ piece ∈ pieces, base.Copyable piece.2) :
    base.Copyable type := by
  have hwithin : ∀ piece ∈ pieces, ∀ i, base.Data piece.2 i →
      i < base.types.sizeOf piece.2 :=
    fun piece hpiece => (hcopyable piece hpiece).inside
  obtain ⟨depth, hdepth⟩ := exists_depth hcopyable
  refine ⟨fun i hi => ?_, depth + 2, fun n hn => ?_⟩
  · obtain ⟨piece, hpiece, j, hj, rfl⟩ := (hmade.data i).1 hi
    have hlt := hwithin piece hpiece j hj
    have hle := hmade.inside piece hpiece
    omega
  · obtain ⟨m, rfl⟩ :=
      Nat.exists_eq_add_of_le' (Nat.le_trans (Nat.le_add_left 2 depth) hn)
    exact h.canCopy_pieces hbase hreferable hmade (hdepth m (by omega)) hwithin

theorem madeOf_array {elem : TypeId} {len : Nat} (h : base.PlainType type)
    (hbase : base.Good Stocked)
    (hparts : (base.types.get type).array? = some (elem, len))
    (haggregate : (base.types.get elem).aggregate = true) :
    base.MadeOf type
      ((List.range len).map fun k => (k * base.types.sizeOf elem, elem)) := by
  obtain ⟨hhas, -, hsize, -⟩ := (hbase.inv.formed type).array elem len hparts
  have htotal : base.types.sizeOf type = base.types.sizeOf elem * len := hsize
  have hroom : ∀ {k j : Nat}, k < j →
      k * base.types.sizeOf elem + base.types.sizeOf elem ≤
        j * base.types.sizeOf elem := by
    intro k j hkj
    rw [← Nat.succ_mul]
    exact Nat.mul_le_mul_right _ hkj
  constructor
  case native => rw [copying?_array hparts, haggregate, if_pos rfl]
  case ordered => exact List.pairwise_map.2 (List.pairwise_lt_range.imp hroom)
  case inside =>
    intro piece hpiece
    obtain ⟨k, hk, rfl⟩ := List.mem_map.1 hpiece
    rw [htotal, Nat.mul_comm _ len]
    exact hroom (List.mem_range.1 hk)
  case data =>
    intro i
    rw [data_array hparts]
    simp
  case parts =>
    -- The pieces are measured in `base`, the parts in `t`, where the sizes are
    -- the same.
    intro t hbt dst src hdst hsrc
    have hgrown := hbt.quiet.grows.types
    have hsame := hgrown.sizeOf elem hhas
    rw [htotal, ← hsame] at hdst hsrc
    rw [← hsame]
    refine parts_array ?_ hdst hsrc
    rw [hgrown.array? h.has, hparts]

theorem copyable_aggregate_array {elem : TypeId} {len : Nat}
    (h : base.PlainType type) (hbase : base.Good Stocked)
    (hreferable : base.types.Referable type)
    (hparts : (base.types.get type).array? = some (elem, len))
    (haggregate : (base.types.get elem).aggregate = true)
    (helem : 0 < len → base.Copyable elem) : base.Copyable type := by
  have hmade := madeOf_array h hbase hparts haggregate
  refine h.copyable_pieces hbase.closed hreferable hmade fun piece hpiece => ?_
  obtain ⟨k, hk, rfl⟩ := List.mem_map.1 hpiece
  exact helem (Nat.zero_lt_of_lt (List.mem_range.1 hk))

theorem madeOf_class {body : Structural} (h : base.PlainType type)
    (hbase : base.Good Stocked)
    (hshape : (base.types.get type).shape = .structural body)
    (hcomplete : body.complete = true) (hkind : body.kind = .classKind)
    (hfits : base.FitsWord type) :
    base.MadeOf type
      (body.fields.map fun field => (field.offset, field.type)) := by
  have hlayout :=
    hbase.inv.formed.classLayout hshape hcomplete hkind
      (hfits body hshape hkind)
  constructor
  case native => simp [TypeEntry.copying?, hshape, hkind]
  case ordered => exact List.pairwise_map.2 hlayout.ordered
  case inside =>
    intro piece hpiece
    obtain ⟨field, hfield, rfl⟩ := List.mem_map.1 hpiece
    exact hlayout.inside hfield
  case data =>
    intro i
    rw [data_class hshape hkind]
    simp
  case parts =>
    intro t hbt dst src hdst hsrc
    obtain ⟨body', hshape', hkind', hsame, -, -⟩ :=
      TypeEntry.structural_of_fixed (hbt.fixed h.has).symm hshape
    rw [hsame]
    refine parts_class hshape' (hkind'.symm.trans hkind) ?_ hdst hsrc
    intro field hfield
    have hle : field.offset + base.types.sizeOf field.type ≤
        base.types.sizeOf type :=
      hlayout.inside (hsame ▸ hfield)
    omega

theorem copyable_class {body : Structural} (h : base.PlainType type)
    (hbase : base.Good Stocked) (hreferable : base.types.Referable type)
    (hshape : (base.types.get type).shape = .structural body)
    (hcomplete : body.complete = true) (hkind : body.kind = .classKind)
    (hfits : base.FitsWord type)
    (hfields : ∀ field ∈ body.fields, base.Copyable field.type) :
    base.Copyable type := by
  have hmade := madeOf_class h hbase hshape hcomplete hkind hfits
  refine h.copyable_pieces hbase.closed hreferable hmade fun piece hpiece => ?_
  obtain ⟨field, hfield, rfl⟩ := List.mem_map.1 hpiece
  exact hfields field hfield

theorem PlainType.copyable (h : base.PlainType type) (hbase : base.Good Stocked)
    (hclear : base.Unobstructed type) : base.Copyable type := by
  induction h with
  | @whole type hvoid hwhole hundeclared =>
      obtain ⟨hreferable, -⟩ := hclear type (.self type)
      exact copyable_whole (.whole hvoid hwhole hundeclared) hbase
        hreferable hwhole
  | @array type elem len hvoid hparts helem hundeclared ih =>
      have hplain : base.PlainType type := .array hvoid hparts helem hundeclared
      obtain ⟨hreferable, -⟩ := hclear type (.self type)
      cases haggregate : (base.types.get elem).aggregate with
      | false =>
          exact copyable_flat_array hplain hbase hreferable hparts haggregate
      | true =>
          refine copyable_aggregate_array hplain hbase hreferable hparts
            haggregate fun hlen => ?_
          exact ih fun part hpart =>
            hclear part (.element hparts hlen haggregate hpart)
  | @record type body hvoid hshape hcomplete hkind hfields hundeclared ih =>
      have hplain : base.PlainType type :=
        .record hvoid hshape hcomplete hkind hfields hundeclared
      obtain ⟨hreferable, hfits⟩ := hclear type (.self type)
      refine copyable_class hplain hbase hreferable hshape hcomplete hkind hfits
        fun field hfield => ?_
      exact ih field hfield fun part hpart =>
        hclear part (.field hshape hkind hfield hpart)

end CanCopy

/-! ## Copies of values -/

/-- The value at `dst` is a copy of the one at `src`; its padding, and all that
lies outside of it, is as it was. -/
structure Duplicates (s : Engine) (type : TypeId) (dst src : Nat) (t : Engine) :
    Prop where
  copied : s.arena.Copied (s.Data type) dst src t.arena
  mark : t.arena.mark = s.arena.mark
  frames : t.arena.frames = s.arena.frames
  callDepth : t.callDepth = s.callDepth

def CopiesFaithfully (s : Engine) (type : TypeId) : Prop :=
  ∃ depth, ∀ fuel, depth ≤ fuel → ∀ dst src,
    s.arena.Apart dst src (s.types.sizeOf type) →
    ∃ t, (Calls.ofFuel fuel).copyConstruct ⟨type, dst⟩ ⟨type, src⟩ s =
      .ok () t ∧
      s.Duplicates type dst src t

/-- Plain types are copied faithfully, as far as nothing is in the way. -/
def CopiesPlainTypes (s : Engine) : Prop :=
  ∀ type, s.PlainType type → s.Unobstructed type → s.CopiesFaithfully type

theorem copiesPlainTypes (hs : s.Good Stocked) : s.CopiesPlainTypes := by
  intro type hplain hclear
  obtain ⟨depth, hdepth⟩ := (hplain.copyable hs hclear).eventually
  refine ⟨depth, fun fuel hfuel dst src hapart => ?_⟩
  obtain ⟨t, hrun, hst, -, hcopied⟩ :=
    hdepth fuel hfuel s (.refl s) hs dst src hapart
  exact ⟨t, hrun, hcopied, hst.mark, hst.frames, hst.quiet.callDepth⟩

end Engine

/-- In every reachable engine, and at any time during a request, the values of
plain types are copied faithfully unless there is a type that goes by the name
of a reference to one of the parts and is none, or a class that is too big for a
word. -/
theorem Reachable.plain_values_copied {s : Engine} (hs : Reachable s) :
    s.CopiesPlainTypes ∧ ∀ (fuel : Nat) (request : Request), s.Knows request →
      Calls.Throughout Engine.CopiesPlainTypes fuel request.perform s :=
  ⟨Engine.copiesPlainTypes hs.good, fun fuel _ hrequest =>
    hs.throughout (fun _ => Engine.copiesPlainTypes) fuel hrequest⟩

/-! ### An array of padded values -/

namespace Engine

variable {s : Engine} {type : TypeId}

theorem Unobstructed.whole (hwhole : (s.types.get type).isWhole = true)
    (hreferable : s.types.Referable type) : s.Unobstructed type := by
  intro part hpart
  rw [visits_whole hwhole hpart]
  refine ⟨hreferable, fun body hshape hkind => ?_⟩
  simp [TypeEntry.isWhole, hshape, hkind] at hwhole

theorem Unobstructed.array {elem : TypeId} {len : Nat}
    (hparts : (s.types.get type).array? = some (elem, len))
    (hreferable : s.types.Referable type) (helem : s.Unobstructed elem) :
    s.Unobstructed type := by
  intro part hpart
  rcases visits_array hparts hpart with rfl | hpart
  · refine ⟨hreferable, fun body hother _ => ?_⟩
    obtain ⟨n, hshape⟩ := TypeEntry.array?_eq_some hparts
    rw [hshape] at hother
    cases hother
  · exact helem part hpart

theorem Unobstructed.record {body : Structural}
    (hshape : (s.types.get type).shape = .structural body)
    (hreferable : s.types.Referable type)
    (hfits : Layout.exactSize s.types.extentOf .classKind body.fields <
      Word.modulus) (hfields : ∀ field ∈ body.fields,
        s.Unobstructed field.type) : s.Unobstructed type := by
  intro part hpart
  rcases visits_record hshape hpart with rfl | ⟨field, hfield, hpart⟩
  · refine ⟨hreferable, fun other hother _ => ?_⟩
    rw [hshape] at hother
    cases hother
    exact hfits
  · exact hfields field hfield part hpart

end Engine

namespace Cells

variable {s : Engine} {type : TypeId}

def node (kind : NodeKind) (text : String) (children : List Node) : Node :=
  ⟨kind, text, .dummy, 0, children⟩

def variableOf (name type : String) : Node :=
  node .variableDefinition name [node .typeName type []]

def arrayOf (name elem len : String) : Node :=
  node .variableDefinition name
    [node .typeName "Array"
      [node .typeName elem [], node .integerLiteral len []]]

def run (nodes : List Node) : Engine :=
  (Engine.new { stackCapacity := 128, maxCallDepth := 4 } ⟨.buffer, ""⟩ none
    []).afterItems 30 nodes

theorem reachable (nodes : List Node) : Reachable (run nodes) :=
  .items (.new _ _ _ _ (by decide)) 30 nodes

def provides (s : Engine) (operator : Bool) (name : String) (type : TypeId) :
    Bool :=
  (s.catalogue.memberList type operator name).all fun id =>
    (s.functions.get id).owner == some type &&
      (s.functions.get id).traits.synthesized

def refers (s : Engine) (type : TypeId) : Bool :=
  (s.types.findByName? (s.types.render .ref [.type type])).all fun ref =>
    (s.types.get ref).referenceTarget? == some type

theorem undeclared {operator : Bool} {name : String} {args : List TypeId}
    (h : provides s operator name type = true) :
    ¬ s.Declares type operator name args := by
  rintro ⟨id, hid, hnot, -⟩
  have hall := List.all_eq_true.1 h id hid
  rw [Bool.and_eq_true, beq_iff_eq] at hall
  exact hnot hall

theorem referable (h : refers s type = true) : s.types.Referable type := by
  intro ref hfound
  rw [refers, hfound] at h
  exact eq_of_beq h

structure Holds (s : Engine) (type : TypeId) (fields : List (Nat × TypeId))
    (size : Nat) (body : Structural) : Prop where
  shape : (s.types.get type).shape = .structural body
  complete : body.complete = true
  kind : body.kind = .classKind
  fields : body.fields.map (fun field => (field.offset, field.type)) = fields
  size : Layout.exactSize s.types.extentOf .classKind body.fields = size

def describes (s : Engine) (type : TypeId) (fields : List (Nat × TypeId))
    (size : Nat) : Bool :=
  (s.types.get type).structural?.any fun body =>
    body.complete && body.kind == .classKind &&
      body.fields.map (fun field => (field.offset, field.type)) == fields &&
        Layout.exactSize s.types.extentOf .classKind body.fields == size

theorem exists_holds {fields : List (Nat × TypeId)} {size : Nat}
    (h : describes s type fields size = true) :
    ∃ body, Holds s type fields size body := by
  unfold describes at h
  obtain ⟨body, hstructural, hbody⟩ := (Option.any_eq_true _ _).1 h
  simp only [Bool.and_eq_true, beq_iff_eq] at hbody
  obtain ⟨⟨⟨hcomplete, hkind⟩, hfields⟩, hsize⟩ := hbody
  exact ⟨body, TypeEntry.shape_of_structural? hstructural, hcomplete, hkind,
    hfields, hsize⟩

theorem Holds.types {fields : List (Nat × TypeId)} {size : Nat}
    {body : Structural} (h : Holds s type fields size body) {field : Field}
    (hfield : field ∈ body.fields) : field.type ∈ fields.map Prod.snd := by
  rw [← h.fields, List.map_map]
  exact List.mem_map_of_mem hfield

theorem Holds.plain {fields : List (Nat × TypeId)} {size : Nat}
    {body : Structural} (h : Holds s type fields size body)
    (hvoid : type ≠ .void) (hown : provides s false "construct" type = true)
    (hfields : ∀ part ∈ fields.map Prod.snd, s.PlainType part) :
    s.PlainType type :=
  .record hvoid h.shape h.complete h.kind
    (fun _ hfield => hfields _ (h.types hfield)) (undeclared hown)

def engine : Engine :=
  run [node .classDecl "Cell"
    [variableOf "flag" "Bool", variableOf "number" "Int32"],
    arrayOf "a" "Cell" "2", arrayOf "b" "Cell" "2"]

theorem checked :
    describes engine ⟨15⟩ [(0, ⟨1⟩), (4, ⟨4⟩)] 8 = true ∧
    (engine.types.get ⟨16⟩).array? = some (⟨15⟩, 2) ∧
    (∀ type ∈ [⟨1⟩, ⟨4⟩], (engine.types.get type).isWhole = true) ∧
    (∀ type ∈ [⟨1⟩, ⟨4⟩, ⟨15⟩, ⟨16⟩],
      provides engine false "construct" type = true ∧
        refers engine type = true) ∧
    engine.arena.inBounds 8 (engine.types.sizeOf ⟨16⟩) = true ∧
    engine.arena.inBounds 24 (engine.types.sizeOf ⟨16⟩) = true ∧
    8 + engine.types.sizeOf ⟨16⟩ ≤ 24 := by
  decide +kernel

theorem partTypes_subset : [⟨1⟩, ⟨4⟩] ⊆ [(⟨1⟩ : TypeId), ⟨4⟩, ⟨15⟩, ⟨16⟩] := by
  decide

theorem plain_part {type : TypeId} (htype : type ∈ [⟨1⟩, ⟨4⟩]) :
    engine.PlainType type := by
  obtain ⟨-, -, hwhole, hown, -⟩ := checked
  have hvoid : type ≠ .void := by
    rintro rfl
    revert htype
    decide
  exact .whole hvoid (hwhole type htype)
    (undeclared (hown type (partTypes_subset htype)).1)

theorem plain : engine.PlainType ⟨16⟩ := by
  obtain ⟨hcell, harray, -, hown, -⟩ := checked
  obtain ⟨body, hbody⟩ := exists_holds hcell
  refine .array (by decide) harray ?_ (undeclared (hown _ (by simp)).1)
  exact hbody.plain (by decide) (hown _ (by simp)).1 fun part => plain_part

theorem unobstructed : engine.Unobstructed ⟨16⟩ := by
  obtain ⟨hcell, harray, hwhole, hown, -⟩ := checked
  obtain ⟨body, hbody⟩ := exists_holds hcell
  refine .array harray (referable (hown _ (by simp)).2) ?_
  refine .record hbody.shape (referable (hown _ (by simp)).2)
    (hbody.size ▸ by decide) fun field hfield => ?_
  have htype := hbody.types hfield
  exact .whole (hwhole _ htype) (referable (hown _ (partTypes_subset htype)).2)

end Cells

open Cells in
theorem Reachable.plain_values_copied_cells :
    Reachable engine ∧ engine.PlainType ⟨16⟩ ∧ engine.Unobstructed ⟨16⟩ ∧
      engine.arena.Apart 8 24 (engine.types.sizeOf ⟨16⟩) ∧
      engine.CopiesFaithfully ⟨16⟩ :=
  have ⟨_, _, _, _, htarget, hsource, hdisjoint⟩ := checked
  ⟨reachable _, plain, unobstructed, ⟨htarget, hsource, .inl hdisjoint⟩,
    (plain_values_copied (reachable _)).1 ⟨16⟩ plain unobstructed⟩

/-! ### What is in the way -/

namespace Cells

/-- Before `A` has been initialized, the name `Ref<A>` has been taken. -/
def taken : Engine :=
  run [node .classDecl "Ref<A>" [],
    node .classDecl "A" [variableOf "x" "Int32"], variableOf "a" "A",
    variableOf "b" "A"]

theorem checked_taken :
    describes taken ⟨16⟩ [(0, ⟨4⟩)] 4 = true ∧
    (taken.types.get ⟨4⟩).isWhole = true ∧
    (∀ type ∈ [⟨4⟩, ⟨16⟩], provides taken false "construct" type = true) ∧
    taken.arena.inBounds 8 (taken.types.sizeOf ⟨16⟩) = true ∧
    taken.arena.inBounds 12 (taken.types.sizeOf ⟨16⟩) = true ∧
    8 + taken.types.sizeOf ⟨16⟩ ≤ 12 ∧
    (Calls.constructorFor ⟨16⟩ [⟨⟨16⟩, 12⟩]).value? taken = some none := by
  decide +kernel

theorem plain_taken : taken.PlainType ⟨16⟩ := by
  obtain ⟨hrecord, hwhole, hown, -⟩ := checked_taken
  obtain ⟨body, hbody⟩ := exists_holds hrecord
  refine hbody.plain (by decide) (hown _ (by simp)) fun part hpart => ?_
  rw [List.mem_singleton.1 hpart]
  exact .whole (by decide) hwhole (undeclared (hown _ (by simp)))

theorem unfaithful_taken : ¬ taken.CopiesFaithfully ⟨16⟩ := by
  rintro ⟨depth, hdepth⟩
  obtain ⟨-, -, -, htarget, hsource, hdisjoint, hvalue⟩ := checked_taken
  obtain ⟨t, hrun, -⟩ := hdepth (depth + 1) (Nat.le_succ depth) 8 12
    ⟨htarget, hsource, .inl hdisjoint⟩
  have hnone := Eval.eq_ok_of_value? hvalue
  have hstep : (Calls.ofFuel (depth + 1)).copyConstruct ⟨⟨16⟩, 8⟩ ⟨⟨16⟩, 12⟩ =
      (Calls.ofFuel depth).copyConstructStep ⟨⟨16⟩, 8⟩ ⟨⟨16⟩, 12⟩ := rfl
  rw [hstep, Calls.copyConstructStep, if_neg (by decide),
    Eval.bind_ok hnone] at hrun
  cases hrun

/-- A class of two arrays, each one byte short of half of all addresses, and two
bytes more. -/
def huge : Engine :=
  run [node .classDecl "H" [arrayOf "a" "UInt8" "9223372036854775807",
    arrayOf "b" "UInt8" "9223372036854775807", variableOf "c" "UInt8",
    variableOf "d" "UInt8"]]

theorem checked_huge :
    describes huge ⟨15⟩ [(0, ⟨16⟩), (9223372036854775807, ⟨16⟩),
      (18446744073709551614, ⟨6⟩), (18446744073709551615, ⟨6⟩)]
        18446744073709551616 = true ∧
    (huge.types.get ⟨16⟩).array? = some (⟨6⟩, 9223372036854775807) ∧
    (huge.types.get ⟨6⟩).isWhole = true ∧
    (∀ type ∈ [⟨6⟩, ⟨15⟩, ⟨16⟩],
      provides huge false "construct" type = true ∧ refers huge type = true) ∧
    [(huge.types.get ⟨15⟩).copying? huge.types,
      (huge.types.get ⟨16⟩).copying? huge.types] =
      [some .copyMembers, some (.copyBytes 9223372036854775807)] ∧
    huge.types.sizeOf ⟨15⟩ = 0 ∧
    [huge.arena.inBounds 8 0, huge.arena.inBounds 8 9223372036854775807] =
      [true, false] := by
  decide +kernel

theorem plain_byte : huge.PlainType ⟨6⟩ := by
  obtain ⟨-, -, hwhole, hown, -⟩ := checked_huge
  exact .whole (by decide) hwhole (undeclared (hown _ (by simp)).1)

theorem plain_bytes : huge.PlainType ⟨16⟩ := by
  obtain ⟨-, harray, -, hown, -⟩ := checked_huge
  exact .array (by decide) harray plain_byte (undeclared (hown _ (by simp)).1)

theorem plain_huge : huge.PlainType ⟨15⟩ := by
  obtain ⟨hrecord, -, -, hown, -⟩ := checked_huge
  obtain ⟨body, hbody⟩ := exists_holds hrecord
  refine hbody.plain (by decide) (hown _ (by simp)).1 fun part hpart => ?_
  simp only [List.map_cons, List.map_nil, List.mem_cons, List.not_mem_nil,
    or_false] at hpart
  rcases hpart with rfl | rfl | rfl | rfl
  exacts [plain_bytes, plain_bytes, plain_byte, plain_byte]

theorem unfaithful_huge : ¬ huge.CopiesFaithfully ⟨15⟩ := by
  rintro ⟨depth, hdepth⟩
  obtain ⟨hrecord, -, -, hown, hcopying, hsize, hinside⟩ := checked_huge
  simp only [List.cons.injEq, and_true] at hcopying hinside
  obtain ⟨hmembers, harray⟩ := hcopying
  obtain ⟨hplace, hout⟩ := hinside
  obtain ⟨u, hrun, -⟩ := hdepth (depth + 4) (Nat.le_add_right depth 4) 8 8
    ⟨hsize ▸ hplace, hsize ▸ hplace, .inl (Nat.le_of_eq (by rw [hsize]))⟩
  have hgood : huge.Good Engine.Stocked := (reachable _).good
  obtain ⟨body, hbody⟩ := exists_holds hrecord
  obtain ⟨t, hst, ht, harena, hcopy⟩ := plain_huge.exists_native hgood.closed
    (referable (hown _ (by simp)).2) hmembers (.refl huge) hgood 8 8
  rw [hcopy (depth + 2)] at hrun
  obtain ⟨a, v, hnative, -⟩ := Eval.bind_eq_ok hrun
  obtain ⟨b, w, hmemberwise, -⟩ := Eval.bind_eq_ok hnative
  obtain ⟨body', hshape, hkind, hfields, -, -⟩ :=
    TypeEntry.structural_of_fixed (hst.fixed plain_huge.has).symm hbody.shape
  have hparts := Engine.parts_record 8 8 hshape (hkind.symm.trans hbody.kind)
  obtain ⟨field, rest, hcons, hfirst, -⟩ := List.map_eq_cons_iff.1 hbody.fields
  obtain ⟨hoffset, htype⟩ := Prod.mk.inj hfirst
  rw [← hfields, hcons, List.map_cons, hoffset, htype] at hparts
  rw [Calls.memberwise, Eval.bind_read] at hmemberwise
  simp only [List.getD_cons_zero, List.getD_cons_succ, hparts] at hmemberwise
  obtain ⟨c, x, hpart, -⟩ := Eval.bind_eq_ok hmemberwise
  obtain ⟨y, -, -, harena', hcopy'⟩ := plain_bytes.exists_native hgood.closed
    (referable (hown _ (by simp)).2) harray hst ht 8 8
  have hsame : (Calls.ofFuel (depth + 2)).copyConstruct ⟨⟨16⟩, 8⟩ ⟨⟨16⟩, 8⟩ t =
      .ok c x := hpart
  rw [hcopy' depth] at hsame
  obtain ⟨d, z, hbytes, -⟩ := Eval.bind_eq_ok hsame
  obtain ⟨e, z, hstored, -⟩ := Eval.bind_eq_ok hbytes
  rw [← harena, ← harena'] at hout
  simp [Eval.onArena, Arena.copy, hout] at hstored

end Cells

open Cells in
/-- A plain type is not copied if another type has been given the name of
references to it, or if its size has been wrapped around. -/
theorem Reachable.plain_values_not_copied :
    (Reachable taken ∧ taken.PlainType ⟨16⟩ ∧ ¬ taken.CopiesFaithfully ⟨16⟩) ∧
      Reachable huge ∧ huge.PlainType ⟨15⟩ ∧ ¬ huge.CopiesFaithfully ⟨15⟩ :=
  ⟨⟨reachable _, plain_taken, unfaithful_taken⟩, reachable _, plain_huge,
    unfaithful_huge⟩

end ArenaScript