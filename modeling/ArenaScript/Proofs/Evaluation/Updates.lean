import ArenaScript.Proofs.Evaluation.Copying
import ArenaScript.Proofs.Scalars.Arithmetic
import ArenaScript.Proofs.Scalars.Storage

/-!
# Updates in place

`x += y` stores at `x` what `x + y` gives, without the temporary that
`x = x + y` goes through.  Both end with the same bytes at `x`, the ones of the
exact result modulo two to the width of the kind, and an update that fails
stores nothing.
-/

namespace ArenaScript

open Engine (Good Stocked)
open Scalar (Represents)

/-! ## Numbers in the arena -/

namespace Arena

variable {a b : Arena} {kind : CoreKind} {addr : Nat} {scalar : Scalar}

theorem readScalar_eq_ok (h : a.readScalar addr kind = .ok scalar) :
    a.inBounds addr kind.size = true ∧
      scalar = Scalar.decode kind (load a.bytes addr kind.size) := by
  unfold readScalar read at h
  split at h
  · cases h
    exact ⟨‹_›, rfl⟩
  · cases h

theorem exists_represents (hk : kind.isInteger)
    (h : a.readScalar addr kind = .ok scalar) : ∃ n, Represents kind n scalar :=
  ⟨_, (readScalar_eq_ok h).2 ▸ Scalar.represents_decode hk _⟩

theorem load_store {contents : List UInt8} (ha : a.WellFormed)
    (h : a.inBounds addr contents.length = true) :
    load (store a.bytes addr contents) addr contents.length = contents := by
  have hroom := (ha.range_le h).2
  refine List.ext_getElem (length_load _ _ _) fun i hi _ => ?_
  have hlt : i < contents.length := by rwa [length_load] at hi
  have hloaded := getD_load (store a.bytes addr contents) addr hlt
  rw [getD_store _ _ _ _ hroom, if_pos (by omega),
    Nat.add_sub_cancel_left] at hloaded
  simpa [List.getD_eq_getElem?_getD, hi, hlt] using hloaded

theorem readScalar_writeScalar {n : Int} (ha : a.WellFormed)
    (hscalar : Represents kind n scalar)
    (h : a.inBounds addr kind.size = true) :
    ({ a with bytes := store a.bytes addr (scalar.encode kind) } :
      Arena).readScalar addr kind = .ok scalar := by
  have hlength : (scalar.encode kind).length = kind.size :=
    scalar.length_encode kind
  have hload := load_store ha (hlength.symm ▸ h)
  rw [hlength] at hload
  have hin :
      ({ a with bytes := store a.bytes addr (scalar.encode kind) } :
        Arena).inBounds addr kind.size = true := h
  rw [readScalar, read, if_pos hin, Except.map, hload]
  rw [Scalar.decode_encode hscalar.isInteger hscalar.integer_eq,
    hscalar.cast_eq hscalar.isInteger]

end Arena

namespace Engine

variable {s t u : Engine} {kind : CoreKind} {op : Arith} {symbol : String}
  {dst src fuel : Nat}

/-- The program declares no operator for two values of the type, and the type
that goes by the name of references to it, by which the engine's own operators
take what they change, is one. -/
structure OwnOperator (s : Engine) (type : TypeId) (symbol : String) :
    Prop where
  undeclared : ¬ s.Declares type true symbol [type, type]
  referable : s.types.Referable type

theorem OwnOperator.later {type : TypeId} (h : s.OwnOperator type symbol)
    (hst : s.Prepares t) (htype : s.types.Has type) :
    t.OwnOperator type symbol :=
  ⟨hst.undeclared htype h.undeclared, hst.referable type htype h.referable⟩

theorem isComplete_core (hs : s.Stocked) (kind : CoreKind) :
    (s.types.get kind.typeId).isComplete = true := by
  simp only [TypeEntry.isComplete, (hs.core kind).shape]

theorem not_reference_core (hs : s.Stocked) (kind : CoreKind) :
    (s.types.get kind.typeId).referenceTarget? = none := by
  simp only [TypeEntry.referenceTarget?, (hs.core kind).shape]

theorem ne_void_of_numeric (hk : kind.isNumeric) : kind.typeId ≠ .void := by
  cases kind <;> first | decide | cases hk

/-! ## The two forms -/

def operate (symbol : String) (kind : CoreKind) (dst src fuel : Nat) :
    Eval Value :=
  (Calls.ofFuel fuel).binaryOperator symbol ⟨kind.typeId, dst⟩
    ⟨kind.typeId, src⟩

def operateAssign (symbol : String) (kind : CoreKind) (dst src fuel : Nat) :
    Eval Value := do
  let result ← operate symbol kind dst src fuel
  (Calls.ofFuel fuel).binaryOperator "=" ⟨kind.typeId, dst⟩ result

def storeResult (op : Arith) (kind : CoreKind) (dst src : Nat) :
    Eval Value := do
  let scalar ← Eval.inspect fun s =>
    s.arithAt op kind ⟨kind.typeId, dst⟩ ⟨kind.typeId, src⟩
  Eval.onArena (Arena.writeScalar dst kind scalar)
  pure ⟨kind.typeId, dst⟩

theorem exists_update (hs : s.Good Stocked) (hk : kind.isNumeric)
    (hop : (symbol, op) ∈ Arith.numeric)
    (hown : s.OwnOperator kind.typeId (symbol ++ "=")) (dst src : Nat) :
    ∃ t, t.arena = s.arena ∧
      operate (symbol ++ "=") kind dst src 0 s = .error .outOfFuel t ∧
      ∀ n, operate (symbol ++ "=") kind dst src (n + 1) s =
        storeResult op kind dst src t := by
  have hcore := hs.inv.core kind
  let m (ref : TypeId) : Member :=
    .update (symbol ++ "=") ref kind.typeId kind.typeId (.arithAssign op kind)
  have hlabel : ∀ ref, (m ref).isOperator = true ∧
      (m ref).name = symbol ++ "=" :=
    fun _ => ⟨rfl, rfl⟩
  obtain ⟨ref, t, -, ht, harena, htarget, hexhausted, hrun⟩ :=
    exists_binaryOperator
    dst ⟨kind.typeId, src⟩ hs hcore.has (isComplete_core hs.inv kind)
    (ne_void_of_numeric hk) hlabel (fun _ => rfl) hown.undeclared hown.referable
    fun _ => .arithAssign hk hcore.shape hop
  have hadapted :
      t.adaptArgs (m ref).params [⟨kind.typeId, dst⟩, ⟨kind.typeId, src⟩] =
      .ok [⟨kind.typeId, dst⟩, ⟨kind.typeId, src⟩] :=
    adaptArgs_place htarget
      (adaptArgs_value (not_reference_core ht.inv kind) rfl)
  refine ⟨t, harena, hexhausted, fun n => ?_⟩
  rw [operate, hrun _ hadapted n, storeResult]
  simp only [m, Member.update, Member.operator, Calls.runNative, bind_assoc,
    pure_bind, List.getD_cons_zero, List.getD_cons_succ]

theorem exists_operate (hs : s.Good Stocked) (hk : kind.isNumeric)
    (hop : (symbol, op) ∈ Arith.numeric)
    (hown : s.OwnOperator kind.typeId symbol) (dst src : Nat) :
    ∃ t, s.Prepares t ∧ t.Good Stocked ∧ t.arena = s.arena ∧
      operate symbol kind dst src 0 s = .error .outOfFuel t ∧
      ∀ n, operate symbol kind dst src (n + 1) s =
        (do
          let scalar ← Eval.inspect fun s =>
            s.arithAt op kind ⟨kind.typeId, dst⟩ ⟨kind.typeId, src⟩
          Eval.allocScalar kind.typeId scalar) t := by
  have hcore := hs.inv.core kind
  let m (_ : TypeId) : Member :=
    .binary symbol kind.typeId kind.typeId (.arith op kind kind.typeId)
  have hlabel : ∀ ref, (m ref).isOperator = true ∧ (m ref).name = symbol :=
    fun _ => ⟨rfl, rfl⟩
  obtain ⟨ref, t, hst, ht, harena, -, hexhausted, hrun⟩ :=
    exists_binaryOperator dst
    ⟨kind.typeId, src⟩ hs hcore.has (isComplete_core hs.inv kind)
      (ne_void_of_numeric hk) hlabel
    (fun _ => rfl) hown.undeclared hown.referable fun _ =>
      .arith hk hcore.shape hop
  have hplain := not_reference_core ht.inv kind
  have hadapted :
      t.adaptArgs (m ref).params [⟨kind.typeId, dst⟩, ⟨kind.typeId, src⟩] =
      .ok [⟨kind.typeId, dst⟩, ⟨kind.typeId, src⟩] :=
    adaptArgs_value hplain (adaptArgs_value hplain rfl)
  refine ⟨t, hst, ht, harena, hexhausted, fun n => ?_⟩
  rw [operate, hrun _ hadapted n]
  simp only [m, Member.binary, Member.operator, Calls.runNative,
    map_eq_pure_bind, bind_assoc, pure_bind, bind_pure, List.getD_cons_zero,
    List.getD_cons_succ]

theorem exists_store (hs : s.Good Stocked) (hk : kind.isNumeric)
    (hown : s.OwnOperator kind.typeId "=") (dst src : Nat) :
    ∃ t, t.arena = s.arena ∧ operate "=" kind dst src 0 s =
      .error .outOfFuel t ∧
      ∀ n, operate "=" kind dst src (n + 1) s =
        (do
          Eval.onArena (Arena.copy src dst kind.size)
          pure (⟨kind.typeId, dst⟩ : Value)) t := by
  have hcore := hs.inv.core kind
  have hcopying : (s.types.get kind.typeId).copying? s.types =
      some (.copyBytes kind.size) := by
    have hsize : (s.types.get kind.typeId).size = kind.size := hcore.size
    rw [TypeEntry.copying?, hcore.shape, hsize]
    cases kind <;> first | rfl | cases hk
  let m (ref : TypeId) : Member :=
    .update "=" ref kind.typeId kind.typeId (.assignBytes kind.size)
  have hlabel : ∀ ref, (m ref).isOperator = true ∧ (m ref).name = "=" :=
    fun _ => ⟨rfl, rfl⟩
  obtain ⟨ref, t, -, ht, harena, htarget, hexhausted, hrun⟩ :=
    exists_binaryOperator dst
    ⟨kind.typeId, src⟩ hs hcore.has (isComplete_core hs.inv kind)
      (ne_void_of_numeric hk) hlabel
    (fun _ => rfl) hown.undeclared hown.referable fun _ => .assign hcopying rfl
  have hadapted :
      t.adaptArgs (m ref).params [⟨kind.typeId, dst⟩, ⟨kind.typeId, src⟩] =
      .ok [⟨kind.typeId, dst⟩, ⟨kind.typeId, src⟩] :=
    adaptArgs_place htarget
      (adaptArgs_value (not_reference_core ht.inv kind) rfl)
  refine ⟨t, harena, hexhausted, fun n => ?_⟩
  rw [operate, hrun _ hadapted n]
  simp only [m, Member.update, Member.operator, Calls.runNative, bind_assoc,
    pure_bind, List.getD_cons_zero, List.getD_cons_succ]

/-! ## What they leave -/

theorem arithAt_congr (h : t.arena = s.arena) (l r : Value) :
    t.arithAt op kind l r = s.arithAt op kind l r := by
  rw [arithAt, arithAt, h]

theorem IsCore.scalarKind {type : TypeId} (h : s.IsCore type kind) :
    s.scalarKind type = .ok kind := by
  simp only [Engine.scalarKind, scalarKind?, TypeEntry.core?, h.shape]

theorem allocScalar_eq_ok (hs : s.Good Stocked) {scalar : Scalar} {v : Value}
    (h : Eval.allocScalar kind.typeId scalar s = .ok v u) :
    v = ⟨kind.typeId, s.arena.mark⟩ ∧ (∃ arena, u = { s with arena }) ∧
      s.arena.mark ≤ u.arena.mark ∧
      Arena.load u.arena.bytes s.arena.mark kind.size = scalar.encode kind := by
  have hcore := hs.inv.core kind
  unfold Eval.allocScalar at h
  obtain ⟨place, t, hplace, h⟩ := Eval.bind_eq_ok h
  obtain ⟨_, w, hwrite, hpure⟩ := Eval.bind_eq_ok h
  cases hpure
  obtain ⟨arena, hallocate, rfl⟩ := Eval.onArena_eq_ok hplace
  obtain ⟨contents, hlength, hfits, rfl, rfl⟩ := Arena.allocate_eq_ok hallocate
  have hkind :
      ({ s with arena := s.arena.claim s.types kind.typeId contents } :
        Engine).scalarKind kind.typeId = .ok kind := hcore.scalarKind
  unfold Eval.writeScalar at hwrite
  rw [Eval.bind_inspect hkind] at hwrite
  obtain ⟨arena, hstore, rfl⟩ := Eval.onArena_eq_ok hwrite
  obtain ⟨hin, rfl⟩ := Arena.write_eq_ok hstore
  refine ⟨rfl, ⟨_, rfl⟩, ?_, ?_⟩
  · exact Nat.le_trans (Nat.le_add_right _ _) (Arena.claim_mark ..).ge
  · have hload :=
      Arena.load_store (Arena.claim_wellFormed hs.closed.wellFormed _ _ _ hfits)
        hin
    rwa [Scalar.length_encode] at hload

/-! ### Updates -/

theorem storeResult_eq_ok {v : Value}
    (h : storeResult op kind dst src s = .ok v u) :
    ∃ scalar, s.arithAt op kind ⟨kind.typeId, dst⟩ ⟨kind.typeId, src⟩ =
      .ok scalar ∧
      s.arena.inBounds dst kind.size = true ∧
      u.arena = { s.arena with
        bytes := Arena.store s.arena.bytes dst (scalar.encode kind) } := by
  obtain ⟨scalar, t, hcompute, hrest⟩ := Eval.bind_eq_ok h
  obtain ⟨hscalar, rfl⟩ := Eval.inspect_eq_ok hcompute
  obtain ⟨_, w, hwrite, hpure⟩ := Eval.bind_eq_ok hrest
  cases hpure
  obtain ⟨arena, hstore, rfl⟩ := Eval.onArena_eq_ok hwrite
  obtain ⟨hin, rfl⟩ := Arena.write_eq_ok hstore
  exact ⟨scalar, hscalar, Scalar.length_encode scalar kind ▸ hin, rfl⟩

theorem storeResult_eq_error {e : Stop}
    (h : storeResult op kind dst src s = .error e u) : u.arena = s.arena := by
  rcases Eval.bind_eq_error h with hcompute | ⟨scalar, w, hcompute, hrest⟩
  · rw [Eval.inspect_eq_error hcompute]
  · obtain ⟨-, rfl⟩ := Eval.inspect_eq_ok hcompute
    rcases Eval.bind_eq_error hrest with hwrite | ⟨_, _, -, hpure⟩
    · obtain ⟨_, _, hstore, rfl⟩ := Eval.onArena_eq_error hwrite
      exact Arena.write_eq_error hstore
    · cases hpure

/-- If the operands can be read, nothing but a division by zero fails. -/
theorem storeResult_exact (hs : s.arena.WellFormed) {l r : Scalar} {a b : Int}
    (hl : s.arena.readScalar dst kind = .ok l)
    (hr : s.arena.readScalar src kind = .ok r) (ha : Represents kind a l)
    (hb : Represents kind b r) :
    ∃ u, if op.divides ∧ b = 0 then
        storeResult op kind dst src s =
          .error (.failed Failure.divisionByZero) u
      else
        storeResult op kind dst src s = .ok ⟨kind.typeId, dst⟩ u ∧
          ∃ scalar, u.arena.readScalar dst kind = .ok scalar ∧
            Represents kind (kind.wrapInt (op.exact a b)) scalar := by
  have hcompute : s.arithAt op kind ⟨kind.typeId, dst⟩ ⟨kind.typeId, src⟩ =
      op.apply kind l r := by
    simp only [arithAt, hl, hr, Bind.bind, Except.bind]
  split
  · rename_i hzero
    obtain ⟨hdivides, rfl⟩ := hzero
    rw [Arith.apply_zero hdivides hb] at hcompute
    exact ⟨s, Eval.bind_error (by simp only [Eval.inspect, hcompute])⟩
  · obtain ⟨scalar, hscalar, hexact⟩ := Arith.exists_apply ha hb ‹_›
    have hin := (Arena.readScalar_eq_ok hl).1
    let stored : Arena :=
      { s.arena with
        bytes := Arena.store s.arena.bytes dst (scalar.encode kind) }
    have hstore : Arena.writeScalar dst kind scalar s.arena = .ok () stored :=
      if_pos (Scalar.length_encode scalar kind ▸ hin)
    refine ⟨{ s with arena := stored }, ?_, scalar, ?_, hexact⟩
    · rw [storeResult, Eval.bind_inspect (hcompute.trans hscalar),
        Eval.bind_ok (Eval.onArena_ok hstore)]
      rfl
    · exact Arena.readScalar_writeScalar hs hexact hin

theorem update_eq_ok (hs : s.Good Stocked) (hk : kind.isNumeric)
    (hop : (symbol, op) ∈ Arith.numeric)
    (hown : s.OwnOperator kind.typeId (symbol ++ "=")) {v : Value}
    (h : operate (symbol ++ "=") kind dst src fuel s = .ok v u) :
    ∃ scalar, s.arithAt op kind ⟨kind.typeId, dst⟩ ⟨kind.typeId, src⟩ =
      .ok scalar ∧
      Arena.load u.arena.bytes dst kind.size = scalar.encode kind := by
  obtain ⟨t, harena, hexhausted, hrun⟩ := exists_update hs hk hop hown dst src
  cases fuel with
  | zero =>
      rw [hexhausted] at h
      cases h
  | succ fuel =>
      rw [hrun] at h
      obtain ⟨scalar, hscalar, hin, hbytes⟩ := storeResult_eq_ok h
      rw [arithAt_congr harena] at hscalar
      rw [harena] at hin hbytes
      refine ⟨scalar, hscalar, ?_⟩
      rw [← Scalar.length_encode scalar kind] at hin ⊢
      rw [hbytes]
      exact Arena.load_store hs.closed.wellFormed hin

/-- An update that fails has stored nothing. -/
theorem update_failed (hs : s.Good Stocked) (hk : kind.isNumeric)
    (hop : (symbol, op) ∈ Arith.numeric)
    (hown : s.OwnOperator kind.typeId (symbol ++ "=")) {e : Stop}
    (h : operate (symbol ++ "=") kind dst src fuel s = .error e u) :
    u.arena = s.arena := by
  obtain ⟨t, harena, hexhausted, hrun⟩ := exists_update hs hk hop hown dst src
  cases fuel with
  | zero =>
      rw [hexhausted] at h
      cases h
      exact harena
  | succ fuel =>
      rw [hrun] at h
      exact (storeResult_eq_error h).trans harena

/-! ### Assignments -/

theorem operateAssign_eq_ok (hs : s.Good Stocked) (hk : kind.isNumeric)
    (hop : (symbol, op) ∈ Arith.numeric)
    (hown : s.OwnOperator kind.typeId symbol)
    (hassign : s.OwnOperator kind.typeId "=") {v : Value}
    (h : operateAssign symbol kind dst src fuel s = .ok v u) :
    ∃ scalar, s.arithAt op kind ⟨kind.typeId, dst⟩ ⟨kind.typeId, src⟩ =
      .ok scalar ∧
      Arena.load u.arena.bytes dst kind.size = scalar.encode kind := by
  have hcore := hs.inv.core kind
  obtain ⟨place, w, hoperate, hstore⟩ := Eval.bind_eq_ok h
  obtain ⟨t, hst, ht, harena, hexhausted, hrun⟩ :=
    exists_operate hs hk hop hown dst src
  cases fuel with
  | zero =>
      rw [hexhausted] at hoperate
      cases hoperate
  | succ fuel =>
      rw [hrun] at hoperate
      obtain ⟨scalar, t', hcompute, hallocate⟩ := Eval.bind_eq_ok hoperate
      obtain ⟨hscalar, rfl⟩ := Eval.inspect_eq_ok hcompute
      have hreached :=
        (Sound.allocScalar ht (ht.inv.core kind).has scalar).reached
      rw [Eval.after_ok hallocate] at hreached
      obtain ⟨rfl, ⟨arena, rfl⟩, hmark, hload⟩ := allocScalar_eq_ok ht hallocate
      have hlater := hassign.later hst hcore.has
      have hassign' :
          ({ t' with arena } : Engine).OwnOperator kind.typeId "=" :=
        ⟨hlater.undeclared, hlater.referable⟩
      obtain ⟨x, harena', -, hrun'⟩ :=
        exists_store hreached.good hk hassign' dst t'.arena.mark
      have hcopy := (hrun' fuel).symm.trans hstore
      obtain ⟨_, y, hcopied, hpure⟩ := Eval.bind_eq_ok hcopy
      cases hpure
      obtain ⟨arena', hbytes, rfl⟩ := Eval.onArena_eq_ok hcopied
      obtain ⟨hin, rfl⟩ := Arena.copy_eq_ok hbytes
      rw [harena'] at hin
      refine ⟨scalar, (arithAt_congr harena _ _).symm.trans hscalar, ?_⟩
      have hstored := Arena.load_store hreached.good.closed.wellFormed
        (Scalar.length_encode scalar kind ▸ hin)
      rw [Scalar.length_encode] at hstored
      rw [harena', hload]
      exact hstored

/-! ## Integers -/

/-- What `x symbol= y` does to integers of the kind at two places, where the
program does not declare the operator. -/
structure Updates (s : Engine) (kind : CoreKind) (symbol : String) (op : Arith)
    (dst src : Nat) : Prop where
  /-- If it fails, nothing has been stored. -/
  failed : ∀ fuel e t, operate (symbol ++ "=") kind dst src fuel s =
    .error e t →
    t.arena = s.arena
  /-- The bytes it leaves are those that `x = x symbol y` leaves. -/
  agrees : s.OwnOperator kind.typeId symbol → s.OwnOperator kind.typeId "=" →
    ∀ fuel fuel' v w t u, operate (symbol ++ "=") kind dst src fuel s =
      .ok v t →
      operateAssign symbol kind dst src fuel' s = .ok w u →
        Arena.load t.arena.bytes dst kind.size =
          Arena.load u.arena.bytes dst kind.size
  /-- Integers that can be read are divided by zero, or the exact result is
  stored. -/
  exact : ∀ l r a b, s.arena.readScalar dst kind = .ok l →
    s.arena.readScalar src kind = .ok r →
    Represents kind a l → Represents kind b r → ∀ fuel, ∃ t,
      if op.divides ∧ b = 0 then
        operate (symbol ++ "=") kind dst src (fuel + 1) s =
          .error (.failed Failure.divisionByZero) t
      else
        operate (symbol ++ "=") kind dst src (fuel + 1) s =
          .ok ⟨kind.typeId, dst⟩ t ∧
          ∃ scalar, t.arena.readScalar dst kind = .ok scalar ∧
            Represents kind (kind.wrapInt (op.exact a b)) scalar

def UpdatesIntegers (s : Engine) : Prop :=
  ∀ (kind : CoreKind) (symbol : String) (op : Arith), kind.isInteger →
    (symbol, op) ∈ Arith.numeric →
    s.OwnOperator kind.typeId (symbol ++ "=") → ∀ dst src,
      s.Updates kind symbol op dst src

theorem updatesIntegers (hs : s.Good Stocked) : s.UpdatesIntegers := by
  intro kind symbol op hinteger hop hown dst src
  have hk : kind.isNumeric := by rw [CoreKind.isNumeric, hinteger, Bool.true_or]
  refine ⟨fun fuel e t => update_failed hs hk hop hown, ?_, ?_⟩
  · intro hoperator hassign fuel fuel' v w t u hupdate hoperate
    obtain ⟨scalar, hscalar, hupdated⟩ := update_eq_ok hs hk hop hown hupdate
    obtain ⟨other, hother, hassigned⟩ :=
      operateAssign_eq_ok hs hk hop hoperator hassign hoperate
    cases hscalar.symm.trans hother
    rw [hupdated, hassigned]
  · intro l r a b hl hr ha hb fuel
    obtain ⟨t, harena, -, hrun⟩ := exists_update hs hk hop hown dst src
    rw [← harena] at hl hr
    rw [hrun fuel]
    exact storeResult_exact (harena ▸ hs.closed.wellFormed) hl hr ha hb

end Engine

/-- Arithmetic on integers is exact modulo two to the width of the kind, and
updates in place store its results, in every reachable engine and at any time
during a request. -/
theorem integer_arithmetic_exact :
    (∀ kind : CoreKind, kind.isInteger → kind.ComputesExactly) ∧
      ∀ s, Reachable s → s.UpdatesIntegers ∧
        ∀ (fuel : Nat) (request : Request), s.Knows request →
          Calls.Throughout Engine.UpdatesIntegers fuel request.perform s :=
  ⟨fun kind _ => kind.computesExactly, fun _ hs =>
    ⟨Engine.updatesIntegers hs.good,
      fun fuel _ hrequest =>
        hs.throughout (fun _ => Engine.updatesIntegers) fuel hrequest⟩⟩

/-! ### Two numbers of eight bits -/

namespace Cells

def numbers : Engine := run [variableOf "a" "Int8", variableOf "b" "Int8"]

theorem checked_numbers :
    (∀ symbol ∈ ["/=", "/", "="],
      provides numbers true symbol CoreKind.int8.typeId = true) ∧
      refers numbers CoreKind.int8.typeId = true ∧
      numbers.arena.readScalar 8 .int8 = .ok (.int 0) ∧
      numbers.arena.readScalar 9 .int8 = .ok (.int 0) := by
  decide +kernel

theorem own_numbers {symbol : String} (h : symbol ∈ ["/=", "/", "="]) :
    numbers.OwnOperator CoreKind.int8.typeId symbol :=
  ⟨undeclared (checked_numbers.1 symbol h), referable checked_numbers.2.1⟩

end Cells

open Cells Engine in
/-- The lowest number divided by minus one, and an update that divides by
zero. -/
theorem integer_arithmetic_exact_int8 :
    Arith.div.apply .int8 (.int (-128)) (.int (-1)) = .ok (.int (-128)) ∧
      Reachable numbers ∧ numbers.OwnOperator CoreKind.int8.typeId "/=" ∧
      numbers.OwnOperator CoreKind.int8.typeId "/" ∧
      numbers.OwnOperator CoreKind.int8.typeId "=" ∧
      numbers.Updates .int8 "/" .div 8 9 ∧
      ∃ t, operate "/=" .int8 8 9 1 numbers =
        .error (.failed Failure.divisionByZero) t := by
  have hupdates : numbers.Updates .int8 "/" .div 8 9 :=
    (integer_arithmetic_exact.2 numbers (reachable _)).1 .int8 "/" .div rfl
      (by decide) (own_numbers (by simp)) 8 9
  have hvalue : ∀ v : Int64, CoreKind.int8.Holds v.toInt →
      Represents .int8 v.toInt (.int v) :=
    fun _ h => .int rfl h
  have hlowest := (integer_arithmetic_exact.1 .int8 rfl).lowest _ _ _
    (hvalue (-128) (by decide)) (hvalue (-1) (by decide)) (hvalue 0 (by decide))
  obtain ⟨-, -, hleft, hright⟩ := checked_numbers
  obtain ⟨t, ht⟩ := hupdates.exact _ _ _ _ hleft hright
    (hvalue 0 (by decide)) (hvalue 0 (by decide)) 0
  exact ⟨hlowest.1, reachable _, own_numbers (by simp), own_numbers (by simp),
    own_numbers (by simp), hupdates, t, ht⟩

end ArenaScript
