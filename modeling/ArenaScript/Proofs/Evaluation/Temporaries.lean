import ArenaScript.Proofs.Evaluation.Updates

/-!
# Temporaries

A value that is not an object is put at the mark, and the mark moves past it.
The frames stay as they are, and so do all bytes that were in use, so that what
could be read before can be read afterwards, and a name that stood for
no variable does not stand for one now.
-/

namespace ArenaScript

open Engine (Good Stocked)

/-! ## In the arena -/

namespace Arena

variable {a b c : Arena} {contents more : List UInt8} {addr len : Nat}

structure Gains (a b : Arena) (contents : List UInt8) : Prop where
  mark : b.mark = a.mark + contents.length
  capacity : b.capacity = a.capacity
  below : ∀ i, i < a.mark → b.bytes.getD i 0 = a.bytes.getD i 0
  contents : load b.bytes a.mark contents.length = contents
  wellFormed : b.WellFormed

theorem gains_claim (types : TypeTable) (type : TypeId) {zeros : List UInt8}
    (ha : a.WellFormed) (hlength : zeros.length = contents.length)
    (hroom : a.mark + contents.length ≤ a.capacity) :
    ∃ b, write a.mark contents (a.claim types type zeros) = .ok () b ∧
      a.Gains b contents ∧
      b.frames = (a.claim types type zeros).frames := by
  have hclaimed := claim_wellFormed ha types type zeros (hlength.symm ▸ hroom)
  have hin : (a.claim types type zeros).inBounds a.mark contents.length =
      true := by
    have hguard := ha.guard_le_mark
    simp only [inBounds, claim_mark, hlength, Nat.le_refl, decide_true,
      Bool.true_and, Bool.or_eq_true, decide_eq_true_eq]
    exact .inr hguard
  refine ⟨_, if_pos hin,
    ⟨?_, claim_capacity .., fun i hi => ?_, load_store hclaimed hin, ?_⟩, rfl⟩
  · rw [← hlength]
    exact claim_mark ..
  · have hout : ¬ (a.mark ≤ i ∧ i < a.mark + contents.length) := by omega
    have hout' : ¬ (a.mark ≤ i ∧ i < a.mark + zeros.length) := by omega
    rw [getD_store _ _ _ _ (hclaimed.range_le hin).2, if_neg hout]
    exact (claim_byteAt a types type zeros i).trans (if_neg hout')
  · exact ⟨hclaimed.bounds, by simpa only [size_store] using hclaimed.stored⟩

namespace Gains

theorem read (h : a.Gains b contents) (ha : a.WellFormed) :
    b.read a.mark contents.length = .ok contents := by
  have hin : b.inBounds a.mark contents.length = true := by
    have hguard := ha.guard_le_mark
    simp only [inBounds, h.mark, Nat.le_refl, decide_true, Bool.true_and,
      Bool.or_eq_true, decide_eq_true_eq]
    exact .inr hguard
  rw [Arena.read, if_pos hin, h.contents]

theorem read_below (h : a.Gains b contents) (hin : a.inBounds addr len = true) :
    b.read addr len = a.read addr len := by
  simp only [inBounds, Bool.and_eq_true, decide_eq_true_eq] at hin
  have hmark := h.mark
  have hin' : b.inBounds addr len = true := by
    simp only [inBounds, Bool.and_eq_true, decide_eq_true_eq]
    exact ⟨by omega, hin.2⟩
  have hold : a.inBounds addr len = true := by
    simpa only [inBounds, Bool.and_eq_true, decide_eq_true_eq] using hin
  rw [Arena.read, Arena.read, if_pos hin', if_pos hold]
  refine congrArg Except.ok (load_congr fun i hlow hhigh => ?_)
  exact h.below i (by omega)

theorem readScalar_below {kind : CoreKind} {scalar : Scalar}
    (h : a.Gains b contents) (hread : a.readScalar addr kind = .ok scalar) :
    b.readScalar addr kind = .ok scalar := by
  rw [readScalar, h.read_below (readScalar_eq_ok hread).1]
  exact hread

theorem readScalar {kind : CoreKind} {scalar : Scalar}
    (h : a.Gains b (scalar.encode kind)) (ha : a.WellFormed) :
    b.readScalar a.mark kind =
      .ok (Scalar.decode kind (scalar.encode kind)) := by
  have hread := h.read ha
  rw [Scalar.length_encode] at hread
  rw [Arena.readScalar, hread, Except.map]

theorem readWord {word : Nat} (h : a.Gains b (lowBytes word 8))
    (ha : a.WellFormed) (hword : word < Word.modulus) :
    b.readWord a.mark = .ok word := by
  have hread := h.read ha
  rw [length_lowBytes] at hread
  rw [Arena.readWord, hread, Except.map, ofLowBytes_lowBytes]
  exact congrArg Except.ok (Nat.mod_eq_of_lt hword)

end Gains

end Arena

/-! ## In the engine -/

namespace Engine

variable {s t : Engine} {type : TypeId} {contents : List UInt8}

/-- The scalar that the value holds is the integer. -/
def ReadsAs (s : Engine) (value : Value) (n : Int) : Prop :=
  ∃ scalar, s.readScalar value = .ok scalar ∧ scalar.integer? = some n

structure Puts (s : Engine) (type : TypeId) (contents : List UInt8)
    (t : Engine) : Prop where
  same : t = { s with arena := t.arena }
  gains : s.arena.Gains t.arena contents
  frames : (s.types.get type).aggregate = false →
    t.arena.frames = s.arena.frames
  good : t.Good Stocked

theorem Puts.types (h : s.Puts type contents t) : t.types = s.types := by
  rw [h.same]

theorem Puts.undeclared (h : s.Puts type contents t) {other : TypeId}
    {operator : Bool} {name : String} {args : List TypeId}
    (hnone : ¬ s.Declares other operator name args) :
    ¬ t.Declares other operator name args := by
  rw [h.same]
  exact hnone

theorem exists_write (hs : s.Good Stocked) (htype : s.types.Has type)
    (hsize : s.types.sizeOf type = contents.length)
    (hroom : s.arena.mark + contents.length ≤ s.arena.capacity) :
    ∃ t, Eval.allocate type s = .ok ⟨type, s.arena.mark⟩ t ∧ t.types = s.types ∧
      ∃ u, Eval.onArena (Arena.write s.arena.mark contents) t = .ok () u ∧
        s.Puts type contents u := by
  have hallocate : Arena.allocate s.types type none s.arena =
      .ok ⟨type, s.arena.mark⟩ (s.arena.claim s.types type
        (List.replicate (s.types.sizeOf type) 0)) := by
    rw [Arena.allocate_eq, if_pos (hsize.symm ▸ hroom)]
    rfl
  have hlength : (List.replicate (s.types.sizeOf type) (0 : UInt8)).length =
      contents.length := by
    rw [List.length_replicate, hsize]
  obtain ⟨b, hwrite, hgains, hframes⟩ :=
    Arena.gains_claim s.types type hs.closed.wellFormed hlength hroom
  have hrun : Eval.allocate type s = .ok ⟨type, s.arena.mark⟩ _ :=
    Eval.onArena_ok hallocate
  have hput := Eval.onArena_ok (s := { s with
    arena := s.arena.claim s.types type
      (List.replicate (s.types.sizeOf type) 0) }) hwrite
  have hallocated := (Sound.allocate hs htype).reached
  rw [Eval.after_ok hrun] at hallocated
  have hwritten := (Sound.write hallocated.good s.arena.mark contents).reached
  rw [Eval.after_ok hput] at hwritten
  refine ⟨_, hrun, rfl, _, hput, rfl, hgains, fun hplain => ?_, hwritten.good⟩
  rw [hframes, Arena.claim_frames, hplain]
  rfl

theorem exists_allocScalar {kind : CoreKind} (hs : s.Good Stocked)
    (htype : s.types.Has type) (hkind : s.scalarKind type = .ok kind)
    (hsize : s.types.sizeOf type = kind.size) (scalar : Scalar)
    (hroom : s.arena.mark + kind.size ≤ s.arena.capacity) :
    ∃ t, Eval.allocScalar type scalar s = .ok ⟨type, s.arena.mark⟩ t ∧
      s.Puts type (scalar.encode kind) t := by
  rw [← Scalar.length_encode scalar kind] at hsize hroom
  obtain ⟨t, hallocate, htypes, u, hwrite, hu⟩ :=
    exists_write hs htype hsize hroom
  have hsame : t.scalarKind type = .ok kind := by
    rw [← hkind, scalarKind, scalarKind, scalarKind?, scalarKind?, htypes]
  have hput : Eval.onArena (Arena.writeScalar s.arena.mark kind scalar) t =
      .ok () u := hwrite
  refine ⟨u, ?_, hu⟩
  rw [Eval.allocScalar, Eval.bind_ok hallocate, Eval.writeScalar, bind_assoc,
    Eval.bind_inspect hsame]
  exact Eval.bind_ok hput

theorem exists_allocAddress (hs : s.Good Stocked) (htype : s.types.Has type)
    (hsize : s.types.sizeOf type = 8) (word : Nat)
    (hroom : s.arena.mark + 8 ≤ s.arena.capacity) :
    ∃ t, Eval.allocAddress type word s = .ok ⟨type, s.arena.mark⟩ t ∧
      s.Puts type (lowBytes word 8) t := by
  rw [← length_lowBytes word 8] at hsize hroom
  obtain ⟨t, hallocate, -, u, hwrite, hu⟩ := exists_write hs htype hsize hroom
  have hput : Eval.onArena (Arena.writeWord s.arena.mark word) t =
      .ok () u := hwrite
  refine ⟨u, ?_, hu⟩
  rw [Eval.allocAddress, Eval.bind_ok hallocate]
  exact Eval.bind_ok hput

/-! ### Names -/

theorem fieldThroughSelf_congr (htypes : t.types = s.types) {frame : Frame}
    {name : String} (h : s.fieldThroughSelf frame name = .ok none) :
    t.fieldThroughSelf frame name = .ok none := by
  unfold fieldThroughSelf at h ⊢
  rw [htypes]
  split
  · rename_i owner slot hcall hself
    simp only [hcall, hself] at h
    split
    · rename_i field hfield
      simp only [hfield] at h
      cases hstrip : s.stripRef (frame.resolve slot) with
      | ok receiver =>
          rw [hstrip] at h
          cases h
      | error e =>
          rw [hstrip] at h
          cases h
    · rfl
  · rfl

theorem lookupVariable_none_congr (htypes : t.types = s.types)
    (hscopes : t.scopes = s.scopes) (hframes : t.arena.frames = s.arena.frames)
    {name : String} (h : s.lookupVariable name = .ok none) :
    t.lookupVariable name = .ok none := by
  have hglobals : localIn (t.globalFrames t.currentScope) name =
      localIn (s.globalFrames s.currentScope) name := by
    have hroot : ∀ id, t.rootFrame? id = s.rootFrame? id := fun id => by
      rw [rootFrame?, rootFrame?, hframes]
    have hscope : t.currentScope = s.currentScope := by
      rw [currentScope, currentScope, Arena.top?, Arena.top?, hframes]
    rw [globalFrames, globalFrames, globalScopes, globalScopes, hscope, hscopes,
      funext hroot]
  unfold lookupVariable at h ⊢
  simp only [hframes, hglobals] at h ⊢
  split
  · rename_i value hlocal
    simp only [hlocal] at h
    cases h
  · rename_i hlocal
    simp only [hlocal] at h
    cases hlast : (reachableFrames s.arena.frames).getLast? with
    | none =>
        simp only [hlast] at h ⊢
        exact h
    | some frame =>
        simp only [hlast] at h ⊢
        cases hfield : s.fieldThroughSelf frame name with
        | error e =>
            rw [hfield] at h
            cases h
        | ok field =>
            rw [hfield] at h
            cases field with
            | some value => cases h
            | none =>
                rw [fieldThroughSelf_congr htypes hfield]
                exact h

end Engine

end ArenaScript
