import ArenaScript.Proofs.Arena.Ledger

/-!
# What popped frames leave behind

Bytes at or above the mark have no influence on anything.  Two arenas that
differ only there answer every sequence of operations alike, and differ only
there afterwards.  A reference into a popped frame therefore never shows what
the frame has left behind: an access fails, or it shows a later allocation.
-/

namespace ArenaScript.Arena

/-- The arenas differ at most in bytes that are not below the mark. -/
structure Agree (a b : Arena) : Prop where
  capacity : a.capacity = b.capacity
  mark : a.mark = b.mark
  frames : a.frames = b.frames
  byteAt : ∀ i, i < a.mark → a.byteAt i = b.byteAt i

inductive Alike {α : Type} :
    EStateM.Result Failure Arena α → EStateM.Result Failure Arena α → Prop
  | ok (v : α) {a b : Arena} (h : Agree a b) : Alike (.ok v a) (.ok v b)
  | error (e : Failure) {a b : Arena} (h : Agree a b) :
      Alike (.error e a) (.error e b)

theorem Alike.map {α β : Type} {x : Op α} {a b : Arena} (f : α → β)
    (h : Alike (x a) (x b)) : Alike ((f <$> x) a) ((f <$> x) b) := by
  simp only [Functor.map, EStateM.map]
  generalize x a = r at h
  generalize x b = s at h
  cases h with
  | ok v hagree => exact .ok (f v) hagree
  | error e hagree => exact .error e hagree

namespace Agree

variable {a b : Arena}

/-! ## Looking -/

theorem inBounds (h : Agree a b) (addr len : Nat) :
    a.inBounds addr len = b.inBounds addr len := by
  unfold Arena.inBounds
  rw [h.mark]

theorem load {addr len : Nat} (h : Agree a b)
    (hbounds : a.inBounds addr len = true) :
    load a.bytes addr len = load b.bytes addr len := by
  simp only [Arena.inBounds, Bool.and_eq_true, decide_eq_true_eq] at hbounds
  exact load_congr fun i _ hi => h.byteAt i (by omega)

theorem read (h : Agree a b) (addr len : Nat) :
    a.read addr len = b.read addr len := by
  unfold Arena.read
  rw [← h.inBounds]
  split
  · rename_i hbounds
    rw [h.load hbounds]
  · rfl

theorem look {α : Type} {f : Arena → Except Failure α} (h : Agree a b)
    (hf : f a = f b) : Alike (look f a) (look f b) := by
  unfold Arena.look
  rw [hf]
  cases f b with
  | ok v => exact .ok v h
  | error e => exact .error e h

/-! ## Frames -/

theorem pushFrame (h : Agree a b) (scope : ScopeId) (kind : FrameKind)
    (call : Option CallRecord) :
    Agree (a.pushFrame scope kind call) (b.pushFrame scope kind call) where
  capacity := h.capacity
  mark := h.mark
  frames := by
    simp only [Arena.pushFrame]
    rw [h.mark, h.frames]
  byteAt := h.byteAt

theorem popFrame (h : Agree a b) (ha : a.WellFormed) :
    Agree a.popFrame b.popFrame := by
  have hinner := ha.inner_bounds
  unfold bases at hinner
  unfold Arena.popFrame
  rw [← h.frames]
  cases hframes : a.frames with
  | nil => exact h
  | cons top rest =>
      rw [hframes] at hinner
      have hbase : top.base ≤ a.mark :=
        List.rel_of_pairwise_cons hinner (by simp)
      exact ⟨h.capacity, rfl, rfl, fun i hi =>
        h.byteAt i (Nat.lt_of_lt_of_le hi hbase)⟩

/-! ## Allocating -/

theorem initial? (h : Agree a b) (size : Nat) (source : Option Nat) :
    a.initial? size source = b.initial? size source := by
  cases source with
  | none => rfl
  | some src =>
      simp only [Arena.initial?]
      rw [← h.inBounds]
      split
      · rename_i hbounds
        rw [h.load hbounds]
      · rfl

/-- The new bytes are the same on both sides, whatever was there before. -/
theorem claim (h : Agree a b) (types : TypeTable) (type : TypeId)
    (contents : List UInt8) :
    Agree (a.claim types type contents) (b.claim types type contents) where
  capacity := by
    rw [claim_capacity, claim_capacity]
    exact h.capacity
  mark := by
    rw [claim_mark, claim_mark, h.mark]
  frames := by
    rw [claim_frames, claim_frames, h.mark, h.frames]
  byteAt := by
    intro i hi
    rw [claim_mark] at hi
    rw [claim_byteAt, claim_byteAt, ← h.mark]
    split
    · rfl
    · exact h.byteAt i (by omega)

theorem allocate (h : Agree a b) (types : TypeTable) (type : TypeId)
    (source : Option Nat) :
    Alike (Arena.allocate types type source a)
      (Arena.allocate types type source b) := by
  rw [allocate_eq, allocate_eq, ← h.mark, ← h.capacity, ← h.initial?]
  split
  · cases a.initial? (types.sizeOf type) source with
    | some contents => exact .ok _ (h.claim types type contents)
    | none => exact .error _ h
  · exact .error _ h

theorem base (h : Agree a b) : a.base = b.base := by
  unfold Arena.base top?
  rw [h.frames]

theorem reserve (h : Agree a b) (types : TypeTable) (type : TypeId)
    (lookBack : Bool) :
    Alike (Arena.reserve types type lookBack a)
      (Arena.reserve types type lookBack b) := by
  unfold Arena.reserve
  simp only
  rw [← h.base, ← h.mark]
  split
  · split
    · exact .ok _ h
    · exact .error _ h
  · have hallocate := h.allocate types type none
    generalize Arena.allocate types type none a = r at hallocate
    generalize Arena.allocate types type none b = s at hallocate
    cases hallocate with
    | ok v hagree => exact .ok _ hagree
    | error e hagree => exact .error e hagree

/-! ## Storing -/

theorem store (h : Agree a b) (ha : a.WellFormed) (hb : b.WellFormed)
    {addr : Nat} {contents : List UInt8}
    (hbounds : a.inBounds addr contents.length = true) :
    Agree { a with bytes := store a.bytes addr contents }
      { b with bytes := store b.bytes addr contents } where
  capacity := h.capacity
  mark := h.mark
  frames := h.frames
  byteAt := by
    intro i hi
    have hbounds' : b.inBounds addr contents.length = true := by
      rw [← h.inBounds]
      exact hbounds
    simp only [Arena.byteAt]
    rw [getD_store _ _ _ _ (ha.range_le hbounds).2,
      getD_store _ _ _ _ (hb.range_le hbounds').2]
    split
    · rfl
    · exact h.byteAt i hi

theorem write (h : Agree a b) (ha : a.WellFormed) (hb : b.WellFormed)
    (addr : Nat) (contents : List UInt8) :
    Alike (Arena.write addr contents a) (Arena.write addr contents b) := by
  unfold Arena.write
  rw [← h.inBounds]
  split
  · rename_i hbounds
    exact .ok _ (h.store ha hb hbounds)
  · exact .error _ h

theorem copy (h : Agree a b) (ha : a.WellFormed) (hb : b.WellFormed)
    (src dst len : Nat) :
    Alike (Arena.copy src dst len a) (Arena.copy src dst len b) := by
  unfold Arena.copy
  rw [← h.inBounds, ← h.inBounds]
  split
  · rename_i hsrc
    rw [← h.load hsrc]
    split
    · rename_i hdst
      exact .ok _ (h.store ha hb (by simpa using hdst))
    · exact .error _ h
  · exact .error _ h

/-! ## All operations -/

theorem perform (h : Agree a b) (ha : a.WellFormed) (hb : b.WellFormed)
    (op : Operation) : Alike (op.perform a) (op.perform b) := by
  cases op with
  | pushFrame scope kind call =>
      simp only [Operation.perform, depth, h.frames]
      exact .ok _ (h.pushFrame scope kind call)
  | popFrame =>
      simp only [Operation.perform, top?, h.frames]
      exact .ok _ (h.popFrame ha)
  | allocate types type source => exact (h.allocate types type source).map _
  | reserve types type lookBack => exact (h.reserve types type lookBack).map _
  | read addr len => exact (h.look (h.read addr len)).map _
  | write addr contents => exact (h.write ha hb addr contents).map _
  | copy src dst len => exact (h.copy ha hb src dst len).map _
  | readWord addr =>
      have hword : a.readWord addr = b.readWord addr := by
        unfold Arena.readWord
        rw [h.read]
      exact (h.look hword).map _
  | writeWord addr word => exact (h.write ha hb addr _).map _
  | readScalar addr kind =>
      have hscalar : a.readScalar addr kind = b.readScalar addr kind := by
        unfold Arena.readScalar
        rw [h.read]
      exact (h.look hscalar).map _
  | writeScalar addr kind scalar => exact (h.write ha hb addr _).map _

theorem outcome (h : Agree a b) (ha : a.WellFormed) (hb : b.WellFormed)
    (op : Operation) :
    (op.outcome a).1 = (op.outcome b).1 ∧
    Agree (op.outcome a).2 (op.outcome b).2 := by
  have halike := h.perform ha hb op
  unfold Operation.outcome
  generalize op.perform a = r at halike
  generalize op.perform b = s at halike
  cases halike with
  | ok v hagree => exact ⟨rfl, hagree⟩
  | error e hagree => exact ⟨rfl, hagree⟩

end Agree

theorem outcome_wellFormed {a : Arena} (h : a.WellFormed) (op : Operation) :
    (op.outcome a).2.WellFormed := by
  unfold Operation.outcome
  cases hperform : op.perform a with
  | ok answer b => exact (perform_effect hperform).wellFormed h
  | error e b =>
      cases perform_error hperform
      exact h

theorem Agree.run {a b : Arena} (h : Agree a b) (ha : a.WellFormed)
    (hb : b.WellFormed) (ops : List Operation) :
    (run ops a).1 = (run ops b).1 ∧ Agree (run ops a).2 (run ops b).2 := by
  induction ops generalizing a b with
  | nil => exact ⟨rfl, h⟩
  | cons op ops ih =>
      obtain ⟨hanswer, hnext⟩ := h.outcome ha hb op
      obtain ⟨hanswers, hlast⟩ :=
        ih hnext (outcome_wellFormed ha op) (outcome_wellFormed hb op)
      constructor
      · simp only [Arena.run]
        rw [hanswer, hanswers]
      · exact hlast

/-! ## References into popped frames -/

theorem popFrame_mark_of_frames {a : Arena} {frame : Frame} {rest : List Frame}
    (h : a.frames = frame :: rest) : a.popFrame.mark = frame.base := by
  simp [popFrame, h]

/-- A byte that lay in a popped frame and can be read again belongs to a later
allocation. -/
theorem read_after_pop {a : Arena} (ha : a.WellFormed) (ops : List Operation)
    {addr len : Nat} (hmark : a.mark ≤ addr) :
    let s := (Tracked.start a).steps ops
    s.arena.read addr len = .error (Failure.invalidMemoryAccess addr len) ∨
      ∀ i, addr ≤ i → i < addr + len →
        ∃ span ∈ s.ledger.live, span.start ≤ i ∧ i < span.finish := by
  intro s
  have hsound : s.Sound a.mark :=
    Tracked.steps_sound (Tracked.start_sound ha) ops
  have hguard := ha.guard_le_mark
  unfold Arena.read
  split
  · rename_i hbounds
    right
    intro i hlow hhigh
    simp only [inBounds, Bool.and_eq_true, decide_eq_true_eq] at hbounds
    exact hsound.described.covers (by omega) (by omega) (by omega)
  · left
    rfl

/--
Arenas that differ only at or above the mark answer alike and differ only there
afterwards.  Hence an address that lay in a popped frame can be read only where
a later allocation covers it, and what is read does not depend on the bytes the
frame has left behind.
-/
theorem no_stale_bytes {a b : Arena} (ha : a.WellFormed) (hb : b.WellFormed)
    (h : Agree a b) (ops : List Operation) :
    (run ops a).1 = (run ops b).1 ∧ Agree (run ops a).2 (run ops b).2 ∧
    ∀ frame rest, a.frames = frame :: rest → ∀ addr len, frame.base ≤ addr →
      let s := (Tracked.start a.popFrame).steps ops
      (s.arena.read addr len = .error (Failure.invalidMemoryAccess addr len) ∨
        ∀ i, addr ≤ i → i < addr + len →
          ∃ span ∈ s.ledger.live, span.start ≤ i ∧ i < span.finish) ∧
      ∀ c, c.WellFormed → Agree a.popFrame c →
        (run ops c).2.read addr len = s.arena.read addr len := by
  obtain ⟨hanswers, hlast⟩ := h.run ha hb ops
  refine ⟨hanswers, hlast, ?_⟩
  intro frame rest hframes addr len hbase s
  have hpopped := popFrame_wellFormed ha
  have hmark : a.popFrame.mark ≤ addr := by
    rw [popFrame_mark_of_frames hframes]
    exact hbase
  refine ⟨read_after_pop hpopped ops hmark, ?_⟩
  intro c hc hagree
  have hsame := (hagree.run hpopped hc ops).2.read addr len
  rw [Tracked.steps_arena]
  exact hsame.symm

def inUse : Arena :=
  (run [.pushFrame .universe .block none, .allocate default .int32 none,
    .write guard [1, 2, 3, 4]] (ofCapacity 64)).2

/-- The popped frame leaves bytes behind, and an allocation in its place reads
as in a new arena. -/
theorem no_stale_bytes_inUse :
    Agree inUse.popFrame (ofCapacity 64) ∧
      inUse.popFrame.byteAt guard ≠ (ofCapacity 64).byteAt guard ∧
      (run [.allocate default .int64 none, .readWord guard] inUse.popFrame).1 =
        (run [.allocate default .int64 none, .readWord guard]
          (ofCapacity 64)).1 ∧
      (run [.allocate default .int64 none] (ofCapacity 64)).2.read guard 4 =
        ((Tracked.start inUse.popFrame).steps
          [.allocate default .int64 none]).arena.read guard 4 := by
  have hinUse : inUse.WellFormed := ⟨by decide, by decide⟩
  have hpopped := popFrame_wellFormed hinUse
  have hnew := ofCapacity_wellFormed 64
  have hagree : Agree inUse.popFrame (ofCapacity 64) :=
    ⟨rfl, rfl, rfl, by decide⟩
  have hself : Agree inUse inUse := ⟨rfl, rfl, rfl, fun _ _ => rfl⟩
  refine ⟨hagree, by decide, (no_stale_bytes hpopped hnew hagree _).1, ?_⟩
  exact ((no_stale_bytes hinUse hinUse hself _).2.2 _ _ rfl guard 4
    (by decide)).2 _ hnew hagree

end ArenaScript.Arena
