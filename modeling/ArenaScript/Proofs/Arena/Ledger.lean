import ArenaScript.Proofs.Arena.Operation

/-!
# Bounds, marks and live allocations

From the capacity over the mark and the bases of the frames down to the guard,
the numbers of an arena never increase, whatever operations are performed.  A
ledger kept beside a run remembers the mark at which each live frame was pushed
and the spans allocated in it.  The spans lie on top of each other without
overlap, and popping a frame returns to the remembered mark.
-/

namespace ArenaScript.Arena

/-! ## Well-formed arenas -/

def bases (a : Arena) : List Nat := a.frames.map Frame.base

structure WellFormed (a : Arena) : Prop where
  /-- Capacity, mark, bases from the innermost frame outwards, guard. -/
  bounds : (a.capacity :: a.mark :: (a.bases ++ [guard])).Pairwise (· ≥ ·)
  stored : a.mark ≤ max guard a.bytes.size

namespace WellFormed

variable {a : Arena}

theorem mark_le_capacity (h : a.WellFormed) : a.mark ≤ a.capacity :=
  List.rel_of_pairwise_cons h.bounds (List.mem_cons_self ..)

theorem inner_bounds (h : a.WellFormed) :
    (a.mark :: (a.bases ++ [guard])).Pairwise (· ≥ ·) :=
  (List.pairwise_cons.mp h.bounds).2

theorem guard_le_mark (h : a.WellFormed) : guard ≤ a.mark :=
  List.rel_of_pairwise_cons h.inner_bounds (by simp)

theorem base_le_mark (h : a.WellFormed) : a.base ≤ a.mark := by
  have hguard := h.guard_le_mark
  have hbases := h.inner_bounds
  unfold base top?
  unfold bases at hbases
  cases hframes : a.frames with
  | nil => simpa using hguard
  | cons top rest =>
      rw [hframes] at hbases
      simpa using List.rel_of_pairwise_cons hbases (by simp)

theorem range_le {addr len : Nat} (h : a.WellFormed)
    (hbounds : a.inBounds addr len = true) :
    addr + len ≤ a.capacity ∧ (len = 0 ∨ addr + len ≤ a.bytes.size) := by
  have hcapacity := h.mark_le_capacity
  have hstored := h.stored
  simp only [inBounds, Bool.and_eq_true, decide_eq_true_eq, Bool.or_eq_true,
    beq_iff_eq] at hbounds
  obtain ⟨hmark, hguard⟩ := hbounds
  constructor
  · omega
  · unfold guard at *
    omega

end WellFormed

theorem ofCapacity_wellFormed (capacity : Nat) :
    (ofCapacity capacity).WellFormed where
  bounds := by
    have hguard : ∀ b ∈ [guard, guard], max capacity guard ≥ b := by
      intro b hb
      have heq : b = guard := by simpa using hb
      rw [heq]
      exact Nat.le_max_right capacity guard
    exact List.pairwise_cons.2 ⟨hguard, by simp [ofCapacity, bases]⟩
  stored := by simp [ofCapacity]

/-! ## Frames keep their bases -/

theorem bases_modifyHead (frames : List Frame) (f : Frame → Frame)
    (h : ∀ frame, (f frame).base = frame.base) :
    (frames.modifyHead f).map Frame.base = frames.map Frame.base := by
  cases frames with
  | nil => rfl
  | cons top rest => simp [h]

@[simp] theorem claim_bases (a : Arena) (types : TypeTable) (type : TypeId)
    (contents : List UInt8) :
    (a.claim types type contents).bases = a.bases := by
  unfold bases
  rw [claim_frames]
  split
  · exact bases_modifyHead _ _ fun _ => rfl
  · rfl

/-! ## Every operation keeps the bounds -/

theorem pushFrame_wellFormed {a : Arena} (h : a.WellFormed) (scope : ScopeId)
    (kind : FrameKind) (call : Option CallRecord) :
    (a.pushFrame scope kind call).WellFormed where
  bounds := by
    have hcapacity := h.bounds
    have hinner := h.inner_bounds
    change (a.capacity :: a.mark :: a.mark :: (a.bases ++ [guard])).Pairwise
      (· ≥ ·)
    simp only [List.pairwise_cons, List.mem_cons,
      forall_eq_or_imp] at hcapacity hinner ⊢
    exact ⟨⟨hcapacity.1.1, hcapacity.1.1, hcapacity.1.2⟩,
      ⟨Nat.le_refl _, hinner.1⟩, hinner⟩
  stored := h.stored

theorem popFrame_wellFormed {a : Arena} (h : a.WellFormed) :
    a.popFrame.WellFormed := by
  have hbounds := h.bounds
  have hinner := h.inner_bounds
  have hstored := h.stored
  unfold popFrame
  unfold bases at hbounds hinner
  cases hframes : a.frames with
  | nil => exact h
  | cons top rest =>
      rw [hframes] at hbounds hinner
      have hbase : top.base ≤ a.mark :=
        List.rel_of_pairwise_cons hinner (by simp)
      refine ⟨?_, Nat.le_trans hbase hstored⟩
      refine hbounds.sublist ?_
      exact (List.sublist_cons_self ..).cons_cons _

theorem claim_wellFormed {a : Arena} (h : a.WellFormed) (types : TypeTable)
    (type : TypeId) (contents : List UInt8)
    (hfits : a.mark + contents.length ≤ a.capacity) :
    (a.claim types type contents).WellFormed where
  bounds := by
    have hcapacity := h.bounds
    have hinner := h.inner_bounds
    rw [claim_capacity, claim_mark, claim_bases]
    simp only [List.pairwise_cons, List.mem_cons,
      forall_eq_or_imp] at hcapacity hinner ⊢
    refine ⟨⟨hfits, hcapacity.1.2⟩, fun n hn => ?_, hinner.2⟩
    exact Nat.le_trans (hinner.1 n hn) (Nat.le_add_right ..)
  stored := by
    rw [claim_mark, claim_bytes, size_store, size_grow]
    omega

theorem Effect.wellFormed {a b : Arena} {op : Operation} {answer : Answer}
    (heffect : Effect a op answer b) (h : a.WellFormed) : b.WellFormed := by
  cases heffect with
  | push scope kind call => exact pushFrame_wellFormed h scope kind call
  | pop => exact popFrame_wellFormed h
  | allocate types type source contents hlength hfits =>
      exact claim_wellFormed h types type contents hfits
  | reserve types type contents hlength hfits =>
      exact claim_wellFormed h types type contents hfits
  | adopt types type hroom => exact h
  | look op answer hop => exact h
  | overwrite op addr contents hop hbounds =>
      exact ⟨h.bounds, by simpa using h.stored⟩

theorem Effect.capacity {a b : Arena} {op : Operation} {answer : Answer}
    (heffect : Effect a op answer b) : b.capacity = a.capacity := by
  cases heffect with
  | push scope kind call => rfl
  | pop =>
      unfold popFrame
      split <;> rfl
  | allocate types type source contents hlength hfits => exact claim_capacity ..
  | reserve types type contents hlength hfits => exact claim_capacity ..
  | adopt types type hroom => rfl
  | look op answer hop => rfl
  | overwrite op addr contents hop hbounds => rfl

/-! ## The ledger -/

structure Span where
  start : Nat
  size : Nat
  deriving DecidableEq, Repr

namespace Span

def finish (s : Span) : Nat := s.start + s.size

def Disjoint (s t : Span) : Prop := s.finish ≤ t.start ∨ t.finish ≤ s.start

end Span

/-- What is known of a live frame: the mark when it was pushed, and the spans
allocated in it, the last one first. -/
structure Tenure where
  mark : Nat
  spans : List Span
  deriving DecidableEq, Repr

structure Ledger where
  tenures : List Tenure
  ground : List Span
  deriving DecidableEq, Repr

namespace Ledger

/-- The spans whose frames have not been popped, the last one first. -/
def live (l : Ledger) : List Span := l.tenures.flatMap Tenure.spans ++ l.ground

@[simp] theorem live_cons (top : Tenure) (rest : List Tenure)
    (ground : List Span) :
    (Ledger.mk (top :: rest) ground).live =
      top.spans ++ (Ledger.mk rest ground).live := by
  simp [live]

def add (l : Ledger) (span : Span) : Ledger :=
  match l.tenures with
  | [] => { l with ground := span :: l.ground }
  | top :: rest =>
      { l with tenures := { top with spans := span :: top.spans } :: rest }

def note (l : Ledger) (a : Arena) : Operation → Answer → Ledger
  | .pushFrame .., _ => { l with tenures := ⟨a.mark, []⟩ :: l.tenures }
  | .popFrame, _ => { l with tenures := l.tenures.tail }
  | .allocate types type _, .value v => l.add ⟨v.addr, types.sizeOf type⟩
  | .reserve types type false, .slot s =>
      l.add ⟨a.base + s.offset, types.sizeOf type⟩
  | _, _ => l

theorem note_of_reads (l : Ledger) (a : Arena) {op : Operation}
    (answer : Answer) (h : op.reads = true) : l.note a op answer = l := by
  cases op <;> simp [Operation.reads] at h <;> rfl

theorem note_of_stores (l : Ledger) (a : Arena) {op : Operation}
    (answer : Answer) {range : Nat × List UInt8}
    (h : op.stores? a = some range) : l.note a op answer = l := by
  cases op <;> simp [Operation.stores?] at h <;> rfl

end Ledger

/-- An arena with a ledger of what has happened to it. -/
structure Tracked where
  arena : Arena
  ledger : Ledger

namespace Tracked

/-- Tracking begins: the frames are known, but nothing that was allocated in
them. -/
def start (a : Arena) : Tracked := ⟨a, ⟨a.bases.map fun base => ⟨base, []⟩, []⟩⟩

def step (s : Tracked) (op : Operation) : Tracked :=
  match op.perform s.arena with
  | .ok answer b => ⟨b, s.ledger.note s.arena op answer⟩
  | .error _ b => ⟨b, s.ledger⟩

def steps (s : Tracked) (ops : List Operation) : Tracked := ops.foldl step s

end Tracked

/-! ## What the ledger says about the arena -/

/--
The spans, the last one first, fill the room from `high` downwards without
gaps.  Below them, down to `low`, only room from before `since` is left over.
-/
def Stacked (since low : Nat) : Nat → List Span → Prop
  | high, [] => low ≤ high ∧ (high ≤ low ∨ high ≤ since)
  | high, span :: rest => span.finish = high ∧ Stacked since low span.start rest

/-- Each frame was pushed where it starts and holds its spans up to the next
one. -/
def Describes (since : Nat) (ground : List Span) :
    Nat → List Nat → List Tenure → Prop
  | high, [], [] => Stacked since guard high ground
  | high, base :: bases, top :: rest =>
      top.mark = base ∧ Stacked since base high top.spans ∧
        Describes since ground base bases rest
  | _, _, _ => False

theorem Stacked.low_le {since low high : Nat} {spans : List Span}
    (h : Stacked since low high spans) : low ≤ high := by
  induction spans generalizing high with
  | nil => exact h.1
  | cons span rest ih =>
      obtain ⟨hfinish, hrest⟩ := h
      have hlow := ih hrest
      unfold Span.finish at hfinish
      omega

theorem Stacked.within {since low high : Nat} {spans : List Span}
    (h : Stacked since low high spans) :
    ∀ span ∈ spans, low ≤ span.start ∧ span.finish ≤ high := by
  induction spans generalizing high with
  | nil => simp
  | cons first rest ih =>
      obtain ⟨hfinish, hrest⟩ := h
      intro span hspan
      rcases List.mem_cons.mp hspan with rfl | hspan
      · exact ⟨hrest.low_le, Nat.le_of_eq hfinish⟩
      · have hin := ih hrest span hspan
        have hstart : first.start ≤ high := by
          unfold Span.finish at hfinish
          omega
        exact ⟨hin.1, Nat.le_trans hin.2 hstart⟩

theorem Stacked.pairwise {since low high : Nat} {spans : List Span}
    (h : Stacked since low high spans) :
    spans.Pairwise fun later earlier => earlier.finish ≤ later.start := by
  induction spans generalizing high with
  | nil => exact .nil
  | cons first rest ih =>
      exact .cons (fun span hspan => (h.2.within span hspan).2) (ih h.2)

theorem Stacked.covers {since low high i : Nat} {spans : List Span}
    (h : Stacked since low high spans) (hsince : since ≤ i) (hlow : low ≤ i)
    (hhigh : i < high) : ∃ span ∈ spans, span.start ≤ i ∧ i < span.finish := by
  induction spans generalizing high with
  | nil =>
      obtain ⟨-, hempty⟩ := h
      omega
  | cons first rest ih =>
      obtain ⟨hfinish, hrest⟩ := h
      by_cases hin : first.start ≤ i
      · exact ⟨first, List.mem_cons_self .., hin, by omega⟩
      · obtain ⟨span, hspan, hi⟩ := ih hrest (by omega)
        exact ⟨span, List.mem_cons_of_mem _ hspan, hi⟩

section Describes

variable {since high : Nat} {ground : List Span} {bases : List Nat}
  {tenures : List Tenure}

theorem Describes.guard_le (h : Describes since ground high bases tenures) :
    guard ≤ high := by
  induction bases generalizing high tenures with
  | nil =>
      cases tenures with
      | nil => exact Stacked.low_le h
      | cons top rest => exact h.elim
  | cons base bases ih =>
      cases tenures with
      | nil => exact h.elim
      | cons top rest =>
          obtain ⟨-, hspans, hrest⟩ := h
          exact Nat.le_trans (ih hrest) hspans.low_le

theorem Describes.marks (h : Describes since ground high bases tenures) :
    tenures.map Tenure.mark = bases := by
  induction bases generalizing high tenures with
  | nil =>
      cases tenures with
      | nil => rfl
      | cons top rest => exact h.elim
  | cons base bases ih =>
      cases tenures with
      | nil => exact h.elim
      | cons top rest =>
          obtain ⟨hmark, -, hrest⟩ := h
          simp [hmark, ih hrest]

theorem Describes.live (h : Describes since ground high bases tenures) :
    (∀ span ∈ (Ledger.mk tenures ground).live, guard ≤ span.start ∧
      span.finish ≤ high) ∧
      (Ledger.mk tenures ground).live.Pairwise
        fun later earlier => earlier.finish ≤ later.start := by
  induction bases generalizing high tenures with
  | nil =>
      cases tenures with
      | nil => exact ⟨Stacked.within h, Stacked.pairwise h⟩
      | cons top rest => exact h.elim
  | cons base bases ih =>
      cases tenures with
      | nil => exact h.elim
      | cons top rest =>
          obtain ⟨-, hspans, hrest⟩ := h
          obtain ⟨hwithin, hpairwise⟩ := ih hrest
          rw [Ledger.live_cons]
          constructor
          · intro span hspan
            rcases List.mem_append.mp hspan with hspan | hspan
            · have hin := hspans.within span hspan
              exact ⟨Nat.le_trans hrest.guard_le hin.1, hin.2⟩
            · have hin := hwithin span hspan
              exact ⟨hin.1, Nat.le_trans hin.2 hspans.low_le⟩
          · refine List.pairwise_append.mpr ⟨hspans.pairwise, hpairwise, ?_⟩
            intro later hlater earlier hearlier
            exact Nat.le_trans (hwithin earlier hearlier).2
              (hspans.within later hlater).1

theorem Describes.covers (h : Describes since ground high bases tenures)
    {i : Nat} (hguard : guard ≤ i) (hsince : since ≤ i) (hi : i < high) :
    ∃ span ∈ (Ledger.mk tenures ground).live, span.start ≤ i ∧
      i < span.finish := by
  induction bases generalizing high tenures with
  | nil =>
      cases tenures with
      | nil => exact Stacked.covers h hsince hguard hi
      | cons top rest => exact h.elim
  | cons base bases ih =>
      cases tenures with
      | nil => exact h.elim
      | cons top rest =>
          obtain ⟨-, hspans, hrest⟩ := h
          by_cases hbase : base ≤ i
          · obtain ⟨span, hspan, hin⟩ := hspans.covers hsince hbase hi
            exact ⟨span, by simp [hspan], hin⟩
          · obtain ⟨span, hspan, hin⟩ := ih hrest (by omega)
            exact ⟨span, by simp [hspan], hin⟩

end Describes

/-! ## Tracked runs -/

structure Tracked.Sound (since : Nat) (s : Tracked) : Prop where
  wellFormed : s.arena.WellFormed
  described :
    Describes since s.ledger.ground s.arena.mark s.arena.bases s.ledger.tenures

namespace Tracked

theorem start_describes {since high : Nat} {bases : List Nat}
    (hbounds : (high :: (bases ++ [guard])).Pairwise (· ≥ ·))
    (hsince : high ≤ since) :
    Describes since [] high bases (bases.map fun base => ⟨base, []⟩) := by
  induction bases generalizing high with
  | nil =>
      have hguard : guard ≤ high := List.rel_of_pairwise_cons hbounds (by simp)
      exact ⟨hguard, Or.inr hsince⟩
  | cons base bases ih =>
      have hbase : base ≤ high := List.rel_of_pairwise_cons hbounds (by simp)
      have hrest :=
        ih (List.pairwise_cons.mp hbounds).2 (Nat.le_trans hbase hsince)
      exact ⟨rfl, ⟨hbase, Or.inr hsince⟩, hrest⟩

theorem start_sound {a : Arena} (h : a.WellFormed) : (start a).Sound a.mark :=
  ⟨h, start_describes h.inner_bounds (Nat.le_refl _)⟩

theorem describes_add {since : Nat} {l : Ledger} {high : Nat} {bases : List Nat}
    (size : Nat) (h : Describes since l.ground high bases l.tenures) :
    Describes since (l.add ⟨high, size⟩).ground (high + size) bases
      (l.add ⟨high, size⟩).tenures := by
  obtain ⟨tenures, ground⟩ := l
  cases bases with
  | nil =>
      cases tenures with
      | nil => exact ⟨rfl, h⟩
      | cons top rest => exact h.elim
  | cons base bases =>
      cases tenures with
      | nil => exact h.elim
      | cons top rest =>
          obtain ⟨hmark, hspans, hrest⟩ := h
          exact ⟨hmark, ⟨rfl, hspans⟩, hrest⟩

/-- A successful operation keeps the ledger true. -/
theorem described_of_effect {since : Nat} {s : Tracked} {op : Operation}
    {answer : Answer} {b : Arena} (h : s.Sound since)
    (heffect : Effect s.arena op answer b) :
    Describes since (s.ledger.note s.arena op answer).ground b.mark b.bases
      (s.ledger.note s.arena op answer).tenures := by
  obtain ⟨hformed, hledger⟩ := h
  cases heffect with
  | push scope kind call =>
      exact ⟨rfl, ⟨Nat.le_refl _, Or.inl (Nat.le_refl _)⟩, hledger⟩
  | pop =>
      unfold popFrame
      unfold bases at hledger
      cases hframes : s.arena.frames with
      | nil =>
          rw [hframes] at hledger
          cases htenures : s.ledger.tenures with
          | nil => simpa [Ledger.note, htenures, bases, hframes] using hledger
          | cons top rest =>
              rw [htenures] at hledger
              exact hledger.elim
      | cons frame frames =>
          rw [hframes] at hledger
          cases htenures : s.ledger.tenures with
          | nil =>
              rw [htenures] at hledger
              exact hledger.elim
          | cons top rest =>
              rw [htenures] at hledger
              simpa [Ledger.note, htenures, bases] using hledger.2.2
  | allocate types type source contents hlength hfits =>
      rw [claim_mark, claim_bases, hlength]
      exact describes_add _ hledger
  | reserve types type contents hlength hfits =>
      have hstart : s.arena.base + (s.arena.mark - s.arena.base) =
          s.arena.mark :=
        Nat.add_sub_cancel' hformed.base_le_mark
      rw [claim_mark, claim_bases, hlength]
      simp only [Ledger.note, hstart]
      exact describes_add _ hledger
  | adopt types type hroom => exact hledger
  | look op answer hop =>
      rw [Ledger.note_of_reads _ _ _ hop]
      exact hledger
  | overwrite op addr contents hop hbounds =>
      rw [Ledger.note_of_stores _ _ _ hop]
      exact hledger

theorem step_sound {since : Nat} {s : Tracked} (h : s.Sound since)
    (op : Operation) : (s.step op).Sound since := by
  unfold step
  cases hperform : op.perform s.arena with
  | ok answer b =>
      have heffect := perform_effect hperform
      exact ⟨heffect.wellFormed h.wellFormed, described_of_effect h heffect⟩
  | error e b =>
      cases perform_error hperform
      exact h

theorem steps_sound {since : Nat} {s : Tracked} (h : s.Sound since)
    (ops : List Operation) : (s.steps ops).Sound since := by
  induction ops generalizing s with
  | nil => exact h
  | cons op ops ih => exact ih (step_sound h op)

theorem step_capacity (s : Tracked) (op : Operation) :
    (s.step op).arena.capacity = s.arena.capacity := by
  unfold step
  cases hperform : op.perform s.arena with
  | ok answer b => exact (perform_effect hperform).capacity
  | error e b =>
      cases perform_error hperform
      rfl

theorem steps_capacity (s : Tracked) (ops : List Operation) :
    (s.steps ops).arena.capacity = s.arena.capacity := by
  induction ops generalizing s with
  | nil => rfl
  | cons op ops ih => exact (ih (s.step op)).trans (step_capacity s op)

theorem step_arena (s : Tracked) (op : Operation) :
    (s.step op).arena = (op.outcome s.arena).2 := by
  unfold step Operation.outcome
  cases op.perform s.arena <;> rfl

theorem steps_arena (s : Tracked) (ops : List Operation) :
    (s.steps ops).arena = (run ops s.arena).2 := by
  induction ops generalizing s with
  | nil => rfl
  | cons op ops ih =>
      have htail := ih (s.step op)
      rw [step_arena] at htail
      exact htail

end Tracked

/-! ## The discipline of a run -/

structure Exact (a : Arena) : Prop where
  offset : a.base ≤ a.mark
  slice : ∀ addr len, a.inBounds addr len = true →
    addr + len ≤ a.capacity ∧ (len = 0 ∨ addr + len ≤ a.bytes.size)
  slot : ∀ types type lookBack slot b,
    Arena.reserve types type lookBack a = .ok slot b →
      a.base + slot.offset + types.sizeOf type = b.mark
  overflow : ∀ types type source e b, Arena.allocate types type source a =
    .error e b →
    (∃ src, source = some src ∧
      e = Failure.invalidMemoryAccess src (types.sizeOf type)) ∨
      ∃ room, a.mark + room = a.capacity ∧
        e = Failure.stackOverflow (types.sizeOf type) room

theorem slot_finish {a b : Arena} {types : TypeTable} {type : TypeId}
    {lookBack : Bool} {slot : Slot} (h : a.WellFormed)
    (hreserve : Arena.reserve types type lookBack a = .ok slot b) :
    a.base + slot.offset + types.sizeOf type = b.mark := by
  have hbase := h.base_le_mark
  cases lookBack with
  | false =>
      obtain ⟨contents, hlength, -, rfl, rfl⟩ := reserve_fresh_eq_ok hreserve
      rw [claim_mark, hlength]
      simp only
      omega
  | true =>
      obtain ⟨hroom, rfl, rfl⟩ := reserve_back_eq_ok hreserve
      simp only
      omega

theorem allocate_failure {a b : Arena} {types : TypeTable} {type : TypeId}
    {source : Option Nat} {e : Failure} (h : a.WellFormed)
    (hallocate : Arena.allocate types type source a = .error e b) :
    (∃ src, source = some src ∧
      e = Failure.invalidMemoryAccess src (types.sizeOf type)) ∨
      ∃ room, a.mark + room = a.capacity ∧
        e = Failure.stackOverflow (types.sizeOf type) room := by
  rw [allocate_eq] at hallocate
  split at hallocate
  · cases source with
    | none => cases hallocate
    | some src =>
        left
        split at hallocate <;> cases hallocate
        exact ⟨src, rfl, rfl⟩
  · right
    cases hallocate
    exact ⟨a.capacity - a.mark, Nat.add_sub_cancel' h.mark_le_capacity, rfl⟩

theorem WellFormed.exact {a : Arena} (h : a.WellFormed) : a.Exact where
  offset := h.base_le_mark
  slice _ _ hbounds := h.range_le hbounds
  slot _ _ _ _ _ hreserve := slot_finish h hreserve
  overflow _ _ _ _ _ hallocate := allocate_failure h hallocate

structure Overwritten (a : Arena) (addr : Nat) (contents : List UInt8)
    (b : Arena) : Prop where
  capacity : b.capacity = a.capacity
  mark : b.mark = a.mark
  frames : b.frames = a.frames
  byteAt : ∀ i, b.byteAt i =
    if addr ≤ i ∧ i < addr + contents.length then contents.getD (i - addr) 0
      else a.byteAt i

theorem perform_overwrites {a b : Arena} {op : Operation} {answer : Answer}
    {addr : Nat} {contents : List UInt8} (h : a.WellFormed)
    (hop : op.stores? a = some (addr, contents))
    (hperform : op.perform a = .ok answer b) :
    Overwritten a addr contents b := by
  cases perform_effect hperform with
  | push scope kind call => cases hop
  | pop => cases hop
  | allocate types type source contents hlength hfits => cases hop
  | reserve types type contents hlength hfits => cases hop
  | adopt types type hroom => cases hop
  | look op answer hreads =>
      cases op <;> simp [Operation.reads, Operation.stores?] at hreads hop
  | overwrite op addr' contents' hop' hbounds =>
      cases hop'.symm.trans hop
      refine ⟨rfl, rfl, rfl, fun i => ?_⟩
      exact getD_store a.bytes addr contents i (h.range_le hbounds).2

theorem pairwise_disjoint {spans : List Span}
    (h : spans.Pairwise fun later earlier => earlier.finish ≤ later.start) :
    spans.Pairwise Span.Disjoint :=
  h.imp fun hbelow => Or.inr hbelow

theorem popFrame_mark {a : Arena} {tenures : List Tenure}
    (hmarks : tenures.map Tenure.mark = a.bases) {tenure : Tenure}
    {rest : List Tenure} (htenures : tenures = tenure :: rest) :
    a.popFrame.mark = tenure.mark := by
  unfold bases at hmarks
  subst htenures
  cases hframes : a.frames with
  | nil => simp [hframes] at hmarks
  | cons frame frames =>
      rw [hframes] at hmarks
      simp only [List.map_cons, List.cons.injEq] at hmarks
      simp [popFrame, hframes, hmarks.1]

/--
Every run on a new arena keeps capacity, mark, bases and guard in order, so
that nothing it computes is out of range; popping a frame goes back to the mark
at which it was pushed; the live spans are disjoint and lie between guard and
mark; what stores bytes changes its range and nothing else; and what fails
changes nothing.
-/
theorem run_discipline (capacity : Nat) (ops : List Operation) :
    let s := (Tracked.start (ofCapacity capacity)).steps ops
    s.arena = (run ops (ofCapacity capacity)).2 ∧
    s.arena.capacity = max capacity guard ∧
    (s.arena.capacity :: s.arena.mark :: (s.arena.bases ++ [guard])).Pairwise
      (· ≥ ·) ∧
    s.arena.Exact ∧
    s.ledger.tenures.map Tenure.mark = s.arena.bases ∧
    (∀ tenure rest, s.ledger.tenures = tenure :: rest →
      s.arena.popFrame.mark = tenure.mark) ∧
    s.ledger.live.Pairwise Span.Disjoint ∧
    (∀ span ∈ s.ledger.live, guard ≤ span.start ∧ span.finish ≤ s.arena.mark) ∧
    (∀ (op : Operation) addr contents answer b, op.stores? s.arena =
      some (addr, contents) →
      op.perform s.arena = .ok answer b → Overwritten s.arena addr contents b) ∧
    ∀ (op : Operation) e b, op.perform s.arena = .error e b → b = s.arena := by
  intro s
  have hsound : s.Sound guard :=
    Tracked.steps_sound (Tracked.start_sound (ofCapacity_wellFormed capacity))
      ops
  have hmarks := hsound.described.marks
  have hlive := hsound.described.live
  refine ⟨Tracked.steps_arena _ ops, Tracked.steps_capacity _ ops,
    hsound.wellFormed.bounds,
    hsound.wellFormed.exact, hmarks, ?_, pairwise_disjoint hlive.2,
    hlive.1, ?_, ?_⟩
  · intro tenure rest htenures
    exact popFrame_mark hmarks htenures
  · intro op addr contents answer b hop hperform
    exact perform_overwrites hsound.wellFormed hop hperform
  · intro op e b hperform
    exact perform_error hperform

end ArenaScript.Arena
