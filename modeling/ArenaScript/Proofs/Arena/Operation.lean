import ArenaScript.Proofs.Arena.Bytes

/-!
# Runs of arena operations

An arena is used through a fixed set of operations.  `Operation.perform` puts
them under one roof, `Effect` says once what a successful operation can do, and
a failed one does nothing.  Every later statement about runs is derived from
these two facts.
-/

namespace ArenaScript.Arena

inductive Operation where
  | pushFrame (scope : ScopeId) (kind : FrameKind) (call : Option CallRecord)
  | popFrame
  | allocate (types : TypeTable) (type : TypeId) (source : Option Nat)
  | reserve (types : TypeTable) (type : TypeId) (lookBack : Bool)
  | read (addr len : Nat)
  | write (addr : Nat) (contents : List UInt8)
  | copy (src dst len : Nat)
  | readWord (addr : Nat)
  | writeWord (addr word : Nat)
  | readScalar (addr : Nat) (kind : CoreKind)
  | writeScalar (addr : Nat) (kind : CoreKind) (scalar : Scalar)

inductive Answer where
  | frame (index : Nat)
  | popped (frame : Option Frame)
  | value (v : Value)
  | slot (s : Slot)
  | bytes (contents : List UInt8)
  | word (n : Nat)
  | scalar (s : Scalar)
  | done

def look {α : Type} (f : Arena → Except Failure α) : Op α := fun a =>
  match f a with
  | .ok answer => .ok answer a
  | .error e => .error e a

namespace Operation

def perform : Operation → Op Answer
  | .pushFrame scope kind call => fun a =>
      .ok (.frame a.depth) (a.pushFrame scope kind call)
  | .popFrame => fun a => .ok (.popped a.top?) a.popFrame
  | .allocate types type source => .value <$> Arena.allocate types type source
  | .reserve types type lookBack => .slot <$> Arena.reserve types type lookBack
  | .read addr len => .bytes <$> look fun a => a.read addr len
  | .write addr contents => (fun _ => .done) <$> Arena.write addr contents
  | .copy src dst len => (fun _ => .done) <$> Arena.copy src dst len
  | .readWord addr => .word <$> look fun a => a.readWord addr
  | .writeWord addr word => (fun _ => .done) <$> Arena.writeWord addr word
  | .readScalar addr kind => .scalar <$> look fun a => a.readScalar addr kind
  | .writeScalar addr kind scalar =>
      (fun _ => .done) <$> Arena.writeScalar addr kind scalar

def stores? (a : Arena) : Operation → Option (Nat × List UInt8)
  | .write addr contents => some (addr, contents)
  | .copy src dst len => some (dst, load a.bytes src len)
  | .writeWord addr word => some (addr, lowBytes word 8)
  | .writeScalar addr kind scalar => some (addr, scalar.encode kind)
  | _ => none

def reads : Operation → Bool
  | .read .. | .readWord .. | .readScalar .. => true
  | _ => false

def outcome (op : Operation) (a : Arena) : Except Failure Answer × Arena :=
  match op.perform a with
  | .ok answer a => (.ok answer, a)
  | .error e a => (.error e, a)

end Operation

def run : List Operation → Arena → List (Except Failure Answer) × Arena
  | [], a => ([], a)
  | op :: ops, a =>
      let (answer, next) := op.outcome a
      let (answers, last) := run ops next
      (answer :: answers, last)

/-! ## The innermost frame -/

@[simp] theorem modifyTop_capacity (a : Arena) (f : Frame → Frame) :
    (a.modifyTop f).capacity = a.capacity := by
  unfold modifyTop
  split <;> rfl

@[simp] theorem modifyTop_bytes (a : Arena) (f : Frame → Frame) :
    (a.modifyTop f).bytes = a.bytes := by
  unfold modifyTop
  split <;> rfl

@[simp] theorem modifyTop_mark (a : Arena) (f : Frame → Frame) :
    (a.modifyTop f).mark = a.mark := by
  unfold modifyTop
  split <;> rfl

@[simp] theorem modifyTop_frames (a : Arena) (f : Frame → Frame) :
    (a.modifyTop f).frames = a.frames.modifyHead f := by
  unfold modifyTop
  split
  · simp [*]
  · simp [*]

/-! ## Allocation -/

def claim (a : Arena) (types : TypeTable) (type : TypeId)
    (contents : List UInt8) : Arena :=
  let grown := a.extend contents (a.mark + contents.length)
  if (types.get type).aggregate then grown.own ⟨type, a.mark⟩ else grown

def initial? (a : Arena) (size : Nat) : Option Nat → Option (List UInt8)
  | none => some (List.replicate size 0)
  | some src =>
      if a.inBounds src size then some (load a.bytes src size) else none

theorem length_of_initial? {a : Arena} {size : Nat} {source : Option Nat}
    {contents : List UInt8} (h : a.initial? size source = some contents) :
    contents.length = size := by
  cases source with
  | none =>
      cases h
      simp
  | some src =>
      simp only [initial?] at h
      split at h
      · cases h
        simp
      · cases h

theorem allocate_eq (types : TypeTable) (type : TypeId) (source : Option Nat)
    (a : Arena) :
    Arena.allocate types type source a =
      if a.mark + types.sizeOf type ≤ a.capacity then
        match a.initial? (types.sizeOf type) source with
        | some contents => .ok ⟨type, a.mark⟩ (a.claim types type contents)
        | none => .error
            (Failure.invalidMemoryAccess (source.getD 0) (types.sizeOf type)) a
      else .error
        (Failure.stackOverflow (types.sizeOf type) (a.capacity - a.mark))
          a := by
  unfold Arena.allocate
  by_cases hfits : a.mark + types.sizeOf type ≤ a.capacity
  · simp only [hfits, ↓reduceIte]
    cases source with
    | none => simp [initial?, claim]
    | some src =>
        by_cases hsrc : a.inBounds src (types.sizeOf type)
        · simp [initial?, claim, hsrc]
        · simp [initial?, hsrc]
  · simp [hfits]

theorem claim_capacity (a : Arena) (types : TypeTable) (type : TypeId)
    (contents : List UInt8) :
    (a.claim types type contents).capacity = a.capacity := by
  simp only [claim, own]
  split
  · rw [modifyTop_capacity]
    rfl
  · rfl

theorem claim_mark (a : Arena) (types : TypeTable) (type : TypeId)
    (contents : List UInt8) :
    (a.claim types type contents).mark = a.mark + contents.length := by
  simp only [claim, own]
  split
  · rw [modifyTop_mark]
    rfl
  · rfl

theorem claim_bytes (a : Arena) (types : TypeTable) (type : TypeId)
    (contents : List UInt8) :
    (a.claim types type contents).bytes =
      store (grow a.bytes (a.mark + contents.length)) a.mark contents := by
  simp only [claim, own]
  split
  · rw [modifyTop_bytes]
    rfl
  · rfl

theorem claim_frames (a : Arena) (types : TypeTable) (type : TypeId)
    (contents : List UInt8) :
    (a.claim types type contents).frames =
      if (types.get type).aggregate then
        a.frames.modifyHead fun frame =>
          { frame with destructibles := ⟨type, a.mark⟩ :: frame.destructibles }
      else a.frames := by
  simp only [claim, own]
  split
  · rw [modifyTop_frames]
    rfl
  · rfl

theorem claim_byteAt (a : Arena) (types : TypeTable) (type : TypeId)
    (contents : List UInt8) (i : Nat) :
    (a.claim types type contents).byteAt i =
      if a.mark ≤ i ∧ i < a.mark + contents.length then
        contents.getD (i - a.mark) 0
      else a.byteAt i := by
  have hroom : a.mark + contents.length ≤
      (grow a.bytes (a.mark + contents.length)).size := by
    rw [size_grow]
    omega
  unfold byteAt
  rw [claim_bytes, getD_store _ _ _ _ (Or.inr hroom), getD_grow]

/-! ## Success and failure of each operation -/

theorem map_eq_ok {α β : Type} {x : Op α} {f : α → β} {a b : Arena} {y : β}
    (h : (f <$> x) a = .ok y b) : ∃ v, x a = .ok v b ∧ f v = y := by
  simp only [Functor.map, EStateM.map] at h
  cases hx : x a with
  | ok v c =>
      rw [hx] at h
      cases h
      exact ⟨v, rfl, rfl⟩
  | error e c =>
      rw [hx] at h
      cases h

theorem map_eq_error {α β : Type} {x : Op α} {f : α → β} {a b : Arena}
    {e : Failure} (h : (f <$> x) a = .error e b) : x a = .error e b := by
  simp only [Functor.map, EStateM.map] at h
  cases hx : x a with
  | ok v c =>
      rw [hx] at h
      cases h
  | error e c =>
      rw [hx] at h
      cases h
      rfl

theorem look_eq_ok {α : Type} {f : Arena → Except Failure α} {a b : Arena}
    {answer : α} (h : look f a = .ok answer b) : b = a := by
  unfold look at h
  split at h <;> cases h
  rfl

theorem look_eq_error {α : Type} {f : Arena → Except Failure α} {a b : Arena}
    {e : Failure} (h : look f a = .error e b) : b = a := by
  unfold look at h
  split at h <;> cases h
  rfl

theorem allocate_eq_ok {types : TypeTable} {type : TypeId} {source : Option Nat}
    {a b : Arena} {v : Value}
    (h : Arena.allocate types type source a = .ok v b) :
    ∃ contents : List UInt8, contents.length = types.sizeOf type ∧
      a.mark + contents.length ≤ a.capacity ∧ v = ⟨type, a.mark⟩ ∧
      b = a.claim types type contents := by
  rw [allocate_eq] at h
  split at h
  · rename_i hfits
    split at h
    · rename_i contents hcontents
      have hlength := length_of_initial? hcontents
      cases h
      exact ⟨contents, hlength, by rw [hlength]; exact hfits, rfl, rfl⟩
    · cases h
  · cases h

theorem allocate_eq_error {types : TypeTable} {type : TypeId}
    {source : Option Nat} {a b : Arena} {e : Failure}
    (h : Arena.allocate types type source a = .error e b) : b = a := by
  rw [allocate_eq] at h
  split at h
  · split at h <;> cases h
    rfl
  · cases h
    rfl

theorem reserve_fresh_eq_ok {types : TypeTable} {type : TypeId} {a b : Arena}
    {slot : Slot} (h : Arena.reserve types type false a = .ok slot b) :
    ∃ contents : List UInt8, contents.length = types.sizeOf type ∧
      a.mark + contents.length ≤ a.capacity ∧ slot = ⟨type, a.mark - a.base⟩ ∧
      b = a.claim types type contents := by
  simp only [Arena.reserve, Bool.false_eq_true, ↓reduceIte] at h
  split at h
  · rename_i v c hc
    obtain ⟨contents, hlength, hfits, hv, hb⟩ := allocate_eq_ok hc
    cases h
    exact ⟨contents, hlength, hfits, by rw [hv], hb⟩
  · cases h

theorem reserve_back_eq_ok {types : TypeTable} {type : TypeId} {a b : Arena}
    {slot : Slot} (h : Arena.reserve types type true a = .ok slot b) :
    a.base + types.sizeOf type ≤ a.mark ∧
      slot = ⟨type, a.mark - types.sizeOf type - a.base⟩ ∧ b = a := by
  simp only [Arena.reserve, ↓reduceIte] at h
  split at h
  · rename_i hroom
    cases h
    exact ⟨hroom, rfl, rfl⟩
  · cases h

theorem reserve_eq_error {types : TypeTable} {type : TypeId} {lookBack : Bool}
    {a b : Arena} {e : Failure}
    (h : Arena.reserve types type lookBack a = .error e b) : b = a := by
  unfold Arena.reserve at h
  simp only at h
  split at h
  · split at h <;> cases h
    rfl
  · split at h
    · cases h
    · rename_i hc
      cases h
      exact allocate_eq_error hc

theorem write_eq_ok {addr : Nat} {contents : List UInt8} {a b : Arena}
    {u : Unit} (h : Arena.write addr contents a = .ok u b) :
    a.inBounds addr contents.length = true ∧
      b = { a with bytes := store a.bytes addr contents } := by
  unfold Arena.write at h
  split at h
  · rename_i hbounds
    cases h
    exact ⟨hbounds, rfl⟩
  · cases h

theorem write_eq_error {addr : Nat} {contents : List UInt8} {a b : Arena}
    {e : Failure} (h : Arena.write addr contents a = .error e b) : b = a := by
  unfold Arena.write at h
  split at h <;> cases h
  rfl

theorem copy_eq_ok {src dst len : Nat} {a b : Arena} {u : Unit}
    (h : Arena.copy src dst len a = .ok u b) :
    a.inBounds dst len = true ∧
      b = { a with bytes := store a.bytes dst (load a.bytes src len) } := by
  unfold Arena.copy at h
  split at h
  · split at h
    · rename_i hbounds
      cases h
      exact ⟨hbounds, rfl⟩
    · cases h
  · cases h

theorem copy_eq_error {src dst len : Nat} {a b : Arena} {e : Failure}
    (h : Arena.copy src dst len a = .error e b) : b = a := by
  unfold Arena.copy at h
  split at h
  · split at h <;> cases h
    rfl
  · cases h
    rfl

/-! ## What one operation can do -/

inductive Effect (a : Arena) : Operation → Answer → Arena → Prop
  | push (scope : ScopeId) (kind : FrameKind) (call : Option CallRecord) :
      Effect a (.pushFrame scope kind call) (.frame a.depth)
        (a.pushFrame scope kind call)
  | pop : Effect a .popFrame (.popped a.top?) a.popFrame
  | allocate (types : TypeTable) (type : TypeId) (source : Option Nat)
      (contents : List UInt8) (hlength : contents.length = types.sizeOf type)
      (hfits : a.mark + contents.length ≤ a.capacity) :
      Effect a (.allocate types type source) (.value ⟨type, a.mark⟩)
        (a.claim types type contents)
  | reserve (types : TypeTable) (type : TypeId) (contents : List UInt8)
      (hlength : contents.length = types.sizeOf type)
      (hfits : a.mark + contents.length ≤ a.capacity) :
      Effect a (.reserve types type false) (.slot ⟨type, a.mark - a.base⟩)
        (a.claim types type contents)
  | adopt (types : TypeTable) (type : TypeId)
      (hroom : a.base + types.sizeOf type ≤ a.mark) :
      Effect a (.reserve types type true)
        (.slot ⟨type, a.mark - types.sizeOf type - a.base⟩) a
  | look (op : Operation) (answer : Answer) (hop : op.reads = true) :
      Effect a op answer a
  | overwrite (op : Operation) (addr : Nat) (contents : List UInt8)
      (hop : op.stores? a = some (addr, contents))
      (hbounds : a.inBounds addr contents.length = true) :
      Effect a op .done { a with bytes := store a.bytes addr contents }

theorem perform_effect {op : Operation} {a b : Arena} {answer : Answer}
    (h : op.perform a = .ok answer b) : Effect a op answer b := by
  cases op with
  | pushFrame scope kind call =>
      cases h
      exact .push scope kind call
  | popFrame =>
      cases h
      exact .pop
  | allocate types type source =>
      obtain ⟨v, hv, rfl⟩ := map_eq_ok h
      obtain ⟨contents, hlength, hfits, rfl, rfl⟩ := allocate_eq_ok hv
      exact .allocate types type source contents hlength hfits
  | reserve types type lookBack =>
      obtain ⟨slot, hslot, rfl⟩ := map_eq_ok h
      cases lookBack with
      | false =>
          obtain ⟨contents, hlength, hfits, rfl, rfl⟩ :=
            reserve_fresh_eq_ok hslot
          exact .reserve types type contents hlength hfits
      | true =>
          obtain ⟨hroom, rfl, rfl⟩ := reserve_back_eq_ok hslot
          exact .adopt types type hroom
  | read addr len =>
      obtain ⟨contents, hread, rfl⟩ := map_eq_ok h
      cases look_eq_ok hread
      exact .look _ _ rfl
  | write addr contents =>
      obtain ⟨u, hwrite, rfl⟩ := map_eq_ok h
      obtain ⟨hbounds, rfl⟩ := write_eq_ok hwrite
      exact .overwrite _ addr contents rfl hbounds
  | copy src dst len =>
      obtain ⟨u, hcopy, rfl⟩ := map_eq_ok h
      obtain ⟨hbounds, rfl⟩ := copy_eq_ok hcopy
      exact .overwrite _ dst _ rfl (by simpa using hbounds)
  | readWord addr =>
      obtain ⟨n, hread, rfl⟩ := map_eq_ok h
      cases look_eq_ok hread
      exact .look _ _ rfl
  | writeWord addr word =>
      obtain ⟨u, hwrite, rfl⟩ := map_eq_ok h
      obtain ⟨hbounds, rfl⟩ := write_eq_ok hwrite
      exact .overwrite _ addr _ rfl hbounds
  | readScalar addr kind =>
      obtain ⟨scalar, hread, rfl⟩ := map_eq_ok h
      cases look_eq_ok hread
      exact .look _ _ rfl
  | writeScalar addr kind scalar =>
      obtain ⟨u, hwrite, rfl⟩ := map_eq_ok h
      obtain ⟨hbounds, rfl⟩ := write_eq_ok hwrite
      exact .overwrite _ addr _ rfl hbounds

/-- A failed operation leaves the arena as it was. -/
theorem perform_error {op : Operation} {a b : Arena} {e : Failure}
    (h : op.perform a = .error e b) : b = a := by
  cases op with
  | pushFrame scope kind call => cases h
  | popFrame => cases h
  | allocate types type source => exact allocate_eq_error (map_eq_error h)
  | reserve types type lookBack => exact reserve_eq_error (map_eq_error h)
  | read addr len => exact look_eq_error (map_eq_error h)
  | write addr contents => exact write_eq_error (map_eq_error h)
  | copy src dst len => exact copy_eq_error (map_eq_error h)
  | readWord addr => exact look_eq_error (map_eq_error h)
  | writeWord addr word => exact write_eq_error (map_eq_error h)
  | readScalar addr kind => exact look_eq_error (map_eq_error h)
  | writeScalar addr kind scalar => exact write_eq_error (map_eq_error h)

end ArenaScript.Arena
