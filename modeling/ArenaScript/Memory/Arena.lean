import ArenaScript.Memory.Scalar
import ArenaScript.Types.Table
/-!
# The arena

All values live in one byte arena of fixed capacity.  Allocation moves a mark
upwards; a stack of frames records where the mark has to return to.  Every
access is checked against the mark, so that what a popped frame has left behind
above the mark is never seen again.

Bytes that were never below the mark are not stored; they count as zero.
-/

namespace ArenaScript

/-- A typed place in the arena. -/
structure Value where
  type : TypeId
  addr : Nat
  deriving DecidableEq, Repr, Inhabited

namespace Value

def view (v : Value) (type : TypeId) (offset : Nat) : Value :=
  ⟨type, Word.add v.addr offset⟩

end Value

/-- A variable's place relative to the base of its frame. -/
structure Slot where
  type : TypeId
  offset : Nat
  deriving DecidableEq, Repr, Inhabited

inductive FrameKind where
  | universe
  | moduleFrame
  | function
  | block
  deriving DecidableEq, Repr, Inhabited

namespace FrameKind

def all : List FrameKind := [.universe, .moduleFrame, .function, .block]

def name : FrameKind → String
  | .universe => "Universe"
  | .moduleFrame => "Module"
  | .function => "Function"
  | .block => "Block"

def ofName? (text : String) : Option FrameKind := all.find? (·.name == text)

def isRoot : FrameKind → Bool
  | .universe | .moduleFrame => true
  | .function | .block => false

end FrameKind

structure CallRecord where
  function : FunctionId
  /-- The class of a method. -/
  owner : Option TypeId
  /-- The place in the caller's frame that receives the result. -/
  returnSlot : Option Value
  deriving DecidableEq, Repr

structure Frame where
  /-- The mark when the frame was pushed. -/
  base : Nat
  scope : ScopeId
  kind : FrameKind
  call : Option CallRecord
  locals : Bindings Slot := .empty
  /-- Aggregates allocated in this frame, the last one first. -/
  destructibles : List Value := []
  deriving Repr

namespace Frame

def bind (f : Frame) (name : String) (slot : Slot) : Frame :=
  { f with locals := f.locals.put name slot }

def local? (f : Frame) (name : String) : Option Slot := f.locals.get? name

def resolve (f : Frame) (slot : Slot) : Value :=
  ⟨slot.type, Word.add f.base slot.offset⟩

end Frame

structure Arena where
  capacity : Nat
  bytes : Array UInt8
  mark : Nat
  /-- Live frames, the innermost first. -/
  frames : List Frame
  deriving Repr

namespace Arena

/-- Bytes kept free at the bottom, so that a zeroed reference never points at
data. -/
def guard : Nat := 8

def ofCapacity (capacity : Nat) : Arena :=
  { capacity := max capacity guard, bytes := #[], mark := guard, frames := [] }

instance : Inhabited Arena := ⟨ofCapacity 0⟩

def depth (a : Arena) : Nat := a.frames.length

def top? (a : Arena) : Option Frame := a.frames.head?

def modifyTop (a : Arena) (f : Frame → Frame) : Arena :=
  match a.frames with
  | [] => a
  | top :: rest => { a with frames := f top :: rest }

/-! ## Bytes -/

def load (bytes : Array UInt8) (addr : Nat) : Nat → List UInt8
  | 0 => []
  | len + 1 => bytes.getD addr 0 :: load bytes (addr + 1) len

def store (bytes : Array UInt8) (addr : Nat) : List UInt8 → Array UInt8
  | [] => bytes
  | b :: rest => store (bytes.setIfInBounds addr b) (addr + 1) rest

def grow (bytes : Array UInt8) (size : Nat) : Array UInt8 :=
  if bytes.size < size then bytes ++ Array.replicate (size - bytes.size) 0
    else bytes

/-- Whether `len` bytes at `addr` lie below the mark and clear of the guard. -/
def inBounds (a : Arena) (addr len : Nat) : Bool :=
  addr + len ≤ a.mark && (len == 0 || guard ≤ addr)

/-! ## Operations

An operation that fails leaves the arena as it was. -/

abbrev Op := EStateM Failure Arena

def pushFrame (a : Arena) (scope : ScopeId) (kind : FrameKind)
    (call : Option CallRecord) : Arena :=
  { a with frames := { base := a.mark, scope, kind, call } :: a.frames }

def popFrame (a : Arena) : Arena :=
  match a.frames with
  | [] => a
  | top :: rest => { a with frames := rest, mark := top.base }

/-- The frames left when the innermost ones are popped until at most `depth`
remain, and the mark after that. -/
def unwind (depth mark : Nat) : List Frame → List Frame × Nat
  | [] => ([], mark)
  | top :: rest =>
      if depth ≤ rest.length then unwind depth top.base rest else
        (top :: rest, mark)

def unwindTo (a : Arena) (depth : Nat) : Arena :=
  let (frames, mark) := unwind depth a.mark a.frames
  { a with frames, mark }

def extend (a : Arena) (contents : List UInt8) (finish : Nat) : Arena :=
  { a with
    bytes := store (grow a.bytes finish) a.mark contents, mark := finish }

def own (a : Arena) (value : Value) : Arena :=
  a.modifyTop fun frame =>
    { frame with destructibles := value :: frame.destructibles }

def allocate (types : TypeTable) (type : TypeId) (source : Option Nat) :
    Op Value := fun a =>
  let size := types.sizeOf type
  let addr := a.mark
  let finish := addr + size
  if finish ≤ a.capacity then
    let allocated (a : Arena) : EStateM.Result Failure Arena Value :=
      .ok ⟨type, addr⟩ (if (types.get type).aggregate then
        a.own ⟨type, addr⟩ else a)
    match source with
    | none => allocated (a.extend (List.replicate size 0) finish)
    | some src =>
        if a.inBounds src size then
          let contents := load a.bytes src size
          allocated (a.extend contents finish)
        else .error (Failure.invalidMemoryAccess src size) a
  else .error (Failure.stackOverflow size (a.capacity - a.mark)) a

def base (a : Arena) : Nat := (a.top?.map Frame.base).getD guard

/-- Claims a slot in the innermost frame for a variable: fresh bytes, or with
`lookBack` the bytes just below the mark, where a temporary was allocated. -/
def reserve (types : TypeTable) (type : TypeId) (lookBack : Bool) :
    Op Slot := fun a =>
  let base := a.base
  if lookBack then
    let size := types.sizeOf type
    if base + size ≤ a.mark then .ok ⟨type, a.mark - size - base⟩ a
    else .error (Failure.invalidMemoryAccess a.mark size) a
  else
    match allocate types type none a with
    | .ok value a => .ok ⟨type, value.addr - base⟩ a
    | .error e a => .error e a

def read (a : Arena) (addr len : Nat) : Except Failure (List UInt8) :=
  if a.inBounds addr len then .ok (load a.bytes addr len)
  else .error (Failure.invalidMemoryAccess addr len)

def write (addr : Nat) (contents : List UInt8) : Op Unit := fun a =>
  if a.inBounds addr contents.length then
    .ok () { a with bytes := store a.bytes addr contents }
  else .error (Failure.invalidMemoryAccess addr contents.length) a

def copy (src dst len : Nat) : Op Unit := fun a =>
  if a.inBounds src len then
    if a.inBounds dst len then
      let contents := load a.bytes src len
      .ok () { a with bytes := store a.bytes dst contents }
    else .error (Failure.invalidMemoryAccess dst len) a
  else .error (Failure.invalidMemoryAccess src len) a

def readWord (a : Arena) (addr : Nat) : Except Failure Nat :=
  (a.read addr 8).map ofLowBytes

def writeWord (addr word : Nat) : Op Unit := write addr (lowBytes word 8)

def readScalar (a : Arena) (addr : Nat) (kind : CoreKind) :
    Except Failure Scalar :=
  (a.read addr kind.size).map (Scalar.decode kind)

def writeScalar (addr : Nat) (kind : CoreKind) (s : Scalar) : Op Unit :=
  write addr (s.encode kind)

end Arena

end ArenaScript
