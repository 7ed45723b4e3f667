import ArenaScript.Engine.State
/-!
# Values in the arena

Reading, writing and allocating values of the core types, and looking through
references.
-/

namespace ArenaScript

namespace Engine

def scalarKind? (s : Engine) (type : TypeId) : Option CoreKind :=
  let entry := s.types.get type
  match entry.core? with
  | some kind => some kind
  | none => if entry.isEnum then some .int32 else none

def scalarKind (s : Engine) (type : TypeId) : Except Failure CoreKind :=
  match s.scalarKind? type with
  | some kind => .ok kind
  | none => .error (Failure.typeConversion (s.types.name type) "scalar")

def isIntegral (s : Engine) (type : TypeId) : Bool :=
  (s.scalarKind? type).any (·.isInteger)

def readScalar (s : Engine) (value : Value) : Except Failure Scalar := do
  s.arena.readScalar value.addr (← s.scalarKind value.type)

def readBool (s : Engine) (value : Value) : Except Failure Bool :=
  if value.type = .bool then (s.readScalar value).map Scalar.toBool
  else .error (Failure.typeConversion (s.types.name value.type) "Bool")

def readStr (s : Engine) (value : Value) : Except Failure String :=
  if value.type = .str then do
    let index := (← s.readScalar value).toUInt64.toNat
    match s.strings.get? index with
    | some text => .ok text
    | none => .error (Failure.invalidMemoryAccess value.addr 8)
  else .error (Failure.typeConversion (s.types.name value.type) "Str")

/-- What a reference refers to; any other value is returned as it is. -/
def stripRef (s : Engine) (value : Value) : Except Failure Value :=
  match (s.types.get value.type).referenceTarget? with
  | some target => (s.arena.readWord value.addr).map fun addr => ⟨target, addr⟩
  | none => .ok value

def placeOf (s : Engine) (value : Value) (type : TypeId) :
    Except Failure Value :=
  if value.type = type then .ok value
  else if (s.types.get value.type).referenceTarget? = some type then
    s.stripRef value
  else .error
    (Failure.typeConversion (s.types.name value.type) (s.types.name type))

def voidValue (s : Engine) : Value := ⟨.void, s.arena.mark⟩

def typeNames (s : Engine) (values : List Value) : List String :=
  values.map fun v => s.types.name v.type

end Engine

namespace Eval

def stripRef (value : Value) : Eval Value := inspect fun s => s.stripRef value

def allocate (type : TypeId) : Eval Value := fun s =>
  let types := s.types
  onArena (Arena.allocate types type none) s

def reserve (type : TypeId) (lookBack : Bool) : Eval Slot := fun s =>
  let types := s.types
  onArena (Arena.reserve types type lookBack) s

def writeScalar (value : Value) (scalar : Scalar) : Eval Unit := do
  let kind ← inspect fun s => s.scalarKind value.type
  onArena (Arena.writeScalar value.addr kind scalar)

def allocScalar (type : TypeId) (scalar : Scalar) : Eval Value := do
  let value ← allocate type
  writeScalar value scalar
  pure value

def allocBool (b : Bool) : Eval Value := allocScalar .bool (.bool b)

def allocStr (text : String) : Eval Value := do
  let index ← modifyGet fun s =>
    let (index, strings) := s.strings.intern text
    (index, { s with strings })
  allocScalar .str (.uint index.toUInt64)

def allocAddress (type : TypeId) (addr : Nat) : Eval Value := do
  let value ← allocate type
  onArena (Arena.writeWord value.addr addr)
  pure value

end Eval

end ArenaScript
