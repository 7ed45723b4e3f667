import ArenaScript.Handle
import ArenaScript.Syntax.Node
/-!
# Kinds of types

A type is a core scalar, a callable handle, an instance of a built-in template,
or a class, union or enumeration that a program declares.
-/

namespace ArenaScript

/-- Built-in scalar types.  A `str` is an index into the engine's string
pool. -/
inductive CoreKind where
  | void | bool
  | int8 | int16 | int32 | int64
  | uint8 | uint16 | uint32 | uint64
  | float32 | float64
  | str
  deriving DecidableEq, Repr, Inhabited

namespace CoreKind

def all : List CoreKind :=
  [.void, .bool, .int8, .int16, .int32, .int64, .uint8, .uint16,
    .uint32, .uint64, .float32, .float64, .str]

def name : CoreKind → String
  | .void => "Void"
  | .bool => "Bool"
  | .int8 => "Int8"
  | .int16 => "Int16"
  | .int32 => "Int32"
  | .int64 => "Int64"
  | .uint8 => "UInt8"
  | .uint16 => "UInt16"
  | .uint32 => "UInt32"
  | .uint64 => "UInt64"
  | .float32 => "Float32"
  | .float64 => "Float64"
  | .str => "Str"

def ofName? (text : String) : Option CoreKind := all.find? (·.name == text)

def size : CoreKind → Nat
  | .void => 0
  | .bool | .int8 | .uint8 => 1
  | .int16 | .uint16 => 2
  | .int32 | .uint32 | .float32 => 4
  | .int64 | .uint64 | .float64 | .str => 8

def typeId : CoreKind → TypeId
  | .void => ⟨0⟩
  | .bool => ⟨1⟩
  | .int8 => ⟨2⟩
  | .int16 => ⟨3⟩
  | .int32 => ⟨4⟩
  | .int64 => ⟨5⟩
  | .uint8 => ⟨6⟩
  | .uint16 => ⟨7⟩
  | .uint32 => ⟨8⟩
  | .uint64 => ⟨9⟩
  | .float32 => ⟨10⟩
  | .float64 => ⟨11⟩
  | .str => ⟨12⟩

def isSigned : CoreKind → Bool
  | .int8 | .int16 | .int32 | .int64 => true
  | _ => false

def isUnsigned : CoreKind → Bool
  | .uint8 | .uint16 | .uint32 | .uint64 => true
  | _ => false

def isInteger (k : CoreKind) : Bool := k.isSigned || k.isUnsigned

def isFloat : CoreKind → Bool
  | .float32 | .float64 => true
  | _ => false

def isNumeric (k : CoreKind) : Bool := k.isInteger || k.isFloat

end CoreKind

inductive CallableKind where
  | function
  | method
  deriving DecidableEq, Repr, Inhabited

namespace CallableKind

def name : CallableKind → String
  | .function => "Function"
  | .method => "Method"

def size : CallableKind → Nat
  | .function => 8
  | .method => 16

end CallableKind

/-- Built-in templates: elements side by side, an address that reads and writes
through to its target, and an address with arithmetic. -/
inductive TemplateKind where
  | array
  | ref
  | address
  deriving DecidableEq, Repr, Inhabited

namespace TemplateKind

def name : TemplateKind → String
  | .array => "Array"
  | .ref => "Ref"
  | .address => "Address"

def ofName? : String → Option TemplateKind
  | "Array" => some .array
  | "Ref" => some .ref
  | "Address" => some .address
  | _ => none

end TemplateKind

inductive TemplateArg where
  | type (t : TypeId)
  | int (n : Int64)
  deriving DecidableEq, Repr

inductive StructKind where
  | classKind
  | enumKind
  | unionKind
  deriving DecidableEq, Repr, Inhabited

structure Initializer where
  tree : TreeId
  node : Node
  deriving Repr

structure Field where
  name : String
  type : TypeId
  offset : Nat
  initializer : Option Initializer
  deriving Repr

/-- A class, union or enumeration.  It is registered as an incomplete shell, so
that its members may refer back to it, and completed once they are known. -/
structure Structural where
  kind : StructKind
  fields : List Field
  variants : List (String × Int64)
  origin : Option (TemplateId × List TemplateArg)
  align : Nat
  complete : Bool
  deriving Repr

namespace Structural

def shell (kind : StructKind) : Structural :=
  { kind, fields := [], variants := [], origin := none, align := 1,
    complete := false }

def field? (s : Structural) (name : String) : Option Field :=
  s.fields.find? (·.name == name)

def variant? (s : Structural) (name : String) : Option Int64 :=
  (s.variants.find? (·.1 == name)).map (·.2)

def variantName? (s : Structural) (value : Int64) : Option String :=
  (s.variants.find? (·.2 == value)).map (·.1)

end Structural

inductive Shape where
  | core (kind : CoreKind)
  | structural (body : Structural)
  | template (kind : TemplateKind) (args : List TemplateArg)
  | callable (kind : CallableKind)
  deriving Repr

end ArenaScript
