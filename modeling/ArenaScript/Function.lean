import ArenaScript.Memory.Arith
import ArenaScript.Memory.Arena
/-!
# Functions

Functions the engine provides and functions a program declares share one table
and one calling convention: a list of values in, at most one value out.
-/

namespace ArenaScript

structure Param where
  name : String
  type : TypeId
  deriving DecidableEq, Repr

inductive Connective where
  | eq | ne | and | or
  deriving DecidableEq, Repr

namespace Connective

def all : List (String × Connective) :=
  [("==", .eq), ("!=", .ne), ("&&", .and), ("||", .or)]

def apply : Connective → Bool → Bool → Bool
  | .eq, a, b => a == b
  | .ne, a, b => a != b
  | .and, a, b => a && b
  | .or, a, b => a || b

end Connective

/-- What a function provided by the engine does. -/
inductive Native where
  | print (newline : Bool)
  | copyBytes (size : Nat)
  /-- Like `copyBytes`; the first argument is the result. -/
  | assignBytes (size : Nat)
  | copyMembers
  | assignMembers
  | compareConstants (c : Comparison)
  /-- Stores the second argument, cast, in the first. -/
  | convert (source target : CoreKind)
  | arith (op : Arith) (kind : CoreKind) (type : TypeId)
  | arithAssign (op : Arith) (kind : CoreKind)
  | compare (c : Comparison) (kind : CoreKind)
  | negate (kind : CoreKind) (type : TypeId)
  | complement (kind : CoreKind) (type : TypeId)
  | not
  | connect (c : Connective)
  | concat
  | compareStrings (c : Comparison)
  | stringSize
  | arrayData (address : TypeId)
  | arraySize (len : Nat)
  | arrayIndex (elem : TypeId) (len size : Nat)
  | copyReference
  /-- Lets a reference refer to the second argument. -/
  | bindReference
  | follow (target : TypeId)
  | assignThrough (target : TypeId)
  /-- The address that many elements further on, or further back. -/
  | shiftAddress (type : TypeId) (size : Nat) (backwards : Bool)
  | addressIndex (target : TypeId) (size : Nat)
  | compareAddresses (c : Comparison)
  deriving DecidableEq, Repr

inductive Body where
  | native (what : Native)
  /-- A `Function` node, the tree it is in and the scope its body runs in. -/
  | interpreted (tree : TreeId) (node : Node) (scope : ScopeId)
  deriving Repr

structure Traits where
  variadic : Bool := false
  /-- Named `construct`. -/
  constructs : Bool := false
  returnsRef : Bool := false
  /-- The first parameter is named `self`. -/
  method : Bool := false
  synthesized : Bool := false
  deriving DecidableEq, Repr

def Traits.bits (t : Traits) : Nat :=
  let bit (b : Bool) (weight : Nat) : Nat := if b then weight else 0
  bit t.variadic 1 + bit t.constructs 2 + bit t.returnsRef 4 + bit t.method 8 +
    bit t.synthesized 16

structure Function where
  name : String
  params : List Param
  ret : TypeId
  traits : Traits
  /-- The class this is a member of. -/
  owner : Option TypeId
  body : Body
  deriving Repr

namespace Function

instance : Inhabited Function :=
  ⟨{ name := "", params := [], ret := .void, traits := {}, owner := none
     body := .native (.print false) }⟩

def make (name : String) (params : List Param) (ret : TypeId) (traits : Traits)
    (owner : Option TypeId) (body : Body) : Function :=
  let method := (params.head?.map Param.name) == some "self"
  { name, params, ret, traits := { traits with method }, owner, body }

def isNative (f : Function) : Bool :=
  match f.body with
  | .native _ => true
  | .interpreted .. => false

def fixedParams (f : Function) : List Param :=
  if f.traits.variadic then f.params.dropLast else f.params

end Function

structure FunctionTable where
  functions : Array Function
  deriving Repr

namespace FunctionTable

def empty : FunctionTable := ⟨#[]⟩

instance : Inhabited FunctionTable := ⟨empty⟩

def size (t : FunctionTable) : Nat := t.functions.size

def add (t : FunctionTable) (f : Function) : FunctionId × FunctionTable :=
  (⟨t.size⟩, ⟨t.functions.push f⟩)

def get (t : FunctionTable) (id : FunctionId) : Function :=
  t.functions.getD id.index default

def checked? (t : FunctionTable) (raw : Nat) : Option FunctionId :=
  if raw < t.size then some ⟨raw⟩ else none

end FunctionTable

end ArenaScript
