import ArenaScript.Engine.Lookup
/-!
# Members the engine provides

The first time a type is used, native functions are added to its member scope:
copying and assignment for every type, arithmetic for numbers, element access
for arrays and addresses, rebinding and assignment through for references.
Members a program declares are registered earlier, so that they come first in
every overload list.
-/

namespace ArenaScript

/-- A native function to be added to a member scope, as an operator or under a
name. -/
structure Member where
  name : String
  isOperator : Bool
  params : List Param
  ret : TypeId
  native : Native
  deriving DecidableEq, Repr

namespace Member

def self (type : TypeId) : Param := ⟨"self", type⟩

def function (name : String) (params : List Param) (ret : TypeId)
    (native : Native) : Member :=
  { name, isOperator := false, params, ret, native }

def operator (symbol : String) (params : List Param) (ret : TypeId)
    (native : Native) : Member :=
  { name := symbol, isOperator := true, params, ret, native }

def binary (symbol : String) (type ret : TypeId) (native : Native) : Member :=
  operator symbol [self type, ⟨"rhs", type⟩] ret native

/-! ## Lists of members

In each list `type` is the type itself and `ref` the reference to it. -/

def copying (type ref : TypeId) (copy assign : Native) : List Member :=
  [function "construct" [self ref, ⟨"rhs", ref⟩] .void copy,
    operator "=" [self ref, ⟨"rhs", type⟩] type assign]

def bytewise (type ref : TypeId) (size : Nat) : List Member :=
  copying type ref (.copyBytes size) (.assignBytes size)

def memberwise (type ref : TypeId) : List Member :=
  copying type ref .copyMembers .assignMembers

def constants (type : TypeId) : List Member :=
  [("==", Comparison.eq), ("!=", Comparison.ne)].map fun (symbol, c) =>
    binary symbol type .bool (.compareConstants c)

def numeric (type ref : TypeId) (size : Nat) (kind : CoreKind) : List Member :=
  let sources := CoreKind.all.filter fun k => k.isNumeric && k != kind
  let conversions := sources.map fun source =>
    function "construct" [self ref, ⟨"rhs", source.typeId⟩] .void
      (.convert source kind)
  let operations :=
    (Arith.numeric ++ if kind.isInteger then Arith.bitwise else []).map
      fun (symbol, op) => binary symbol type type (.arith op kind type)
  let updates := Arith.numeric.map fun (symbol, op) =>
    operator (symbol ++ "=") [self ref, ⟨"rhs", type⟩] type
      (.arithAssign op kind)
  let comparisons := Comparison.all.map fun (symbol, c) =>
    binary symbol type .bool (.compare c kind)
  let complement :=
    if kind.isInteger then
      [operator "~" [self type] type (.complement kind type)] else []
  bytewise type ref size ++ conversions ++ operations ++ updates ++
    comparisons ++
    [operator "-" [self type] type (.negate kind type)] ++ complement

def boolean (type ref : TypeId) (size : Nat) : List Member :=
  bytewise type ref size ++ [operator "!" [self type] type .not] ++
    Connective.all.map fun (symbol, c) => binary symbol type type (.connect c)

def string (type ref : TypeId) (size : Nat) : List Member :=
  let comparisons :=
    [("==", Comparison.eq), ("!=", Comparison.ne), ("<", Comparison.lt)]
  bytewise type ref size ++ [binary "+" type type .concat] ++
    comparisons.map (fun (symbol, c) =>
      binary symbol type .bool (.compareStrings c)) ++
    [function "size" [self ref] .int32 .stringSize]

def array (ref elem address : TypeId) (len elemSize : Nat) : List Member :=
  [function "data" [self ref] address (.arrayData address),
    function "size" [self ref] .int32 (.arraySize len)] ++
    [TypeId.int32, TypeId.int64].map fun index =>
      operator "[]" [self ref, ⟨"index", index⟩] elem
        (.arrayIndex elem len elemSize)

def reference (type ref target : TypeId) : List Member :=
  [function "construct" [self ref, ⟨"rhs", ref⟩] .void .copyReference,
    function "construct" [self ref, ⟨"target", type⟩] .void .bindReference,
    function "get" [self ref] target (.follow target)] ++
    [target, type].map fun rhs =>
      operator "=" [self ref, ⟨"rhs", rhs⟩] target (.assignThrough target)

def address (type ref target : TypeId) (size targetSize : Nat) : List Member :=
  bytewise type ref size ++
    [function "get" [self type] target (.follow target),
      operator "+" [self type, ⟨"offset", .int32⟩] type
        (.shiftAddress type targetSize false),
      operator "-" [self type, ⟨"offset", .int32⟩] type
        (.shiftAddress type targetSize true),
      operator "[]" [self type, ⟨"index", .int32⟩] target
        (.addressIndex target targetSize)] ++
    [("==", Comparison.eq), ("!=", Comparison.ne)].map fun (symbol, c) =>
      binary symbol type .bool (.compareAddresses c)

end Member

namespace Engine

/-- Members of a class or union: memberwise copying and assignment, each unless
the program declares one that takes another instance. -/
def aggregateMembers (s : Engine) (type ref : TypeId) : List Member :=
  let members := s.membersOf type
  let site := CallSite.member [type, type]
  let declared (candidates : List FunctionId) : Bool :=
    (s.functions.resolve s.types candidates site).isSome
  (Member.memberwise type ref).filter fun m =>
    !declared (if m.isOperator then members.findOperator m.name else
      members.findFunction m.name)

/-- The members of a type; `address` is the type of addresses of an array's
elements. -/
def membersFor (s : Engine) (type ref address : TypeId) : List Member :=
  let entry := s.types.get type
  match entry.shape with
  | .core .void => []
  | .core .bool => Member.boolean type ref entry.size
  | .core .str => Member.string type ref entry.size
  | .core kind => Member.numeric type ref entry.size kind
  | .callable _ => Member.bytewise type ref entry.size
  | .structural body =>
      if body.kind == .enumKind then
        Member.bytewise type ref entry.size ++ Member.constants type
      else s.aggregateMembers type ref
  | .template .ref _ =>
      match entry.referenceTarget? with
      | some target => Member.reference type ref target
      | none => []
  | .template .address _ =>
      match entry.addressTarget? with
      | some target =>
          Member.address type ref target entry.size (s.types.sizeOf target)
      | none => []
  | .template .array _ =>
      match entry.array? with
      | some (elem, len) =>
          let elemEntry := s.types.get elem
          (if elemEntry.aggregate then Member.memberwise type ref
            else Member.bytewise type ref entry.size) ++
            Member.array ref elem address len elemEntry.size
      | none => []

end Engine

namespace Eval

def addMember (owner : TypeId) (m : Member) : Eval Unit := do
  let traits : Traits :=
    { synthesized := true,
      constructs := !m.isOperator && m.name == "construct" }
  let id ← addFunction
    (Function.make m.name m.params m.ret traits (some owner) (.native m.native))
  let scope ← read fun s => (s.types.get owner).members
  updateScope scope fun scope =>
    if m.isOperator then scope.registerOperator m.name id else
      scope.registerFunction m.name id

def elementAddress (type : TypeId) : Eval TypeId := do
  match ← read fun s => (s.types.get type).array? with
  | some (elem, _) => addressTo elem
  | none => pure .void

/-- Adds the members of a type unless this has been done.  An incomplete type is
left alone until it is complete. -/
def ensureInitialized (type : TypeId) : Eval Unit := do
  let entry ← read fun s => s.types.get type
  if entry.initialized || !entry.isComplete || type = .void then pure ()
  else
    modify fun s => { s with types := s.types.markInitialized type }
    let ref ← referenceTo type
    let address ← elementAddress type
    let members ← read fun s => s.membersFor type ref address
    members.forM (addMember type)

end Eval

end ArenaScript
