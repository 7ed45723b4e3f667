import ArenaScript.Fault
import ArenaScript.Scope
import ArenaScript.Types.Layout
/-!
# The table of types

Types are told apart by their rendered names: `Ref<Int32>` written in two
modules is one type.  Handles are given out in the order of registration, and a
name, once registered, never changes.
-/

namespace ArenaScript

structure TypeEntry where
  name : String
  shape : Shape
  size : Nat
  /-- Scope of the member functions and operators. -/
  members : ScopeId
  /-- Classes, unions, and arrays of them: their values have to be destroyed. -/
  aggregate : Bool
  /-- Whether the members the engine provides have been added. -/
  initialized : Bool
  deriving Repr

namespace TypeEntry

instance : Inhabited TypeEntry :=
  ⟨{ name := "Void", shape := .core .void, size := 0, members := ⟨1⟩,
     aggregate := false,
     initialized := false }⟩

def core? (t : TypeEntry) : Option CoreKind :=
  match t.shape with
  | .core kind => some kind
  | _ => none

def structural? (t : TypeEntry) : Option Structural :=
  match t.shape with
  | .structural body => some body
  | _ => none

def isEnum (t : TypeEntry) : Bool :=
  match t.shape with
  | .structural body => body.kind == .enumKind
  | _ => false

def array? (t : TypeEntry) : Option (TypeId × Nat) :=
  match t.shape with
  | .template .array [.type elem, .int len] => some (elem, len.toInt.toNat)
  | _ => none

def referenceTarget? (t : TypeEntry) : Option TypeId :=
  match t.shape with
  | .template .ref (.type target :: _) => some target
  | _ => none

def addressTarget? (t : TypeEntry) : Option TypeId :=
  match t.shape with
  | .template .address (.type target :: _) => some target
  | _ => none

/-- Only a declared type whose members are not known yet is incomplete. -/
def isComplete (t : TypeEntry) : Bool :=
  match t.shape with
  | .structural body => body.complete
  | _ => true

end TypeEntry

structure TypeTable where
  types : Array TypeEntry
  deriving Repr

namespace TypeTable

def size (t : TypeTable) : Nat := t.types.size

/-- The type with this handle; every handle in use comes from `push`. -/
def get (t : TypeTable) (id : TypeId) : TypeEntry :=
  t.types.getD id.index default

def name (t : TypeTable) (id : TypeId) : String := (t.get id).name

def sizeOf (t : TypeTable) (id : TypeId) : Nat := (t.get id).size

def push (t : TypeTable) (entry : TypeEntry) : TypeId × TypeTable :=
  (⟨t.size⟩, ⟨t.types.push entry⟩)

def findByName? (t : TypeTable) (name : String) : Option TypeId :=
  (t.types.findIdx? (·.name == name)).map TypeId.mk

def addBuiltin (t : TypeTable) (scopes : ScopeTable) (name : String)
    (shape : Shape) (size : Nat) (aggregate : Bool) :
    TypeId × TypeTable × ScopeTable :=
  let (members, scopes) := scopes.create .members none
  let (id, t) :=
    t.push { name, shape, size, members, aggregate, initialized := false }
  (id, t, scopes)

/-- The core and callable types, each at its fixed place, and their member
scopes. -/
def builtin (scopes : ScopeTable) : TypeTable × ScopeTable :=
  let add (tables : TypeTable × ScopeTable) (entry : String × Shape × Nat) :=
    (tables.1.addBuiltin tables.2 entry.1 entry.2.1 entry.2.2 false).2
  let cores := CoreKind.all.map fun k => (k.name, Shape.core k, k.size)
  let callables := [CallableKind.function, CallableKind.method].map fun k =>
    (k.name, Shape.callable k, k.size)
  (cores ++ callables).foldl add (⟨#[]⟩, scopes)

instance : Inhabited TypeTable := ⟨(builtin ScopeTable.empty).1⟩

/-! ## Declared types -/

def register (t : TypeTable) (name : String) (body : Structural)
    (members : ScopeId) : Except Failure (TypeId × TypeTable) :=
  match t.findByName? name with
  | some _ => .error (Failure.redefinition name)
  | none =>
      .ok (t.push
        { name, shape := .structural body, size := 0, members
          aggregate := body.kind != .enumKind, initialized := false })

def alignFrom (t : TypeTable) (id : TypeId) : Nat → Nat
  | 0 => 1
  | rounds + 1 =>
      let entry := t.get id
      match entry.shape with
      | .core kind => max 1 kind.size
      | .callable _ => 8
      | .structural body => body.align
      | .template .. =>
          match entry.array? with
          | some (elem, _) => t.alignFrom elem rounds
          | none => 8

/-- Alignment of a type.  The element of an array is older than the array, so
the handle bounds the nesting. -/
def alignOf (t : TypeTable) (id : TypeId) : Nat := t.alignFrom id (id.index + 1)

def extentOf (t : TypeTable) (id : TypeId) : Extent :=
  ⟨t.sizeOf id, t.alignOf id⟩

def isSized (t : TypeTable) (id : TypeId) : Bool :=
  (t.get id).isComplete && id != .void

def complete (t : TypeTable) (id : TypeId) (fields : List Field)
    (variants : List (String × Int64)) : Except Failure TypeTable :=
  match (t.get id).shape with
  | .structural body =>
      match fields.find? fun field => !t.isSized field.type with
      | some field =>
          .error ((Failure.unknownType (t.name field.type)).withHint
            ("field of " ++ quoted (t.name id) ++ " has no size"))
      | none =>
          let (fields, extent) := Layout.ofFields t.extentOf body.kind fields
          let body :=
            { body with
              fields, variants, align := extent.align, complete := true }
          .ok ⟨t.types.modify id.index fun entry =>
            { entry with size := extent.size, shape := .structural body }⟩
  | _ => .error (Failure.unknownType (t.name id))

def setOrigin (t : TypeTable) (id : TypeId) (origin : TemplateId)
    (args : List TemplateArg) : TypeTable :=
  ⟨t.types.modify id.index fun entry =>
    match entry.shape with
    | .structural body =>
        { entry with
          shape := .structural { body with origin := some (origin, args) } }
    | _ => entry⟩

def markInitialized (t : TypeTable) (id : TypeId) : TypeTable :=
  ⟨t.types.modify id.index fun entry => { entry with initialized := true }⟩

/-! ## Instances of built-in templates -/

def renderArg (t : TypeTable) : TemplateArg → String
  | .type id => t.name id
  | .int n => toString n.toInt

def renderArgs (t : TypeTable) (args : List TemplateArg) : String :=
  ", ".intercalate (args.map t.renderArg)

def render (t : TypeTable) (kind : TemplateKind) (args : List TemplateArg) :
    String :=
  kind.name ++ "<" ++ t.renderArgs args ++ ">"

/-- Size and need for destruction of a new instance.  A reference needs a target
that is not `Void`, and an array a sized element and a length for which the
whole still has a size. -/
def instanceSize (t : TypeTable) (kind : TemplateKind)
    (args : List TemplateArg) : Except Failure (Nat × Bool) :=
  let name := t.render kind args
  match kind, args with
  | .ref, [.type target] =>
      if target = .void then .error (Failure.unknownType name) else
        .ok (8, false)
  | .address, [.type _] => .ok (8, false)
  | .array, [.type elem, .int len] =>
      let total := t.sizeOf elem * len.toInt.toNat
      if 0 ≤ len.toInt && total < Word.modulus && t.isSized elem then
        .ok (total, (t.get elem).aggregate)
      else
        .error ((Failure.unknownType name).withHint
          "array element must be sized and length non-negative")
  | _, _ => .error (Failure.unknownType name)

def findOrCreate (t : TypeTable) (scopes : ScopeTable) (kind : TemplateKind)
    (args : List TemplateArg) :
    Except Failure ((TypeId × Bool) × TypeTable × ScopeTable) :=
  let name := t.render kind args
  match t.findByName? name with
  | some id => .ok ((id, false), t, scopes)
  | none =>
      match t.instanceSize kind args with
      | .error e => .error e
      | .ok (size, aggregate) =>
          let (id, t, scopes) :=
            t.addBuiltin scopes name (.template kind args) size aggregate
          .ok ((id, true), t, scopes)

/-- A type without its outermost `Ref`. -/
def decay (t : TypeTable) (id : TypeId) : TypeId :=
  (t.get id).referenceTarget?.getD id

end TypeTable

end ArenaScript
