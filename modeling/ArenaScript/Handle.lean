/-!
# Handles

Types, scopes, functions, templates and modules are kept in tables that only
grow.  A handle is the place of an entry in its table; two entries are the same
exactly if their handles are.

Handles have no bound here.  Where they take 32 bits, all entries from the last
number on share it as their handle, so the tables are those of a program as long
as each has fewer than 2 ^ 32 entries.  For the numbers of nodes, which any
caller can reach by adding nodes alone, the bound is part of the definition: see
`NodeId.ofIndex`.
-/

namespace ArenaScript

structure TypeId where
  index : Nat
  deriving DecidableEq, Repr, Inhabited

structure ScopeId where
  index : Nat
  deriving DecidableEq, Repr, Inhabited

structure FunctionId where
  index : Nat
  deriving DecidableEq, Repr, Inhabited

structure TemplateId where
  index : Nat
  deriving DecidableEq, Repr, Inhabited

structure ModuleId where
  index : Nat
  deriving DecidableEq, Repr, Inhabited

namespace TypeId

/-! Core and callable types are registered before all others, at fixed
places. -/

def void : TypeId := ⟨0⟩
def bool : TypeId := ⟨1⟩
def int32 : TypeId := ⟨4⟩
def int64 : TypeId := ⟨5⟩
def float64 : TypeId := ⟨11⟩
def str : TypeId := ⟨12⟩
def function : TypeId := ⟨13⟩
def method : TypeId := ⟨14⟩

def firstRegistered : Nat := 15

def isBuiltin (id : TypeId) : Bool := id.index < firstRegistered

end TypeId

def ScopeId.universe : ScopeId := ⟨0⟩

end ArenaScript
