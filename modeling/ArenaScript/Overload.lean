import ArenaScript.Function
/-!
# Overload resolution

Candidates are tried in order, and the first whose signature accepts the
argument types is taken; there is no ranking.  A parameter accepts an argument
of its own type, and a `Ref<T>` parameter also one of type `T`.
-/

namespace ArenaScript

structure CallSite where
  args : List TypeId
  /-- Only functions with a `self` parameter qualify. -/
  method : Bool := false
  /-- Return type the caller insists on. -/
  ret : Option TypeId := none
  deriving DecidableEq, Repr

namespace CallSite

def free (args : List TypeId) : CallSite := { args }

def member (args : List TypeId) : CallSite := { args, method := true }

end CallSite

/-- Whether a parameter of type `param` accepts an argument of type `arg`. -/
def TypeTable.accepts (types : TypeTable) (param arg : TypeId) : Bool :=
  param == arg || (types.get param).referenceTarget? == some arg

namespace Function

def acceptsCount (f : Function) (count : Nat) : Bool :=
  if f.traits.variadic then f.fixedParams.length ≤ count else
    count == f.fixedParams.length

def fits (types : TypeTable) (f : Function) (site : CallSite) : Bool :=
  (!site.method || f.traits.method) &&
    (site.ret.isNone || site.ret == some f.ret) &&
    f.acceptsCount site.args.length &&
    (f.fixedParams.zip site.args).all fun (param, arg) =>
      types.accepts param.type arg

end Function

def FunctionTable.resolve (functions : FunctionTable) (types : TypeTable)
    (candidates : List FunctionId) (site : CallSite) : Option FunctionId :=
  candidates.find? fun id => (functions.get id).fits types site

end ArenaScript
