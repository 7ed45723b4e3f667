import ArenaScript.Syntax.Node
/-!
# Failures

Whatever goes wrong while a program runs is a `Failure`: the fault itself, the
position of the statement that was executing, the module file this position is
in, and advice for the reader.  Control transfer (`return`, `break`, `continue`)
is never a failure.
-/

namespace ArenaScript

inductive Fault where
  | unresolvedIdentifier (name : String)
  | unknownType (name : String)
  | noMatchingOverload (name args : String)
  | invalidOperatorPosition (symbol : String)
  | typeConversionFailure (source target : String)
  | stackOverflow (requested available : Nat)
  | callDepthExceeded (limit : Nat)
  | moduleNotFound (path : String)
  | nestedImport (path : String)
  | parseFailure (path message : String)
  | divisionByZero
  | invalidMemoryAccess (address len : Nat)
  | redefinition (name : String)
  | unexpectedNode (kind : String)
  deriving DecidableEq, Repr

def hexText (n : Nat) : String := "0x" ++ String.ofList (Nat.toDigits 16 n)

def quoted (name : String) : String := "`" ++ name ++ "`"

namespace Fault

def message : Fault → String
  | .unresolvedIdentifier name => "unresolved identifier " ++ quoted name
  | .unknownType name => "unknown type " ++ quoted name
  | .noMatchingOverload name args =>
      "no matching overload for " ++ quoted (name ++ "(" ++ args ++ ")")
  | .invalidOperatorPosition symbol =>
      "operator " ++ quoted symbol ++ " is missing an operand"
  | .typeConversionFailure source target =>
      "cannot convert " ++ quoted source ++ " to " ++ quoted target
  | .stackOverflow requested available =>
      "stack overflow: " ++ toString requested ++ " bytes requested, " ++
        toString available ++ " available"
  | .callDepthExceeded limit =>
      "stack overflow: call depth limit of " ++ toString limit ++ " exceeded"
  | .moduleNotFound path => "module " ++ quoted path ++ " not found"
  | .nestedImport path =>
      "module " ++ quoted path ++
        " must be imported at the top level of a module"
  | .parseFailure path message =>
      "failed to parse " ++ quoted path ++ ": " ++ message
  | .divisionByZero => "division by zero"
  | .invalidMemoryAccess address len =>
      "invalid memory access of " ++ toString len ++ " bytes at " ++
        hexText address
  | .redefinition name => quoted name ++ " is already defined"
  | .unexpectedNode kind => "unexpected " ++ quoted kind ++ " node"

end Fault

structure Failure where
  fault : Fault
  pos : Option Position := none
  file : Option String := none
  hint : Option String := none
  deriving DecidableEq, Repr

namespace Failure

/-- Attaches a position, unless there is one already or the new one is a dummy:
of the statements a failure leaves, the innermost one is blamed. -/
def withPos (e : Failure) (pos : Position) : Failure :=
  if e.pos.isNone && !pos.isDummy then { e with pos := some pos } else e

def withLocation (e : Failure) (pos : Position) (file : Option String) :
    Failure :=
  if e.pos.isNone && !pos.isDummy then { e with pos := some pos, file } else e

def withHint (e : Failure) (hint : String) : Failure :=
  { e with hint := some hint }

def render (e : Failure) : String :=
  match e.pos with
  | some pos => e.fault.message ++ " (at " ++ pos.render ++ ")"
  | none => e.fault.message

def unresolvedIdentifier (name : String) : Failure :=
  { fault := .unresolvedIdentifier name }

def unknownType (name : String) : Failure := { fault := .unknownType name }

def noMatchingOverload (name : String) (args : List String) : Failure :=
  { fault := .noMatchingOverload name (", ".intercalate args) }

def redefinition (name : String) : Failure := { fault := .redefinition name }

def invalidOperatorPosition (symbol : String) : Failure :=
  { fault := .invalidOperatorPosition symbol }

def typeConversion (source target : String) : Failure :=
  { fault := .typeConversionFailure source target }

def divisionByZero : Failure := { fault := .divisionByZero }

def unexpectedNode (kind : NodeKind) : Failure :=
  { fault := .unexpectedNode kind.name }

def stackOverflow (requested available : Nat) : Failure :=
  { fault := .stackOverflow requested available }

def callDepthExceeded (limit : Nat) : Failure :=
  { fault := .callDepthExceeded limit,
    hint := some "check for unbounded recursion" }

def invalidMemoryAccess (address len : Nat) : Failure :=
  { fault := .invalidMemoryAccess address len }

def moduleNotFound (path : String) : Failure :=
  { fault := .moduleNotFound path }

def nestedImport (path : String) : Failure :=
  { fault := .nestedImport path
    hint := some
      "modules imported inside functions are loaded with their module" }

def parseFailure (path message : String) : Failure :=
  { fault := .parseFailure path message }

end Failure

end ArenaScript
