import ArenaScript.Syntax.Node
/-!
# Reducing flat expressions

The children of an expression are a flat list of operands and operators.  Each
operator is classified once, from what stands before it, as leading, joining or
trailing.  Then, again and again, one operator is applied whose operands are in
place: among those the one that binds tightest, and the leftmost of several that
bind equally.  The list has been reduced when one operand is left.

The reduction is described for operands of any type and effects of any monad.
-/

namespace ArenaScript

inductive Fixity where
  | leading
  | joining
  | trailing
  deriving DecidableEq, Repr

def priority (symbol : String) : Fixity → Nat
  | .trailing => 1
  | .leading => 2
  | .joining =>
      match symbol with
      | "::" => 0
      | "." => 1
      | "*" | "/" | "%" => 3
      | "+" | "-" => 4
      | "<<" | ">>" => 5
      | "<" | "<=" | ">" | ">=" => 6
      | "==" | "!=" => 7
      | "&" => 8
      | "^" => 9
      | "|" => 10
      | "&&" => 11
      | "||" => 12
      | "=" | "+=" | "-=" | "*=" | "/=" | "%=" | "&=" | "|=" | "^=" | "<<="
      | ">>=" => 13
      | _ => 14

def Node.symbol (node : Node) : String :=
  match node.kind with
  | .call => "()"
  | .index => "[]"
  | _ => node.text

structure Operator where
  node : Node
  fixity : Fixity
  priority : Nat
  deriving Repr

namespace Operator

def symbol (op : Operator) : String := op.node.symbol

def make (node : Node) (fixity : Fixity) : Operator :=
  { node, fixity, priority := ArenaScript.priority node.symbol fixity }

end Operator

inductive Item (α : Type) where
  | operand (a : α)
  | operator (op : Operator)

namespace Item

variable {α : Type}

def isOperand : Item α → Bool
  | .operand _ => true
  | .operator _ => false

end Item

namespace Reduction

variable {α : Type}

/-! ## Classification -/

/-- Calls and indexing trail their operand.  Any other operator joins two
operands if an operand, or an operator that trails one, stands before it, and
leads otherwise. -/
def classify (previous : Option (Item α)) (node : Node) : Fixity :=
  if node.kind != .operator then .trailing
  else
    match previous with
    | none => .leading
    | some (.operator op) =>
        if op.fixity == .trailing then .joining else .leading
    | some (.operand _) => .joining

/-- The items of the given nodes, after `previous`.  An operator that could
never get an operand is reported by its symbol: a trailing one at the very
start, or another one at the very end. -/
def itemsFrom (operand : Node → α) (previous : Option (Item α)) :
    List Node → Except String (List (Item α))
  | [] => .ok []
  | node :: rest =>
      if node.kind.isOperator then
        let fixity := classify previous node
        let misplaced :=
          match fixity with
          | .trailing => previous.isNone
          | .leading | .joining => rest.isEmpty
        if misplaced then .error node.symbol
        else
          let item := Item.operator (.make node fixity)
          (itemsFrom operand (some item) rest).map (item :: ·)
      else
        let item := Item.operand (operand node)
        (itemsFrom operand (some item) rest).map (item :: ·)

def items (operand : Node → α) (nodes : List Node) :
    Except String (List (Item α)) :=
  itemsFrom operand none nodes

/-! ## One step -/

inductive Step (α : Type) where
  | leading (op : Operator) (a : α)
  | joining (l : α) (op : Operator) (r : α)
  | trailing (a : α) (op : Operator)

def Step.operator : Step α → Operator
  | .leading op _ => op
  | .joining _ op _ => op
  | .trailing _ op => op

structure Redex (α : Type) where
  before : List (Item α)
  step : Step α
  after : List (Item α)

namespace Redex

def priority (r : Redex α) : Nat := r.step.operator.priority

def plug (r : Redex α) (a : α) : List (Item α) :=
  r.before.reverse ++ .operand a :: r.after

end Redex

/-- The step of operator `op` between `before`, nearest first, and `after`, if
its operands are in place. -/
def redexAt? (before : List (Item α)) (op : Operator) (after : List (Item α)) :
    Option (Redex α) :=
  match op.fixity, before, after with
  | .leading, before, .operand a :: after => some ⟨before, .leading op a, after⟩
  | .trailing, .operand a :: before, after =>
      some ⟨before, .trailing a op, after⟩
  | .joining, .operand l :: before, .operand r :: after =>
      some ⟨before, .joining l op r, after⟩
  | _, _, _ => none

def redexes (before : List (Item α)) : List (Item α) → List (Redex α)
  | [] => []
  | .operand a :: after => redexes (.operand a :: before) after
  | .operator op :: after =>
      let rest := redexes (.operator op :: before) after
      match redexAt? before op after with
      | some redex => redex :: rest
      | none => rest

/-- The first of the steps whose priority number is smallest. -/
def tightest : List (Redex α) → Option (Redex α)
  | [] => none
  | redex :: rest =>
      match tightest rest with
      | some other =>
          if other.priority < redex.priority then some other else some redex
      | none => some redex

/-- The next step to take. -/
def next? (items : List (Item α)) : Option (Redex α) :=
  tightest (redexes [] items)

/-! ## All steps -/

/-- How a reduction ends: with one operand, with nothing at all, or with an
operator that lacks an operand. -/
inductive Verdict (α : Type) where
  | value (a : α)
  | empty
  | misplaced (symbol : String)

def firstSymbol (items : List (Item α)) : String :=
  (items.findSome? fun
    | .operator op => some op.symbol
    | .operand _ => none).getD "?"

@[specialize] def reduceFor {m : Type → Type} [Monad m] (apply : Step α → m α) :
    Nat → List (Item α) → m (Verdict α)
  | _, [] => pure .empty
  | _, [.operand a] => pure (.value a)
  | _, [.operator op] => pure (.misplaced op.symbol)
  | 0, items => pure (.misplaced (firstSymbol items))
  | rounds + 1, items =>
      match next? items with
      | some redex => do
          let a ← apply redex.step
          reduceFor apply rounds (redex.plug a)
      | none => pure (.misplaced (firstSymbol items))

@[specialize] def reduce {m : Type → Type} [Monad m] (apply : Step α → m α)
    (items : List (Item α)) : m (Verdict α) :=
  reduceFor apply items.length items

end Reduction

end ArenaScript
