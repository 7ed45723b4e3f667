/-!
# Syntax trees

A program reaches the engine as a tree of tagged nodes.  Every node carries the
text it was written with, the position it was written at, and a number that is
unique within its tree.  Nodes are numbered bottom-up: the children of a node,
from left to right, come before the node itself.
-/

namespace ArenaScript

/-- A place in a source file.  Line 0 marks a node that stands at no place at
all. -/
structure Position where
  line : Nat
  column : Nat
  deriving DecidableEq, Repr, Inhabited

namespace Position

def dummy : Position := ⟨0, 0⟩

def isDummy (p : Position) : Bool := p.line == 0

def render (p : Position) : String :=
  toString p.line ++ ":" ++ toString p.column

end Position

inductive NodeKind where
  | moduleRoot | importModule | function
  | templateParameters | templateParameter | parameters | parameter
  | classDecl | unionDecl | enumDecl | enumValue | variableDefinition
  | block | ifElse | whileLoop | forLoop | returnStmt | breakStmt | continueStmt
  | expressionStatement | expression | operator | call | index
  | identifier | typeName | integerLiteral | floatLiteral | stringLiteral
  | boolLiteral
  deriving DecidableEq, Repr, Inhabited

namespace NodeKind

def all : List NodeKind :=
  [.moduleRoot, .importModule, .function,
    .templateParameters, .templateParameter, .parameters, .parameter,
    .classDecl, .unionDecl, .enumDecl, .enumValue, .variableDefinition,
    .block, .ifElse, .whileLoop, .forLoop, .returnStmt, .breakStmt,
    .continueStmt, .expressionStatement, .expression, .operator, .call, .index,
    .identifier, .typeName, .integerLiteral, .floatLiteral, .stringLiteral,
    .boolLiteral]

def name : NodeKind → String
  | .moduleRoot => "Module"
  | .importModule => "Import"
  | .function => "Function"
  | .templateParameters => "TemplateParameters"
  | .templateParameter => "TemplateParameter"
  | .parameters => "Parameters"
  | .parameter => "Parameter"
  | .classDecl => "Class"
  | .unionDecl => "Union"
  | .enumDecl => "Enum"
  | .enumValue => "EnumValue"
  | .variableDefinition => "VariableDefinition"
  | .block => "Block"
  | .ifElse => "If"
  | .whileLoop => "While"
  | .forLoop => "For"
  | .returnStmt => "Return"
  | .breakStmt => "Break"
  | .continueStmt => "Continue"
  | .expressionStatement => "ExpressionStatement"
  | .expression => "Expression"
  | .operator => "Operator"
  | .call => "Call"
  | .index => "Index"
  | .identifier => "Identifier"
  | .typeName => "TypeName"
  | .integerLiteral => "IntegerLiteral"
  | .floatLiteral => "FloatLiteral"
  | .stringLiteral => "StringLiteral"
  | .boolLiteral => "BoolLiteral"

def ofName? (text : String) : Option NodeKind := all.find? (·.name == text)

def isDeclaration : NodeKind → Bool
  | .function | .classDecl | .unionDecl | .enumDecl => true
  | _ => false

/-- Kinds that stand for a value inside an expression. -/
def isOperand : NodeKind → Bool
  | .expression | .identifier | .typeName
  | .integerLiteral | .floatLiteral | .stringLiteral | .boolLiteral => true
  | _ => false

def isOperator : NodeKind → Bool
  | .operator | .call | .index => true
  | _ => false

end NodeKind

structure Node where
  kind : NodeKind
  text : String
  pos : Position
  /-- Place of the node in the bottom-up numbering of its tree. -/
  id : Nat
  children : List Node
  deriving Repr, Inhabited

namespace Node

def child? (node : Node) (index : Nat) : Option Node := node.children[index]?

def findChild? (node : Node) (kind : NodeKind) : Option Node :=
  node.children.find? (·.kind == kind)

/-! ## Size and numbering -/

mutual

def size : Node → Nat
  | ⟨_, _, _, _, children⟩ => sizeAll children + 1

def sizeAll : List Node → Nat
  | [] => 0
  | node :: rest => size node + sizeAll rest

end

mutual

/-- The node with its subtree numbered bottom-up from `next`, and the first
number left over. -/
def number (next : Nat) : Node → Node × Nat
  | ⟨kind, text, pos, _, children⟩ =>
      let (children, next) := numberAll next children
      (⟨kind, text, pos, next, children⟩, next + 1)

def numberAll (next : Nat) : List Node → List Node × Nat
  | [] => ([], next)
  | node :: rest =>
      let (node, next) := number next node
      let (rest, next) := numberAll next rest
      (node :: rest, next)

end

/-! ## Walking -/

mutual

def preorder : Node → List Node
  | ⟨kind, text, pos, id, children⟩ =>
      ⟨kind, text, pos, id, children⟩ :: preorderAll children

def preorderAll : List Node → List Node
  | [] => []
  | node :: rest => preorder node ++ preorderAll rest

end

mutual

def postorder : Node → List Node
  | ⟨kind, text, pos, id, children⟩ =>
      postorderAll children ++ [⟨kind, text, pos, id, children⟩]

def postorderAll : List Node → List Node
  | [] => []
  | node :: rest => postorder node ++ postorderAll rest

end

theorem size_eq (node : Node) : node.size = sizeAll node.children + 1 := by
  cases node
  simp [size]

theorem sizeAll_append (front back : List Node) :
    sizeAll (front ++ back) = sizeAll front + sizeAll back := by
  induction front with
  | nil => simp [sizeAll]
  | cons node rest ih => simp [sizeAll, ih, Nat.add_assoc]

/-- Visits the pending nodes one at a time, each time putting the children of
the node just visited in front of those still waiting. -/
def walk : List Node → List Node
  | [] => []
  | node :: waiting => node :: walk (node.children ++ waiting)
  termination_by pending => sizeAll pending
  decreasing_by
    simp only [sizeAll, sizeAll_append, size_eq]
    omega

def descendants (node : Node) : List Node := walk node.children

end Node

structure TreeId where
  index : Nat
  deriving DecidableEq, Repr, Inhabited

structure NodeKey where
  tree : TreeId
  node : Nat
  deriving DecidableEq, Repr, Inhabited

structure SyntaxTree where
  id : TreeId
  root : Node
  deriving Repr, Inhabited

namespace SyntaxTree

def ofRoot (id : TreeId) (root : Node) : SyntaxTree := ⟨id, (root.number 0).1⟩

def size (tree : SyntaxTree) : Nat := tree.root.size

end SyntaxTree

end ArenaScript
