import ArenaScript.Syntax.Node

/-!
# Trees in tables

A parser builds a tree bottom-up.  It adds one node after the other to a table;
a node names its children, which are in the table by then, by the numbers that
they were given.  A walk through the tree keeps the numbers of the nodes that it
has still to visit on a stack.  Engines work on the tree that the table unfolds
to.
-/

namespace ArenaScript

/-- The number of a node in the table of its tree. -/
structure NodeId where
  raw : UInt32
  deriving DecidableEq, Repr, Inhabited

namespace NodeId

def index (id : NodeId) : Nat := id.raw.toNat

/-- The number for a place of the table.  Places beyond the largest number get
that one, too. -/
def ofIndex (index : Nat) : NodeId := ⟨.ofNatClamp index⟩

theorem index_inj {a b : NodeId} : a.index = b.index ↔ a = b := by
  rw [index, index, UInt32.toNat_inj, NodeId.mk.injEq]

theorem index_lt (id : NodeId) : id.index < UInt32.size := id.raw.toNat_lt

theorem index_ofIndex (n : Nat) :
    (ofIndex n).index = min n (UInt32.size - 1) := by
  by_cases h : n < UInt32.size
  · rw [index, ofIndex, UInt32.toNat_ofNatClamp_of_lt h]
    omega
  · rw [index, ofIndex, UInt32.ofNatClamp, dif_neg h, UInt32.toNat_ofNatLT]
    omega

end NodeId

structure NodeEntry where
  kind : NodeKind
  text : String
  children : List NodeId
  pos : Position
  deriving DecidableEq, Repr, Inhabited

def NodeEntry.graft (entry : NodeEntry) (trees : Array Node) : Node :=
  ⟨entry.kind, entry.text, entry.pos, trees.size,
    entry.children.map fun child => trees.getD child.index default⟩

/-- A tree whose nodes are in one table. -/
structure FlatTree where
  id : TreeId
  nodes : Array NodeEntry
  root : NodeId
  deriving Repr, Inhabited

namespace FlatTree

def size (tree : FlatTree) : Nat := tree.nodes.size

def get? (tree : FlatTree) (id : NodeId) : Option NodeEntry :=
  tree.nodes[id.index]?

/-! ## Walking -/

/-- Takes the number on top of the stack and puts those of its children there
instead, the first child uppermost, until the stack is empty: the numbers in the
order in which they were taken.  There is no result if this takes more than
`steps` steps or comes to a number that no node has. -/
def walk (tree : FlatTree) (steps : Nat) (pending : Array NodeId) :
    Option (List NodeId) :=
  match pending.back? with
  | none => some []
  | some id =>
      match steps with
      | 0 => none
      | steps + 1 => do
          let entry ← tree.get? id
          let visited ← tree.walk steps (pending.pop ++ entry.children.reverse)
          pure (id :: visited)

def descendants? (tree : FlatTree) (steps : Nat) (id : NodeId) :
    Option (List NodeId) := do
  let entry ← tree.get? id
  tree.walk steps entry.children.reverse.toArray

/-! ## Unfolding -/

def subtrees (tree : FlatTree) : Array Node :=
  tree.nodes.foldl (fun trees entry => trees.push (entry.graft trees)) #[]

def nodeAt (tree : FlatTree) (id : NodeId) : Node :=
  tree.subtrees.getD id.index default

def unfold (tree : FlatTree) : SyntaxTree := ⟨tree.id, tree.nodeAt tree.root⟩

end FlatTree

structure TreeBuilder where
  nodes : Array NodeEntry := #[]
  deriving Repr, Inhabited

namespace TreeBuilder

def push (b : TreeBuilder) (entry : NodeEntry) : NodeId × TreeBuilder :=
  (.ofIndex b.nodes.size, ⟨b.nodes.push entry⟩)

def finish (b : TreeBuilder) (id : TreeId) (root : NodeId) : FlatTree :=
  ⟨id, b.nodes, root⟩

mutual

def plant (b : TreeBuilder) : Node → NodeId × TreeBuilder
  | ⟨kind, text, pos, _, children⟩ =>
      let (children, b) := plantAll b children
      b.push ⟨kind, text, children, pos⟩

def plantAll (b : TreeBuilder) : List Node → List NodeId × TreeBuilder
  | [] => ([], b)
  | node :: rest =>
      let (id, b) := plant b node
      let (ids, b) := plantAll b rest
      (id :: ids, b)

end

end TreeBuilder

def FlatTree.ofRoot (id : TreeId) (root : Node) : FlatTree :=
  let (number, b) := ({} : TreeBuilder).plant root
  b.finish id number

end ArenaScript
