import Mathlib.Data.List.Nodup
import ArenaScript.Syntax.Builder

/-!
# Building bottom-up

A builder takes any numbers for children.  If each node is added after its
children and no number is given to a second parent, the table is that of a
forest: numbers fall from parents to children, and each node has one parent at
most.  Once a table outgrows the numbers, the nodes that are added have no
number of their own; but then no number leads to them either, and the rest of
the table stays a forest.  A tree that is added as a whole, and read back, has
been numbered.
-/

namespace ArenaScript

namespace Node

theorem number_mk (next : Nat) (kind : NodeKind) (text : String)
    (pos : Position) (id : Nat) (children : List Node) :
    number next ⟨kind, text, pos, id, children⟩ =
      (⟨kind, text, pos, (numberAll next children).2,
        (numberAll next children).1⟩,
        (numberAll next children).2 + 1) := by
  rw [number]

theorem numberAll_cons (next : Nat) (node : Node) (rest : List Node) :
    numberAll next (node :: rest) =
      ((number next node).1 :: (numberAll (number next node).2 rest).1,
        (numberAll (number next node).2 rest).2) := by
  rw [numberAll]

theorem numberAll_singleton (next : Nat) (node : Node) :
    numberAll next [node] = ([(number next node).1], (number next node).2) := by
  rw [numberAll_cons, numberAll]

mutual

theorem number_next (next : Nat) (node : Node) :
    (node.number next).2 = next + node.size :=
  match node with
  | ⟨_, _, _, _, children⟩ => by
      rw [number_mk, size, numberAll_next next children, Nat.add_assoc]

theorem numberAll_next (next : Nat) (nodes : List Node) :
    (numberAll next nodes).2 = next + sizeAll nodes :=
  match nodes with
  | [] => rfl
  | node :: rest => by
      rw [numberAll_cons, sizeAll, numberAll_next _ rest,
        number_next next node, Nat.add_assoc]

end

end Node

namespace FlatTree

theorem size_subtrees (tree : FlatTree) : tree.subtrees.size = tree.size := by
  refine Array.foldl_induction
    (fun i (trees : Array Node) => trees.size = i) rfl ?_
  intro i trees h
  rw [Array.size_push, h]

theorem graft_subtrees (tree : FlatTree) (entry : NodeEntry) :
    entry.graft tree.subtrees = ⟨entry.kind, entry.text, entry.pos, tree.size,
      entry.children.map tree.nodeAt⟩ := by
  rw [NodeEntry.graft, size_subtrees]
  rfl

def ChildOf (tree : FlatTree) (child parent : NodeId) : Prop :=
  ∃ entry, tree.get? parent = some entry ∧ child ∈ entry.children

/-- The children of a node are in front of it in the table, and no other node
has them. -/
structure BottomUp (tree : FlatTree) : Prop where
  earlier : ∀ child parent : NodeId, tree.ChildOf child parent →
    child.index < parent.index
  sole : ∀ child p q : NodeId, tree.ChildOf child p →
    tree.ChildOf child q → p = q
  distinct : ∀ (id : NodeId) (entry : NodeEntry), tree.get? id = some entry →
    entry.children.Nodup
  unfolds : ∀ (id : NodeId) (entry : NodeEntry), tree.get? id = some entry →
    tree.nodeAt id = ⟨entry.kind, entry.text, entry.pos, id.index,
        entry.children.map tree.nodeAt⟩

end FlatTree

namespace TreeBuilder

variable {b : TreeBuilder} {orphans : List NodeId} {entry : NodeEntry}
  {id : NodeId}

/-- The builder has been used bottom-up: every node has been added after its
children, and no number has been given to a second parent.  The `orphans` have
not been given to any. -/
inductive Built : TreeBuilder → List NodeId → Prop
  | new : Built {} []
  | push {b : TreeBuilder} {orphans rest : List NodeId} (entry : NodeEntry)
      (h : Built b orphans)
      (hchildren : orphans.Perm (entry.children ++ rest)) :
      Built (b.push entry).2 ((b.push entry).1 :: rest)

def get? (b : TreeBuilder) (id : NodeId) : Option NodeEntry :=
  b.nodes[id.index]?

theorem index_push (b : TreeBuilder) (entry : NodeEntry) :
    (b.push entry).1.index = min b.nodes.size (UInt32.size - 1) :=
  NodeId.index_ofIndex b.nodes.size

theorem size_push (b : TreeBuilder) (entry : NodeEntry) :
    (b.push entry).2.nodes.size = b.nodes.size + 1 :=
  Array.size_push entry

theorem get?_push_cases {e : NodeEntry}
    (h : (b.push entry).2.get? id = some e) :
    b.get? id = some e ∧ id.index < b.nodes.size ∨ id.index = b.nodes.size ∧
    e = entry := by
  have hpush : (b.push entry).2.get? id =
      if id.index = b.nodes.size then some entry else b.get? id :=
    Array.getElem?_push
  rw [hpush] at h
  split at h
  · exact .inr ⟨‹_›, (Option.some.inj h).symm⟩
  · exact .inl ⟨h, (Array.getElem?_eq_some_iff.1 h).1⟩

/-! ## Children and orphans -/

structure Forward (b : TreeBuilder) (orphans : List NodeId) : Prop where
  added : ∀ id ∈ orphans, id.index < b.nodes.size
  earlier : ∀ (id : NodeId) (entry : NodeEntry), b.get? id = some entry →
    ∀ child ∈ entry.children, child.index < id.index

structure Owned (b : TreeBuilder) (orphans : List NodeId) : Prop where
  fresh : b.nodes.size ≤ UInt32.size → orphans.Nodup
  unowned : ∀ (id : NodeId) (entry : NodeEntry), b.get? id = some entry →
    entry.children.Disjoint orphans
  distinct : ∀ (id : NodeId) (entry : NodeEntry), b.get? id = some entry →
    entry.children.Nodup
  sole : ∀ (p q : NodeId) (e f : NodeEntry), b.get? p = some e →
    b.get? q = some f →
    ∀ child ∈ e.children, child ∈ f.children → p = q

section Push

variable {rest : List NodeId}
  (hchildren : orphans.Perm (entry.children ++ rest))

include hchildren

theorem orphan_of_child : entry.children ⊆ orphans :=
  fun _ hc => hchildren.mem_iff.2 (List.mem_append_left rest hc)

theorem orphan_of_rest : rest ⊆ orphans :=
  fun _ hid => hchildren.mem_iff.2 (List.mem_append_right entry.children hid)

theorem Forward.push (h : b.Forward orphans) :
    (b.push entry).2.Forward ((b.push entry).1 :: rest) where
  added := by
    have hindex := b.index_push entry
    have hsize := b.size_push entry
    refine List.forall_mem_cons.2 ⟨by omega, fun id hid => ?_⟩
    have hold := h.added id (orphan_of_rest hchildren hid)
    omega
  earlier id e he child hc := by
    rcases get?_push_cases he with ⟨hold, -⟩ | ⟨hid, rfl⟩
    · exact h.earlier id e hold child hc
    · exact hid ▸ h.added child (orphan_of_child hchildren hc)

theorem Owned.split (h : b.Owned orphans) (hlt : b.nodes.size < UInt32.size) :
    entry.children.Nodup ∧ rest.Nodup ∧ entry.children.Disjoint rest := by
  have hnodup := hchildren.nodup_iff.1 (h.fresh (Nat.le_of_lt hlt))
  obtain ⟨hc, hrest, hapart⟩ := List.nodup_append.1 hnodup
  exact ⟨hc, hrest, fun id hid hid' => hapart id hid id hid' rfl⟩

theorem Owned.push (h : b.Owned orphans) (hforward : b.Forward orphans) :
    (b.push entry).2.Owned ((b.push entry).1 :: rest) := by
  have hindex := b.index_push entry
  have hsize := b.size_push entry
  constructor
  case fresh =>
    intro hle
    refine List.nodup_cons.2
      ⟨fun hmem => ?_, (h.split hchildren (by omega)).2.1⟩
    have hold := hforward.added _ (orphan_of_rest hchildren hmem)
    omega
  case unowned =>
    -- The new number is too large for a child, also when it is not new.
    intro id e he child hc hmem
    have hlt := id.index_lt
    have hchild := (hforward.push hchildren).earlier id e he child hc
    rcases List.mem_cons.1 hmem with rfl | hrest <;>
      rcases get?_push_cases he with ⟨hold, hid⟩ | ⟨hid, rfl⟩
    · omega
    · omega
    · exact h.unowned id e hold hc (orphan_of_rest hchildren hrest)
    · exact (h.split hchildren (hid ▸ hlt)).2.2 hc hrest
  case distinct =>
    intro id e he
    rcases get?_push_cases he with ⟨hold, -⟩ | ⟨hid, rfl⟩
    · exact h.distinct id e hold
    · exact (h.split hchildren (hid ▸ id.index_lt)).1
  case sole =>
    intro p q e f he hf child hce hcf
    rcases get?_push_cases he with ⟨hp, -⟩ | ⟨hp, rfl⟩ <;>
      rcases get?_push_cases hf with ⟨hq, -⟩ | ⟨hq, rfl⟩
    · exact h.sole p q e f hp hq child hce hcf
    · exact absurd (orphan_of_child hchildren hcf) (h.unowned p e hp hce)
    · exact absurd (orphan_of_child hchildren hce) (h.unowned q f hq hcf)
    · exact NodeId.index_inj.1 (hp.trans hq.symm)

end Push

theorem Built.forward (h : b.Built orphans) : b.Forward orphans := by
  induction h with
  | new => constructor <;> simp [get?]
  | push entry h hchildren ih => exact ih.push hchildren

theorem Built.owned (h : b.Built orphans) : b.Owned orphans := by
  induction h with
  | new => constructor <;> simp [get?]
  | push entry h hchildren ih => exact ih.push hchildren h.forward

/-! ## Reading back -/

theorem subtrees_push (b : TreeBuilder) (entry : NodeEntry) (tree : TreeId)
    (root : NodeId) :
    ((b.push entry).2.finish tree root).subtrees =
      (b.finish tree root).subtrees.push
        (entry.graft (b.finish tree root).subtrees) :=
  Array.foldl_push

theorem nodeAt_push (b : TreeBuilder) (entry : NodeEntry) (tree : TreeId)
    (root id : NodeId) :
    ((b.push entry).2.finish tree root).nodeAt id =
      if id.index = b.nodes.size then
        ⟨entry.kind, entry.text, entry.pos, b.nodes.size,
          entry.children.map (b.finish tree root).nodeAt⟩
      else (b.finish tree root).nodeAt id := by
  have hsize : (b.finish tree root).subtrees.size = b.nodes.size :=
    FlatTree.size_subtrees _
  rw [FlatTree.nodeAt, subtrees_push, FlatTree.graft_subtrees,
    Array.getD_eq_getD_getElem?, Array.getElem?_push, hsize, FlatTree.nodeAt,
    Array.getD_eq_getD_getElem?]
  split <;> rfl

theorem Built.unfolds (h : b.Built orphans) (tree : TreeId) (root : NodeId)
    (hentry : b.get? id = some entry) :
    (b.finish tree root).nodeAt id =
      ⟨entry.kind, entry.text, entry.pos, id.index,
        entry.children.map (b.finish tree root).nodeAt⟩ := by
  induction h generalizing id entry with
  | new => simp [get?] at hentry
  | @push b orphans rest new h hchildren ih =>
      have hearlier :=
        (Built.push new h hchildren).forward.earlier id entry hentry
      have hkept : id.index ≤ b.nodes.size →
          entry.children.map ((b.push new).2.finish tree root).nodeAt =
            entry.children.map (b.finish tree root).nodeAt := by
        refine fun hle => List.map_congr_left fun child hc => ?_
        rw [nodeAt_push,
          if_neg (Nat.ne_of_lt (Nat.lt_of_lt_of_le (hearlier child hc) hle))]
      rcases get?_push_cases hentry with ⟨hold, hlt⟩ | ⟨hid, rfl⟩
      · rw [nodeAt_push, if_neg (Nat.ne_of_lt hlt), ih hold,
          hkept (Nat.le_of_lt hlt)]
      · rw [nodeAt_push, if_pos hid, hkept (Nat.le_of_eq hid), hid]

theorem Built.bottomUp (h : b.Built orphans) (tree : TreeId) (root : NodeId) :
    (b.finish tree root).BottomUp where
  earlier child parent := by
    rintro ⟨entry, hentry, hchild⟩
    exact h.forward.earlier parent entry hentry child hchild
  sole child p q := by
    rintro ⟨e, he, hce⟩ ⟨f, hf, hcf⟩
    exact h.owned.sole p q e f he hf child hce hcf
  distinct := h.owned.distinct
  unfolds _ _ hentry := h.unfolds tree root hentry

/-! ## Whole trees -/

structure Plants (b : TreeBuilder) (nodes : List Node) (ids : List NodeId)
    (t : TreeBuilder) : Prop where
  built : ∀ orphans, b.Built orphans → ∃ left, t.Built left ∧
    left.Perm (ids ++ orphans)
  grown : b.nodes.size ≤ t.nodes.size
  added : ∀ id ∈ ids, id.index < t.nodes.size
  kept : ∀ (tree : TreeId) (root id : NodeId), id.index < b.nodes.size →
    (t.finish tree root).nodeAt id = (b.finish tree root).nodeAt id
  next : (Node.numberAll b.nodes.size nodes).2 = t.nodes.size
  numbered : t.nodes.size ≤ UInt32.size → ∀ (tree : TreeId) (root : NodeId),
    ids.map (t.finish tree root).nodeAt = (Node.numberAll b.nodes.size nodes).1

namespace Plants

variable {c t : TreeBuilder} {node : Node} {nodes rest : List Node}
  {ids others : List NodeId}

theorem nil (b : TreeBuilder) : Plants b [] [] b where
  built orphans h := ⟨orphans, h, List.Perm.refl _⟩
  grown := Nat.le_refl _
  added _ h := (List.not_mem_nil h).elim
  kept _ _ _ _ := rfl
  next := rfl
  numbered _ _ _ := rfl

theorem cons (h : Plants b [node] [id] c) (hrest : Plants c rest others t) :
    Plants b (node :: rest) (id :: others) t where
  built orphans hb := by
    obtain ⟨left, hc, hleft⟩ := h.built orphans hb
    obtain ⟨final, ht, hfinal⟩ := hrest.built left hc
    have hmoved :
        (others ++ ([id] ++ orphans)).Perm (id :: others ++ orphans) := by
      simp [List.perm_middle]
    exact ⟨final, ht, hfinal.trans ((hleft.append_left others).trans hmoved)⟩
  grown := Nat.le_trans h.grown hrest.grown
  added := List.forall_mem_cons.2
    ⟨Nat.lt_of_lt_of_le (h.added id List.mem_cons_self) hrest.grown,
      hrest.added⟩
  kept tree root old hold := by
    rw [hrest.kept tree root old (Nat.lt_of_lt_of_le hold h.grown),
      h.kept tree root old hold]
  next := by
    have hnext := h.next
    rw [Node.numberAll_singleton] at hnext
    rw [Node.numberAll_cons, hnext, hrest.next]
  numbered hle tree root := by
    have hnext := h.next
    have hnode := h.numbered (Nat.le_trans hrest.grown hle) tree root
    rw [Node.numberAll_singleton] at hnext hnode
    rw [List.map_cons, hrest.kept tree root id (h.added id List.mem_cons_self),
      hrest.numbered hle tree root, List.head_eq_of_cons_eq hnode,
      Node.numberAll_cons, hnext]

theorem push {kind : NodeKind} {text : String} {pos : Position} {old : Nat}
    (h : Plants b nodes ids c) :
    Plants b [⟨kind, text, pos, old, nodes⟩] [(c.push ⟨kind, text, ids, pos⟩).1]
      (c.push ⟨kind, text, ids, pos⟩).2 := by
  have hindex := c.index_push ⟨kind, text, ids, pos⟩
  have hsize := c.size_push ⟨kind, text, ids, pos⟩
  constructor
  case built =>
    intro orphans hb
    obtain ⟨left, hc, hleft⟩ := h.built orphans hb
    exact ⟨_, .push ⟨kind, text, ids, pos⟩ hc hleft, List.Perm.refl _⟩
  case grown => exact Nat.le_trans h.grown (by omega)
  case added =>
    intro id hid
    obtain rfl := List.mem_singleton.1 hid
    omega
  case kept =>
    intro tree root id hid
    have hlt := Nat.lt_of_lt_of_le hid h.grown
    rw [nodeAt_push, if_neg (Nat.ne_of_lt hlt), h.kept tree root id hid]
  case next =>
    rw [Node.numberAll_singleton, Node.number_mk, h.next, hsize]
  case numbered =>
    intro hle tree root
    have hlast : (c.push ⟨kind, text, ids, pos⟩).1.index =
        c.nodes.size := by omega
    rw [List.map_singleton, nodeAt_push, if_pos hlast,
      h.numbered (by omega) tree root, Node.numberAll_singleton,
      Node.number_mk, h.next]

end Plants

mutual

theorem plants_plant (b : TreeBuilder) (node : Node) :
    Plants b [node] [(b.plant node).1] (b.plant node).2 :=
  match node with
  | ⟨_, _, _, _, children⟩ => (plants_plantAll b children).push

theorem plants_plantAll (b : TreeBuilder) (nodes : List Node) :
    Plants b nodes (b.plantAll nodes).1 (b.plantAll nodes).2 :=
  match nodes with
  | [] => .nil b
  | node :: rest =>
      (plants_plant b node).cons (plants_plantAll (b.plant node).2 rest)

end

end TreeBuilder

/-- A tree that is added as a whole has been built bottom-up; read back it is
the tree that engines number, unless it has more nodes than there are
numbers. -/
theorem FlatTree.ofRoot_planted (id : TreeId) (root : Node) :
    (∃ (b : TreeBuilder) (left : List NodeId) (top : NodeId),
      b.Built left ∧ ofRoot id root = b.finish id top) ∧
    (root.size ≤ UInt32.size →
      (ofRoot id root).unfold = SyntaxTree.ofRoot id root) := by
  have hplants := TreeBuilder.plants_plant {} root
  obtain ⟨left, hbuilt, -⟩ := hplants.built [] .new
  refine ⟨⟨_, left, _, hbuilt, rfl⟩, fun hsize => ?_⟩
  have hnext := hplants.next
  rw [Node.numberAll_singleton, Node.number_next] at hnext
  have hlast : (({} : TreeBuilder).plant root).2.nodes.size = root.size :=
    hnext.symm.trans (Nat.zero_add root.size)
  have hroot :=
    hplants.numbered (hlast ▸ hsize) id (({} : TreeBuilder).plant root).1
  rw [Node.numberAll_singleton] at hroot
  exact congrArg (SyntaxTree.mk id) (List.head_eq_of_cons_eq hroot)

end ArenaScript
