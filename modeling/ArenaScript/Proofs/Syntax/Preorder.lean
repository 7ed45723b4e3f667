import ArenaScript.Syntax.Node

/-!
# Walks go parents first

A walk keeps the nodes that it has still to visit in one list.  It visits them,
and all that is below them, in the order of the recursive traversal: whatever
waits behind a node is visited after all that is below it.
-/

namespace ArenaScript.Node

theorem preorder_eq (node : Node) :
    node.preorder = node :: preorderAll node.children := by
  cases node
  rw [preorder]

theorem preorderAll_append (front back : List Node) :
    preorderAll (front ++ back) = preorderAll front ++ preorderAll back := by
  induction front with
  | nil => rfl
  | cons node rest ih =>
      rw [List.cons_append, preorderAll, preorderAll, ih, List.append_assoc]

theorem walk_eq (pending : List Node) : walk pending = preorderAll pending := by
  induction pending using walk.induct with
  | case1 => rw [walk, preorderAll]
  | case2 node waiting ih =>
      rw [walk, ih, preorderAll_append, preorderAll, preorder_eq,
        List.cons_append]

theorem descendants_eq (node : Node) :
    node.descendants = preorderAll node.children :=
  walk_eq node.children

theorem walk_append (front back : List Node) :
    walk (front ++ back) = walk front ++ walk back := by
  simp only [walk_eq, preorderAll_append]

theorem mem_descendants_of_child {node child n : Node}
    (hchild : child ∈ node.children) (hn : n ∈ child :: child.descendants) :
    n ∈ node.descendants := by
  obtain ⟨front, back, hsplit⟩ := List.append_of_mem hchild
  have hwalk : node.descendants =
      walk front ++ (child :: child.descendants ++ walk back) := by
    rw [descendants, hsplit, walk_append, walk, walk_append, descendants,
      List.cons_append]
  rw [hwalk]
  exact List.mem_append_right _ (List.mem_append_left _ hn)

theorem mem_walk_of_descendant {pending : List Node} {n m : Node}
    (hn : n ∈ walk pending) (hm : m ∈ n.descendants) : m ∈ walk pending := by
  induction pending using walk.induct with
  | case1 => simp [walk] at hn
  | case2 node waiting ih =>
      rw [walk] at hn ⊢
      refine List.mem_cons_of_mem node ?_
      rcases List.mem_cons.1 hn with rfl | hn
      · rw [walk_append]
        exact List.mem_append_left _ hm
      · exact ih hn

end ArenaScript.Node
