import Mathlib.Data.List.Perm.Subperm
import Mathlib.Logic.Relation
import ArenaScript.Proofs.Evaluation.Evaluator
import ArenaScript.Proofs.Syntax.Building
import ArenaScript.Proofs.Syntax.Preorder

/-!
# Walks through tables

A walk takes numbers from its stack until none is left.  In a table that has
been built bottom-up no node on the stack is ever at or below another one: a
node gives way to its children, which have nothing in common.  So the walk ends
and comes to each node below its start exactly once, and the order is that of
the recursive traversal.  When a module is loaded, its imports are found by such
a walk.
-/

namespace ArenaScript

open Relation (ReflTransGen TransGen)

namespace FlatTree

variable {tree : FlatTree} {id child other : NodeId} {entry : NodeEntry}
  {pending visited : List NodeId}

/-! ## Walks -/

/-- A walk that starts with the nodes of `pending` on its stack, the first one
uppermost, takes the nodes of `visited`, in this order. -/
inductive Visits (tree : FlatTree) : List NodeId → List NodeId → Prop
  | done : Visits tree [] []
  | visit {id : NodeId} {waiting visited : List NodeId} {entry : NodeEntry}
      (hentry : tree.get? id = some entry)
      (h : Visits tree (entry.children ++ waiting) visited) :
      Visits tree (id :: waiting) (id :: visited)

theorem walk_empty (tree : FlatTree) (steps : Nat) :
    tree.walk steps #[] = some [] := by
  cases steps <;> rfl

theorem walk_push_zero (tree : FlatTree) (stack : Array NodeId) (id : NodeId) :
    tree.walk 0 (stack.push id) = none := by
  rw [walk, Array.back?_push]

theorem walk_push_succ (tree : FlatTree) (steps : Nat) (stack : Array NodeId)
    (id : NodeId) :
    tree.walk (steps + 1) (stack.push id) = (do
      let entry ← tree.get? id
      let visited ← tree.walk steps (stack ++ entry.children.reverse)
      pure (id :: visited)) := by
  rw [walk, Array.back?_push, Array.pop_push]

theorem Visits.walk (h : tree.Visits pending visited) (steps : Nat) :
    tree.walk steps pending.reverse.toArray =
      if visited.length ≤ steps then some visited else none := by
  induction h generalizing steps with
  | done => exact tree.walk_empty steps
  | @visit id waiting visited entry hentry h ih =>
      have htop : (id :: waiting).reverse.toArray =
          waiting.reverse.toArray.push id := by simp
      have hrest : waiting.reverse.toArray ++ entry.children.reverse =
          (entry.children ++ waiting).reverse.toArray := by simp
      cases steps with
      | zero =>
          rw [htop, walk_push_zero, List.length_cons,
            if_neg (Nat.not_succ_le_zero _)]
      | succ steps =>
          rw [htop, walk_push_succ, hentry, Option.bind_eq_bind,
            Option.bind_some, hrest, ih]
          simp only [List.length_cons, Nat.add_le_add_iff_right]
          split <;> rfl

theorem childOf_iff (hentry : tree.get? id = some entry) :
    tree.ChildOf child id ↔ child ∈ entry.children := by
  constructor
  · rintro ⟨other, hother, hchild⟩
    rwa [Option.some.inj (hentry.symm.trans hother)]
  · exact fun hchild => ⟨entry, hentry, hchild⟩

/-- The walk comes to all that is at or below a pending node, and to nothing
else. -/
theorem Visits.mem_iff (h : tree.Visits pending visited) :
    other ∈ visited ↔ ∃ start ∈ pending,
      ReflTransGen tree.ChildOf other start := by
  induction h with
  | done => simp
  | @visit id waiting visited entry hentry h ih =>
      have hbelow : ReflTransGen tree.ChildOf other id ↔
          other = id ∨ ∃ child ∈ entry.children,
            ReflTransGen tree.ChildOf other child := by
        rw [ReflTransGen.cases_tail_iff]
        simp only [childOf_iff hentry, and_comm, eq_comm]
      simp only [List.mem_cons, ih, List.mem_append, or_and_right, exists_or,
        exists_eq_left, hbelow, or_assoc]

section BottomUp

variable (htree : tree.BottomUp)

include htree

theorem BottomUp.index_le (h : ReflTransGen tree.ChildOf other id) :
    other.index ≤ id.index := by
  induction h with
  | refl => exact Nat.le_refl _
  | tail _ hchild ih =>
      exact Nat.le_trans ih (Nat.le_of_lt (htree.earlier _ _ hchild))

theorem BottomUp.has_of_childOf (h : tree.ChildOf child id) :
    child.index < tree.size := by
  obtain ⟨entry, hentry, hchild⟩ := h
  have hid : id.index < tree.size := (Array.getElem?_eq_some_iff.1 hentry).1
  exact Nat.lt_trans (htree.earlier child id ⟨entry, hentry, hchild⟩) hid

/-- The walk ends, and it takes the nodes in the order in which the walk through
what they unfold to visits these. -/
theorem BottomUp.exists_visits
    (hpending : ∀ id ∈ pending, id.index < tree.size) :
    ∃ visited, tree.Visits pending visited ∧
      visited.map tree.nodeAt = Node.walk (pending.map tree.nodeAt) := by
  -- The walk through the unfolded nodes is known to end, so the induction is on
  -- that one.
  generalize hnodes : pending.map tree.nodeAt = nodes
  induction nodes using Node.walk.induct generalizing pending with
  | case1 =>
      obtain rfl := List.map_eq_nil_iff.1 hnodes
      exact ⟨[], .done, by rw [Node.walk]; rfl⟩
  | case2 node waiting ih =>
      obtain ⟨id, rest, rfl, rfl, rfl⟩ := List.map_eq_cons_iff.1 hnodes
      obtain ⟨hid, hrest⟩ := List.forall_mem_cons.1 hpending
      obtain ⟨entry, hentry⟩ : ∃ entry, tree.get? id = some entry :=
        ⟨_, Array.getElem?_eq_getElem hid⟩
      have hnode := htree.unfolds id entry hentry
      have hall : ∀ child ∈ entry.children ++ rest,
          child.index < tree.size := by
        intro child hchild
        rcases List.mem_append.1 hchild with hchild | hchild
        · exact htree.has_of_childOf ⟨entry, hentry, hchild⟩
        · exact hrest child hchild
      obtain ⟨visited, hvisits, hvisited⟩ :=
        ih hall (by rw [List.map_append, hnode])
      refine ⟨id :: visited, .visit hentry hvisits, ?_⟩
      rw [List.map_cons, hvisited, Node.walk]

/-- Neither node is at or below the other. -/
def Apart (tree : FlatTree) (a b : NodeId) : Prop :=
  ¬ ReflTransGen tree.ChildOf a b ∧ ¬ ReflTransGen tree.ChildOf b a

theorem BottomUp.not_below_sibling {a b parent : NodeId}
    (ha : tree.ChildOf a parent) (hb : tree.ChildOf b parent) (hne : a ≠ b) :
    ¬ ReflTransGen tree.ChildOf a b := by
  intro hab
  rcases hab.cases_head with rfl | ⟨p, hp, hpb⟩
  · exact hne rfl
  · obtain rfl := htree.sole a p parent hp ha
    have hle := htree.index_le hpb
    have hlt := htree.earlier b p hb
    omega

theorem BottomUp.child_apart {a b : NodeId} (ha : tree.ChildOf child a)
    (hab : tree.Apart a b) : tree.Apart child b := by
  refine ⟨fun hbelow => ?_, fun hbelow => hab.2 (hbelow.tail ha)⟩
  rcases hbelow.cases_head with rfl | ⟨p, hp, hpb⟩
  · exact hab.2 (.single ha)
  · obtain rfl := htree.sole child p a hp ha
    exact hab.1 hpb

theorem BottomUp.children_apart (hentry : tree.get? id = some entry) :
    entry.children.Pairwise tree.Apart := by
  refine (htree.distinct id entry hentry).imp_of_mem fun {a b} ha hb hne => ?_
  have ha' : tree.ChildOf a id := ⟨entry, hentry, ha⟩
  have hb' : tree.ChildOf b id := ⟨entry, hentry, hb⟩
  exact ⟨htree.not_below_sibling ha' hb' hne,
    htree.not_below_sibling hb' ha' hne.symm⟩

/-- No pending node is below another, so nothing is visited twice. -/
theorem BottomUp.visits_nodup (h : tree.Visits pending visited)
    (hapart : pending.Pairwise tree.Apart) : visited.Nodup := by
  induction h with
  | done => exact List.nodup_nil
  | @visit id waiting visited entry hentry h ih =>
      obtain ⟨hid, hwaiting⟩ := List.pairwise_cons.1 hapart
      have hcross : ∀ child ∈ entry.children, ∀ other ∈ waiting,
          tree.Apart child other :=
        fun child hchild other hother =>
          htree.child_apart ⟨entry, hentry, hchild⟩ (hid other hother)
      refine List.nodup_cons.2 ⟨fun hmem => ?_, ih (List.pairwise_append.2
        ⟨htree.children_apart hentry, hwaiting, hcross⟩)⟩
      obtain ⟨start, hstart, hbelow⟩ := h.mem_iff.1 hmem
      rcases List.mem_append.1 hstart with hchild | hother
      · have hle := htree.index_le hbelow
        have hlt := htree.earlier start id ⟨entry, hentry, hchild⟩
        omega
      · exact (hid start hother).1 hbelow

end BottomUp

/-! ## What a walk finds -/

/-- The nodes below `id`, all of them and each once, in the order of the
recursive traversal of what `id` unfolds to; the walk below `id` finds them in
as many steps. -/
structure Preordered (tree : FlatTree) (id : NodeId) (below : List NodeId) :
    Prop where
  ends : ∀ steps, tree.descendants? steps id = if below.length ≤ steps then
    some below else none
  order : below.map tree.nodeAt = Node.preorderAll (tree.nodeAt id).children
  once : below.Nodup
  complete : ∀ other, other ∈ below ↔ TransGen tree.ChildOf other id

theorem BottomUp.exists_preordered (htree : tree.BottomUp)
    (hid : id.index < tree.size) : ∃ below, tree.Preordered id below := by
  obtain ⟨entry, hentry⟩ : ∃ entry, tree.get? id = some entry :=
    ⟨_, Array.getElem?_eq_getElem hid⟩
  obtain ⟨below, hvisits, hbelow⟩ := htree.exists_visits fun child hchild =>
    htree.has_of_childOf ⟨entry, hentry, hchild⟩
  refine ⟨below, fun steps => ?_, ?_, ?_, fun other => ?_⟩
  · rw [descendants?, hentry, Option.bind_eq_bind, Option.bind_some,
      hvisits.walk]
  · rw [hbelow, htree.unfolds id entry hentry, Node.walk_eq]
  · exact htree.visits_nodup hvisits (htree.children_apart hentry)
  · simp only [hvisits.mem_iff, TransGen.tail'_iff, childOf_iff hentry,
      and_comm]

theorem Preordered.length_lt {below : List NodeId}
    (h : tree.Preordered id below) (htree : tree.BottomUp)
    (hid : id.index < tree.size) : below.length < tree.size := by
  have hnodup : (below.map NodeId.index).Nodup :=
    h.once.map fun _ _ => NodeId.index_inj.1
  have hsubset : below.map NodeId.index ⊆ List.range id.index := by
    intro i hi
    obtain ⟨other, hother, rfl⟩ := List.mem_map.1 hi
    obtain ⟨child, hbelow, hchild⟩ :=
      TransGen.tail'_iff.1 ((h.complete other).1 hother)
    have hle := htree.index_le hbelow
    exact List.mem_range.2
      (Nat.lt_of_le_of_lt hle (htree.earlier child id hchild))
  have hle := (hnodup.subperm hsubset).length_le
  rw [List.length_map, List.length_range] at hle
  exact Nat.lt_of_le_of_lt hle hid

end FlatTree

namespace Calls

/-- Enters the module, loads what the nodes of `imports` ask for, in this order,
and runs the module's code. -/
def enterModule (c : Calls) (path : String) (tree : SyntaxTree)
    (imports : List Node) : Eval ModuleId := do
  let (id, scope) ← Eval.addModule path tree.id
  imports.forM (c.preload path scope tree.root)
  Eval.updateArena (·.pushFrame scope .moduleFrame none)
  let _ ← Eval.withTree tree.id (c.executeAll tree.root.children)
  pure id

theorem evaluateModule_enters (c : Calls) {path : String} (tree : SyntaxTree)
    {s : Engine} (h : s.modules.find? path = none) :
    c.evaluateModule path tree s = c.enterModule path tree
      ((Node.preorderAll tree.root.children).filter (·.kind == .importModule))
        s := by
  rw [Within.evaluateModule_new c tree h, Node.descendants_eq]
  rfl

end Calls

namespace TreeBuilder

/-- Below each node of a tree that has been built bottom-up the walk ends, after
fewer steps than the tree has nodes, and finds what is below the node, each node
once and in the order of the recursive traversal.  A module that is entered
loads all its imports in that order. -/
theorem walks_in_preorder {b : TreeBuilder} {orphans : List NodeId}
    (h : b.Built orphans) (number : TreeId) (root : NodeId) :
    let tree := b.finish number root
    (∀ (id : NodeId) (entry : NodeEntry), tree.get? id = some entry →
      tree.nodeAt id =
        ⟨entry.kind, entry.text, entry.pos, id.index,
          entry.children.map tree.nodeAt⟩) ∧
    (∀ id : NodeId, id.index < tree.size →
      ∃ below, tree.Preordered id below ∧ below.length < tree.size) ∧
    ∀ below, tree.Preordered root below →
      ∀ (c : Calls) (path : String) (s : Engine), s.modules.find? path = none →
        c.evaluateModule path tree.unfold s = c.enterModule path tree.unfold
          ((below.map tree.nodeAt).filter (·.kind == .importModule)) s := by
  intro tree
  have htree : tree.BottomUp := h.bottomUp number root
  refine ⟨htree.unfolds, fun id hid => ?_, fun below hbelow c path s hnew => ?_⟩
  · obtain ⟨below, hbelow⟩ := htree.exists_preordered hid
    exact ⟨below, hbelow, hbelow.length_lt htree hid⟩
  · rw [hbelow.order]
    exact c.evaluateModule_enters tree.unfold hnew

/-- A module that imports `a` in a block and then `b`.  The imports have been
added the other way round, and a node of no use after them. -/
def scattered : TreeBuilder :=
  ⟨#[⟨.importModule, "b", [], .dummy⟩, ⟨.importModule, "a", [], .dummy⟩,
    ⟨.block, "", [⟨1⟩], .dummy⟩, ⟨.identifier, "x", [], .dummy⟩,
    ⟨.moduleRoot, "", [⟨2⟩, ⟨0⟩], .dummy⟩]⟩

theorem scattered_built : scattered.Built [⟨4⟩, ⟨3⟩] := by
  have hb : Built _ [⟨0⟩] :=
    .push ⟨.importModule, "b", [], .dummy⟩ .new (by decide)
  have ha : Built _ [⟨1⟩, ⟨0⟩] :=
    .push ⟨.importModule, "a", [], .dummy⟩ hb (by decide)
  have hblock : Built _ [⟨2⟩, ⟨0⟩] :=
    .push ⟨.block, "", [⟨1⟩], .dummy⟩ ha (by decide)
  have hx : Built _ [⟨3⟩, ⟨2⟩, ⟨0⟩] :=
    .push ⟨.identifier, "x", [], .dummy⟩ hblock (by decide)
  exact .push ⟨.moduleRoot, "", [⟨2⟩, ⟨0⟩], .dummy⟩ hx (by decide)

/-- The imports are loaded in the order in which they stand in the source. -/
theorem walks_in_preorder_scattered :
    let tree := scattered.finish ⟨1⟩ ⟨4⟩
    let s := Engine.new {} ⟨.silent, ""⟩ none []
    scattered.Built [⟨4⟩, ⟨3⟩] ∧ tree.Preordered ⟨4⟩ [⟨2⟩, ⟨1⟩, ⟨0⟩] ∧
      ∀ c : Calls, c.evaluateModule "/main.vx" tree.unfold s =
        c.enterModule "/main.vx" tree.unfold
        [⟨.importModule, "a", .dummy, 1, []⟩,
          ⟨.importModule, "b", .dummy, 0, []⟩] s := by
  intro tree s
  obtain ⟨-, hall, hloads⟩ := walks_in_preorder scattered_built ⟨1⟩ ⟨4⟩
  obtain ⟨below, hbelow, hlength⟩ := hall ⟨4⟩ (by decide)
  have hwalk : tree.descendants? tree.size ⟨4⟩ =
      some [⟨2⟩, ⟨1⟩, ⟨0⟩] := by decide
  have hends := hbelow.ends tree.size
  rw [if_pos (Nat.le_of_lt hlength)] at hends
  obtain rfl : [⟨2⟩, ⟨1⟩, ⟨0⟩] = below :=
    Option.some.inj (hwalk.symm.trans hends)
  have hnew : s.modules.find? "/main.vx" = none := by
    change ModuleTable.empty.find? "/main.vx" = none
    simp [ModuleTable.find?, ModuleTable.empty]
  exact ⟨scattered_built, hbelow, fun c => hloads _ hbelow c "/main.vx" s hnew⟩

end TreeBuilder

end ArenaScript
