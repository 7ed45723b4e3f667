import ArenaScript.Proofs.Expression.Phases

/-!
# Reduction is a precedence parse

The conventional reading of an expression is the only tree over its items in
which operators of each level group to the left.  Taking steps in the order in
which the reduction takes them builds this tree: chains first, then leading
operators, then the joining operators from the tightest level to the loosest.
-/

namespace ArenaScript

theorem priority_joining_ne_two (symbol : String) :
    priority symbol .joining ≠ 2 := by
  simp only [priority]
  split <;> decide

namespace Reduction

/-! ## Trees -/

inductive Tree where
  | leaf (node : Node)
  | leading (node : Node) (t : Tree)
  | joining (l : Tree) (node : Node) (r : Tree)
  | trailing (t : Tree) (node : Node)

namespace Tree

def ofStep : Step Tree → Tree
  | .leading op t => .leading op.node t
  | .joining l op r => .joining l op.node r
  | .trailing t op => .trailing t op.node

def items : Tree → List (Item Node)
  | .leaf node => [.operand node]
  | .leading node t => .operator (.make node .leading) :: t.items
  | .joining l node r => l.items ++ .operator (.make node .joining) :: r.items
  | .trailing t node => t.items ++ [.operator (.make node .trailing)]

/-- How loosely the outermost operator binds. -/
def level : Tree → Nat
  | .leaf _ => 0
  | .leading node _ => priority node.symbol .leading
  | .joining _ node _ => priority node.symbol .joining
  | .trailing _ node => priority node.symbol .trailing

/-- No operator has an operand that binds looser than it, nor a right operand of
a joining operator that binds as loosely. -/
def Proper : Tree → Prop
  | .leaf _ => True
  | .leading node t => t.level ≤ priority node.symbol .leading ∧ t.Proper
  | .joining l node r =>
      (l.level ≤ priority node.symbol .joining ∧ l.Proper) ∧
        r.level < priority node.symbol .joining ∧ r.Proper
  | .trailing t node => t.level ≤ priority node.symbol .trailing ∧ t.Proper

variable {t u : Tree}

theorem Proper.bound (h : t.Proper) {op : Operator}
    (hop : .operator op ∈ t.items) : op.priority ≤ t.level := by
  induction t with
  | leaf node => simp [items] at hop
  | leading node t ih =>
      rcases List.mem_cons.1 hop with heq | hmem
      · cases heq
        exact Nat.le_refl _
      · exact Nat.le_trans (ih h.2 hmem) h.1
  | joining l node r ihl ihr =>
      rcases List.mem_append.1 hop with hleft | hmem
      · exact Nat.le_trans (ihl h.1.2 hleft) h.1.1
      · rcases List.mem_cons.1 hmem with heq | hright
        · cases heq
          exact Nat.le_refl _
        · exact Nat.le_trans (ihr h.2.2 hright) (Nat.le_of_lt h.2.1)
  | trailing t node ih =>
      rcases List.mem_append.1 hop with hleft | hmem
      · exact Nat.le_trans (ih h.2 hleft) h.1
      · cases List.mem_singleton.1 hmem
        exact Nat.le_refl _

theorem level_attained (t : Tree) :
    t.level = 0 ∨ ∃ op, .operator op ∈ t.items ∧ op.priority = t.level := by
  cases t with
  | leaf node => exact Or.inl rfl
  | leading node t => exact Or.inr ⟨_, List.mem_cons_self, rfl⟩
  | joining l node r =>
      exact Or.inr ⟨_, List.mem_append_right _ List.mem_cons_self, rfl⟩
  | trailing t node =>
      exact Or.inr ⟨_, List.mem_append_right _ List.mem_cons_self, rfl⟩

theorem Proper.level_le (hu : u.Proper) (hitems : t.items = u.items) :
    t.level ≤ u.level := by
  rcases t.level_attained with hzero | ⟨op, hop, hlevel⟩
  · omega
  · rw [hitems] at hop
    have hbound := hu.bound hop
    omega

theorem Proper.level_eq (ht : t.Proper) (hu : u.Proper)
    (hitems : t.items = u.items) : t.level = u.level :=
  Nat.le_antisymm (hu.level_le hitems) (ht.level_le hitems.symm)

end Tree

/-- A list is split in only one way at the last member with a property. -/
theorem split_at_last {β : Type} {P : β → Prop} {a a' : β}
    {xs xs' ys ys' : List β} (h : xs ++ a :: ys = xs' ++ a' :: ys') (ha : P a)
    (ha' : P a') (hys : ∀ y ∈ ys, ¬ P y) (hys' : ∀ y ∈ ys', ¬ P y) :
    xs = xs' ∧ a = a' ∧ ys = ys' := by
  rcases List.append_eq_append_iff.1 h with ⟨mid, hxs', hrest⟩ |
    ⟨mid, hxs, hrest⟩
  · cases mid with
    | nil =>
        cases hrest
        exact ⟨by simp [hxs'], rfl, rfl⟩
    | cons first mid =>
        cases hrest
        exact absurd ha' (hys a' (by simp))
  · cases mid with
    | nil =>
        cases hrest
        exact ⟨by simp [hxs], rfl, rfl⟩
    | cons first mid =>
        cases hrest
        exact absurd ha (hys' a (by simp))

namespace Tree

def Reaches (p : Nat) (item : Item Node) : Prop :=
  ∃ op, item = .operator op ∧ p ≤ op.priority

theorem Proper.not_reaches {t : Tree} {p : Nat} (h : t.Proper)
    (hlevel : t.level < p) : ∀ item ∈ t.items, ¬ Reaches p item := by
  rintro item hitem ⟨op, rfl, hp⟩
  have hbound := h.bound hitem
  omega

theorem Proper.joining_ne_trailing {l r t : Tree} {node node' : Node}
    (hproper : (joining l node r).Proper)
    (hlevel : priority node.symbol .joining = 1) :
    (joining l node r).items ≠ (trailing t node').items := by
  intro hitems
  have hafter := hproper.2.2.not_reaches hproper.2.1
  rw [hlevel] at hafter
  obtain ⟨-, hop, -⟩ := split_at_last hitems ⟨_, rfl, Nat.le_of_eq hlevel.symm⟩
    ⟨_, rfl, Nat.le_refl _⟩ hafter (by simp)
  have hfixity := congrArg Operator.fixity (Item.operator.inj hop)
  simp [Operator.make] at hfixity

/-- There is at most one conventional reading.  The outermost operator is the
first item if it leads, and the last operator of the loosest level otherwise. -/
theorem Proper.unique {t u : Tree} (ht : t.Proper) (hu : u.Proper)
    (hitems : t.items = u.items) : t = u := by
  induction t generalizing u with
  | leaf node =>
      cases u with
      | leaf node' => simpa [items] using hitems
      | leading node' t' => simp [items] at hitems
      | joining l' node' r' =>
          have hlevel := ht.level_eq hu hitems
          have hright := hu.2.1
          simp only [level] at hlevel
          omega
      | trailing t' node' =>
          exact absurd (ht.level_eq hu hitems) (by simp [level, priority])
  | leading node t ih =>
      have hlevel := ht.level_eq hu hitems
      cases u with
      | leaf node' => simp [items] at hitems
      | leading node' t' =>
          simp only [items, List.cons.injEq, Item.operator.injEq] at hitems
          have hnode : node = node' := congrArg Operator.node hitems.1
          rw [hnode, ih ht.2 hu.2 hitems.2]
      | joining l' node' r' =>
          exact absurd hlevel.symm (priority_joining_ne_two node'.symbol)
      | trailing t' node' => simp [level, priority] at hlevel
  | joining l node r ihl ihr =>
      have hlevel := ht.level_eq hu hitems
      cases u with
      | leaf node' =>
          have hright := ht.2.1
          simp only [level] at hlevel
          omega
      | leading node' t' =>
          exact absurd hlevel (priority_joining_ne_two node.symbol)
      | joining l' node' r' =>
          -- No operator of the right operands is as loose, so both roots are
          -- the last of that kind.
          have hsame : priority node'.symbol .joining =
              priority node.symbol .joining :=
            hlevel.symm
          have hafter' := hu.2.2.not_reaches hu.2.1
          rw [hsame] at hafter'
          obtain ⟨hl, hop, hr⟩ := split_at_last hitems ⟨_, rfl, Nat.le_refl _⟩
            ⟨_, rfl, Nat.le_of_eq hsame.symm⟩
              (ht.2.2.not_reaches ht.2.1) hafter'
          have hnode : node = node' := by
            simpa [Operator.make]
              using congrArg Operator.node (Item.operator.inj hop)
          rw [hnode, ihl ht.1.2 hu.1.2 hl, ihr ht.2.2 hu.2.2 hr]
      | trailing t' node' => exact absurd hitems (ht.joining_ne_trailing hlevel)
  | trailing t node ih =>
      have hlevel := ht.level_eq hu hitems
      cases u with
      | leaf node' => simp [level, priority] at hlevel
      | leading node' t' => simp [level, priority] at hlevel
      | joining l' node' r' =>
          exact absurd hitems.symm (hu.joining_ne_trailing hlevel.symm)
      | trailing t' node' =>
          have hroot : ∀ n : Node, Reaches 1 (.operator (.make n .trailing)) :=
            fun _ => ⟨_, rfl, Nat.le_refl _⟩
          obtain ⟨hl, hop, -⟩ :=
            split_at_last hitems (hroot node) (hroot node') (by simp) (by simp)
          have hnode : node = node' := by
            simpa [Operator.make]
              using congrArg Operator.node (Item.operator.inj hop)
          rw [hnode, ih ht.2 hu.2 hl]

end Tree

end Reduction

end ArenaScript
