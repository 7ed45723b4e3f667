import ArenaScript.Expression.Reduction

/-!
# The grammar of expressions

An expression is a row of terms with joining operators between them, and a term
is an operand with leading operators before it and trailing ones after it.
Whether a list has this form can be seen from left to right by remembering only
whether an operand is due.  An operator is reported while the list is built only
if the list does not have this form.
-/

namespace ArenaScript

/-! ## Terms and phrases -/

namespace Reduction

variable {α : Type}

structure Term (α : Type) where
  leading : List Node
  operand : α
  trailing : List Node

def operators (fixity : Fixity) (nodes : List Node) : List (Item α) :=
  nodes.map fun node => .operator (.make node fixity)

def Term.items (t : Term α) : List (Item α) :=
  operators .leading t.leading ++ .operand t.operand ::
    operators .trailing t.trailing

structure Row (β : Type) where
  first : β
  rest : List (Node × β)

def joined {β : Type} (write : β → List (Item α)) (rest : List (Node × β)) :
    List (Item α) :=
  rest.flatMap fun (node, b) => .operator (.make node .joining) :: write b

def Row.items {β : Type} (write : β → List (Item α)) (r : Row β) :
    List (Item α) :=
  write r.first ++ joined write r.rest

@[simp] theorem joined_nil {β : Type} (write : β → List (Item α)) :
    joined write [] = [] := rfl

theorem joined_cons {β : Type} (write : β → List (Item α)) (node : Node) (b : β)
    (rest : List (Node × β)) :
    joined write ((node, b) :: rest) =
      .operator (.make node .joining) :: (write b ++ joined write rest) := by
  simp [joined]

def WellFormed (items : List (Item α)) : Prop :=
  ∃ p : Row (Term α), items = p.items Term.items

end Reduction

/-! ## Reading from left to right -/

namespace Item

variable {α : Type}

/-- Whether an operand is due after the item. -/
def awaits : Item α → Bool
  | .operand _ => false
  | .operator op => op.fixity != .trailing

def fits (due : Bool) : Item α → Bool
  | .operand _ => due
  | .operator op =>
      match op.fixity with
      | .leading => due
      | .joining | .trailing => !due

def Made : Item α → Prop
  | .operand _ => True
  | .operator op => op = .make op.node op.fixity

end Item

namespace Reduction

variable {α : Type}

def accepts (due : Bool) : List (Item α) → Bool
  | [] => !due
  | item :: rest => item.fits due && accepts item.awaits rest

theorem accepts_operand (due : Bool) (a : α) (rest : List (Item α)) :
    accepts due (.operand a :: rest) = (due && accepts false rest) := rfl

section Fixities

variable {op : Operator} (due : Bool) (rest : List (Item α))

theorem accepts_leading (h : op.fixity = .leading) :
    accepts due (.operator op :: rest) = (due && accepts true rest) := by
  simp only [accepts, Item.fits, Item.awaits, h]
  rfl

theorem accepts_joining (h : op.fixity = .joining) :
    accepts due (.operator op :: rest) = (!due && accepts true rest) := by
  simp only [accepts, Item.fits, Item.awaits, h]
  rfl

theorem accepts_trailing (h : op.fixity = .trailing) :
    accepts due (.operator op :: rest) = (!due && accepts false rest) := by
  simp only [accepts, Item.fits, Item.awaits, h]
  rfl

end Fixities

theorem accepts_append_congr {xs ys : List (Item α)}
    (h : ∀ due, accepts due xs = accepts due ys) (before : List (Item α))
    (due : Bool) : accepts due (before ++ xs) = accepts due (before ++ ys) := by
  induction before generalizing due with
  | nil => exact h due
  | cons item rest ih => simp only [List.cons_append, accepts, ih]

theorem accepts_operators_leading (nodes : List Node) (rest : List (Item α)) :
    accepts true (operators .leading nodes ++ rest) = accepts true rest := by
  induction nodes with
  | nil => rfl
  | cons node nodes ih => exact (accepts_leading _ _ rfl).trans ih

theorem accepts_operators_trailing (nodes : List Node) (rest : List (Item α)) :
    accepts false (operators .trailing nodes ++ rest) = accepts false rest := by
  induction nodes with
  | nil => rfl
  | cons node nodes ih => exact (accepts_trailing _ _ rfl).trans ih

theorem accepts_term (t : Term α) (rest : List (Item α)) :
    accepts true (t.items ++ rest) = accepts false rest := by
  rw [Term.items, List.append_assoc, accepts_operators_leading,
    List.cons_append, accepts_operand, accepts_operators_trailing,
    Bool.true_and]

theorem accepts_joined (rest : List (Node × Term α)) :
    accepts false (joined Term.items rest) = true := by
  induction rest with
  | nil => rfl
  | cons part rest ih =>
      obtain ⟨node, t⟩ := part
      rw [joined_cons, accepts_joining _ _ rfl, accepts_term, ih]
      rfl

theorem accepts_phrase (p : Row (Term α)) :
    accepts true (p.items Term.items) = true := by
  rw [Row.items, accepts_term, accepts_joined]

theorem made_operators {fixity : Fixity} {nodes : List Node} {item : Item α}
    (h : item ∈ operators fixity nodes) : item.Made := by
  obtain ⟨node, -, rfl⟩ := List.mem_map.1 h
  rfl

theorem made_term {t : Term α} {item : Item α} (h : item ∈ t.items) :
    item.Made := by
  rcases List.mem_append.1 h with hleading | hrest
  · exact made_operators hleading
  · rcases List.mem_cons.1 hrest with rfl | htrailing
    · trivial
    · exact made_operators htrailing

theorem made_phrase {p : Row (Term α)} {item : Item α}
    (h : item ∈ p.items Term.items) : item.Made := by
  rcases List.mem_append.1 h with hfirst | hrest
  · exact made_term hfirst
  · obtain ⟨⟨node, t⟩, -, hitem⟩ := List.mem_flatMap.1 hrest
    rcases List.mem_cons.1 hitem with rfl | hterm
    · rfl
    · exact made_term hterm

theorem phrase_of_accepts (items : List (Item α))
    (hmade : ∀ item ∈ items, item.Made) :
    (accepts true items = true → WellFormed items) ∧
      (accepts false items = true →
        ∃ nodes rest,
          items = operators .trailing nodes ++ joined Term.items rest) := by
  induction items with
  | nil => exact ⟨fun h => by simp [accepts] at h, fun _ => ⟨[], [], rfl⟩⟩
  | cons item rest ih =>
      obtain ⟨hdue, hdone⟩ :=
        ih fun other hother => hmade other (List.mem_cons_of_mem item hother)
      have hitem := hmade item List.mem_cons_self
      cases item with
      | operand a =>
          refine ⟨fun h => ?_, fun h => by simp [accepts_operand] at h⟩
          rw [accepts_operand, Bool.true_and] at h
          obtain ⟨nodes, parts, rfl⟩ := hdone h
          exact ⟨⟨⟨[], a, nodes⟩, parts⟩, rfl⟩
      | operator op =>
          obtain ⟨node, fixity, priority⟩ := op
          change (⟨node, fixity, priority⟩ : Operator) =
            .make node fixity at hitem
          rw [hitem]
          cases fixity with
          | leading =>
              refine ⟨fun h => ?_, fun h => ?_⟩
              · rw [accepts_leading _ _ rfl, Bool.true_and] at h
                obtain ⟨⟨⟨leading, a, trailing⟩, parts⟩, rfl⟩ := hdue h
                exact ⟨⟨⟨node :: leading, a, trailing⟩, parts⟩, rfl⟩
              · rw [accepts_leading _ _ rfl] at h
                cases h
          | joining =>
              refine ⟨fun h => ?_, fun h => ?_⟩
              · rw [accepts_joining _ _ rfl] at h
                cases h
              · rw [accepts_joining _ _ rfl, Bool.not_false, Bool.true_and] at h
                obtain ⟨⟨first, parts⟩, rfl⟩ := hdue h
                exact ⟨[], (node, first) :: parts,
                  by simp [operators, joined, Row.items]⟩
          | trailing =>
              refine ⟨fun h => ?_, fun h => ?_⟩
              · rw [accepts_trailing _ _ rfl] at h
                cases h
              · rw [accepts_trailing _ _ rfl, Bool.not_false,
                  Bool.true_and] at h
                obtain ⟨nodes, parts, rfl⟩ := hdone h
                exact ⟨node :: nodes, parts, rfl⟩

theorem wellFormed_iff {items : List (Item α)} :
    WellFormed items ↔ accepts true items = true ∧ ∀ item ∈ items,
      item.Made := by
  constructor
  · rintro ⟨p, rfl⟩
    exact ⟨accepts_phrase p, fun _ => made_phrase⟩
  · rintro ⟨haccepts, hmade⟩
    exact (phrase_of_accepts items hmade).1 haccepts

/-! ## Classification -/

def marksFrom (operand : Node → α) (previous : Option (Item α)) :
    List Node → List (Item α)
  | [] => []
  | node :: rest =>
      let item :=
        if node.kind.isOperator then
          .operator (.make node (classify previous node))
        else .operand (operand node)
      item :: marksFrom operand (some item) rest

def marks (operand : Node → α) (nodes : List Node) : List (Item α) :=
  marksFrom operand none nodes

theorem made_marksFrom (operand : Node → α) (nodes : List Node)
    (previous : Option (Item α)) :
    ∀ item ∈ marksFrom operand previous nodes, item.Made := by
  induction nodes generalizing previous with
  | nil => simp [marksFrom]
  | cons node rest ih =>
      intro item hitem
      rcases List.mem_cons.1 hitem with rfl | hrest
      · split
        · rfl
        · trivial
      · exact ih _ item hrest

theorem wellFormed_marks {operand : Node → α} {nodes : List Node} :
    WellFormed (marks operand nodes) ↔ accepts true (marks operand nodes) =
      true := by
  rw [wellFormed_iff]
  exact and_iff_left (made_marksFrom operand nodes none)

theorem marks_eq_nil {operand : Node → α} {nodes : List Node} :
    marks operand nodes = [] ↔ nodes = [] := by
  cases nodes <;> simp [marks, marksFrom]

/-- An operator that is reported makes the list unacceptable: nothing trails the
start, and after a leading or joining operator an operand is due. -/
theorem itemsFrom_operator (operand : Node → α) (previous : Option (Item α))
    {node : Node} (rest : List Node) (hop : node.kind.isOperator = true) :
    let item : Item α := .operator (.make node (classify previous node))
    itemsFrom operand previous (node :: rest) =
        (itemsFrom operand (some item) rest).map (item :: ·) ∨
      itemsFrom operand previous (node :: rest) = .error node.symbol ∧
        accepts (previous.all Item.awaits)
          (item :: marksFrom operand (some item) rest) = false := by
  simp only [itemsFrom, hop, if_true]
  cases hfixity : classify previous node with
  | trailing =>
      by_cases hnone : previous = none
      · exact Or.inr ⟨by simp [hnone], by rw [hnone]; rfl⟩
      · exact Or.inl (by simp [hnone])
  | leading =>
      by_cases hlast : rest = []
      · exact Or.inr ⟨by simp [hlast], by rw [hlast]; exact Bool.and_false _⟩
      · exact Or.inl (by simp [hlast])
  | joining =>
      by_cases hlast : rest = []
      · exact Or.inr ⟨by simp [hlast], by rw [hlast]; exact Bool.and_false _⟩
      · exact Or.inl (by simp [hlast])

theorem itemsFrom_cases (operand : Node → α) (nodes : List Node)
    (previous : Option (Item α)) :
    itemsFrom operand previous nodes = .ok (marksFrom operand previous nodes) ∨
      (∃ symbol, itemsFrom operand previous nodes = .error symbol) ∧
        accepts (previous.all Item.awaits) (marksFrom operand previous nodes) =
          false := by
  induction nodes generalizing previous with
  | nil => exact Or.inl rfl
  | cons node rest ih =>
      have hlater : ∀ item : Item α,
          (itemsFrom operand (some item) rest).map (item :: ·) =
              .ok (item :: marksFrom operand (some item) rest) ∨
            (∃ symbol, (itemsFrom operand (some item) rest).map (item :: ·) =
              .error symbol) ∧
              accepts (previous.all Item.awaits)
                (item :: marksFrom operand (some item) rest) = false := by
        intro item
        rcases ih (some item) with hok | ⟨⟨symbol, herror⟩, hreject⟩
        · exact Or.inl (by rw [hok]; rfl)
        · refine Or.inr ⟨⟨symbol, by rw [herror]; rfl⟩, ?_⟩
          rw [Option.all_some] at hreject
          rw [accepts, hreject, Bool.and_false]
      by_cases hop : node.kind.isOperator = true
      · simp only [marksFrom, hop, if_true]
        rcases itemsFrom_operator operand previous rest hop with hitems |
          ⟨hitems, hreject⟩
        · rw [hitems]
          exact hlater _
        · exact Or.inr ⟨⟨_, hitems⟩, hreject⟩
      · simp only [marksFrom, itemsFrom, hop]
        exact hlater _

theorem items_cases (operand : Node → α) (nodes : List Node) :
    items operand nodes = .ok (marks operand nodes) ∨
      (∃ symbol, items operand nodes = .error symbol) ∧
        accepts true (marks operand nodes) = false :=
  itemsFrom_cases operand nodes none

end Reduction

end ArenaScript
