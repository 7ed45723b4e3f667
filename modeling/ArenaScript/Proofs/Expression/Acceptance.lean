import ArenaScript.Engine.Expression
import ArenaScript.Proofs.Expression.Grammar

/-!
# Which expressions can be reduced

A step replaces an operator and its operands by one operand.  In every place the
list before the step is accepted exactly if the list after it is, so a reduction
leads neither out of the grammar nor into it.  As long as a list of the grammar
has more than one item some step can be taken; hence exactly the lists of the
grammar are reduced to one operand.
-/

namespace ArenaScript.Reduction

variable {α : Type}

/-! ## Steps in their place -/

namespace Step

def items : Step α → List (Item α)
  | .leading op a => [.operator op, .operand a]
  | .joining l op r => [.operand l, .operator op, .operand r]
  | .trailing a op => [.operand a, .operator op]

def Fitting : Step α → Prop
  | .leading op _ => op.fixity = .leading
  | .joining _ op _ => op.fixity = .joining
  | .trailing _ op => op.fixity = .trailing

def left? : Step α → Option α
  | .leading _ _ => none
  | .joining l _ _ => some l
  | .trailing a _ => some a

def right? : Step α → Option α
  | .leading _ a => some a
  | .joining _ _ r => some r
  | .trailing _ _ => none

theorem accepts_items {step : Step α} (h : step.Fitting) (a : α)
    (after : List (Item α)) (due : Bool) :
    accepts due (step.items ++ after) = accepts due (.operand a :: after) := by
  cases step with
  | leading op b =>
      change accepts due (.operator op :: .operand b :: after) = _
      rw [accepts_leading _ _ h, accepts_operand, accepts_operand,
        Bool.true_and]
  | joining l op r =>
      change accepts due (.operand l :: .operator op :: .operand r :: after) = _
      rw [accepts_operand, accepts_joining _ _ h, accepts_operand,
        accepts_operand]
      rfl
  | trailing b op =>
      change accepts due (.operand b :: .operator op :: after) = _
      rw [accepts_operand, accepts_trailing _ _ h, accepts_operand]
      rfl

end Step

namespace Redex

def index (r : Redex α) : Nat := r.before.length + r.step.left?.toList.length

structure InPlace (items : List (Item α)) (r : Redex α) : Prop where
  fitting : r.step.Fitting
  split : items = r.before.reverse ++ (r.step.items ++ r.after)

namespace InPlace

variable {items : List (Item α)} {r : Redex α}

theorem operator (h : r.InPlace items) :
    items[r.index]? = some (.operator r.step.operator) := by
  rw [h.split, index]
  cases r.step <;> simp [Step.items, Step.left?, Step.operator]

theorem left (h : r.InPlace items) {a : α} (ha : r.step.left? = some a) :
    0 < r.index ∧ items[r.index - 1]? = some (.operand a) := by
  rw [h.split, index]
  cases hstep : r.step <;> simp_all [Step.items, Step.left?]

theorem right (h : r.InPlace items) {a : α} (ha : r.step.right? = some a) :
    items[r.index + 1]? = some (.operand a) := by
  rw [h.split, index]
  cases hstep : r.step <;>
    simp_all [Step.items, Step.left?, Step.right?, Nat.add_assoc]

theorem shorter (h : r.InPlace items) (a : α) :
    (r.plug a).length < items.length := by
  rw [h.split, plug]
  cases r.step <;> simp [Step.items]

theorem accepts_plug (h : r.InPlace items) (a : α) (due : Bool) :
    accepts due (r.plug a) = accepts due items := by
  rw [h.split, plug]
  exact (accepts_append_congr (Step.accepts_items h.fitting a r.after)
    r.before.reverse due).symm

theorem made_plug (h : r.InPlace items) (hmade : ∀ item ∈ items, item.Made)
    (a : α) : ∀ item ∈ r.plug a, item.Made := by
  intro item hitem
  rw [h.split] at hmade
  simp only [plug, List.mem_append, List.mem_cons] at hitem
  rcases hitem with hbefore | rfl | hafter
  · exact hmade item (by simp [List.mem_reverse.1 hbefore])
  · trivial
  · exact hmade item (by simp [hafter])

theorem wellFormed_plug (h : r.InPlace items) (hitems : WellFormed items)
    (a : α) : WellFormed (r.plug a) := by
  rw [wellFormed_iff] at hitems ⊢
  exact ⟨by rw [h.accepts_plug, hitems.1], h.made_plug hitems.2 a⟩

end InPlace

end Redex

/-! ## Choosing a step -/

theorem redexAt?_eq_some {before after : List (Item α)} {op : Operator}
    {r : Redex α} (h : redexAt? before op after = some r) :
    r.step.operator = op ∧
    r.InPlace (before.reverse ++ .operator op :: after) := by
  unfold redexAt? at h
  split at h
  · rename_i a after' hfixity
    cases h
    exact ⟨rfl, hfixity, rfl⟩
  · rename_i a before' hfixity
    cases h
    exact ⟨rfl, hfixity, by simp [Step.items]⟩
  · rename_i l before' r after' hfixity
    cases h
    exact ⟨rfl, hfixity, by simp [Step.items]⟩
  · cases h

theorem mem_redexes {before items : List (Item α)} {r : Redex α}
    (h : r ∈ redexes before items) :
    ∃ pre post, items = pre ++ .operator r.step.operator :: post ∧
      r.InPlace (before.reverse ++ items) := by
  induction items generalizing before with
  | nil => simp [redexes] at h
  | cons item rest ih =>
      have hlater : ∀ {next : Item α}, r ∈ redexes (next :: before) rest →
          ∃ pre post, next :: rest = pre ++ .operator r.step.operator :: post ∧
            r.InPlace (before.reverse ++ next :: rest) := by
        intro next hrest
        obtain ⟨pre, post, hsplit, hplace⟩ := ih hrest
        refine ⟨next :: pre, post, by rw [hsplit]; rfl, ?_⟩
        simpa using hplace
      cases item with
      | operand a => exact hlater h
      | operator op =>
          simp only [redexes] at h
          split at h
          · rename_i first hfirst
            rcases List.mem_cons.1 h with rfl | hrest
            · obtain ⟨hop, hplace⟩ := redexAt?_eq_some hfirst
              exact ⟨[], rest, by rw [hop]; rfl, hplace⟩
            · exact hlater hrest
          · exact hlater h

theorem tightest_mem {rs : List (Redex α)} {r : Redex α}
    (h : tightest rs = some r) : r ∈ rs := by
  induction rs with
  | nil => cases h
  | cons first rest ih =>
      simp only [tightest] at h
      split at h
      · rename_i other hother
        split at h
        · exact List.mem_cons_of_mem first (ih (hother.trans h))
        · cases h
          exact List.mem_cons_self
      · cases h
        exact List.mem_cons_self

theorem tightest_isSome {rs : List (Redex α)} (h : rs ≠ []) :
    ∃ r, tightest rs = some r := by
  cases rs with
  | nil => exact absurd rfl h
  | cons first rest =>
      rw [tightest]
      split
      · split
        · exact ⟨_, rfl⟩
        · exact ⟨_, rfl⟩
      · exact ⟨_, rfl⟩

theorem next?_inPlace {items : List (Item α)} {r : Redex α}
    (h : next? items = some r) : r.InPlace items := by
  obtain ⟨-, -, -, hplace⟩ := mem_redexes (tightest_mem h)
  exact hplace

theorem redexes_cons_of_some {before after : List (Item α)} {op : Operator}
    {r : Redex α} (h : redexAt? before op after = some r) :
    redexes before (.operator op :: after) ≠ [] := by
  simp [redexes, h]

theorem redexes_cons_ne_nil {before rest : List (Item α)} {item : Item α}
    (h : redexes (item :: before) rest ≠ []) :
    redexes before (item :: rest) ≠ [] := by
  cases item with
  | operand a => exact h
  | operator op =>
      rw [redexes]
      split
      · exact List.cons_ne_nil _ _
      · exact h

theorem redexAt?_leading {before after : List (Item α)} {op : Operator} {a : α}
    (h : op.fixity = .leading) :
    redexAt? before op (.operand a :: after) =
      some ⟨before, .leading op a, after⟩ := by
  simp [redexAt?, h]

theorem redexAt?_joining {before after : List (Item α)} {op : Operator}
    {l r : α} (h : op.fixity = .joining) :
    redexAt? (.operand l :: before) op (.operand r :: after) =
      some ⟨before, .joining l op r, after⟩ := by
  simp [redexAt?, h]

theorem redexAt?_trailing {before after : List (Item α)} {op : Operator} {a : α}
    (h : op.fixity = .trailing) :
    redexAt? (.operand a :: before) op after =
      some ⟨before, .trailing a op, after⟩ := by
  simp [redexAt?, h]

theorem length_of_operator {op : Operator} {rest : List (Item α)}
    (h : accepts true (.operator op :: rest) = true) :
    1 < (Item.operator op :: rest).length := by
  cases rest with
  | cons next rest => simp
  | nil =>
      cases hfixity : op.fixity with
      | leading => rw [accepts_leading _ _ hfixity] at h; cases h
      | joining => rw [accepts_joining _ _ hfixity] at h; cases h
      | trailing => rw [accepts_trailing _ _ hfixity] at h; cases h

/-- Where an operand is due and more than an operand follows, some operator is
ready: the last of the leading operators, or the one after the first operand, or
one further on if that joins it to leading operators. -/
theorem redexes_ne_nil (items before : List (Item α))
    (h : accepts true items = true) (hlong : 1 < items.length) :
    redexes before items ≠ [] := by
  match items with
  | [] => cases h
  | [_] => simp at hlong
  | .operand a :: .operand b :: rest => cases h
  | .operand a :: .operator op :: rest =>
      apply redexes_cons_ne_nil
      rw [accepts_operand, Bool.true_and] at h
      cases hfixity : op.fixity with
      | leading => rw [accepts_leading _ _ hfixity] at h; cases h
      | trailing => exact redexes_cons_of_some (redexAt?_trailing hfixity)
      | joining =>
          rw [accepts_joining _ _ hfixity] at h
          match rest with
          | [] => cases h
          | .operand b :: after =>
              exact redexes_cons_of_some (redexAt?_joining hfixity)
          | .operator op' :: after =>
              exact redexes_cons_ne_nil
                (redexes_ne_nil _ _ h (length_of_operator h))
  | .operator op :: next :: rest =>
      cases hfixity : op.fixity with
      | joining => rw [accepts_joining _ _ hfixity] at h; cases h
      | trailing => rw [accepts_trailing _ _ hfixity] at h; cases h
      | leading =>
          rw [accepts_leading _ _ hfixity] at h
          match next with
          | .operand b => exact redexes_cons_of_some (redexAt?_leading hfixity)
          | .operator op' =>
              exact redexes_cons_ne_nil
                (redexes_ne_nil _ _ h (length_of_operator h))

theorem exists_next {items : List (Item α)} (h : accepts true items = true)
    (hlong : 1 < items.length) : ∃ r, next? items = some r :=
  tightest_isSome (redexes_ne_nil items [] h hlong)

/-! ## Whole reductions -/

section Monads

variable {m : Type → Type} [Monad m] {apply : Step α → m α}

inductive Composed (apply : Step α → m α) {β : Type} : m β → Prop
  | pure (b : β) : Composed apply (pure b)
  | step (s : Step α) (k : α → m β) (h : ∀ a, Composed apply (k a)) :
      Composed apply (apply s >>= k)

theorem reduceFor_zero {items : List (Item α)} (hlong : 1 < items.length) :
    reduceFor apply 0 items = pure (.misplaced (firstSymbol items)) := by
  match items with
  | [] => simp at hlong
  | [_] => simp at hlong
  | _ :: _ :: _ => rw [reduceFor] <;> simp

theorem reduceFor_succ {items : List (Item α)} {rounds : Nat}
    (hlong : 1 < items.length) :
    reduceFor apply (rounds + 1) items =
      match next? items with
      | some r => apply r.step >>= fun a => reduceFor apply rounds (r.plug a)
      | none => pure (.misplaced (firstSymbol items)) := by
  match items with
  | [] => simp at hlong
  | [_] => simp at hlong
  | first :: second :: rest =>
      cases hnext : next? (first :: second :: rest) <;>
        simp only [reduceFor, hnext]

def verdict (operand : Node → α) (apply : Step α → m α) (nodes : List Node) :
    m (Verdict α) :=
  match items operand nodes with
  | .error symbol => pure (.misplaced symbol)
  | .ok items => reduce apply items

theorem verdict_nil {operand : Node → α} :
    verdict operand apply [] = pure .empty := by
  simp [verdict, items, itemsFrom, reduce, reduceFor]

variable [LawfulMonad m]

/-- After a step the reduction is the one of the list with the result in its
place. -/
theorem reduceFor_step {β : Type} {items : List (Item α)} {rounds : Nat}
    {r : Redex α} {end_ : β → Verdict α} (hlong : 1 < items.length)
    (hnext : next? items = some r) (hrest : ∀ a, ∃ x : m β, Composed apply x ∧
      reduceFor apply rounds (r.plug a) = end_ <$> x) :
    ∃ x : m β, Composed apply x ∧ reduceFor apply (rounds + 1) items =
      end_ <$> x := by
  obtain ⟨k, hk⟩ := Classical.axiomOfChoice hrest
  refine ⟨apply r.step >>= k, .step r.step k fun a => (hk a).1, ?_⟩
  rw [reduceFor_succ hlong, hnext, map_bind]
  exact bind_congr fun a => (hk a).2

theorem reduceFor_value (rounds : Nat) (items : List (Item α))
    (h : accepts true items = true) (hrounds : items.length ≤ rounds + 1) :
    ∃ x : m α, Composed apply x ∧ reduceFor apply rounds items =
      Verdict.value <$> x := by
  induction rounds generalizing items with
  | zero =>
      match items with
      | [] => cases h
      | [.operand a] => exact ⟨pure a, .pure a, by simp [reduceFor]⟩
      | .operator op :: rest => exact absurd (length_of_operator h) (by omega)
      | _ :: _ :: _ => simp at hrounds
  | succ rounds ih =>
      match items with
      | [] => cases h
      | [.operand a] => exact ⟨pure a, .pure a, by simp [reduceFor]⟩
      | [.operator op] => exact absurd (length_of_operator h) (by simp)
      | first :: second :: rest =>
          have hlong : 1 < (first :: second :: rest).length := by simp
          obtain ⟨r, hnext⟩ := exists_next h hlong
          have hplace := next?_inPlace hnext
          apply reduceFor_step hlong hnext
          intro a
          have hshorter := hplace.shorter a
          exact ih (r.plug a) (by rw [hplace.accepts_plug, h]) (by omega)

theorem reduceFor_misplaced (rounds : Nat) (items : List (Item α))
    (h : accepts true items = false) (hitems : items ≠ []) :
    ∃ x : m String, Composed apply x ∧
      reduceFor apply rounds items = Verdict.misplaced <$> x := by
  have hstuck : ∀ symbol, ∃ x : m String, Composed apply x ∧
      (pure (.misplaced symbol) : m (Verdict α)) = Verdict.misplaced <$> x :=
    fun symbol => ⟨pure symbol, .pure symbol, by simp⟩
  induction rounds generalizing items with
  | zero =>
      match items with
      | [] => exact absurd rfl hitems
      | [.operand a] => cases h
      | [.operator op] => exact hstuck _
      | first :: second :: rest =>
          rw [reduceFor_zero (by simp)]
          exact hstuck _
  | succ rounds ih =>
      match items with
      | [] => exact absurd rfl hitems
      | [.operand a] => cases h
      | [.operator op] => exact hstuck _
      | first :: second :: rest =>
          have hlong : 1 < (first :: second :: rest).length := by simp
          cases hnext : next? (first :: second :: rest) with
          | none =>
              rw [reduceFor_succ hlong, hnext]
              exact hstuck _
          | some r =>
              apply reduceFor_step hlong hnext
              intro a
              exact ih (r.plug a)
                (by rw [(next?_inPlace hnext).accepts_plug, h])
                (by simp [Redex.plug])

/-! ## Lists of nodes -/

variable {operand : Node → α} {nodes : List Node}

variable (apply) in
theorem verdict_value (h : WellFormed (marks operand nodes)) :
    ∃ x : m α, Composed apply x ∧ verdict operand apply nodes =
      Verdict.value <$> x := by
  rw [wellFormed_marks] at h
  rcases items_cases operand nodes with hitems | ⟨-, hreject⟩
  · simp only [verdict, hitems]
    exact reduceFor_value _ _ h (Nat.le_succ _)
  · rw [h] at hreject
    cases hreject

variable (apply) in
theorem verdict_misplaced (h : ¬ WellFormed (marks operand nodes))
    (hnodes : nodes ≠ []) :
    ∃ x : m String, Composed apply x ∧
      verdict operand apply nodes = Verdict.misplaced <$> x := by
  rw [wellFormed_marks, Bool.not_eq_true] at h
  rcases items_cases operand nodes with hitems | ⟨⟨symbol, hitems⟩, -⟩
  · simp only [verdict, hitems]
    exact reduceFor_misplaced _ _ h (mt marks_eq_nil.1 hnodes)
  · simp only [verdict, hitems]
    exact ⟨pure symbol, .pure symbol, by simp⟩

end Monads

/-! ## Main statement -/

def outcome (operand : Node → α) (f : Step α → α) (nodes : List Node) :
    Verdict α :=
  verdict (m := Id) operand f nodes

theorem outcome_value {operand : Node → α} {nodes : List Node}
    (h : WellFormed (marks operand nodes)) (f : Step α → α) :
    ∃ a, outcome operand f nodes = .value a := by
  obtain ⟨a, -, hverdict⟩ := verdict_value (m := Id) f h
  exact ⟨a, hverdict⟩

theorem outcome_misplaced {operand : Node → α} {nodes : List Node}
    (h : ¬ WellFormed (marks operand nodes)) (hnodes : nodes ≠ [])
    (f : Step α → α) :
    ∃ symbol, outcome operand f nodes = .misplaced symbol := by
  obtain ⟨symbol, -, hverdict⟩ := verdict_misplaced (m := Id) f h hnodes
  exact ⟨symbol, hverdict⟩

theorem outcome_nil (operand : Node → α) (f : Step α → α) :
    outcome operand f [] = .empty :=
  verdict_nil (m := Id)

theorem not_wellFormed_nil (operand : Node → α) :
    ¬ WellFormed (marks operand []) := by
  rw [wellFormed_marks]
  exact Bool.false_ne_true

structure Decided (operand : Node → α) (f : Step α → α) (nodes : List Node) :
    Prop where
  value : (∃ a, outcome operand f nodes = .value a) ↔
    WellFormed (marks operand nodes)
  empty : outcome operand f nodes = .empty ↔ nodes = []
  misplaced : (∃ symbol, outcome operand f nodes = .misplaced symbol) ↔
    nodes ≠ [] ∧ ¬ WellFormed (marks operand nodes)

theorem decided (operand : Node → α) (f : Step α → α) (nodes : List Node) :
    Decided operand f nodes := by
  by_cases hnodes : nodes = []
  · subst hnodes
    have hnot := not_wellFormed_nil operand
    constructor <;> simp [outcome_nil, hnot]
  · by_cases h : WellFormed (marks operand nodes)
    · obtain ⟨a, ha⟩ := outcome_value h f
      constructor <;> simp [ha, hnodes, h]
    · obtain ⟨symbol, hsymbol⟩ := outcome_misplaced h hnodes f
      constructor <;> simp [hsymbol, hnodes, h]

/-- The step to take next has its operator and its operands within the list, and
leads to a shorter list of the grammar. -/
structure Progress (items : List (Item α)) (r : Redex α) : Prop where
  fitting : r.step.Fitting
  operator : items[r.index]? = some (.operator r.step.operator)
  left : ∀ a, r.step.left? = some a → 0 < r.index ∧
    items[r.index - 1]? = some (.operand a)
  right : ∀ a, r.step.right? = some a → items[r.index + 1]? = some (.operand a)
  shorter : ∀ a, (r.plug a).length < items.length
  wellFormed : ∀ a, WellFormed (r.plug a)

theorem progress {items : List (Item α)} (h : WellFormed items)
    (hlong : 1 < items.length) :
    ∃ r, next? items = some r ∧ Progress items r := by
  obtain ⟨r, hnext⟩ := exists_next (wellFormed_iff.1 h).1 hlong
  have hplace := next?_inPlace hnext
  exact ⟨r, hnext, hplace.fitting, hplace.operator, fun _ => hplace.left,
    fun _ => hplace.right,
    hplace.shorter, hplace.wellFormed_plug h⟩

end ArenaScript.Reduction

namespace ArenaScript.Calls

open Reduction

/-- What the engine does with an expression: it takes steps, and then either
yields the value of the operand that is left or reports an operator. -/
structure Reduces (c : Calls) (node : Node) : Prop where
  value : WellFormed (marks Operand.pending node.children) →
    ∃ x : Eval Operand, Composed c.reduceStep x ∧
      c.reduceExpression node = x >>= c.operandValue
  empty : node.children = [] →
    c.reduceExpression node = Eval.read Engine.voidValue
  misplaced : ¬ WellFormed (marks Operand.pending node.children) →
    node.children ≠ [] →
    ∃ x : Eval String, Composed c.reduceStep x ∧ c.reduceExpression node =
      x >>= fun symbol => Eval.fail (Failure.invalidOperatorPosition symbol)

theorem reduceExpression_eq (c : Calls) (node : Node) :
    c.reduceExpression node =
      verdict Operand.pending c.reduceStep node.children >>= fun
      | .value operand => c.operandValue operand
      | .misplaced symbol => Eval.fail (Failure.invalidOperatorPosition symbol)
      | .empty => Eval.read Engine.voidValue := by
  unfold reduceExpression verdict
  cases items Operand.pending node.children <;> rfl

theorem reduces (c : Calls) (node : Node) : c.Reduces node where
  value h := by
    obtain ⟨x, hsteps, hverdict⟩ := verdict_value c.reduceStep h
    refine ⟨x, hsteps, ?_⟩
    rw [reduceExpression_eq, hverdict, bind_map_left]
  empty h := by
    rw [reduceExpression_eq, h, verdict_nil, pure_bind]
  misplaced h hnodes := by
    obtain ⟨x, hsteps, hverdict⟩ := verdict_misplaced c.reduceStep h hnodes
    refine ⟨x, hsteps, ?_⟩
    rw [reduceExpression_eq, hverdict, bind_map_left]

/-- Exactly the lists of the grammar are reduced to one operand. -/
theorem reduces_exactly_grammar {α : Type} (operand : Node → α) :
    (∀ (f : Step α → α) (nodes : List Node), Decided operand f nodes) ∧
      (∀ items : List (Item α), WellFormed items → 1 < items.length →
        ∃ r, next? items = some r ∧ Progress items r) ∧
      ∀ (c : Calls) (node : Node), c.Reduces node :=
  ⟨decided operand, fun _ => progress, reduces⟩

def signedProduct : List Node :=
  [⟨.operator, "-", .dummy, 0, []⟩, ⟨.identifier, "a", .dummy, 1, []⟩,
    ⟨.operator, "*", .dummy, 2, []⟩, ⟨.identifier, "b", .dummy, 3, []⟩,
    ⟨.call, "", .dummy, 4, []⟩]

theorem reduces_exactly_grammar_signedProduct :
    WellFormed (marks Node.text signedProduct) ∧
    1 < (marks Node.text signedProduct).length ∧
      ∃ r, next? (marks Node.text signedProduct) = some r ∧
        Progress (marks Node.text signedProduct) r := by
  have hform : WellFormed (marks Node.text signedProduct) :=
    wellFormed_marks.2 (by decide)
  have hlong : 1 < (marks Node.text signedProduct).length := by decide
  exact ⟨hform, hlong, (reduces_exactly_grammar Node.text).2.1 _ hform hlong⟩

end ArenaScript.Calls
