import ArenaScript.Proofs.Evaluation.Outfits
import ArenaScript.Proofs.Evaluation.Temporaries
import ArenaScript.Proofs.Evaluation.Visibility

/-!
# Constants of enumerations

Constants are counted in 64 bits, and what a constant stands for is kept in a
slot of 32 bits.  So the integer that a constant is declared with is known
modulo two to the 64 from its declaration on, and modulo two to the 32 once it
is a value: that is what is read, compared and named.  Both are the declared
integer itself as long as all integers of the declaration fit in 32 bits.
-/

namespace ArenaScript

open Engine (Good Stocked Becomes)
open Scalar (Represents)

/-! ## Counting -/

namespace Constants

variable (declared : List (String × Int))

def words : List (String × Int64) :=
  declared.map fun entry => (entry.1, Int64.ofInt entry.2)

def value? (name : String) : Option Int :=
  (declared.find? (·.1 == name)).map Prod.snd

def text (type : String) (n : Int) : String :=
  match declared.find? fun entry => entry.2.bmod (2 ^ 64) == n with
  | some entry => entry.1
  | none => type ++ "(" ++ toString n ++ ")"

end Constants

/-- The constants, each with the integer it is declared with: the one its
expression gives, or else the one after that of the constant before it. -/
inductive Calls.Counts (c : Calls) :
    Int → List Node → Engine → List (String × Int) → Engine → Prop
  | nil (next : Int) (s : Engine) : Counts c next [] s [] s
  | given {next n : Int} {node expression : Node} {rest : List Node}
      {s t u : Engine} {value place : Value} {kind : CoreKind} {scalar : Scalar}
      {others : List (String × Int)} (hnode : node.child? 0 = some expression)
      (hvalue : c.evaluate expression s = .ok value t)
      (hplace : t.stripRef value = .ok place)
      (hkind : t.scalarKind? place.type = some kind)
      (hread : t.arena.readScalar place.addr kind = .ok scalar)
      (hscalar : Represents kind n scalar)
      (hrest : Counts c (n + 1) rest t others u) :
      Counts c next (node :: rest) s ((node.text, n) :: others) u
  | next {next : Int} {node : Node} {rest : List Node} {s t : Engine}
      {others : List (String × Int)} (hnode : node.child? 0 = none)
      (hrest : Counts c (next + 1) rest s others t) :
      Counts c next (node :: rest) s ((node.text, next) :: others) t

namespace Calls

variable {c : Calls} {s t : Engine} {node : Node}

theorem evaluateInteger_eq_ok {target : String} {word : Int64}
    (hrun : c.evaluateInteger node target s = .ok word t) :
    ∃ value place kind scalar n, c.evaluate node s = .ok value t ∧
      t.stripRef value = .ok place ∧ t.scalarKind? place.type = some kind ∧
      t.arena.readScalar place.addr kind = .ok scalar ∧
      Represents kind n scalar ∧
      word = Int64.ofInt n := by
  obtain ⟨value, u, hvalue, hrest⟩ := Eval.bind_eq_ok hrun
  obtain ⟨place, w, hstrip, hlook⟩ := Eval.bind_eq_ok hrest
  obtain ⟨hplace, rfl⟩ := Eval.inspect_eq_ok hstrip
  obtain ⟨hread, rfl⟩ := Eval.inspect_eq_ok hlook
  split at hread
  · rename_i hintegral
    obtain ⟨kind, hkind, hinteger⟩ := (Option.any_eq_true _ _).1 hintegral
    have hscalarKind : t.scalarKind place.type = .ok kind := by
      simp only [Engine.scalarKind, hkind]
    cases hscalar : t.arena.readScalar place.addr kind with
    | error e =>
        simp [Engine.readScalar, hscalarKind, hscalar, Bind.bind, Except.bind,
          Except.map] at hread
    | ok scalar =>
        obtain ⟨n, hn⟩ := Arena.exists_represents hinteger hscalar
        refine ⟨value, place, kind, scalar, n, hvalue, hplace, hkind,
          hscalar, hn, ?_⟩
        simp only [Engine.readScalar, hscalarKind, hscalar, Bind.bind,
          Except.bind, Except.map, Except.ok.injEq] at hread
        rw [← hread, ← Int64.toInt_inj, Scalar.toInt64_eq hn.integer_eq,
          Int64.toInt_ofInt]
        rfl
  · cases hread

/-- Constants are counted modulo two to the 64. -/
theorem counts_of_buildConstants {nodes : List Node} {n : Int}
    {constants : List (String × Int64)}
    (hrun : c.buildConstants (Int64.ofInt n) nodes s = .ok constants t) :
    ∃ declared, c.Counts n nodes s declared t ∧
      constants = Constants.words declared := by
  induction nodes generalizing s n constants with
  | nil =>
      cases hrun
      exact ⟨[], .nil n _, rfl⟩
  | cons node nodes ih =>
      unfold buildConstants at hrun
      extract_lets rest at hrun
      have hrest : ∀ m u, rest (Int64.ofInt m) u = .ok constants t →
          ∃ others, c.Counts (m + 1) nodes u others t ∧
            constants = Constants.words ((node.text, m) :: others) := by
        intro m u hrun
        obtain ⟨others, v, hothers, hrun⟩ := Eval.bind_eq_ok hrun
        cases hrun
        have hone : Int64.ofInt m + 1 = Int64.ofInt (m + 1) :=
          (Int64.ofInt_add m 1).symm
        rw [hone] at hothers
        obtain ⟨declared, hcounts, rfl⟩ := ih hothers
        exact ⟨declared, hcounts, rfl⟩
      cases hvalue : node.child? 0 with
      | some expression =>
          rw [hvalue] at hrun
          obtain ⟨word, u, hword, hrun⟩ := Eval.bind_eq_ok hrun
          obtain ⟨value, place, kind, scalar, m, hrunValue, hplace, hkind,
            hread, hm, rfl⟩ :=
            evaluateInteger_eq_ok hword
          obtain ⟨others, hcounts, hconstants⟩ := hrest m u hrun
          exact ⟨_, .given hvalue hrunValue hplace hkind hread hm hcounts,
            hconstants⟩
      | none =>
          rw [hvalue] at hrun
          obtain ⟨others, hcounts, hconstants⟩ := hrest n _ hrun
          exact ⟨_, .next hvalue hcounts, hconstants⟩

end Calls

/-! ## Declaring -/

namespace Engine

variable {s t u : Engine} {type : TypeId} {declared : List (String × Int)}
  {node : Node}

structure HasConstants (s : Engine) (type : TypeId)
    (declared : List (String × Int)) : Prop where
  has : s.types.Has type
  size : s.types.sizeOf type = 4
  plain : (s.types.get type).aggregate = false
  shape : ∃ body, (s.types.get type).shape = .structural body ∧
    body.kind = .enumKind ∧
    body.complete = true ∧ body.variants = Constants.words declared

theorem HasConstants.grown (h : s.HasConstants type declared)
    (hst : s.types.Grown t.types) : t.HasConstants type declared where
  has := Nat.lt_of_lt_of_le h.has hst.size
  size := (hst.sizeOf type h.has).trans h.size
  plain := (hst.aggregate h.has).trans h.plain
  shape := by
    obtain ⟨body, hshape, hkind, hcomplete, hvariants⟩ := h.shape
    have hfixed : (t.types.get type).shape.fixed =
        (s.types.get type).shape.fixed :=
      congrArg TypeEntry.shape (hst.entry type h.has)
    rw [hshape] at hfixed
    cases hlater : (t.types.get type).shape with
    | structural later =>
        rw [hlater] at hfixed
        injection Shape.structural.inj hfixed with
          hkind' _ hvariants' _ _ hcomplete'
        exact ⟨later, rfl, hkind'.trans hkind, hcomplete'.trans hcomplete,
          hvariants'.trans hvariants⟩
    | _ =>
        rw [hlater] at hfixed
        cases hfixed

def openedFor (s : Engine) (node : Node) (types : TypeTable) : Engine :=
  let bound := (s.preparedFor node).boundIn types s.currentScope node.text
  { bound with
    scopes := bound.scopes.modify (s.ownScope node s.currentScope) fun scope =>
      { scope with owner := some ⟨s.types.size⟩ } }

structure Enumerates (fuel : Nat) (node : Node) (s t : Engine) (type : TypeId)
    (declared : List (String × Int)) : Prop where
  counts : ∃ types u, s.types.register node.text (.shell .enumKind)
      (s.ownScope node s.currentScope) = .ok (type, types) ∧
    (Calls.ofFuel fuel).Counts 0 (node.children.filter (·.kind == .enumValue))
      (s.openedFor node types) declared u
  bound : s.currentScope.index < s.scopes.size →
    (t.scopes.get s.currentScope).types.get? node.text = some type
  lasts : ∀ u, t.Becomes u → u.HasConstants type declared

end Engine

namespace Calls

open Engine (Preserves)

variable {s t : Engine} {node : Node} {fuel : Nat}

theorem register_enumKind {types changed : TypeTable} {name : String}
    {members : ScopeId} {type : TypeId}
    (h : types.register name (.shell .enumKind) members = .ok (type, changed)) :
    changed.Has type ∧ (changed.get type).aggregate = false ∧
      (changed.get type).shape = .structural (.shell .enumKind) := by
  refine ⟨(TypeTable.register_shell h).1, ?_⟩
  unfold TypeTable.register at h
  split at h
  · cases h
  · cases h
    exact ⟨congrArg TypeEntry.aggregate (TypeTable.get_push_new types _),
      congrArg TypeEntry.shape (TypeTable.get_push_new types _)⟩

theorem hasConstants_of_complete {types : TypeTable} {type : TypeId}
    {declared : List (String × Int)} (htype : s.types.Has type)
    (hplain : (s.types.get type).aggregate = false)
    (hshape : (s.types.get type).shape.fixed =
      (Shape.structural (.shell .enumKind)).fixed)
    (hcomplete : s.types.complete type [] (Constants.words declared) =
      .ok types) : ({ s with types } : Engine).HasConstants type declared := by
  obtain ⟨body, hbody, -, hsize, hentry, -⟩ :=
    TypeTable.complete_eq_ok htype hcomplete
  have hkind : body.kind = .enumKind := by
    rw [hbody] at hshape
    exact congrArg Structural.kind (Shape.structural.inj hshape)
  refine ⟨?_, ?_, ?_, ?_⟩
  · rw [TypeTable.Has, hsize]
    exact htype
  · rw [TypeTable.sizeOf, hentry, TypeTable.completed, hkind]
    rfl
  · rw [hentry]
    exact hplain
  · rw [hentry]
    exact ⟨_, rfl, hkind, rfl, rfl⟩

theorem exists_enumerates (hnode : node.kind = .enumDecl)
    (hfresh : s.keyOf node ∉ s.declared) {flow : Flow}
    (hrun : (ofFuel (fuel + 1)).execute node s = .ok flow t) :
    ∃ type declared, Engine.Enumerates fuel node s t type declared := by
  have hd : node.declaration? = some (.type .enumKind) := by
    simp only [Node.declaration?, hnode]
  obtain ⟨-, hdeclare⟩ := execute_eq_ok hd hrun
  have hprocess :=
    (declare_new (s := s.arrivedAt node) (ofFuel fuel) s.currentScope hd
      hfresh).symm.trans hdeclare
  obtain ⟨types, hregister, hmembers⟩ := process_type_ok hprocess
  obtain ⟨_, w, hown, hrest⟩ := Eval.bind_eq_ok hmembers
  have hopened : w = s.openedFor node types := by
    cases hown
    rfl
  subst hopened
  obtain ⟨constants, u, hbuilt, hlast⟩ := Eval.bind_eq_ok hrest
  obtain ⟨declared, hcounts, rfl⟩ := counts_of_buildConstants (n := 0) hbuilt
  obtain ⟨completed, hcomplete, rfl⟩ := completeType_eq_ok hlast
  have hgrown := (Eval.Tidy.of_kept fun _ => (Tidy.ofFuel fuel).buildConstants 0
    (node.children.filter (·.kind == .enumValue))).preserves.of_ok
      hbuilt |>.types
  obtain ⟨hhas, hplain, hshell⟩ := register_enumKind hregister
  have hlater :=
    ((defineMembers_later fuel node _ _ .enumKind).of_ok hmembers).2
  refine ⟨_, declared, ⟨types, u, hregister, hcounts⟩, fun hscope => ?_,
    fun v hv => ?_⟩
  · refine hlater.keepsTypes _ _ _ ?_
    have hlive : s.currentScope.index < (s.preparedFor node).scopes.size :=
      Nat.lt_of_lt_of_le hscope (s.size_preparedFor node)
    have hbound :
        (((s.preparedFor node).boundIn types s.currentScope
          node.text).scopes.get
          s.currentScope).types.get? node.text = some ⟨s.types.size⟩ := by
      simp only [Engine.boundIn, ScopeTable.get_modify, hlive, and_self,
        if_true, Scope.bindType, Bindings.get?_put]
      rfl
    exact hbound
  · refine Engine.HasConstants.grown
      (hasConstants_of_complete (s := u) ?_ ?_ ?_ hcomplete) hv.preserves.types
    · exact Nat.lt_of_lt_of_le hhas hgrown.size
    · exact (hgrown.aggregate hhas).trans hplain
    · exact (congrArg TypeEntry.shape (hgrown.entry _ hhas)).trans
        (congrArg Shape.fixed hshell)

end Calls

/-! ## Reading -/

def Node.Qualified (nodes : List Node) (left : Node) (name : String) : Prop :=
  ∃ op member, nodes = [left, op, member] ∧ op.kind = .operator ∧
    op.text = "::" ∧
    member.kind.isOperator = false ∧ member.text = name

namespace Constants

variable {declared : List (String × Int)} {body : Structural}

theorem variant?_eq (hbody : body.variants = words declared) (name : String) :
    body.variant? name = (value? declared name).map Int64.ofInt := by
  rw [Structural.variant?, hbody, words, List.find?_map, Option.map_map, value?,
    Option.map_map]
  rfl

theorem constantText_eq (hbody : body.variants = words declared)
    (entry : TypeEntry) (v : Int64) :
    Engine.constantText entry body v = text declared entry.name v.toInt := by
  have hsame : ((fun entry : String × Int64 => entry.2 == v) ∘
      fun entry : String × Int => (entry.1, Int64.ofInt entry.2)) =
        fun entry => entry.2.bmod (2 ^ 64) == v.toInt := by
    funext entry
    have hiff : Int64.ofInt entry.2 = v ↔ entry.2.bmod (2 ^ 64) = v.toInt := by
      rw [← Int64.toInt_inj, Int64.toInt_ofInt]
      exact Iff.rfl
    rw [Bool.eq_iff_iff, beq_iff_eq, ← hiff, Function.comp, beq_iff_eq]
  rw [Engine.constantText, Structural.variantName?, hbody, words,
    List.find?_map, hsame, text]
  cases declared.find? fun entry => entry.2.bmod (2 ^ 64) == v.toInt <;> rfl

theorem represents_slot (n : Int) :
    Represents .int32 (CoreKind.int32.wrapInt n)
      (Scalar.decode .int32 ((Scalar.int (Int64.ofInt n)).encode .int32)) := by
  have hinteger : (Scalar.int (Int64.ofInt n)).integer? =
      some (n.bmod (2 ^ 64)) := by
    rw [Scalar.integer?, Int64.toInt_ofInt]
    rfl
  have hwrap : CoreKind.int32.wrapInt (n.bmod (2 ^ 64)) =
      CoreKind.int32.wrapInt n :=
    Int.bmod_bmod_of_dvd (by decide)
  rw [Scalar.decode_encode rfl hinteger, ← hwrap]
  exact Scalar.represents_cast rfl hinteger

end Constants

namespace Engine

variable {s t u : Engine} {type : TypeId} {declared : List (String × Int)}
  {name : String} {left node : Node} {value : Value} {n : Int}

structure Names (s : Engine) (node : Node) (type : TypeId) : Prop where
  bare : node.kind = .identifier ∨ node.kind = .typeName ∧ node.children = []
  free : s.lookupVariable node.text = .ok none
  bound : (∃ valueType, s.scopes.findTemplateParam s.currentScope node.text =
      some ⟨.type type, valueType⟩) ∨
    s.scopes.findTemplateParam s.currentScope node.text = none ∧
      s.scopes.resolveTypeName s.currentScope node.text = some type

theorem HasConstants.scalarKind (h : s.HasConstants type declared) :
    s.scalarKind type = .ok .int32 := by
  obtain ⟨body, hshape, hkind, -, -⟩ := h.shape
  simp [Engine.scalarKind, scalarKind?, TypeEntry.core?, TypeEntry.isEnum,
    hshape, hkind]

theorem Names.congr (h : s.Names node type)
    (ht : t = { s with arena := t.arena })
    (hframes : t.arena.frames = s.arena.frames) : t.Names node type := by
  have htypes : t.types = s.types := by rw [ht]
  have hscopes : t.scopes = s.scopes := by rw [ht]
  have hscope : t.currentScope = s.currentScope := by
    rw [currentScope, currentScope, Arena.top?, Arena.top?, hframes]
  refine ⟨h.bare, lookupVariable_none_congr htypes hscopes hframes h.free, ?_⟩
  rw [hscopes, hscope]
  exact h.bound

theorem Names.resolveOperand (h : s.Names node type) (c : Calls) :
    c.resolveOperand node s = .ok (.type type) s := by
  have hname : c.resolveOperand node = Calls.resolveIdentifier node.text := by
    rcases h.bare with hkind | ⟨hkind, hchildren⟩
    · simp only [Calls.resolveOperand, hkind]
    · simp only [Calls.resolveOperand, hkind, hchildren,
        List.isEmpty_nil, if_true]
  rw [hname, Calls.resolveIdentifier, Eval.bind_inspect h.free]
  change (Eval.read Engine.currentScope >>= _) s = _
  rw [Eval.bind_read, Eval.bind_read]
  rcases h.bound with ⟨valueType, hparam⟩ | ⟨hparam, hbound⟩
  · rw [hparam]
    rfl
  · rw [hparam]
    change (Eval.read _ >>= _) s = _
    rw [Eval.bind_read, hbound]
    rfl

theorem exists_scopeResolution (hs : s.Good Stocked)
    (htype : s.HasConstants type declared) (hleft : s.Names left type)
    (hn : Constants.value? declared name = some n)
    (hroom : s.arena.mark + 4 ≤ s.arena.capacity) :
    ∃ t, s.Puts type ((Scalar.int (Int64.ofInt n)).encode .int32) t ∧
      ∀ (c : Calls) (member : Node), member.text = name →
        c.scopeResolution (.pending left) (.pending member) s =
          .ok (.value ⟨type, s.arena.mark⟩) t := by
  obtain ⟨t, halloc, ht⟩ := exists_allocScalar hs htype.has htype.scalarKind
    htype.size (.int (Int64.ofInt n)) hroom
  refine ⟨t, ht, fun c member hmember => ?_⟩
  obtain ⟨body, hshape, -, -, hvariants⟩ := htype.shape
  have hfound : (s.types.get type).structural?.bind (·.variant? member.text) =
      some (Int64.ofInt n) := by
    rw [TypeEntry.structural?, hshape, hmember]
    change body.variant? name = _
    rw [Constants.variant?_eq hvariants, hn]
    rfl
  have hresolved : c.resolved (.pending left) s = .ok (.type type) s :=
    hleft.resolveOperand c
  rw [Calls.scopeResolution, Eval.bind_ok hresolved]
  change Calls.memberOfType type member.text s = _
  rw [Calls.memberOfType, Eval.bind_read, hfound]
  change (Operand.value <$> Eval.allocScalar type (.int (Int64.ofInt n))) s = _
  rw [map_eq_pure_bind, Eval.bind_ok halloc]
  rfl

end Engine

/-! ### Expressions -/

namespace Reduction

variable {α : Type} {operand : Node → α}

theorem itemsFrom_operand {node : Node} (h : node.kind.isOperator = false)
    (previous : Option (Item α)) (rest : List Node) :
    itemsFrom operand previous (node :: rest) =
      (itemsFrom operand (some (.operand (operand node))) rest).map
        (.operand (operand node) :: ·) := by
  simp only [itemsFrom, h, Bool.false_eq_true, if_false]

theorem itemsFrom_joining {op node : Node} (h : op.kind = .operator) (a : α)
    (rest : List Node) :
    itemsFrom operand (some (.operand a)) (op :: node :: rest) =
      (itemsFrom operand (some (.operator (.make op .joining)))
        (node :: rest)).map (.operator (.make op .joining) :: ·) := by
  have hclass : classify (some (.operand a)) op = .joining := by
    simp [classify, h]
  rw [itemsFrom, h]
  simp only [NodeKind.isOperator, if_true, hclass, List.isEmpty_cons,
    Bool.false_eq_true, if_false]

/-- Two operators that bind tighter than the one between them are applied first,
the left one before the right one. -/
theorem reduce_between {m : Type → Type} [Monad m] [LawfulMonad m]
    (apply : Step α → m α) {x e y : Operator} (hx : x.fixity = .joining)
    (he : e.fixity = .joining) (hy : y.fixity = .joining)
    (hxy : x.priority = y.priority) (hye : y.priority < e.priority)
    (a b c d : α) :
    reduce apply [.operand a, .operator x, .operand b, .operator e, .operand c,
      .operator y,
        .operand d] =
      (do
        let l ← apply (.joining a x b)
        let r ← apply (.joining c y d)
        .value <$> apply (.joining l e r)) := by
  have hfirst :
      next? [.operand a, .operator x, .operand b, .operator e, .operand c,
        .operator y, .operand d] = some ⟨[], .joining a x b,
            [.operator e, .operand c, .operator y, .operand d]⟩ := by
    simp [next?, redexes, redexAt?, tightest, Redex.priority, Step.operator, hx,
      he, hy, hxy, hye]
  have hsecond : ∀ l : α,
      next? [.operand l, .operator e, .operand c, .operator y, .operand d] =
      some ⟨[.operator e, .operand l], .joining c y d, []⟩ := by
    intro l
    simp [next?, redexes, redexAt?, tightest, Redex.priority, Step.operator,
      he, hy, hye]
  have hthird : ∀ l r : α, next? [.operand l, .operator e, .operand r] =
      some ⟨[], .joining l e r, []⟩ := by
    intro l r
    simp [next?, redexes, redexAt?, tightest, he]
  simp only [reduce, List.length_cons, List.length_nil, reduceFor, hfirst,
    Redex.plug, List.reverse_nil, List.nil_append, hsecond, List.reverse_cons,
    List.cons_append, hthird, map_eq_pure_bind]

end Reduction

namespace Calls

variable {s t u : Engine} {nodes others : List Node}
  {left right equals node : Node} {name other : String}

theorem reduceStep_scope (c : Calls) {symbol : Node}
    (htext : symbol.text = "::") (l r : Operand) :
    c.reduceStep (.joining l (.make symbol .joining) r) =
      c.scopeResolution l r := by
  simp only [reduceStep, Operator.make, htext, reduceJoining]

theorem reduceStep_equal (c : Calls) {symbol : Node}
    (htext : symbol.text = "==") (l r : Operand) :
    c.reduceStep (.joining l (.make symbol .joining) r) =
      (do
        let l ← c.operandValue l
        let r ← c.operandValue r
        .value <$> c.binaryOperator "==" l r) := by
  simp only [reduceStep, Operator.make, htext]
  rfl

theorem evaluateStep_operand (c : Calls) (hkind : node.kind = .expression)
    (hchildren : node.children = [left])
    (hleft : left.kind.isOperator = false) :
    c.evaluateStep node = (do c.resolvedValue (← c.resolveOperand left)) := by
  have hitems : Reduction.items Operand.pending node.children =
      .ok [.operand (.pending left)] := by
    rw [Reduction.items, hchildren, Reduction.itemsFrom_operand hleft]
    rfl
  have hreduce : Reduction.reduce c.reduceStep [.operand (.pending left)] =
      pure (.value (.pending left)) := rfl
  simp only [evaluateStep, hkind, beq_self_eq_true, if_true, reduceExpression,
    hitems, hreduce, pure_bind, operandValue, resolved]

theorem evaluateStep_qualified (c : Calls) (hkind : node.kind = .expression)
    (hleft : left.kind.isOperator = false)
    (hnodes : Node.Qualified node.children left name) :
    ∃ member : Node, member.text = name ∧ c.evaluateStep node =
      (do c.operandValue (← c.scopeResolution (.pending left)
        (.pending member))) := by
  obtain ⟨op, member, hlist, hop, htext, hmember, hname⟩ := hnodes
  refine ⟨member, hname, ?_⟩
  have hitems : Reduction.items Operand.pending node.children =
      .ok [.operand (.pending left), .operator (.make op .joining),
        .operand (.pending member)] := by
    rw [Reduction.items, hlist, Reduction.itemsFrom_operand hleft,
      Reduction.itemsFrom_joining hop, Reduction.itemsFrom_operand hmember]
    rfl
  have hreduce : Reduction.reduce c.reduceStep
      [.operand (.pending left), .operator (.make op .joining),
        .operand (.pending member)] = (do
          let a ← c.scopeResolution (.pending left) (.pending member)
          pure (.value a)) := by
    rw [← c.reduceStep_scope htext]
    rfl
  simp only [evaluateStep, hkind, beq_self_eq_true, if_true, reduceExpression,
    hitems, hreduce, bind_assoc, pure_bind]

theorem evaluateStep_compared (c : Calls) (hkind : node.kind = .expression)
    (hchildren : node.children = nodes ++ equals :: others)
    (hleft : left.kind.isOperator = false)
    (hnodes : Node.Qualified nodes left name)
    (hequals : equals.kind = .operator) (hsymbol : equals.text = "==")
    (hright : right.kind.isOperator = false)
    (hothers : Node.Qualified others right other) :
    ∃ first second : Node, first.text = name ∧ second.text = other ∧
      c.evaluateStep node = (do
        let l ← c.scopeResolution (.pending left) (.pending first)
        let r ← c.scopeResolution (.pending right) (.pending second)
        let l ← c.operandValue l
        let r ← c.operandValue r
        c.binaryOperator "==" l r) := by
  obtain ⟨op, first, rfl, hop, htext, hfirst, hname⟩ := hnodes
  obtain ⟨op', second, rfl, hop', htext', hsecond, hother⟩ := hothers
  refine ⟨first, second, hname, hother, ?_⟩
  have hitems : Reduction.items Operand.pending node.children =
      .ok [.operand (.pending left), .operator (.make op .joining),
        .operand (.pending first), .operator (.make equals .joining),
        .operand (.pending right), .operator (.make op' .joining),
          .operand (.pending second)] := by
    simp only [Reduction.items, hchildren, List.cons_append, List.nil_append,
      Reduction.itemsFrom_operand, Reduction.itemsFrom_joining, hleft, hop,
      hfirst, hequals, hright, hop', hsecond]
    rfl
  have hscope : ∀ {symbol : Node}, symbol.kind = .operator →
      symbol.text = "::" →
      (Operator.make symbol .joining).priority = 0 := by
    intro symbol hkind htext
    simp only [Operator.make, Node.symbol, hkind, htext, priority]
  have hequal : (Operator.make equals .joining).priority = 7 := by
    simp only [Operator.make, Node.symbol, hequals, hsymbol, priority]
  have hreduce := Reduction.reduce_between c.reduceStep (x := .make op .joining)
    (e := .make equals .joining) (y := .make op' .joining) rfl rfl rfl
    ((hscope hop htext).trans (hscope hop' htext').symm)
    (by rw [hscope hop' htext', hequal]; decide) (.pending left)
      (.pending first) (.pending right) (.pending second)
  rw [c.reduceStep_scope htext, c.reduceStep_scope htext'] at hreduce
  simp only [c.reduceStep_equal hsymbol] at hreduce
  have hvalue : ∀ v, c.operandValue (.value v) = pure v := fun _ => rfl
  simp only [evaluateStep, hkind, beq_self_eq_true, if_true, reduceExpression,
    hitems, hreduce, bind_assoc, map_eq_pure_bind, pure_bind, hvalue, bind_pure]

end Calls

/-! ### Values -/

namespace Engine

variable {s t u : Engine} {type : TypeId} {declared : List (String × Int)}
  {kind : CoreKind}

theorem HasConstants.complete (h : s.HasConstants type declared) :
    (s.types.get type).isComplete = true := by
  obtain ⟨body, hshape, -, hcomplete, -⟩ := h.shape
  simp only [TypeEntry.isComplete, hshape, hcomplete]

theorem HasConstants.not_reference (h : s.HasConstants type declared) :
    (s.types.get type).referenceTarget? = none := by
  obtain ⟨body, hshape, -, -, -⟩ := h.shape
  simp only [TypeEntry.referenceTarget?, hshape]

theorem HasConstants.ne_void (h : s.HasConstants type declared)
    (hs : s.Stocked) : type ≠ .void := by
  obtain ⟨body, hshape, -, -, -⟩ := h.shape
  exact hs.ne_void (by simp [hshape])

theorem chosen_equal (htype : t.HasConstants type declared)
    {ref address : TypeId} (houtfit : t.catalogue.Outfit type u ref address) :
    t.chosen? type (u.membersFor type ref address) true "==" [type, type] =
      some (.binary "==" type .bool (.compareConstants .eq)) := by
  obtain ⟨body, hshape, hkind, -, -⟩ := htype.shape
  have hfixed : (t.types.get type).fixed = (u.types.get type).fixed :=
    (houtfit.kept type houtfit.has houtfit.complete).2
  obtain ⟨old, hold, hsame, -, -, -⟩ :=
    TypeEntry.structural_of_fixed hfixed hshape
  have hmembers : Catalogue.labelled (u.membersFor type ref address) true "==" =
      [.binary "==" type .bool (.compareConstants .eq)] := by
    simp only [membersFor, hold, hsame.symm.trans hkind,
      beq_self_eq_true, if_true]
    rfl
  have hfits :
      ((Member.binary "==" type .bool (.compareConstants .eq)).provided
        type).fits t.types
      (.member [type, type]) = true :=
    fits_of_accepts (accepts_self type) (accepts_self type)
  rw [chosen?, hmembers]
  exact List.find?_cons_of_pos hfits

theorem readBool_of_puts (hs : s.Good Stocked) {b : Bool}
    (h : s.Puts .bool ((Scalar.bool b).encode .bool) t) :
    t.readBool ⟨.bool, s.arena.mark⟩ = .ok b := by
  have hkind : t.scalarKind .bool = .ok .bool :=
    (h.good.inv.core .bool).scalarKind
  have hread := h.gains.readScalar hs.closed.wellFormed
  rw [Scalar.decode_encode_bool] at hread
  simp only [readBool, if_true, readScalar, hkind, Bind.bind, Except.bind,
    hread, Except.map]
  cases b <;> rfl

theorem exists_equal (hs : s.Good Stocked)
    (htype : s.HasConstants type declared)
    (hundeclared : ¬ s.Declares type true "==" [type, type]) {l r : Nat}
    {m n : Int} {x y : Scalar} (hl : s.arena.readScalar l .int32 = .ok x)
    (hr : s.arena.readScalar r .int32 = .ok y) (hx : Represents .int32 m x)
    (hy : Represents .int32 n y) (hroom : s.arena.mark + 1 ≤ s.arena.capacity) :
    ∃ t, (∀ fuel,
      (Calls.ofFuel (fuel + 1)).binaryOperator "==" ⟨type, l⟩ ⟨type, r⟩ s =
        .ok ⟨.bool, s.arena.mark⟩ t) ∧ t.readBool ⟨.bool, s.arena.mark⟩ =
          .ok (decide (m = n)) := by
  obtain ⟨t, u, ref, address, hrun, hst, ht, harena, houtfit⟩ :=
    exists_outfit hs htype.has htype.complete (htype.ne_void hs.inv)
  have htype' := htype.grown hst.quiet.grows.types
  obtain ⟨id, hid, hfunction⟩ := houtfit.exists_resolve
    (hst.undeclared htype.has hundeclared) (chosen_equal htype' houtfit)
  have hplain := htype'.not_reference
  have hadapted : t.adaptArgs [Member.self type, ⟨"rhs", type⟩]
      [⟨type, l⟩, ⟨type, r⟩] = .ok [⟨type, l⟩, ⟨type, r⟩] :=
    adaptArgs_value hplain (adaptArgs_value hplain rfl)
  have horder : t.constantOrder ⟨type, l⟩ ⟨type, r⟩ =
      .ok (compare x.toInt64 y.toInt64) := by
    simp only [constantOrder, readScalar, htype'.scalarKind, harena, hl, hr,
      Bind.bind, Except.bind]
    rfl
  -- The integers that are read have 64 bits, and are equal if what they stand
  -- for is.
  have hequal : Comparison.eq.holds (some (compare x.toInt64 y.toInt64)) =
      decide (m = n) := by
    obtain ⟨v, rfl, rfl⟩ := hx.exists_int rfl
    obtain ⟨w, rfl, rfl⟩ := hy.exists_int rfl
    rw [Comparison.holds, Bool.eq_iff_iff, beq_iff_eq, Option.some_inj,
      decide_eq_true_eq, Int64.toInt_inj]
    exact Std.LawfulEqOrd.compare_eq_iff_eq
  have hbool := ht.inv.core .bool
  obtain ⟨w, halloc, hw⟩ :=
    exists_allocScalar ht (hbool.has : t.types.Has .bool) hbool.scalarKind
    hbool.size (.bool (decide (m = n))) (harena.symm ▸ hroom)
  have hnative : ∀ c : Calls,
      c.runNative (.compareConstants .eq) [⟨type, l⟩, ⟨type, r⟩] t =
      .ok (some ⟨.bool, t.arena.mark⟩) w := by
    intro c
    simp only [Calls.runNative, List.getD_cons_zero, List.getD_cons_succ]
    rw [Eval.bind_inspect horder, hequal, map_eq_pure_bind]
    exact Eval.bind_ok halloc
  rw [harena] at hnative
  refine ⟨w, fun fuel => ?_, ?_⟩
  · exact (binaryOperator_provided ⟨type, l⟩ hrun hid hfunction
      (Nat.le_refl _) hadapted fuel).trans (Eval.bind_ok (hnative _))
  · rw [← harena]
    exact readBool_of_puts ht hw

theorem Puts.hasConstants {contents : List UInt8} {other : TypeId}
    (h : s.Puts other contents t) (htype : s.HasConstants type declared) :
    t.HasConstants type declared :=
  htype.grown (by rw [h.types]; exact .refl _)

/-- What reading, naming and comparing constants gives: `kept` is what is left
of the integer of a constant, and `named` tells what its text is. -/
structure Reads (s : Engine) (type : TypeId) (declared : List (String × Int))
    (kept : Int → Int) (named : Int → String → Prop) : Prop where
  value : ∀ {left node : Node} {name : String} {n : Int}, s.Names left type →
    node.kind = .expression → Node.Qualified node.children left name →
      Constants.value? declared name = some n →
      s.arena.mark + 4 ≤ s.arena.capacity →
        ∃ t text, (∀ fuel, (Calls.ofFuel (fuel + 1)).evaluate node s =
            .ok ⟨type, s.arena.mark⟩ t) ∧
          t.ReadsAs ⟨type, s.arena.mark⟩ (kept n) ∧
          t.format ⟨type, s.arena.mark⟩ = .ok text ∧ named n text
  equal : ¬ s.Declares type true "==" [type, type] →
    ∀ {left right equals node : Node} {nodes others : List Node}
      {name other : String} {m n : Int},
      s.Names left type → s.Names right type → node.kind = .expression →
        node.children = nodes ++ equals :: others →
        Node.Qualified nodes left name →
          equals.kind = .operator → equals.text = "==" →
          Node.Qualified others right other →
            Constants.value? declared name = some m →
            Constants.value? declared other = some n →
              s.arena.mark + 9 ≤ s.arena.capacity →
                ∃ t, (∀ fuel, (Calls.ofFuel (fuel + 2)).evaluate node s =
                    .ok ⟨.bool, s.arena.mark + 8⟩ t) ∧
                  t.readBool ⟨.bool, s.arena.mark + 8⟩ =
                    .ok (decide (kept m = kept n))

theorem Names.not_operator {node : Node} (h : s.Names node type) :
    node.kind.isOperator = false := by
  rcases h.bare with hkind | ⟨hkind, -⟩ <;> rw [hkind] <;> rfl

theorem represents_put (hs : s.Good Stocked) {n : Int}
    (h : s.Puts type ((Scalar.int (Int64.ofInt n)).encode .int32) t) :
    ∃ scalar, t.arena.readScalar s.arena.mark .int32 = .ok scalar ∧
      Represents .int32 (CoreKind.int32.wrapInt n) scalar :=
  ⟨_, h.gains.readScalar hs.closed.wellFormed, Constants.represents_slot n⟩

theorem format_constant (htype : t.HasConstants type declared) {addr : Nat}
    {n : Int} {scalar : Scalar}
    (hread : t.arena.readScalar addr .int32 = .ok scalar)
    (hscalar : Represents .int32 n scalar) :
    t.format ⟨type, addr⟩ =
      .ok (Constants.text declared (t.types.name type) n) := by
  obtain ⟨body, hshape, hkind, -, hvariants⟩ := htype.shape
  obtain ⟨v, rfl, rfl⟩ := hscalar.exists_int rfl
  simp only [format, textOf, hshape, hkind, beq_self_eq_true, if_true,
    readScalar, htype.scalarKind, Bind.bind, Except.bind, hread, Except.map]
  exact congrArg Except.ok (Constants.constantText_eq hvariants _ _)

theorem HasConstants.reads (hs : s.Good Stocked)
    (htype : s.HasConstants type declared) :
    s.Reads type declared CoreKind.int32.wrapInt fun n text =>
      text = Constants.text declared (s.types.name type)
        (CoreKind.int32.wrapInt n) where
  value := by
    intro left node name n hleft hkind hnodes hn hroom
    obtain ⟨t, ht, hscope⟩ := exists_scopeResolution hs htype hleft hn hroom
    obtain ⟨scalar, hread, hscalar⟩ := represents_put hs ht
    have htype' := ht.hasConstants htype
    refine ⟨t, _, fun fuel => ?_, ⟨scalar, ?_, hscalar.integer_eq⟩,
      format_constant htype' hread hscalar, by rw [ht.types]⟩
    · obtain ⟨member, hmember, hstep⟩ :=
        (Calls.ofFuel fuel).evaluateStep_qualified hkind
          hleft.not_operator hnodes
      change (Calls.ofFuel fuel).evaluateStep node s = _
      rw [hstep, Eval.bind_ok (hscope _ member hmember)]
      rfl
    · simp only [readScalar, htype'.scalarKind, Bind.bind, Except.bind, hread]
  equal := by
    intro hundeclared left right equals node nodes others name other m n hleft
      hright hkind hchildren hnodes hequals hsymbol hothers hm hn hroom
    obtain ⟨t, ht, hscope⟩ :=
      exists_scopeResolution hs htype hleft hm (by omega)
    obtain ⟨x, hx, hrx⟩ := represents_put hs ht
    have htype' := ht.hasConstants htype
    have hmark : t.arena.mark = s.arena.mark + 4 := by
      rw [ht.gains.mark, Scalar.length_encode]
      rfl
    have hright' := hright.congr ht.same (ht.frames htype.plain)
    obtain ⟨u, hu, hscope'⟩ := exists_scopeResolution ht.good htype' hright' hn
      (by rw [hmark, ht.gains.capacity]; omega)
    obtain ⟨y, hy, hry⟩ := represents_put ht.good hu
    have hmark' : u.arena.mark = s.arena.mark + 8 := by
      rw [hu.gains.mark, Scalar.length_encode, hmark]
      rfl
    obtain ⟨w, hrun, hresult⟩ := exists_equal hu.good (hu.hasConstants htype')
      (hu.undeclared (ht.undeclared hundeclared)) (hu.gains.readScalar_below hx)
        hy hrx hry (by rw [hmark', hu.gains.capacity, ht.gains.capacity]; omega)
    rw [hmark'] at hrun hresult
    refine ⟨w, fun fuel => ?_, hresult⟩
    obtain ⟨first, second, hfirst, hsecond, hstep⟩ :=
      (Calls.ofFuel (fuel + 1)).evaluateStep_compared hkind hchildren
        hleft.not_operator hnodes hequals hsymbol hright.not_operator hothers
    change (Calls.ofFuel (fuel + 1)).evaluateStep node s = _
    rw [hstep, Eval.bind_ok (hscope _ first hfirst),
      Eval.bind_ok (hscope' _ second hsecond)]
    exact hrun fuel

end Engine

/-! ## Main statement -/

namespace Constants

variable {declared : List (String × Int)} {name : String} {n : Int}

theorem exists_of_value? (h : value? declared name = some n) :
    ∃ entry ∈ declared, entry.2 = n := by
  obtain ⟨entry, hfound, heq⟩ := Option.map_eq_some_iff.1 h
  exact ⟨entry, List.mem_of_find?_eq_some hfound, heq⟩

theorem text_exact (hall : ∀ entry ∈ declared, CoreKind.int32.Holds entry.2)
    (hn : value? declared name = some n) (type : String) :
    (declared.find? (·.2 == n)).map Prod.fst = some (text declared type n) := by
  have hsame : (declared.find? fun entry => entry.2.bmod (2 ^ 64) == n) =
      declared.find? (·.2 == n) := by
    rw [← List.head?_filter, ← List.head?_filter]
    refine congrArg List.head? (List.filter_congr fun entry hentry => ?_)
    have hkept := CoreKind.wrapInt_of_holds ((hall entry hentry).widen rfl)
    exact congrArg (· == n) hkept
  obtain ⟨entry, hentry, heq⟩ := exists_of_value? hn
  obtain ⟨first, hfirst⟩ := Option.isSome_iff_exists.1
    (List.find?_isSome (p := (·.2 == n)).2 ⟨entry, hentry, beq_iff_eq.2 heq⟩)
  rw [text, hsame, hfirst]
  rfl

end Constants

namespace Engine

variable {s : Engine} {type : TypeId} {declared : List (String × Int)}

/-- Integers of 32 bits are kept as they are. -/
theorem HasConstants.reads_exact (hs : s.Good Stocked)
    (htype : s.HasConstants type declared)
    (hall : ∀ entry ∈ declared, CoreKind.int32.Holds entry.2) :
    s.Reads type declared id fun n text =>
      (declared.find? (·.2 == n)).map Prod.fst = some text := by
  have hreads := htype.reads hs
  have hkept : ∀ {name n}, Constants.value? declared name = some n →
      CoreKind.int32.wrapInt n = n := by
    intro name n hn
    obtain ⟨entry, hentry, rfl⟩ := Constants.exists_of_value? hn
    exact CoreKind.wrapInt_of_holds (hall entry hentry)
  refine ⟨fun {left node name n} hleft hkind hnodes hn hroom => ?_,
    fun hundeclared => ?_⟩
  · obtain ⟨t, text, hrun, hread, hformat, htext⟩ :=
      hreads.value hleft hkind hnodes hn hroom
    rw [hkept hn] at hread htext
    exact ⟨t, text, hrun, hread, hformat,
      htext ▸ Constants.text_exact hall hn _⟩
  · intro left right equals node nodes others name other m n hleft hright hkind
      hchildren hnodes hequals hsymbol hothers hm hn hroom
    obtain ⟨t, hrun, hresult⟩ :=
      hreads.equal hundeclared hleft hright hkind hchildren hnodes
      hequals hsymbol hothers hm hn hroom
    rw [hkept hm, hkept hn] at hresult
    exact ⟨t, hrun, hresult⟩

structure KeepsConstants (s : Engine) : Prop where
  /-- Whatever is declared without a failure has the integers that have been
  counted, modulo two to the 64. -/
  declares : ∀ fuel node flow t, node.kind = .enumDecl →
    s.keyOf node ∉ s.declared →
    (Calls.ofFuel (fuel + 1)).execute node s = .ok flow t →
      ∃ type declared, Enumerates fuel node s t type declared
  /-- They are read modulo two to the 32. -/
  reads : ∀ type declared, s.HasConstants type declared →
    s.Reads type declared CoreKind.int32.wrapInt fun n text =>
      text = Constants.text declared (s.types.name type)
        (CoreKind.int32.wrapInt n)
  /-- Nothing is lost as long as all of them fit in 32 bits. -/
  exact : ∀ type declared, s.HasConstants type declared →
    (∀ entry ∈ declared, CoreKind.int32.Holds entry.2) →
      s.Reads type declared id fun n text =>
        (declared.find? (·.2 == n)).map Prod.fst = some text

theorem keepsConstants (hs : s.Good Stocked) : s.KeepsConstants where
  declares _ _ _ _ hnode hfresh hrun :=
    Calls.exists_enumerates hnode hfresh hrun
  reads _ _ htype := htype.reads hs
  exact _ _ htype hall := htype.reads_exact hs hall

end Engine

/-- Constants of enumerations are counted exactly and kept modulo powers of two,
in every reachable engine and at any time during a request. -/
theorem Reachable.constants_kept {s : Engine} (hs : Reachable s) :
    s.KeepsConstants ∧ ∀ (fuel : Nat) (request : Request), s.Knows request →
      Calls.Throughout Engine.KeepsConstants fuel request.perform s :=
  ⟨Engine.keepsConstants hs.good, fun fuel _ hrequest =>
    hs.throughout (fun _ => Engine.keepsConstants) fuel hrequest⟩

/-! ### Two enumerations -/

namespace Constants

open Cells (node run reachable)

def constant (name value : String) : Node :=
  node .enumValue name [node .expression "" [node .integerLiteral value []]]

def qualified (enum name : String) : List Node :=
  [node .identifier enum [], node .operator "::" [], node .identifier name []]

def reading (nodes : List Node) : Eval (Scalar × String) := do
  let value ← (Calls.ofFuel 9).evaluate (node .expression "" nodes)
  let scalar ← Eval.inspect fun s => s.readScalar value
  let text ← Eval.inspect fun s => s.format value
  pure (scalar, text)

def counted : Engine :=
  run [node .enumDecl "E" [node .enumValue "A" [], constant "B" "5",
    node .enumValue "C" []]]

def describesEnum (s : Engine) (type : TypeId)
    (declared : List (String × Int)) : Bool :=
  (s.types.get type).size == 4 && !(s.types.get type).aggregate &&
    (s.types.get type).structural?.any fun body =>
      body.kind == .enumKind && body.complete && body.variants == words declared

theorem hasConstants {s : Engine} {type : TypeId}
    {declared : List (String × Int)} (htype : s.types.Has type)
    (h : describesEnum s type declared = true) :
    s.HasConstants type declared := by
  simp only [describesEnum, Bool.and_eq_true, beq_iff_eq,
    Bool.not_eq_true'] at h
  obtain ⟨⟨hsize, hplain⟩, hbody⟩ := h
  obtain ⟨body, hstructural, hbody⟩ := (Option.any_eq_true _ _).1 hbody
  simp only [Bool.and_eq_true, beq_iff_eq] at hbody
  exact ⟨htype, hsize, hplain, body, TypeEntry.shape_of_structural? hstructural,
    hbody.1.1,
    hbody.1.2, hbody.2⟩

theorem checked_counted :
    counted.types.Has ⟨15⟩ ∧
    describesEnum counted ⟨15⟩ [("A", 0), ("B", 5), ("C", 6)] = true ∧
      counted.lookupVariable "E" = .ok none ∧
      (counted.scopes.findTemplateParam counted.currentScope "E").isNone =
        true ∧
      counted.scopes.resolveTypeName counted.currentScope "E" = some ⟨15⟩ ∧
      counted.arena.mark = 12 ∧ counted.arena.capacity = 128 := by
  decide +kernel

theorem names : counted.Names (node .identifier "E" []) ⟨15⟩ := by
  obtain ⟨-, -, hfree, hparam, hbound, -⟩ := checked_counted
  exact ⟨.inl rfl, hfree, .inr ⟨Option.isNone_iff_eq_none.1 hparam, hbound⟩⟩

def wide : Node :=
  node .enumDecl "E" [node .enumValue "Z" [], constant "A" "4294967296"]

def declaredWide : Engine := ((Calls.ofFuel 30).execute wide).after (run [])

theorem checked_wide :
    ((Calls.ofFuel 30).execute wide).value? (run []) = some .normal ∧
      (run []).declared.contains ((run []).keyOf wide) = false ∧
      (run []).currentScope.index < (run []).scopes.size ∧
      (declaredWide.scopes.get (run []).currentScope).types.get? "E" =
        some ⟨15⟩ ∧
      ((declaredWide.types.get ⟨15⟩).structural?.any
        (·.variants == [("Z", 0), ("A", 4294967296)])) = true ∧
      declaredWide.lookupVariable "E" = .ok none ∧
      (declaredWide.scopes.findTemplateParam declaredWide.currentScope
        "E").isNone = true ∧
      declaredWide.scopes.resolveTypeName declaredWide.currentScope "E" =
        some ⟨15⟩ ∧
      declaredWide.arena.mark + 4 ≤ declaredWide.arena.capacity ∧
      (reading (qualified "E" "A")).value? declaredWide = some (.int 0, "Z") ∧
      (reading (qualified "E" "Z" ++ node .operator "==" [] ::
        qualified "E" "A")).value?
        declaredWide = some (.bool true, "true") := by
  decide +kernel

theorem names_wide : declaredWide.Names (node .identifier "E" []) ⟨15⟩ := by
  obtain ⟨-, -, -, -, -, hfree, hparam, hbound, -⟩ := checked_wide
  exact ⟨.inl rfl, hfree, .inr ⟨Option.isNone_iff_eq_none.1 hparam, hbound⟩⟩

theorem declared_wide {c : Calls} {s t : Engine}
    {declared : List (String × Int)}
    (hcounts : c.Counts 0 [node .enumValue "Z" [], constant "A" "4294967296"] s
      declared t) (hwords : words declared = [("Z", 0), ("A", 4294967296)]) :
    declared = [("Z", 0), ("A", 4294967296)] := by
  cases hcounts with
  | given hnode => cases hnode
  | next _ hrest =>
    cases hrest with
    | next hnode => cases hnode
    | @given _ n _ _ _ _ _ _ _ _ kind scalar _ _ _ _ _ _ hscalar hlast =>
      cases hlast
      have hword : Int64.ofInt n = 4294967296 := by
        simp only [words, List.map_cons, List.map_nil, List.cons.injEq,
          Prod.mk.injEq] at hwords
        exact hwords.2.1.2
      have hmod : n.bmod (2 ^ 64) = 4294967296 :=
        Int64.toInt_ofInt.symm.trans (congrArg Int64.toInt hword)
      have hn : n = 4294967296 := by
        have hrange := hscalar.holds
        rw [Int.bmod_def] at hmod
        cases kind <;>
          simp only [CoreKind.Holds, CoreKind.isSigned, CoreKind.width,
            CoreKind.size, Bool.false_eq_true, if_false,
              if_true] at hrange <;> omega
      rw [hn]
      rfl

end Constants

open Constants Cells in
/-- `C` comes after `B`, which is five. -/
theorem Reachable.constants_kept_counted :
    Reachable counted ∧ counted.KeepsConstants ∧
      counted.HasConstants ⟨15⟩ [("A", 0), ("B", 5), ("C", 6)] ∧
      ∃ t text,
        (Calls.ofFuel 1).evaluate (node .expression "" (qualified "E" "C"))
          counted = .ok ⟨⟨15⟩, 12⟩ t ∧
        t.ReadsAs ⟨⟨15⟩, 12⟩ 6 ∧ t.format ⟨⟨15⟩, 12⟩ = .ok text ∧
        text = "C" := by
  have hkeeps : counted.KeepsConstants := (constants_kept (reachable _)).1
  obtain ⟨hhas, hdescribes, -, -, -, hmark, hcapacity⟩ := checked_counted
  have htype := hasConstants hhas hdescribes
  have hreads := hkeeps.exact ⟨15⟩ _ htype (by decide)
  have hqualified :
      Node.Qualified (qualified "E" "C") (node .identifier "E" []) "C" :=
    ⟨_, _, rfl, rfl, rfl, rfl, rfl⟩
  have hkind : (node .expression "" (qualified "E" "C")).kind =
      .expression := rfl
  obtain ⟨t, text, hrun, hread, hformat, htext⟩ :=
    hreads.value names hkind hqualified rfl (by rw [hmark, hcapacity]; decide)
  rw [hmark] at hrun hread hformat
  exact ⟨reachable _, hkeeps, htype, t, text, hrun 0, hread, hformat,
    (Option.some.inj htext).symm⟩

open Constants Cells in
/-- A constant that is declared as two to the 32 is read as zero, has the name
of the constant that is zero, and is equal to it. -/
theorem wide_constant_lost :
    Reachable (run []) ∧ ∃ type,
      (Calls.ofFuel 30).execute wide (run []) = .ok .normal declaredWide ∧
      Engine.Enumerates 29 wide (run []) declaredWide type
        [("Z", 0), ("A", 4294967296)] ∧
      (reading (qualified "E" "A")).value? declaredWide = some (.int 0, "Z") ∧
      (reading (qualified "E" "Z" ++ node .operator "==" [] ::
        qualified "E" "A")).value? declaredWide = some (.bool true, "true") ∧
      ¬ declaredWide.Reads type [("Z", 0), ("A", 4294967296)] id fun n text =>
        ([("Z", (0 : Int)), ("A", 4294967296)].find? (·.2 == n)).map Prod.fst =
          some text := by
  obtain ⟨hvalue, hfresh, hlive, hbound, hvariants, -, -, -, hroom, hreading,
    hequal⟩ := checked_wide
  have hrun : (Calls.ofFuel 30).execute wide (run []) =
      .ok .normal declaredWide :=
    Eval.eq_ok_of_value? hvalue
  have hnew : (run []).keyOf wide ∉ (run []).declared := by
    simpa using hfresh
  obtain ⟨type, declared, henumerates⟩ := Calls.exists_enumerates rfl hnew hrun
  obtain rfl : type = ⟨15⟩ :=
    Option.some.inj ((henumerates.bound hlive).symm.trans hbound)
  obtain ⟨body, hshape, -, -, hkept⟩ := (henumerates.lasts declaredWide
    ⟨.refl, Engine.Preserves.composable.refl _⟩).shape
  have hwords : words declared = [("Z", 0), ("A", 4294967296)] := by
    rw [← hkept]
    simpa [TypeEntry.structural?, hshape] using hvariants
  obtain ⟨types, u, -, hcounts⟩ := henumerates.counts
  obtain rfl := declared_wide hcounts hwords
  refine ⟨reachable _, _, hrun, henumerates, hreading, hequal, fun hreads => ?_⟩
  have hqualified :
      Node.Qualified (qualified "E" "A") (node .identifier "E" []) "A" :=
    ⟨_, _, rfl, rfl, rfl, rfl, rfl⟩
  have hkind : (node .expression "" (qualified "E" "A")).kind =
      .expression := rfl
  obtain ⟨t, text, hevaluate, ⟨scalar, hread, hinteger⟩, -⟩ :=
    hreads.value names_wide hkind hqualified rfl hroom
  have hresult := Eval.eq_ok_of_value? hreading
  rw [reading, Eval.bind_ok (hevaluate 8), Eval.bind_inspect hread] at hresult
  obtain ⟨text', _, -, hlast⟩ := Eval.bind_eq_ok hresult
  cases hlast
  cases hinteger

end ArenaScript
