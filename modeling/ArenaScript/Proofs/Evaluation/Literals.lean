import ArenaScript.Proofs.Evaluation.Constants
import ArenaScript.Proofs.Scalars.Spelling

/-!
# Integer literals

A literal stands for an integer as an expression, where it becomes a new value
of 32 bits or of 64, and as a template argument.  Decimal literals mean the same
in both places, and a text that spells no integer of 64 bits is rejected in
both, with the same failure.  Hexadecimal literals have a value as expressions
only: as template arguments they are rejected.
-/

namespace ArenaScript

open Engine (Good Stocked)
open Number (IsDecimal IsHexadecimal)

namespace Number

variable {n : Int} {text : String}

/-- The text is a literal of the integer. -/
def IsLiteral (text : String) (n : Int) : Prop :=
  IsDecimal text n ∨ IsHexadecimal text n

theorem IsLiteral.holds (h : IsLiteral text n) : CoreKind.int64.Holds n :=
  h.elim (·.holds) (·.holds)

theorem exists_toInt (h : CoreKind.int64.Holds n) :
    ∃ v : Int64, v.toInt = n := by
  simp only [CoreKind.Holds, CoreKind.isSigned, CoreKind.width, CoreKind.size,
    if_true] at h
  exact ⟨Int64.ofInt n, Int64.toInt_ofInt_of_le (by omega) (by omega)⟩

theorem fitsInt32_iff (v : Int64) :
    fitsInt32 v = true ↔ CoreKind.int32.Holds v.toInt := by
  have hword : (v.toInt32.toInt64).toInt = CoreKind.int32.wrapInt v.toInt := by
    simp [CoreKind.wrapInt, CoreKind.isSigned, CoreKind.width, CoreKind.size]
  rw [fitsInt32, beq_iff_eq, ← Int64.toInt_inj, hword]
  constructor
  · intro h
    rw [← h]
    exact CoreKind.holds_wrapInt .int32 v.toInt
  · exact CoreKind.wrapInt_of_holds

/-- Literals that fit in 32 bits are of the smaller kind. -/
def literalKind (n : Int) : CoreKind :=
  if CoreKind.int32.Holds n then .int32 else .int64

theorem literalKind_holds (h : CoreKind.int64.Holds n) :
    (literalKind n).Holds n := by
  unfold literalKind
  split <;> assumption

theorem literalKind_isInteger (n : Int) : (literalKind n).isInteger = true := by
  unfold literalKind
  split <;> rfl

theorem decimal?_eq_none (h : ∀ n, ¬ IsDecimal text n) : decimal? text = none :=
  Option.eq_none_iff_forall_ne_some.2 fun _ hv => h _ (decimal?_eq_some.1 hv)

theorem literal?_eq_none (h : ∀ n, ¬ IsLiteral text n) : literal? text = none :=
  Option.eq_none_iff_forall_ne_some.2 fun _ hv => h _ (literal?_eq_some.1 hv)

end Number

/-! ## As an expression -/

inductive Node.Shows (literal : Node) : Node → Prop
  | bare : Node.Shows literal literal
  | enclosed {node : Node} (hkind : node.kind = .expression)
      (hchildren : node.children = [literal]) : Node.Shows literal node

namespace Calls

variable {node literal : Node}

theorem evaluate_shows (hliteral : literal.kind = .integerLiteral)
    (h : literal.Shows node) (fuel : Nat) :
    (ofFuel (fuel + 1)).evaluate node = integerLiteral literal.text := by
  have hresolved :
      (do (ofFuel fuel).resolvedValue (← (ofFuel fuel).resolveOperand
        literal)) = integerLiteral literal.text := by
    simp [resolveOperand, hliteral, resolvedValue]
  change (ofFuel fuel).evaluateStep node = _
  cases h with
  | bare => simpa [evaluateStep, hliteral] using hresolved
  | enclosed hkind hchildren =>
      rw [evaluateStep_operand _ hkind hchildren (by rw [hliteral]; rfl),
        hresolved]

end Calls

namespace Engine

open Number (IsLiteral literalKind)

variable {s t : Engine} {node literal : Node} {n : Int}

theorem Puts.readsAs {kind : CoreKind} {v : Int64} (hs : s.Good Stocked)
    (hkind : kind.isInteger) (hholds : kind.Holds v.toInt)
    (h : s.Puts kind.typeId ((Scalar.int v).encode kind) t) :
    t.ReadsAs ⟨kind.typeId, s.arena.mark⟩ v.toInt := by
  have hinteger : (Scalar.int v).integer? = some v.toInt := rfl
  have hrepresents := Scalar.represents_cast hkind hinteger
  rw [CoreKind.wrapInt_of_holds hholds] at hrepresents
  refine ⟨(Scalar.int v).cast kind, ?_, hrepresents.integer_eq⟩
  have hread := h.gains.readScalar hs.closed.wellFormed
  rw [Scalar.decode_encode hkind hinteger] at hread
  simp only [readScalar, (h.good.inv.core kind).scalarKind, Bind.bind,
    Except.bind, hread]

theorem exists_literal (hs : s.Good Stocked)
    (hliteral : literal.kind = .integerLiteral) (hn : IsLiteral literal.text n)
    (hroom : s.arena.mark + (literalKind n).size ≤ s.arena.capacity) :
    ∃ t, t.Good Stocked ∧ t.ReadsAs ⟨(literalKind n).typeId, s.arena.mark⟩ n ∧
      ∀ node, literal.Shows node →
        ∀ fuel, (Calls.ofFuel (fuel + 1)).evaluate node s =
        .ok ⟨(literalKind n).typeId, s.arena.mark⟩ t := by
  obtain ⟨v, rfl⟩ := Number.exists_toInt hn.holds
  have hcore := hs.inv.core (literalKind v.toInt)
  obtain ⟨t, halloc, ht⟩ :=
    exists_allocScalar hs hcore.has hcore.scalarKind hcore.size (.int v) hroom
  refine ⟨t, ht.good, ht.readsAs hs (Number.literalKind_isInteger _)
    (Number.literalKind_holds hn.holds), fun node hnode fuel => ?_⟩
  have htype : (if Number.fitsInt32 v then TypeId.int32 else .int64) =
      (literalKind v.toInt).typeId := by
    by_cases hfits : CoreKind.int32.Holds v.toInt
    · rw [literalKind, if_pos hfits, if_pos ((Number.fitsInt32_iff v).2 hfits)]
      rfl
    · rw [literalKind, if_neg hfits,
        if_neg (mt (Number.fitsInt32_iff v).1 hfits)]
      rfl
  rw [Calls.evaluate_shows hliteral hnode, Calls.integerLiteral,
    Number.literal?_eq_some.2 hn]
  simp only [htype, halloc]

def noInteger (literal : Node) : Failure := .typeConversion literal.text "Int64"

theorem evaluate_noInteger (hliteral : literal.kind = .integerLiteral)
    (hnone : ∀ n, ¬ IsLiteral literal.text n) (hnode : literal.Shows node)
    (fuel : Nat) :
    (Calls.ofFuel (fuel + 1)).evaluate node s =
      .error (.failed (noInteger literal)) s := by
  rw [Calls.evaluate_shows hliteral hnode, Calls.integerLiteral,
    Number.literal?_eq_none hnone]
  rfl

/-! ## As a template argument -/

theorem resolveTemplateArg_decimal (hliteral : literal.kind = .integerLiteral)
    (hn : Number.IsDecimal literal.text n) (c : Calls) (scope : ScopeId) :
    ∃ v : Int64, v.toInt = n ∧ c.resolveTemplateArg scope literal s =
      .ok (.int v) s := by
  obtain ⟨v, rfl⟩ := Number.exists_toInt hn.holds
  refine ⟨v, rfl, ?_⟩
  simp only [Calls.resolveTemplateArg, hliteral, Number.decimal?_eq_some.2 hn]
  rfl

theorem resolveTemplateArg_noInteger (hliteral : literal.kind = .integerLiteral)
    (hnone : ∀ n, ¬ Number.IsDecimal literal.text n) (c : Calls)
    (scope : ScopeId) :
    c.resolveTemplateArg scope literal s =
      .error (.failed (noInteger literal)) s := by
  simp only [Calls.resolveTemplateArg, hliteral, Number.decimal?_eq_none hnone]
  rfl

theorem resolveTemplateArg_expression (ht : t.Good Stocked) {kind : CoreKind}
    {addr : Nat} (hkind : kind.isInteger) (hn : CoreKind.int64.Holds n)
    (hnode : node.kind = .expression) (c : Calls) (scope : ScopeId)
    (hrun : c.evaluate node s = .ok ⟨kind.typeId, addr⟩ t)
    (hreads : t.ReadsAs ⟨kind.typeId, addr⟩ n) :
    ∃ v : Int64, v.toInt = n ∧ c.resolveTemplateArg scope node s =
      .ok (.int v) t := by
  have hcore := ht.inv.core kind
  obtain ⟨scalar, hread, hinteger⟩ := hreads
  have hstrip : t.stripRef ⟨kind.typeId, addr⟩ = .ok ⟨kind.typeId, addr⟩ := by
    simp only [stripRef, TypeEntry.referenceTarget?, hcore.shape]
  have hintegral : t.isIntegral kind.typeId = true := by
    simp only [isIntegral, scalarKind?, TypeEntry.core?, hcore.shape,
      Option.any_some, hkind]
  refine ⟨scalar.toInt64, ?_, ?_⟩
  · rw [Scalar.toInt64_eq hinteger]
    exact CoreKind.wrapInt_of_holds hn
  · have hinspect : Eval.inspect (fun t => if t.isIntegral kind.typeId then
        (t.readScalar ⟨kind.typeId, addr⟩).map Scalar.toInt64
        else .error (Failure.typeConversion (t.types.name kind.typeId) "Int64"))
          t = .ok scalar.toInt64 t := by
      simp only [Eval.inspect, hintegral, if_true, hread, Except.map]
    have hevaluate : c.evaluateInteger node "Int64" s =
        .ok scalar.toInt64 t := by
      rw [Calls.evaluateInteger, Eval.bind_ok hrun, Eval.stripRef,
        Eval.bind_inspect hstrip]
      exact hinspect
    simp only [Calls.resolveTemplateArg, hnode, map_eq_pure_bind]
    exact Eval.bind_ok hevaluate

theorem resolveTemplateArg_failed (hnode : node.kind = .expression) (c : Calls)
    (scope : ScopeId) {e : Stop} (hrun : c.evaluate node s = .error e t) :
    c.resolveTemplateArg scope node s = .error e t := by
  have hevaluate : c.evaluateInteger node "Int64" s = .error e t := by
    rw [Calls.evaluateInteger, Eval.bind_error hrun]
  simp only [Calls.resolveTemplateArg, hnode, map_eq_pure_bind]
  exact Eval.bind_error hevaluate

end Engine

/-! ## Both uses -/

structure Calls.SameUse (c : Calls) (scope : ScopeId) (node : Node)
    (s : Engine) : Prop where
  integer : ∀ value t n, c.evaluate node s = .ok value t → t.ReadsAs value n →
    ∃ v u, v.toInt = n ∧ c.resolveTemplateArg scope node s = .ok (.int v) u
  rejected : (∃ e t, c.evaluate node s = .error (.failed e) t) ↔
    ∃ e t, c.resolveTemplateArg scope node s = .error (.failed e) t

namespace Calls.SameUse

variable {c : Calls} {scope : ScopeId} {node : Node} {s t u : Engine}
  {value : Value} {n : Int}

theorem of_ok {v : Int64} (hvalue : c.evaluate node s = .ok value t)
    (hreads : t.ReadsAs value n)
    (harg : c.resolveTemplateArg scope node s = .ok (.int v) u)
    (hv : v.toInt = n) : c.SameUse scope node s where
  integer value' t' m hvalue' hreads' := by
    obtain ⟨rfl, rfl⟩ : value = value' ∧ t = t' := by
      simpa [hvalue] using hvalue'
    obtain ⟨scalar, hread, hinteger⟩ := hreads
    obtain ⟨scalar', hread', hinteger'⟩ := hreads'
    refine ⟨v, u, ?_, harg⟩
    simp_all
  rejected := by simp [hvalue, harg]

theorem of_error {e e' : Failure}
    (hvalue : c.evaluate node s = .error (.failed e) t)
    (harg : c.resolveTemplateArg scope node s = .error (.failed e') u) :
    c.SameUse scope node s where
  integer value' t' m hvalue' _ := by simp [hvalue] at hvalue'
  rejected := by simp [hvalue, harg]

end Calls.SameUse

namespace Engine

open Number (IsLiteral literalKind)

def HasRoom (s : Engine) (literal : Node) : Prop :=
  ∀ n, IsLiteral literal.text n → s.arena.mark + (literalKind n).size ≤
    s.arena.capacity

structure UsesLiteral (s : Engine) (literal : Node) : Prop where
  /-- As an expression, or as all there is of one, it is a new value. -/
  value : ∀ n, IsLiteral literal.text n →
    ∃ t, t.ReadsAs ⟨(literalKind n).typeId, s.arena.mark⟩ n ∧
    ∀ node, literal.Shows node →
      ∀ fuel, (Calls.ofFuel (fuel + 1)).evaluate node s =
      .ok ⟨(literalKind n).typeId, s.arena.mark⟩ t
  noValue : (∀ n, ¬ IsLiteral literal.text n) →
    ∀ node, literal.Shows node → ∀ fuel,
    (Calls.ofFuel (fuel + 1)).evaluate node s =
      .error (.failed (noInteger literal)) s
  /-- As a template argument it is read as a decimal number. -/
  argument : ∀ n, IsDecimal literal.text n → ∀ c : Calls, ∀ scope, ∃ v : Int64,
    v.toInt = n ∧
    c.resolveTemplateArg scope literal s = .ok (.int v) s
  noArgument : (∀ n, ¬ IsDecimal literal.text n) → ∀ c : Calls, ∀ scope,
    c.resolveTemplateArg scope literal s =
      .error (.failed (noInteger literal)) s
  enclosed : ∀ node, literal.Shows node → node.kind = .expression →
    ∀ fuel scope,
    (Calls.ofFuel (fuel + 1)).SameUse scope node s
  same : ∀ fuel scope, (Calls.ofFuel (fuel + 1)).SameUse scope literal s ↔
    ∀ n, ¬ IsHexadecimal literal.text n

variable {s : Engine} {literal : Node}

theorem usesLiteral (hs : s.Good Stocked)
    (hliteral : literal.kind = .integerLiteral) (hroom : s.HasRoom literal) :
    s.UsesLiteral literal where
  value n hn := by
    obtain ⟨t, -, hreads, hrun⟩ := exists_literal hs hliteral hn (hroom n hn)
    exact ⟨t, hreads, hrun⟩
  noValue hnone node hnode fuel := evaluate_noInteger hliteral hnone hnode fuel
  argument n hn c scope := resolveTemplateArg_decimal hliteral hn c scope
  noArgument hnone c scope :=
    resolveTemplateArg_noInteger hliteral hnone c scope
  enclosed node hnode hkind fuel scope := by
    by_cases hn : ∃ n, IsLiteral literal.text n
    · obtain ⟨n, hn⟩ := hn
      obtain ⟨t, ht, hreads, hrun⟩ := exists_literal hs hliteral hn (hroom n hn)
      obtain ⟨v, hv, harg⟩ := resolveTemplateArg_expression ht
        (Number.literalKind_isInteger n) hn.holds hkind _ scope
          (hrun node hnode fuel) hreads
      exact .of_ok (hrun node hnode fuel) hreads harg hv
    · have hrun :=
        evaluate_noInteger (s := s) hliteral (not_exists.1 hn) hnode fuel
      exact .of_error hrun (resolveTemplateArg_failed hkind _ scope hrun)
  same fuel scope := by
    constructor
    · rintro hsame n hn
      obtain ⟨t, -, hreads, hrun⟩ :=
        exists_literal hs hliteral (.inr hn) (hroom n (.inr hn))
      obtain ⟨v, u, -, harg⟩ :=
        hsame.integer _ t n (hrun literal .bare fuel) hreads
      rw [resolveTemplateArg_noInteger hliteral fun m =>
        hn.not_isDecimal] at harg
      cases harg
    · intro hdecimal
      by_cases hn : ∃ n, IsLiteral literal.text n
      · obtain ⟨n, hn⟩ := hn
        obtain ⟨t, -, hreads, hrun⟩ :=
          exists_literal hs hliteral hn (hroom n hn)
        obtain ⟨v, hv, harg⟩ := resolveTemplateArg_decimal hliteral
          (hn.resolve_right (hdecimal n)) (Calls.ofFuel (fuel + 1)) scope
        exact .of_ok (hrun literal .bare fuel) hreads harg hv
      · refine .of_error
          (evaluate_noInteger hliteral (not_exists.1 hn) .bare fuel)
          (resolveTemplateArg_noInteger hliteral
            (fun m hm => hn ⟨m, .inl hm⟩) _ scope)

end Engine

/-- Integer literals stand for the same integers as expressions and as template
arguments, unless they are hexadecimal, in every reachable engine and at any
time during a request. -/
theorem Reachable.literals_used {s : Engine} (hs : Reachable s) :
    (∀ literal : Node, literal.kind = .integerLiteral → s.HasRoom literal →
      s.UsesLiteral literal) ∧
    ∀ (fuel : Nat) (request : Request), s.Knows request →
      Calls.Throughout (fun t => ∀ literal : Node,
        literal.kind = .integerLiteral →
        t.HasRoom literal → t.UsesLiteral literal) fuel request.perform s :=
  ⟨fun _ hliteral hroom => Engine.usesLiteral hs.good hliteral hroom,
    fun fuel _ hrequest =>
      hs.throughout (fun _ ht _ hliteral hroom =>
        Engine.usesLiteral ht hliteral hroom) fuel hrequest⟩

/-! ### Two literals -/

namespace Literals

def literal (text : String) : Node := ⟨.integerLiteral, text, .dummy, 0, []⟩

def engine : Engine := .new {} ⟨.silent, ""⟩ none []

theorem reachable : Reachable engine := .new _ _ _ _ (by decide)

theorem hasRoom (text : String) : engine.HasRoom (literal text) := by
  intro n _
  have hsize : (Number.literalKind n).size ≤ 8 := by
    unfold Number.literalKind
    split <;> decide
  have hmark : engine.arena.mark + 8 ≤ engine.arena.capacity := by decide
  omega

theorem isDecimal : IsDecimal "-0042" (-42) :=
  ⟨.minus ⟨by decide, [0, 0, 4, 2], by decide, by decide⟩, by decide⟩

theorem isHexadecimal : IsHexadecimal "0x10" 16 :=
  ⟨⟨['1', '0'], .inl rfl, .plain ⟨by decide, [1, 0], by decide, by decide⟩⟩,
    by decide⟩

end Literals

open Literals in
/-- A decimal number with a sign and with zeros in front. -/
theorem Reachable.literals_used_decimal :
    Reachable engine ∧ engine.HasRoom (literal "-0042") ∧
      (∃ t, (Calls.ofFuel 1).evaluate (literal "-0042") engine =
        .ok ⟨.int32, 8⟩ t ∧
        t.ReadsAs ⟨.int32, 8⟩ (-42)) ∧
      (Calls.ofFuel 1).SameUse .universe (literal "-0042") engine := by
  have huses := (literals_used reachable).1 (literal "-0042") rfl (hasRoom _)
  obtain ⟨t, hreads, hrun⟩ := huses.value _ (.inl isDecimal)
  refine ⟨reachable, hasRoom _, ⟨t, hrun _ .bare 0, hreads⟩,
    (huses.same 0 .universe).2 ?_⟩
  exact fun n hn => hn.not_isDecimal isDecimal

open Literals in
/-- A hexadecimal literal has a value, and is no template argument. -/
theorem hexadecimal_literal_rejected :
    Reachable engine ∧ engine.HasRoom (literal "0x10") ∧
      (∃ t, (Calls.ofFuel 1).evaluate (literal "0x10") engine =
        .ok ⟨.int32, 8⟩ t ∧
        t.ReadsAs ⟨.int32, 8⟩ 16) ∧
      (Calls.ofFuel 1).resolveTemplateArg .universe (literal "0x10") engine =
        .error (.failed (.typeConversion "0x10" "Int64")) engine ∧
      ¬ (Calls.ofFuel 1).SameUse .universe (literal "0x10") engine := by
  have huses : engine.UsesLiteral (literal "0x10") :=
    Engine.usesLiteral reachable.good rfl (hasRoom _)
  obtain ⟨t, hreads, hrun⟩ := huses.value _ (.inr isHexadecimal)
  refine ⟨reachable, hasRoom _, ⟨t, hrun _ .bare 0, hreads⟩,
    huses.noArgument (fun n => isHexadecimal.not_isDecimal) _ _, ?_⟩
  exact fun hsame => (huses.same 0 .universe).1 hsame 16 isHexadecimal

end ArenaScript
