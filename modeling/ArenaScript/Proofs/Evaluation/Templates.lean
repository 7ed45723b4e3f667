import ArenaScript.Engine.Operand
import ArenaScript.Proofs.Evaluation.Failures
import ArenaScript.Proofs.Evaluation.ValueCalls
import ArenaScript.Proofs.Types.Deduction

/-!
# Which function template is called

The templates of a name are tried in order.  One whose arguments cannot be
deduced, or whose instance does not accept the arguments of the call, is passed
over; the first whose instance accepts them is called.  But an instance that
cannot be made ends the call: a template that does not admit an explicit
argument, or whose signature does not resolve, is not passed over, and those
after it are not tried.
-/

namespace ArenaScript

open Deduction (Deduced)

def TemplateDef.admitsAll (d : TemplateDef) (explicit : List TemplateArg) :
    Bool :=
  (d.params.zip explicit).all fun (param, arg) => param.admits arg

theorem Deduction.Deduced.takes {d : TemplateDef}
    {explicit targs : List TemplateArg} (h : Deduced d.params explicit targs) :
    d.takes targs = d.admitsAll explicit := by
  obtain ⟨deduced, rfl⟩ := h.explicit_first
  have hlength : explicit.length ≤ d.params.length := by
    have htotal := h.length
    rw [List.length_append] at htotal
    omega
  obtain ⟨front, back, hparams, hfront⟩ : ∃ front back,
    d.params = front ++ back ∧
      front.length = explicit.length :=
    ⟨_, _, (List.take_append_drop explicit.length d.params).symm,
      List.length_take_of_le hlength⟩
  have hback : ((back.zip deduced).all fun (param, arg) => param.admits arg) =
      true := by
    refine List.all_eq_true.2 fun pair hpair => ?_
    obtain ⟨i, hi, hget⟩ := List.mem_iff_getElem.1 hpair
    rw [List.getElem_zip] at hget
    have hi' := hi
    rw [List.length_zip] at hi'
    obtain ⟨param, hparam, hadmits⟩ :=
      h.admitted (explicit.length + i) deduced[i] (Nat.le_add_right _ _) (by
        rw [List.getElem?_append_right (Nat.le_add_right _ _),
          Nat.add_sub_cancel_left]
        exact List.getElem?_eq_getElem (by omega))
    rw [hparams, List.getElem?_append_right (by omega), hfront,
      Nat.add_sub_cancel_left, List.getElem?_eq_getElem (by omega)] at hparam
    cases hparam
    rw [← hget]
    exact hadmits
  have htotal : ((explicit ++ deduced).length == d.params.length) = true :=
    beq_iff_eq.2 h.length
  have hzip : d.params.zip explicit = front.zip explicit := by
    have hsplit : (front ++ back).zip (explicit ++ []) =
        front.zip explicit ++ back.zip [] :=
      List.zip_append hfront
    rwa [List.append_nil, List.zip_nil_right, List.append_nil,
      ← hparams] at hsplit
  rw [TemplateDef.takes, TemplateDef.admitsAll, htotal, Bool.true_and,
    hzip, hparams, List.zip_append hfront, List.all_append, hback,
    Bool.and_true]

def TemplateDef.owner (d : TemplateDef) : Option TypeId :=
  match d.item with
  | .function owner => owner
  | .record _ => none

def Engine.misfit (s : Engine) (template : TemplateId)
    (targs : List TemplateArg) : Failure :=
  (Failure.unknownType (s.renderInstance (s.templates.get template)
    targs)).withHint (quoted (s.templates.get template).name ++ " takes " ++
      toString (s.templates.get template).params.length ++
        " template argument(s)")

namespace Calls

variable {c : Calls} {template : TemplateId} {targs : List TemplateArg}
  {s : Engine}

/-! ## Instances of function templates -/

theorem instantiateFunction_known {id : FunctionId}
    (h : s.templates.instance? template targs = some id) :
    c.instantiateFunction template targs s = .ok id s := by
  unfold instantiateFunction
  rw [Eval.bind_read, h]
  rfl

theorem instantiateFunction_refused
    (hnew : s.templates.instance? template targs = none)
    (hrefused : (s.templates.get template).takes targs = false) :
    c.instantiateFunction template targs s =
      .error (.failed (s.misfit template targs)) s := by
  unfold instantiateFunction
  rw [Eval.bind_read, hnew]
  simp only
  rw [Eval.bind_read, Eval.bind_error (Eval.bindTemplateScope_error hrefused s)]
  rfl

def buildSignature (c : Calls) (template : TemplateId)
    (targs : List TemplateArg) : Eval FunctionId := fun s =>
  Eval.withTree (s.templates.get template).tree
    (c.buildFunction (s.templates.get template).node ⟨s.scopes.size + 1⟩
      (s.templates.get template).owner)
    { s with
      scopes :=
        s.scopes.openInstance (s.templates.get template) targs .function }

/-- Any other instance is built and remembered. -/
theorem instantiateFunction_new
    (hnew : s.templates.instance? template targs = none)
    (htakes : (s.templates.get template).takes targs = true) :
    c.instantiateFunction template targs s = (do
      let id ← c.buildSignature template targs
      modify fun (t : Engine) =>
        { t with templates := t.templates.addInstance template targs id }
      pure id) s := by
  unfold instantiateFunction
  rw [Eval.bind_read, hnew]
  simp only
  rw [Eval.bind_read, Eval.bind_ok (Eval.bindTemplateScope_ok htakes s)]
  have hcreate : Eval.createScope .function (some ⟨s.scopes.size⟩)
      { s with
        scopes := s.scopes.bindTemplate (s.templates.get template) targs } =
      .ok ⟨s.scopes.size + 1⟩
        { s with
          scopes :=
            s.scopes.openInstance (s.templates.get template) targs
              .function } := by
    rw [← ScopeTable.size_bindTemplate s.scopes
      (s.templates.get template) targs]
    rfl
  rw [Eval.bind_ok hcreate]
  rfl

end Calls

/-! ## One template -/

def Engine.deduced? (s : Engine) (site : CallSite) (explicit : List TemplateArg)
    (template : TemplateId) : Option (List TemplateArg) :=
  Deduction.arguments? s.types s.templates template site.args explicit

namespace Calls

/-- The template is passed over: its arguments cannot be deduced, or
its instance does not accept the arguments of the call. -/
inductive Unfit (c : Calls) (site : CallSite) (explicit : List TemplateArg)
    (template : TemplateId) (s : Engine) : Engine → Prop
  | undeduced (hdeduced : s.deduced? site explicit template = none) :
      Unfit c site explicit template s s
  | mismatched {targs : List TemplateArg} {id : FunctionId} {t : Engine}
      (hdeduced : s.deduced? site explicit template = some targs)
      (hinstance : c.instantiateFunction template targs s = .ok id t)
      (hunfit : (t.functions.get id).fits t.types site = false) :
      Unfit c site explicit template s t

structure Fits (c : Calls) (site : CallSite) (explicit : List TemplateArg)
    (template : TemplateId) (s : Engine) (targs : List TemplateArg)
    (id : FunctionId) (t : Engine) : Prop where
  deduced : s.deduced? site explicit template = some targs
  inst : c.instantiateFunction template targs s = .ok id t
  fits : (t.functions.get id).fits t.types site = true

inductive Broken (c : Calls) (site : CallSite) (explicit : List TemplateArg)
    (template : TemplateId) (s : Engine) (targs : List TemplateArg) :
    Stop → Engine → Prop
  | inadmissible (hdeduced : s.deduced? site explicit template = some targs)
      (hnew : s.templates.instance? template targs = none)
      (hrefused : (s.templates.get template).admitsAll explicit = false) :
      Broken c site explicit template s targs
        (.failed (s.misfit template targs)) s
  | unresolved {e : Stop} {t : Engine}
      (hdeduced : s.deduced? site explicit template = some targs)
      (hnew : s.templates.instance? template targs = none)
      (hadmitted : (s.templates.get template).admitsAll explicit = true)
      (hsignature : c.buildSignature template targs s = .error e t) :
      Broken c site explicit template s targs e t

inductive PassedOver (c : Calls) (site : CallSite)
    (explicit : List TemplateArg) :
    List TemplateId → Engine → Engine → Prop
  | nil (s : Engine) : PassedOver c site explicit [] s s
  | cons {template : TemplateId} {rest : List TemplateId} {s t u : Engine}
      (h : Unfit c site explicit template s t)
      (hrest : PassedOver c site explicit rest t u) :
      PassedOver c site explicit (template :: rest) s u

variable {c : Calls} {site : CallSite} {explicit targs : List TemplateArg}
  {template : TemplateId} {before : List TemplateId} {id : FunctionId}
    {s t : Engine} {e : Stop}

namespace Broken

theorem deduced (h : Broken c site explicit template s targs e t) :
    s.deduced? site explicit template = some targs := by
  cases h with
  | inadmissible hdeduced => exact hdeduced
  | unresolved hdeduced => exact hdeduced

theorem stopped (h : Broken c site explicit template s targs e t) :
    c.instantiateFunction template targs s = .error e t := by
  cases h with
  | inadmissible hdeduced hnew hrefused =>
      exact instantiateFunction_refused hnew
        ((Deduced.takes (Deduction.deduced hdeduced)).trans hrefused)
  | unresolved hdeduced hnew hadmitted hsignature =>
      rw [instantiateFunction_new hnew
        ((Deduced.takes (Deduction.deduced hdeduced)).trans hadmitted)]
      exact Eval.bind_error hsignature

theorem of_stopped (hdeduced : s.deduced? site explicit template = some targs)
    (hstopped : c.instantiateFunction template targs s = .error e t) :
    Broken c site explicit template s targs e t := by
  have hnew : s.templates.instance? template targs = none := by
    refine Option.eq_none_iff_forall_ne_some.2 fun id hknown => ?_
    rw [instantiateFunction_known hknown] at hstopped
    cases hstopped
  have htakes := Deduced.takes (Deduction.deduced hdeduced)
  cases hadmitted : (s.templates.get template).admitsAll explicit with
  | false =>
      rw [instantiateFunction_refused hnew (htakes.trans hadmitted)] at hstopped
      cases hstopped
      exact .inadmissible hdeduced hnew hadmitted
  | true =>
      rw [instantiateFunction_new hnew (htakes.trans hadmitted)] at hstopped
      rcases Eval.bind_eq_error hstopped with hsignature | ⟨id, u, -, hrest⟩
      · exact .unresolved hdeduced hnew hadmitted hsignature
      · cases hrest

end Broken

theorem template_cases (c : Calls) (site : CallSite)
    (explicit : List TemplateArg) (template : TemplateId) (s : Engine) :
    (∃ t, Unfit c site explicit template s t) ∨
      (∃ targs id t, Fits c site explicit template s targs id t) ∨
        ∃ targs e t, Broken c site explicit template s targs e t := by
  cases hdeduced : s.deduced? site explicit template with
  | none => exact .inl ⟨s, .undeduced hdeduced⟩
  | some targs =>
      cases hrun : c.instantiateFunction template targs s with
      | error e t => exact .inr (.inr ⟨targs, e, t, .of_stopped hdeduced hrun⟩)
      | ok id t =>
          cases hfits : (t.functions.get id).fits t.types site with
          | false => exact .inl ⟨t, .mismatched hdeduced hrun hfits⟩
          | true => exact .inr (.inl ⟨targs, id, t, hdeduced, hrun, hfits⟩)

/-! ## One after the other -/

section

variable (args : List Value) (rest : List TemplateId)

theorem tryTemplates_unfit (h : Unfit c site explicit template s t) :
    c.tryTemplates site explicit args (template :: rest) s =
      c.tryTemplates site explicit args rest t := by
  rw [tryTemplates, Eval.bind_read]
  cases h with
  | undeduced hdeduced =>
      unfold Engine.deduced? at hdeduced
      rw [hdeduced]
  | mismatched hdeduced hinstance hunfit =>
      unfold Engine.deduced? at hdeduced
      rw [hdeduced]
      simp only
      rw [Eval.bind_ok hinstance, Eval.bind_read, hunfit]
      rfl

theorem tryTemplates_fits (h : Fits c site explicit template s targs id t) :
    c.tryTemplates site explicit args (template :: rest) s =
      (some <$> c.invoke id args) t := by
  have hdeduced := h.deduced
  unfold Engine.deduced? at hdeduced
  rw [tryTemplates, Eval.bind_read, hdeduced]
  simp only
  rw [Eval.bind_ok h.inst, Eval.bind_read, h.fits]
  rfl

theorem tryTemplates_broken (h : Broken c site explicit template s targs e t) :
    c.tryTemplates site explicit args (template :: rest) s = .error e t := by
  have hdeduced := h.deduced
  unfold Engine.deduced? at hdeduced
  rw [tryTemplates, Eval.bind_read, hdeduced]
  simp only
  rw [Eval.bind_error h.stopped]

theorem tryTemplates_append (h : PassedOver c site explicit before s t) :
    c.tryTemplates site explicit args (before ++ rest) s =
      c.tryTemplates site explicit args rest t := by
  induction h with
  | nil => rfl
  | cons h _ ih => rw [List.cons_append, tryTemplates_unfit args _ h, ih]

omit rest in
theorem tryTemplates_none (h : PassedOver c site explicit before s t) :
    c.tryTemplates site explicit args before s = .ok none t := by
  have hrun := tryTemplates_append args [] h
  rw [List.append_nil] at hrun
  rw [hrun]
  rfl

end

/-- The templates end with one that is called, with one that breaks, or are all
passed over. -/
theorem templates_cases (c : Calls) (site : CallSite)
    (explicit : List TemplateArg) (templates : List TemplateId) (s : Engine) :
    (∃ before template after u targs id t,
      templates = before ++ template :: after ∧
        PassedOver c site explicit before s u ∧
          Fits c site explicit template u targs id t) ∨
      (∃ before template after u targs e t,
        templates = before ++ template :: after ∧
        PassedOver c site explicit before s u ∧
          Broken c site explicit template u targs e t) ∨
      ∃ t, PassedOver c site explicit templates s t := by
  induction templates generalizing s with
  | nil => exact .inr (.inr ⟨s, .nil s⟩)
  | cons template rest ih =>
      rcases template_cases c site explicit template s with
        ⟨t, hunfit⟩ | ⟨targs, id, t, hfits⟩ | ⟨targs, e, t, hbroken⟩
      · rcases ih t with
          ⟨before, found, after, u, targs, id, v, rfl, hpassed, hfits⟩ |
            ⟨before, found, after, u, targs, e, v, rfl, hpassed, hbroken⟩ |
              ⟨u, hpassed⟩
        · exact .inl ⟨template :: before, found, after, u, targs, id, v, rfl,
            .cons hunfit hpassed,
            hfits⟩
        · exact .inr
            (.inl ⟨template :: before, found, after, u, targs, e, v, rfl,
              .cons hunfit hpassed, hbroken⟩)
        · exact .inr (.inr ⟨u, .cons hunfit hpassed⟩)
      · exact .inl ⟨[], template, rest, s, targs, id, t, rfl, .nil s, hfits⟩
      · exact .inr
          (.inl ⟨[], template, rest, s, targs, e, t, rfl, .nil s, hbroken⟩)

/-! ## Calls by name -/

def callMethodOrType (c : Calls) (name : String) (args : List Value)
    (seen : Bool) : Eval (Option Value) := do
  let receiver ← implicitReceiver
  let member ← Eval.read fun s =>
    receiver.filter fun receiver =>
      let members := s.membersOf receiver.type
      !(members.findFunction name).isEmpty ||
        !(members.findTemplateFunctions name).isEmpty
  match member with
  | some receiver => c.callMethod receiver name args
  | none =>
      if seen then
        Eval.inspect fun s =>
          .error (Failure.noMatchingOverload name (s.typeNames args))
      else c.callTypeNamed name args

/-- A call by name comes to the function templates in the engine `t`; the flag
tells whether functions or types of the name have been refused. -/
inductive ComesToTemplates (s : Engine) (name : String)
    (explicit : List TemplateArg) (args : List Value) : Bool → Engine → Prop
  | explicit (h : explicit.isEmpty = false) :
      ComesToTemplates s name explicit args false s
  | refused {t : Engine} (h : explicit = [])
      (hvariable : s.lookupVariable name = .ok none)
      (hselect : selectCallee (s.functionCandidates name) args s = .ok none t) :
      ComesToTemplates s name explicit args
        (!(s.functionCandidates name).isEmpty) t

structure TemplatesTried (c : Calls) (name : String)
    (explicit : List TemplateArg) (args : List Value) (seen : Bool) (s : Engine)
    (result : EStateM.Result Stop Engine (Option Value)) : Prop where
  /-- The first template that fits is called. -/
  called : ∀ {before template after u targs id t},
    s.templateFunctionCandidates name = before ++ template :: after →
    PassedOver c (.free (args.map Value.type)) explicit before s u →
    Fits c (.free (args.map Value.type)) explicit template u targs id t →
      result = c.invoke id args t
  /-- One that breaks before ends the call. -/
  ended : ∀ {before template after u targs e t},
    s.templateFunctionCandidates name = before ++ template :: after →
    PassedOver c (.free (args.map Value.type)) explicit before s u →
    Broken c (.free (args.map Value.type)) explicit template u targs e t →
    result = .error e t
  /-- If all are passed over, methods and types of the name are left. -/
  passed : ∀ {t}, PassedOver c (.free (args.map Value.type)) explicit
      (s.templateFunctionCandidates name) s t →
    result = c.callMethodOrType name args
      (seen || !(s.templateFunctionCandidates name).isEmpty) t
  cases :
    (∃ before template after u targs id t,
      s.templateFunctionCandidates name = before ++ template :: after ∧
        PassedOver c (.free (args.map Value.type)) explicit before s u ∧
        Fits c (.free (args.map Value.type)) explicit template u targs id t) ∨
    (∃ before template after u targs e t,
      s.templateFunctionCandidates name = before ++ template :: after ∧
        PassedOver c (.free (args.map Value.type)) explicit before s u ∧
        Broken c (.free (args.map Value.type)) explicit template u targs e t) ∨
    ∃ t, PassedOver c (.free (args.map Value.type)) explicit
      (s.templateFunctionCandidates name) s t

variable {name : String} {args : List Value} {seen : Bool}

theorem callTemplateOrMethod_eq (c : Calls) (name : String)
    (explicit : List TemplateArg) (args : List Value) (seen : Bool)
    (s : Engine) :
    c.callTemplateOrMethod name explicit args seen s =
      (c.tryTemplates (.free (args.map Value.type)) explicit args
          (s.templateFunctionCandidates name) >>= fun found =>
        match found with
        | some result => pure result
        | none => c.callMethodOrType name args
            (seen || !(s.templateFunctionCandidates name).isEmpty)) s := rfl

theorem callNamed_comes (c : Calls)
    (h : ComesToTemplates s name explicit args seen t) :
    c.callNamed name explicit args s =
      c.callTemplateOrMethod name explicit args seen t := by
  unfold callNamed
  cases h with
  | explicit h => rw [if_neg (by rw [h]; exact Bool.false_ne_true)]
  | refused h hvariable hselect =>
      subst h
      simp only [List.isEmpty_nil, if_true]
      rw [Eval.bind_inspect hvariable]
      simp only
      rw [Eval.bind_read, Eval.bind_ok hselect]

theorem bind_invoked {x : Eval (Option (Option Value))}
    {k : Option (Option Value) → Eval (Option Value)}
    (hx : x s = (some <$> c.invoke id args) t)
    (hk : ∀ result, k (some result) = pure result) :
    (x >>= k) s = c.invoke id args t := by
  cases hinvoke : c.invoke id args t with
  | ok result u =>
      have hmap : (some <$> c.invoke id args) t = .ok (some result) u := by
        simp only [Functor.map, EStateM.map, hinvoke]
      rw [Eval.bind_ok (hx.trans hmap), hk]
      rfl
  | error e u =>
      have hmap : (some <$> c.invoke id args) t = .error e u := by
        simp only [Functor.map, EStateM.map, hinvoke]
      exact Eval.bind_error (hx.trans hmap)

/-- The templates of a name are tried in order, and the first that fits is
called, unless one before it breaks. -/
theorem templates_in_order (c : Calls)
    (h : ComesToTemplates s name explicit args seen t) :
    TemplatesTried c name explicit args seen t
      (c.callNamed name explicit args s) := by
  rw [callNamed_comes c h, callTemplateOrMethod_eq]
  refine ⟨fun hcandidates hpassed hfits => ?_,
    fun hcandidates hpassed hbroken => ?_,
    fun hpassed => ?_, templates_cases c _ explicit _ t⟩
  · rename_i before template after u targs id v
    rw [hcandidates]
    have hrun : c.tryTemplates (.free (args.map Value.type)) explicit args
        (before ++ template :: after) t = (some <$> c.invoke id args) v :=
      (tryTemplates_append args _ hpassed).trans
        (tryTemplates_fits args after hfits)
    exact bind_invoked hrun fun _ => rfl
  · rename_i before template after u targs e v
    rw [hcandidates]
    have hrun : c.tryTemplates (.free (args.map Value.type)) explicit args
        (before ++ template :: after) t = .error e v :=
      (tryTemplates_append args _ hpassed).trans
        (tryTemplates_broken args after hbroken)
    rw [Eval.bind_error hrun]
  · rw [Eval.bind_ok (tryTemplates_none args hpassed)]

/-! ### Two templates of one name -/

namespace Pairs

open Alias (leaf define andThen reachable_foldl answer)

def node (kind : NodeKind) (text : String) (children : List Node) : Node :=
  ⟨kind, text, .dummy, 0, children⟩

def returning (templateParam : Node) (params : List (String × String))
    (ret literal : String) : Node :=
  node .function "f" [
    node .templateParameters "" [templateParam],
    node .parameters ""
      (params.map fun (name, type) =>
        node .parameter name [leaf .typeName type]),
    leaf .typeName ret,
    node .block "" [node .returnStmt "" [leaf .integerLiteral literal]]]

def typeParam : Node := leaf .templateParameter "T"

def intParam : Node := node .templateParameter "T" [leaf .typeName "Int32"]

def declaring (templates : List Node) : Engine :=
  (templates ++
    [define "a" (leaf .integerLiteral "7"),
      define "b" (leaf .boolLiteral "true")]).foldl
    andThen (.new { stackCapacity := 64 } ⟨.buffer, ""⟩ none [])

theorem reachable (templates : List Node) : Reachable (declaring templates) :=
  reachable_foldl _ (.new _ _ _ _ (by decide))

def a : Value := ⟨.int32, 8⟩

def b : Value := ⟨.bool, 12⟩

/-- `f<T>(x: T, y: T)` and `f<T>(x: T, y: Bool)` -/
def conflicting : Engine :=
  declaring [returning typeParam [("x", "T"), ("y", "T")] "Int32" "1",
    returning typeParam [("x", "T"), ("y", "Bool")] "Int32" "2"]

/-- `f<T>(x: Int32)` and `f<T: Int32>(x: Int32)` -/
def kinds : Engine :=
  declaring [returning typeParam [("x", "Int32")] "Int32" "1",
    returning intParam [("x", "Int32")] "Int32" "2"]

/-- `f<T>(x: T): Missing` and `f<T>(x: T): Int32` -/
def unresolvable : Engine :=
  declaring [returning typeParam [("x", "T")] "Missing" "1",
    returning typeParam [("x", "T")] "Int32" "2"]

theorem second_fits (s : Engine) (explicit : List TemplateArg)
    (args : List Value) (arg : TemplateArg) (id : FunctionId)
    (hdeduced : s.deduced? (.free (args.map Value.type)) explicit ⟨1⟩ =
      some [arg])
    (hinstance : ((ofFuel 20).instantiateFunction ⟨1⟩ [arg]).value? s = some id)
    (hfits : ((((ofFuel 20).instantiateFunction ⟨1⟩ [arg]).after
      s).functions.get id).fits
      (((ofFuel 20).instantiateFunction ⟨1⟩ [arg]).after s).types
        (.free (args.map Value.type)) = true) :
    Fits (ofFuel 20) (.free (args.map Value.type)) explicit ⟨1⟩ s [arg] id
      (((ofFuel 20).instantiateFunction ⟨1⟩ [arg]).after s) :=
  ⟨hdeduced, Eval.eq_ok_of_value? hinstance, hfits⟩

end Pairs

open Pairs in
theorem templates_in_order_conflicting :
    Reachable conflicting ∧
      ComesToTemplates conflicting "f" [.type .int32] [a, b] false conflicting ∧
      ∃ id t, Unfit (ofFuel 20) (.free [.int32, .bool]) [.type .int32]
        ⟨0⟩ conflicting conflicting ∧
        Fits (ofFuel 20) (.free [.int32, .bool]) [.type .int32] ⟨1⟩ conflicting
          [.type .int32] id t ∧
        (ofFuel 20).callNamed "f" [.type .int32] [a, b] conflicting =
          (ofFuel 20).invoke id [a, b] t ∧
        Alias.answer ((ofFuel 20).callNamed "f" [.type .int32]
          [a, b] conflicting) = some 2 := by
  have hcomes : ComesToTemplates conflicting "f" [.type .int32]
      [a, b] false conflicting :=
    .explicit rfl
  have hunfit : Unfit (ofFuel 20) (.free [.int32, .bool]) [.type .int32]
      ⟨0⟩ conflicting
      conflicting := .undeduced (by decide +kernel)
  have hfits := second_fits conflicting [.type .int32] [a, b] (.type .int32) ⟨2⟩
    (by decide +kernel) (by decide +kernel) (by decide +kernel)
  have hcandidates : conflicting.templateFunctionCandidates "f" =
      [⟨0⟩] ++ ⟨1⟩ :: [] := by
    decide +kernel
  exact ⟨reachable _, hcomes, _, _, hunfit, hfits,
    (templates_in_order (ofFuel 20) hcomes).called hcandidates
      (.cons hunfit (.nil _)) hfits,
    by decide +kernel⟩

open Pairs in
/-- The second template fits either call, but the first one ends it: a type is
expected for the explicit argument `3`, and there is no type `Missing`. -/
theorem template_not_passed_over :
    (Reachable kinds ∧ ComesToTemplates kinds "f" [.int 3] [a] false kinds ∧
      kinds.templateFunctionCandidates "f" = [⟨0⟩, ⟨1⟩] ∧
      (∃ id t, Fits (ofFuel 20) (.free [.int32]) [.int 3] ⟨1⟩ kinds
        [.int 3] id t) ∧
      ((ofFuel 20).callNamed "f" [.int 3] [a]).fault? kinds =
        some (.unknownType "f<3>")) ∧
    Reachable unresolvable ∧
    ComesToTemplates unresolvable "f" [] [a] false unresolvable ∧
      unresolvable.templateFunctionCandidates "f" = [⟨0⟩, ⟨1⟩] ∧
      (∃ id t, Fits (ofFuel 20) (.free [.int32]) [] ⟨1⟩ unresolvable
        [.type .int32] id t) ∧
      ((ofFuel 20).callNamed "f" [] [a]).fault? unresolvable =
        some (.unknownType "Missing") := by
  have hcandidates : unresolvable.functionCandidates "f" = [] := by
    decide +kernel
  have hcomes : ComesToTemplates unresolvable "f" [] [a]
      (!(unresolvable.functionCandidates "f").isEmpty) unresolvable :=
    .refused rfl (by decide +kernel) (by rw [hcandidates]; rfl)
  rw [hcandidates] at hcomes
  exact ⟨⟨reachable _, .explicit rfl, by decide +kernel,
      ⟨_, _, second_fits kinds [.int 3] [a] (.int 3) ⟨2⟩ (by decide +kernel)
        (by decide +kernel) (by decide +kernel)⟩, by decide +kernel⟩,
    reachable _, hcomes, by decide +kernel,
    ⟨_, _, second_fits unresolvable [] [a] (.type .int32) ⟨2⟩
      (by decide +kernel)
      (by decide +kernel) (by decide +kernel)⟩, by decide +kernel⟩

end Calls

end ArenaScript
