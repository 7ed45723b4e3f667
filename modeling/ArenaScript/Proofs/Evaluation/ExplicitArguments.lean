import ArenaScript.Proofs.Evaluation.Templates

/-!
# Explicit template arguments

A free call with explicit template arguments tries the templates of the name
with them, and the instance that it runs is one for arguments that begin with
them.  But they go no further.  Where no template takes them, a method of the
innermost receiver is called without them, and so is a type of the name.  A
member is looked for by its name alone, so a method call with explicit arguments
is the call without them, and the instance that it runs is the one that has been
deduced.
-/

namespace ArenaScript

namespace Calls

variable {c : Calls} {site : CallSite} {explicit targs : List TemplateArg}
  {template : TemplateId} {templates : List TemplateId} {full args : List Value}
    {name : String} {node : Node} {id : FunctionId} {s t : Engine} {e : Stop}

/-! ## The instance that is run -/

theorem instantiateFunction_remembered
    (h : c.instantiateFunction template targs s = .ok id t) :
    t.templates.instance? template targs = some id := by
  cases hknown : s.templates.instance? template targs with
  | some known =>
      rw [instantiateFunction_known hknown] at h
      cases h
      exact hknown
  | none =>
      cases htakes : (s.templates.get template).takes targs with
      | false =>
          rw [instantiateFunction_refused hknown htakes] at h
          cases h
      | true =>
          rw [instantiateFunction_new hknown htakes] at h
          obtain ⟨built, u, -, h⟩ := Eval.bind_eq_ok h
          cases h
          exact List.lookup_cons_self

/-- The function is the instance of the first of the templates that fits a call,
for arguments that begin with the explicit ones. -/
structure Picked (c : Calls) (site : CallSite) (explicit : List TemplateArg)
    (templates : List TemplateId) (s : Engine) (template : TemplateId)
    (targs : List TemplateArg) (id : FunctionId) (t : Engine) : Prop where
  first : ∃ before after u, templates = before ++ template :: after ∧
    PassedOver c site explicit before s u ∧
    Fits c site explicit template u targs id t
  remembered : t.templates.instance? template targs = some id
  honoured : explicit <+: targs

theorem Fits.picked {before after : List TemplateId} {u : Engine}
    (hpassed : PassedOver c site explicit before s u)
    (h : Fits c site explicit template u targs id t) :
    Picked c site explicit (before ++ template :: after) s template
      targs id t :=
  ⟨⟨before, after, u, rfl, hpassed, h⟩, instantiateFunction_remembered h.inst,
    (Deduction.deduced h.deduced).explicit_first⟩

theorem tryTemplates_cases (c : Calls) (site : CallSite)
    (explicit : List TemplateArg) (full : List Value)
    (templates : List TemplateId) (s : Engine) :
    (∃ template targs id t,
      Picked c site explicit templates s template targs id t ∧
        c.tryTemplates site explicit full templates s =
          (some <$> c.invoke id full) t) ∨
      (∃ e t, c.tryTemplates site explicit full templates s = .error e t) ∨
      ∃ t, PassedOver c site explicit templates s t ∧
        c.tryTemplates site explicit full templates s = .ok none t := by
  rcases templates_cases c site explicit templates s with
    ⟨before, template, after, u, targs, id, t, rfl, hpassed, hfits⟩ |
      ⟨before, template, after, u, targs, e, t, rfl, hpassed, hbroken⟩ |
        ⟨t, hpassed⟩
  · exact .inl ⟨template, targs, id, t, hfits.picked hpassed,
      (tryTemplates_append full _ hpassed).trans
        (tryTemplates_fits full after hfits)⟩
  · exact .inr (.inl ⟨e, t,
      (tryTemplates_append full _ hpassed).trans
        (tryTemplates_broken full after hbroken)⟩)
  · exact .inr (.inr ⟨t, hpassed, tryTemplates_none full hpassed⟩)

/-! ## Method calls -/

inductive MethodCall (c : Calls) (receiver : Value) (name : String)
    (args : List Value) (s : Engine) :
    EStateM.Result Stop Engine (Option Value) → Prop
  | function {t : Engine} {id : FunctionId}
      (hready : Eval.ensureInitialized receiver.type s = .ok () t)
      (hfunction : t.functions.resolve t.types
        ((t.membersOf receiver.type).findFunction name)
          (.member ((receiver :: args).map Value.type)) = some id) :
      MethodCall c receiver name args s (c.invoke id (receiver :: args) t)
  | deduced {t u : Engine} {template : TemplateId} {targs : List TemplateArg}
      {id : FunctionId}
      (hready : Eval.ensureInitialized receiver.type s = .ok () t)
      (hpicked : Picked c (.member ((receiver :: args).map Value.type)) []
        ((t.membersOf receiver.type).findTemplateFunctions name) t template
          targs id u) :
      MethodCall c receiver name args s (c.invoke id (receiver :: args) u)
  | failed (e : Stop) (t : Engine) :
      MethodCall c receiver name args s (.error e t)

theorem callMethod_cases (c : Calls) (receiver : Value) (name : String)
    (args : List Value) (s : Engine) :
    MethodCall c receiver name args s (c.callMethod receiver name args s) := by
  unfold callMethod
  cases hready : Eval.ensureInitialized receiver.type s with
  | error e t =>
      rw [Eval.bind_error hready]
      exact .failed e t
  | ok _ t =>
      rw [Eval.bind_ok hready, Eval.bind_read, Eval.bind_read]
      cases hfunction :
        t.functions.resolve t.types
          ((t.membersOf receiver.type).findFunction name)
        (.member ((receiver :: args).map Value.type)) with
      | some id => exact .function hready hfunction
      | none =>
          rcases tryTemplates_cases c
            (.member ((receiver :: args).map Value.type)) []
            (receiver :: args)
              ((t.membersOf receiver.type).findTemplateFunctions name) t with
            ⟨template, targs, id, u, hpicked, hrun⟩ | ⟨e, u, hrun⟩ |
              ⟨u, -, hrun⟩
          · simp only
            rw [bind_invoked hrun fun _ => rfl]
            exact .deduced hready hpicked
          · simp only
            rw [Eval.bind_error hrun]
            exact .failed e u
          · simp only
            rw [Eval.bind_ok hrun]
            exact .failed _ u

/-! ## Free calls -/

/-- The name stands for the type, as a template parameter or as the name of a
type. -/
def NamesType (s : Engine) (name : String) (type : TypeId) : Prop :=
  (∃ valueType, s.scopes.findTemplateParam s.currentScope name =
    some ⟨.type type, valueType⟩) ∨
    s.scopes.resolveTypeName s.currentScope name = some type

inductive FreeCall (c : Calls) (name : String) (explicit : List TemplateArg)
    (args : List Value) (s : Engine) :
    EStateM.Result Stop Engine (Option Value) → Prop
  | honoured {template : TemplateId} {targs : List TemplateArg}
      {id : FunctionId} {t : Engine}
      (hpicked : Picked c (.free (args.map Value.type)) explicit
        (s.templateFunctionCandidates name) s template targs id t) :
      FreeCall c name explicit args s (c.invoke id args t)
  | failed (e : Stop) (t : Engine) :
      FreeCall c name explicit args s (.error e t)
  | method {receiver : Value} {t : Engine}
      {result : EStateM.Result Stop Engine (Option Value)}
      (hpassed : PassedOver c (.free (args.map Value.type)) explicit
        (s.templateFunctionCandidates name) s t)
      (hreceiver : implicitReceiver t = .ok (some receiver) t)
      (hmethod : MethodCall c receiver name args t result) :
      FreeCall c name explicit args s result
  | constructed {type : TypeId} (hnone : s.templateFunctionCandidates name = [])
      (hnames : NamesType s name type) :
      FreeCall c name explicit args s ((some <$> c.constructNew type args) s)

theorem callTypeNamed_cases (c : Calls) (name : String) (args : List Value)
    (s : Engine) :
    (∃ type, NamesType s name type ∧
        c.callTypeNamed name args s = (some <$> c.constructNew type args) s) ∨
      ∃ e, c.callTypeNamed name args s = .error e s := by
  unfold callTypeNamed
  rw [Eval.currentScope, Eval.bind_read, Eval.bind_read]
  rcases hparam : s.scopes.findTemplateParam s.currentScope name with _ |
    ⟨type | n, valueType⟩
  case some.type => exact .inl ⟨type, .inl ⟨valueType, hparam⟩, rfl⟩
  all_goals
    cases hfound : s.scopes.resolveTypeName s.currentScope name with
    | some type =>
        exact .inl
          ⟨type, .inr hfound, (Eval.bind_read _ _ s).trans (by rw [hfound])⟩
    | none => exact .inr ⟨_, (Eval.bind_read _ _ s).trans (by rw [hfound]; rfl)⟩

theorem callNamed_free (c : Calls) (name : String) (args : List Value)
    (s : Engine) (h : explicit.isEmpty = false) :
    FreeCall c name explicit args s (c.callNamed name explicit args s) := by
  obtain ⟨hcalled, hended, hpassed, hcases⟩ := templates_in_order c
    (.explicit h : ComesToTemplates s name explicit args false s)
  rcases hcases with
    ⟨before, template, after, u, targs, id, t, hcandidates, hbefore, hfits⟩ |
    ⟨before, template, after, u, targs, e, t, hcandidates, hbefore, hbroken⟩ |
      ⟨t, hall⟩
  · rw [hcalled hcandidates hbefore hfits]
    exact .honoured (hcandidates ▸ hfits.picked hbefore)
  · rw [hended hcandidates hbefore hbroken]
    exact .failed e t
  · rw [hpassed hall]
    unfold callMethodOrType
    cases hreceiver : implicitReceiver t with
    | error e u =>
        rw [Eval.bind_error hreceiver]
        exact .failed e u
    | ok receiver u =>
        obtain rfl : u = t := by
          unfold implicitReceiver Eval.inspect at hreceiver
          split at hreceiver
          · cases hreceiver
            rfl
          · cases hreceiver
        rw [Eval.bind_ok hreceiver, Eval.bind_read]
        generalize hmember : Option.filter _ receiver = member
        cases member with
        | some found =>
            obtain ⟨rfl, -⟩ := Option.filter_eq_some_iff.1 hmember
            exact .method hall hreceiver (callMethod_cases c found name args u)
        | none =>
            cases hcandidates : s.templateFunctionCandidates name with
            | cons template rest => exact .failed _ u
            | nil =>
                rw [hcandidates] at hall
                cases hall
                have htype :
                    FreeCall c name explicit args s
                      (c.callTypeNamed name args s) := by
                  rcases callTypeNamed_cases c name args s with
                    ⟨type, hnames, hrun⟩ | ⟨e, hrun⟩
                  · rw [hrun]
                    exact .constructed hcandidates hnames
                  · rw [hrun]
                    exact .failed e s
                exact htype

/-! ## Callees with explicit arguments -/

theorem map_eq_ok {α β : Type} {x : Eval α} {f : α → β} {b : β}
    (h : (f <$> x) s = .ok b t) : ∃ a, x s = .ok a t ∧ b = f a := by
  cases hx : x s with
  | ok a u =>
      simp only [Functor.map, EStateM.map, hx] at h
      cases h
      exact ⟨a, rfl, rfl⟩
  | error e u =>
      simp only [Functor.map, EStateM.map, hx] at h
      cases h

theorem mapM_length {α β : Type} {f : α → Eval β} {l : List α} {out : List β}
    (h : l.mapM f s = .ok out t) : out.length = l.length := by
  induction l generalizing s out with
  | nil =>
      cases h
      rfl
  | cons a l ih =>
      rw [List.mapM_cons] at h
      obtain ⟨b, u, -, h⟩ := Eval.bind_eq_ok h
      obtain ⟨rest, v, hrest, h⟩ := Eval.bind_eq_ok h
      cases h
      rw [List.length_cons, List.length_cons, ih hrest]

theorem memberFrom_ok {receiver : Value} {depth : Nat} {callee : Operand}
    (h : memberFrom name receiver depth s = .ok callee t) :
    (∃ value, callee = .value value) ∨
    ∃ found, callee = .method found name := by
  induction depth generalizing receiver s with
  | zero => cases h
  | succ depth ih =>
      unfold memberFrom at h
      rw [Eval.bind_read] at h
      generalize (s.types.get receiver.type).structural?.bind (·.field? name) =
        field at h
      cases field with
      | some field =>
          cases h
          exact .inl ⟨_, rfl⟩
      | none =>
          obtain ⟨_, u, -, h⟩ := Eval.bind_eq_ok h
          rw [Eval.bind_read] at h
          split at h
          · cases h
            exact .inr ⟨_, rfl⟩
          · rw [Eval.bind_read] at h
            split at h
            · obtain ⟨target, v, -, h⟩ := Eval.bind_eq_ok h
              exact ih h
            · cases h

theorem resolveTemplateName_ok {callee : Operand}
    (h : c.resolveTemplateName node s = .ok callee t) :
    (∃ type, ((TemplateKind.ofName? node.text).isSome ||
        (s.scopes.findTemplateType s.currentScope node.text).isSome) = true ∧
        c.resolveType node s.currentScope s = .ok type t ∧
          callee = .type type) ∨
      ∃ explicit, node.children.mapM (c.resolveTemplateArg s.currentScope) s =
        .ok explicit t ∧
        callee = .functions node.text explicit := by
  unfold resolveTemplateName at h
  rw [Eval.currentScope, Eval.bind_read, Eval.bind_read] at h
  split at h
  · rename_i htemplate
    obtain ⟨type, htype, rfl⟩ := map_eq_ok h
    exact .inl ⟨type, htemplate, htype, rfl⟩
  · obtain ⟨explicit, hexplicit, rfl⟩ := map_eq_ok h
    exact .inr ⟨explicit, hexplicit, rfl⟩

inductive Called (c : Calls) (node : Node) (args : List Value) (s : Engine) :
    EStateM.Result Stop Engine (Option Value) → Prop
  | constructed {type : TypeId} {t : Engine}
      (htemplate : ((TemplateKind.ofName? node.text).isSome ||
        (s.scopes.findTemplateType s.currentScope node.text).isSome) = true)
      (htype : c.resolveType node s.currentScope s = .ok type t) :
      Called c node args s ((some <$> c.constructNew type args) t)
  | byName {explicit : List TemplateArg} {t : Engine}
      {result : EStateM.Result Stop Engine (Option Value)}
      (hexplicit : node.children.mapM (c.resolveTemplateArg s.currentScope) s =
        .ok explicit t) (hlength : explicit.length = node.children.length)
      (hcall : FreeCall c node.text explicit args t result) :
      Called c node args s result
  | failed (e : Stop) (t : Engine) : Called c node args s (.error e t)

structure ExplicitCallee (c : Calls) (node : Node) : Prop where
  /-- Called by itself, it runs an instance for the explicit arguments, unless
  it calls a method or makes a value of a type. -/
  free : ∀ args s, Called c node args s (c.callOperand (.pending node) args s)
  /-- As a member, it is what the name without the arguments is. -/
  bare : ∀ (left : Operand) (other : Node), other.text = node.text →
    c.memberAccess left (.pending node) = c.memberAccess left (.pending other)
  /-- If it is not a field, a call of it knows nothing of the arguments. -/
  member : ∀ left s callee t, c.memberAccess left (.pending node) s =
    .ok callee t →
    (∃ value, callee = .value value) ∨ ∃ receiver,
      callee = .method receiver node.text ∧
      ∀ args u,
        MethodCall c receiver node.text args u (c.callOperand callee args u)

/-- Free calls honour explicit arguments, method calls do not. -/
theorem explicit_arguments (c : Calls) (hkind : node.kind = .typeName)
    (hargs : node.children.isEmpty = false) : ExplicitCallee c node := by
  refine ⟨fun args s => ?_, fun left other htext => ?_,
    fun left s callee t h => ?_⟩
  · have hcall : c.callOperand (.pending node) args s =
        (c.resolveTemplateName node >>= fun callee =>
          c.callResolved callee args) s := by
      simp only [callOperand, resolveOperand, hkind, hargs]
      rfl
    rw [hcall]
    cases hrun : c.resolveTemplateName node s with
    | error e t =>
        rw [Eval.bind_error hrun]
        exact .failed e t
    | ok callee t =>
        rw [Eval.bind_ok hrun]
        rcases resolveTemplateName_ok hrun with ⟨type, htemplate, htype, rfl⟩ |
          ⟨explicit, hexplicit, rfl⟩
        · exact .constructed htemplate htype
        · have hlength := mapM_length hexplicit
          have hsome : explicit.isEmpty = false := by
            cases hchildren : node.children with
            | nil => simp only [hchildren,
              List.isEmpty_nil] at hargs; cases hargs
            | cons child rest =>
                rw [hchildren] at hlength
                exact List.isEmpty_eq_false_iff.2
                  (List.ne_nil_of_length_eq_add_one hlength)
          exact .byName hexplicit hlength
            (callNamed_free c node.text args t hsome)
  · simp only [memberAccess, htext]
  · obtain ⟨receiver, u, -, hmember⟩ := Eval.bind_eq_ok h
    rcases memberFrom_ok hmember with hvalue | ⟨found, rfl⟩
    · exact .inl hvalue
    · exact .inr
        ⟨found, rfl, fun args u => callMethod_cases c found node.text args u⟩

/-! ### The identity as a function and as a method -/

namespace Identity

open Alias (leaf define andThen reachable_foldl answer)
open Pairs (typeParam)

def identity (name : String) : Node :=
  Pairs.node .function name [
    Pairs.node .templateParameters "" [typeParam],
    Pairs.node .parameters "" [Pairs.node .parameter "x" [leaf .typeName "T"]],
    leaf .typeName "T",
    Pairs.node .block "" [Pairs.node .returnStmt "" [leaf .identifier "x"]]]

def explicitly (name arg : String) : Node :=
  Pairs.node .typeName name [leaf .typeName arg]

def call (callee : List Node) (arg : String) : Node :=
  Pairs.node .expression ""
    (callee ++
      [Pairs.node .call "" [Pairs.node .expression "" [leaf .identifier arg]]])

/-- `class C { function f<T>(x: T): T { return x }`
`function m(x: Int32): Int32 { return f<Int64>(x) } }` -/
def record : Node :=
  Pairs.node .classDecl "C" [identity "f",
    Pairs.node .function "m" [
      Pairs.node .parameters ""
        [Pairs.node .parameter "x" [leaf .typeName "Int32"]],
      leaf .typeName "Int32",
      Pairs.node .block ""
        [Pairs.node .returnStmt "" [call [explicitly "f" "Int64"] "x"]]]]

def engine : Engine :=
  [record, identity "g", define "a" (leaf .integerLiteral "7"),
    define "o" (leaf .typeName "C")].foldl andThen
      (.new { stackCapacity := 128 } ⟨.buffer, ""⟩ none [])

theorem reachable : Reachable engine :=
  reachable_foldl _ (.new _ _ _ _ (by decide))

def a : Value := ⟨.int32, 8⟩

def valueOf (node : Node) : Eval (Option Value) :=
  some <$> (ofFuel 30).evaluate node

/-- `o.f<Int64>(a)`, `o.m(a)` and `g<Int64>(a)` -/
def ofMember : Node :=
  call [leaf .identifier "o", leaf .operator ".", explicitly "f" "Int64"] "a"

def ofSibling : Node :=
  call [leaf .identifier "o", leaf .operator ".", leaf .identifier "m"] "a"

def ofFunction : Node := call [explicitly "g" "Int64"] "a"

def instances (s : Engine) : Bool × Bool :=
  ((s.templates.instance? ⟨0⟩ [.type .int32]).isSome,
    (s.templates.instance? ⟨0⟩ [.type .int64]).isSome)

end Identity

open Identity in
theorem explicit_arguments_identity :
    (explicitly "g" "Int32").kind = .typeName ∧
    (explicitly "g" "Int32").children.isEmpty = false ∧
      ExplicitCallee (ofFuel 30) (explicitly "g" "Int32") ∧
      Alias.answer ((ofFuel 30).callOperand (.pending (explicitly "g" "Int32"))
        [a] engine) = some 7 :=
  ⟨rfl, rfl, explicit_arguments (ofFuel 30) rfl rfl, by decide +kernel⟩

open Identity in
/-- The argument `a` is an `Int32`, so no call for `Int64` can succeed, and that
of `g` does not.  The method calls run the instance for `Int32`: the first one
makes no other, the second one makes that for `Int64`, passes it over and calls
the method without the argument. -/
theorem explicit_arguments_dropped :
    Reachable engine ∧ instances engine = (false, false) ∧
      Alias.answer (valueOf ofMember engine) = some 7 ∧
      instances ((valueOf ofMember).after engine) = (true, false) ∧
      Alias.answer (valueOf ofSibling engine) = some 7 ∧
      instances ((valueOf ofSibling).after engine) = (true, true) ∧
      (valueOf ofFunction).fault? engine =
        some (.noMatchingOverload "g" "Int32") :=
  ⟨reachable, by decide +kernel⟩

end Calls

end ArenaScript
