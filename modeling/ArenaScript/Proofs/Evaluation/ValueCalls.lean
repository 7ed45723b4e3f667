import Mathlib.Data.List.Basic
import ArenaScript.Proofs.Evaluation.Reachable

/-!
# Calls through values

A function can be called by its name, or through a value that stands for it.
The first way asks whether the signature fits the arguments, the second one only
whether there are enough of them.  Where the signature fits, both ways are the
same call; where it does not, the first is refused before anything happens, and
the second runs the function all the same, without the arguments too many.
-/

namespace ArenaScript

variable {s : Engine} {value : Value} {args full : List Value} {id : FunctionId}
  {name : String}

namespace Engine

/-- A call of `value` with `args` is meant for function `id` with the arguments
`full`: a method is given its receiver first. -/
inductive Targets (s : Engine) (value : Value) (args : List Value) :
    FunctionId → List Value → Prop
  | function {v : Value} {raw : Nat} {id : FunctionId}
      (hvalue : s.stripRef value = .ok v) (htype : v.type = .function)
      (hraw : s.arena.readWord v.addr = .ok raw)
      (hid : s.functions.checked? raw = some id) : Targets s value args id args
  | method {v : Value} {receiver raw : Nat} {id : FunctionId} {owner : TypeId}
      (hvalue : s.stripRef value = .ok v) (htype : v.type = .method)
      (hreceiver : s.arena.readWord v.addr = .ok receiver)
      (hraw : s.arena.readWord (Word.add v.addr 8) = .ok raw)
      (hid : s.functions.checked? raw = some id)
      (howner : (s.functions.get id).owner = some owner) :
      Targets s value args id (⟨owner, receiver⟩ :: args)

structure OnlyMeans (s : Engine) (name : String) (id : FunctionId) : Prop where
  free : s.lookupVariable name = .ok none
  functions : s.functionCandidates name = [.function id]
  templates : s.templateFunctionCandidates name = []
  outside : s.currentCall?.bind CallRecord.owner = none

def fitted (s : Engine) (id : FunctionId) (args : List Value) : Bool :=
  (s.functions.get id).fits s.types (.free (args.map Value.type))

def refusal (s : Engine) (name : String) (args : List Value) : Stop :=
  .failed (Failure.noMatchingOverload name (s.typeNames args))

end Engine

/-! ## By name -/

theorem Function.fits_free_of_member {types : TypeTable} {f : Function}
    {args : List TypeId} (h : f.fits types (.member args) = true) :
    f.fits types (.free args) = true := by
  simp only [fits, CallSite.member, CallSite.free, Bool.and_eq_true] at h ⊢
  exact ⟨⟨⟨rfl, h.1.1.2⟩, h.1.2⟩, h.2⟩

theorem FunctionTable.resolve_single (functions : FunctionTable)
    (types : TypeTable) (id : FunctionId) (site : CallSite) :
    functions.resolve types [id] site =
      if (functions.get id).fits types site then some id else none := by
  rw [resolve, List.find?_singleton]

namespace Calls

theorem callOverloads_single (c : Calls) (s : Engine) (name : String)
    (id : FunctionId) (args : List Value) : c.callOverloads name [id] args s =
      if s.fitted id args then c.invoke id args s else
        .error (s.refusal name args) s := by
  unfold callOverloads
  rw [Eval.bind_read, FunctionTable.resolve_single,
    FunctionTable.resolve_single]
  by_cases hfree : s.fitted id args = true
  · rw [if_pos hfree]
    simp only [Engine.fitted] at hfree
    rw [if_pos hfree]
    rfl
  · have hmember := fun h => hfree (Function.fits_free_of_member h)
    rw [if_neg hfree]
    simp only [Engine.fitted] at hfree
    rw [if_neg hfree, if_neg hmember]
    rfl

theorem selectCallee_single (s : Engine) (id : FunctionId) (args : List Value) :
    selectCallee [.function id] args s =
      .ok (if s.fitted id args then some (.function id) else none) s := by
  unfold selectCallee
  by_cases hfits : s.fitted id args = true
  · have hfirst : firstAccepting args [.function id] s =
        .ok (some (.function id, [])) s := by
      unfold firstAccepting accepts
      rw [Eval.bind_read]
      simp only [Engine.fitted] at hfits
      rw [if_pos hfits]
      rfl
    rw [if_pos hfits, Eval.bind_ok hfirst]
    rfl
  · have hfirst : firstAccepting args [.function id] s = .ok none s := by
      unfold firstAccepting accepts
      rw [Eval.bind_read]
      simp only [Engine.fitted] at hfits
      rw [if_neg hfits]
      rfl
    rw [if_neg hfits, Eval.bind_ok hfirst]
    rfl

theorem implicitReceiver_outside
    (h : s.currentCall?.bind CallRecord.owner = none) :
    implicitReceiver s = .ok none s := by
  simp only [implicitReceiver, Eval.inspect, h]

theorem callNamed_onlyMeans (c : Calls) (h : s.OnlyMeans name id)
    (args : List Value) :
    c.callNamed name [] args s =
      if s.fitted id args then c.invoke id args s else
        .error (s.refusal name args) s := by
  have hselect := selectCallee_single s id args
  unfold callNamed
  simp only [List.isEmpty_nil, if_true]
  rw [Eval.bind_inspect h.free]
  simp only
  rw [Eval.bind_read, h.functions, Eval.bind_ok hselect]
  by_cases hfits : s.fitted id args = true
  · rw [if_pos hfits, if_pos hfits]
    rfl
  · rw [if_neg hfits, if_neg hfits]
    simp only [callTemplateOrMethod]
    rw [Eval.bind_read, h.templates]
    have htry : c.tryTemplates (.free (args.map Value.type)) [] args [] s =
        .ok none s := rfl
    rw [Eval.bind_ok htry]
    simp only
    rw [Eval.bind_ok (implicitReceiver_outside h.outside)]
    rfl

/-! ## Through a value -/

theorem callValue_targets (c : Calls) (h : s.Targets value args id full) :
    c.callValue value args s = c.invoke id full s := by
  simp only [callValue, Eval.stripRef]
  cases h with
  | function hvalue htype hraw hid =>
      rw [Eval.bind_inspect hvalue]
      simp only [htype, if_true]
      rw [Eval.bind_inspect hraw, Eval.bind_read, hid]
  | method hvalue htype hreceiver hraw hid howner =>
      have hne : ¬ TypeId.method = TypeId.function := by decide
      rw [Eval.bind_inspect hvalue]
      simp only [htype, if_neg hne, if_true]
      rw [Eval.bind_inspect hreceiver, Eval.bind_inspect hraw,
        Eval.bind_read, hid]
      simp only
      rw [Eval.bind_read, howner]

theorem runBody_take (c : Calls) (node : Node) (params : List Param)
    (args : List Value) :
    c.runBody node params (args.take params.length) =
      c.runBody node params args := by
  have hzip : params.zip (args.take params.length) = params.zip args := by
    induction params generalizing args with
    | nil => simp
    | cons param params ih =>
        cases args with
        | nil => simp
        | cons arg args => simp [ih]
  simp only [runBody, hzip]

theorem invokeInterpreted_take (c : Calls) (id : FunctionId) (f : Function)
    (tree : TreeId) (node : Node) (scope : ScopeId) (args : List Value) :
    c.invokeInterpreted id f tree node scope (args.take f.fixedParams.length) =
      c.invokeInterpreted id f tree node scope args := by
  simp only [invokeInterpreted, runBody_take]

theorem invokeStep_short (c : Calls) {args : List Value}
    (h : args.length < (s.functions.get id).fixedParams.length) :
    c.invokeStep id args s =
      .error (s.refusal (s.functions.get id).name args) s := by
  unfold invokeStep
  rw [Eval.bind_read, if_pos h]
  rfl

theorem invokeStep_interpreted (c : Calls) {args : List Value} {tree : TreeId}
    {node : Node} {scope : ScopeId}
    (hbody : (s.functions.get id).body = .interpreted tree node scope)
    (h : (s.functions.get id).fixedParams.length ≤ args.length) :
    c.invokeStep id args s =
      c.invokeInterpreted id (s.functions.get id) tree node scope
        (args.take (s.functions.get id).fixedParams.length) s := by
  unfold invokeStep
  rw [Eval.bind_read, if_neg (Nat.not_lt.2 h), hbody, invokeInterpreted_take]

theorem invokeStep_native (c : Calls) {args adapted : List Value}
    {native : Native} (hbody : (s.functions.get id).body = .native native)
    (h : (s.functions.get id).fixedParams.length ≤ args.length)
    (hadapted : s.adaptArgs (s.functions.get id).fixedParams args =
      .ok adapted) : c.invokeStep id args s = c.runNative native adapted s := by
  unfold invokeStep
  rw [Eval.bind_read, if_neg (Nat.not_lt.2 h), hbody]
  simp only
  rw [Eval.bind_inspect hadapted]

structure Unchecked (fuel : Nat) (s : Engine) (value : Value)
    (args : List Value) (id : FunctionId) (full : List Value) : Prop where
  /-- Too few arguments are refused before anything happens. -/
  short : full.length < (s.functions.get id).fixedParams.length →
    (ofFuel (fuel + 1)).callValue value args s =
      .error (s.refusal (s.functions.get id).name full) s
  /-- Where the signature fits, a call by a name that means only the function is
  the same call. -/
  fitted : s.fitted id full = true → ∀ name,
    (ofFuel (fuel + 1)).callValue value args s =
        (ofFuel (fuel + 1)).callOverloads name [id] full s ∧
      (s.OnlyMeans name id → (ofFuel (fuel + 1)).callValue value args s =
        (ofFuel (fuel + 1)).callNamed name [] full s)
  /-- Where it does not fit, the call by name is refused before anything
  happens. -/
  refused : s.fitted id full = false → ∀ name,
    (ofFuel (fuel + 1)).callOverloads name [id] full s =
      .error (s.refusal name full) s ∧
      (s.OnlyMeans name id →
        (ofFuel (fuel + 1)).callNamed name [] full s =
          .error (s.refusal name full) s)
  /-- With arguments enough the body is run whatever they are, and those too
  many are dropped. -/
  interpreted : ∀ tree node scope, (s.functions.get id).body =
    .interpreted tree node scope →
    (s.functions.get id).fixedParams.length ≤ full.length →
      (ofFuel (fuel + 1)).callValue value args s =
        (ofFuel fuel).invokeInterpreted id (s.functions.get id) tree node scope
          (full.take (s.functions.get id).fixedParams.length) s
  native : ∀ native adapted, (s.functions.get id).body = .native native →
    (s.functions.get id).fixedParams.length ≤ full.length →
      s.adaptArgs (s.functions.get id).fixedParams full = .ok adapted →
        (ofFuel (fuel + 1)).callValue value args s =
          (ofFuel fuel).runNative native adapted s

/-- A call through a value asks for arguments enough, and for nothing else. -/
theorem value_calls_unchecked (fuel : Nat) {s : Engine} {value : Value}
    {args full : List Value} {id : FunctionId}
    (h : s.Targets value args id full) :
    Unchecked fuel s value args id full := by
  have hcall : (ofFuel (fuel + 1)).callValue value args s =
      (ofFuel fuel).invokeStep id full s :=
    callValue_targets (ofFuel (fuel + 1)) h
  have hinvoke : (ofFuel (fuel + 1)).invoke id full s =
      (ofFuel fuel).invokeStep id full s := rfl
  constructor
  · intro hshort
    rw [hcall, invokeStep_short _ hshort]
  · intro hfits name
    refine ⟨?_, fun hmeans => ?_⟩
    · rw [hcall, callOverloads_single, if_pos hfits, hinvoke]
    · rw [hcall, callNamed_onlyMeans _ hmeans, if_pos hfits, hinvoke]
  · intro hfits name
    have hnot : ¬ s.fitted id full = true := by simp [hfits]
    refine ⟨?_, fun hmeans => ?_⟩
    · rw [callOverloads_single, if_neg hnot]
    · rw [callNamed_onlyMeans _ hmeans, if_neg hnot]
  · intro tree node scope hbody hlen
    rw [hcall, invokeStep_interpreted _ hbody hlen]
  · intro native adapted hbody hlen hadapted
    rw [hcall, invokeStep_native _ hbody hlen hadapted]

/-! ### A variable that holds a function -/

namespace Alias

def leaf (kind : NodeKind) (text : String) : Node := ⟨kind, text, .dummy, 0, []⟩

def function : Node :=
  ⟨.function, "f", .dummy, 0,
    [⟨.parameters, "", .dummy, 0,
      [⟨.parameter, "x", .dummy, 0, [leaf .typeName "Int32"]⟩]⟩,
      leaf .typeName "Int32",
      ⟨.block, "", .dummy, 0,
        [⟨.returnStmt, "", .dummy, 0, [leaf .identifier "x"]⟩]⟩]⟩

def define (name : String) (init : Node) : Node :=
  ⟨.variableDefinition, name, .dummy, 0, [init]⟩

def andThen (s : Engine) (node : Node) : Engine :=
  ((Request.item node).perform (Calls.ofFuel 20)).after s

def engine : Engine :=
  [function, define "g" (leaf .identifier "f"),
    define "a" (leaf .integerLiteral "7"),
      define "b" (leaf .integerLiteral "4294967303")].foldl andThen
      (.new { stackCapacity := 64 } ⟨.buffer, ""⟩ none [])

theorem reachable_foldl (nodes : List Node) {s : Engine} (hs : Reachable s) :
    Reachable (nodes.foldl andThen s) := by
  induction nodes generalizing s with
  | nil => exact hs
  | cons node rest ih => exact ih (.after 20 (.item node) hs trivial)

def g : Value := ⟨.function, 8⟩

def a : Value := ⟨.int32, 16⟩

def b : Value := ⟨.int64, 20⟩

theorem targets (args : List Value) : engine.Targets g args ⟨2⟩ args := by
  have hfunction : engine.stripRef g = .ok g ∧
      engine.arena.readWord g.addr = .ok 2 ∧
      engine.functions.checked? 2 = some ⟨2⟩ := by
    decide +kernel
  exact .function hfunction.1 rfl hfunction.2.1 hfunction.2.2

theorem onlyMeans : engine.OnlyMeans "f" ⟨2⟩ :=
  ⟨by decide +kernel, by decide +kernel, by decide +kernel, by decide +kernel⟩

def answer (r : EStateM.Result Stop Engine (Option Value)) : Option Int64 :=
  match r with
  | .ok (some v) t => ((t.readScalar v).map Scalar.toInt64).toOption
  | _ => none

end Alias

open Alias in
theorem value_calls_unchecked_alias :
    engine.Targets g [a] ⟨2⟩ [a] ∧ engine.fitted ⟨2⟩ [a] = true ∧
    engine.OnlyMeans "f" ⟨2⟩ ∧
      (ofFuel 20).callValue g [a] engine =
        (ofFuel 20).callNamed "f" [] [a] engine ∧
      (ofFuel 20).callValue g [] engine =
        .error (engine.refusal "f" []) engine := by
  have hfits : engine.fitted ⟨2⟩ [a] = true := by decide +kernel
  have hname : (engine.functions.get ⟨2⟩).name = "f" := by decide +kernel
  have hshort :=
    (value_calls_unchecked 19 (targets [])).short (by decide +kernel)
  rw [hname] at hshort
  exact ⟨targets [a], hfits, onlyMeans,
    ((value_calls_unchecked 19 (targets [a])).fitted hfits "f").2 onlyMeans,
    hshort⟩

open Alias in
/-- With an argument too many, and with one of another type, a call by name is
refused, but the same call through a variable returns. -/
theorem value_call_misfits :
    Reachable engine ∧
      (engine.Targets g [a, b] ⟨2⟩ [a, b] ∧ engine.fitted ⟨2⟩ [a, b] = false ∧
        ((ofFuel 20).callNamed "f" [] [a, b]).fault? engine =
          some (.noMatchingOverload "f" "Int32, Int64") ∧
        answer ((ofFuel 20).callValue g [a, b] engine) = some 7) ∧
      engine.Targets g [b] ⟨2⟩ [b] ∧ engine.fitted ⟨2⟩ [b] = false ∧
        ((ofFuel 20).callNamed "f" [] [b]).fault? engine =
          some (.noMatchingOverload "f" "Int64") ∧
        answer ((ofFuel 20).callValue g [b] engine) = some 7 :=
  ⟨reachable_foldl _ (.new _ _ _ _ (by decide)),
    ⟨targets [a, b], by decide +kernel⟩,
    targets [b], by decide +kernel⟩

end Calls

end ArenaScript
