import ArenaScript.Proofs.Evaluation.Calls

/-!
# Expressions of related evaluators

Operands are resolved, read as values, looked into and called; the reduction of
an expression does one of these at each step.
-/

namespace ArenaScript

open Eval (Within Local)

namespace Calls.Paired

variable {K : Congruence} {w : K.World} {c c' : Calls}

/-! ## Operands -/

theorem integerLiteral (K : Congruence) {w : K.World} (text : String) :
    K.Keeps w (Calls.integerLiteral text) := by
  unfold Calls.integerLiteral
  cases Number.literal? text with
  | some v => exact K.allocScalar _ _
  | none => exact K.fail rfl

theorem floatLiteral (K : Congruence) {w : K.World} (text : String) :
    K.Keeps w (Calls.floatLiteral text) := by
  unfold Calls.floatLiteral
  cases Number.double? text with
  | some v => exact K.allocScalar _ _
  | none => exact K.fail rfl

theorem templateOperand (K : Congruence) {w : K.World}
    (binding : TemplateBinding) :
    K.Keeps w (Calls.templateOperand binding) := by
  unfold Calls.templateOperand
  split
  · exact K.map _ (K.allocScalar _ _)
  · exact K.pure _

theorem resolveIdentifier (K : Congruence) {w : K.World} (name : String) :
    K.Keeps w (Calls.resolveIdentifier name) := by
  unfold Calls.resolveIdentifier
  refine K.bind (K.inspect fun s => s.ordinary_lookupVariable name)
    fun found => ?_
  cases found with
  | some v => exact K.pure _
  | none =>
      refine K.bind (K.read _) fun scope => ?_
      refine K.bind (K.read _) fun param => ?_
      cases param with
      | some binding => exact templateOperand K binding
      | none =>
          refine K.bind (K.read _) fun type => ?_
          cases type with
          | some type => exact K.pure _
          | none =>
              refine K.bind (K.read _) fun found => ?_
              split
              · exact K.pure _
              · exact K.fail rfl

theorem resolveTemplateName (hc : c.Paired K c') (node : Node) :
    K.Rel w (c.resolveTemplateName node) (c'.resolveTemplateName node) := by
  unfold Calls.resolveTemplateName
  refine K.bind (K.read _) fun scope => ?_
  refine K.bind (K.read _) fun isType => ?_
  split
  · exact K.map _ (hc.resolveType node scope)
  · exact K.map _ (K.mapM (hc.resolveTemplateArg scope) _)

theorem resolveOperand (hc : c.Paired K c') (node : Node) :
    K.Rel w (c.resolveOperand node) (c'.resolveOperand node) := by
  unfold Calls.resolveOperand
  split
  · exact K.map _ (integerLiteral K node.text)
  · exact K.map _ (floatLiteral K node.text)
  · exact K.map _ (K.allocStr node.text)
  · exact K.map _ (K.allocBool _)
  · exact K.map _ (hc.evaluate node)
  · exact resolveIdentifier K node.text
  · split
    · exact resolveIdentifier K node.text
    · exact hc.resolveTemplateName node
  · exact K.fail rfl

theorem single (K : Congruence) {w : K.World} (name hint : String)
    (candidates : List FunctionId) :
    K.Keeps w (Calls.single name hint candidates) := by
  unfold Calls.single
  split
  · exact K.pure _
  · exact K.fail rfl

theorem functionValue (K : Congruence) {w : K.World} (name : String)
    (candidates : List FunctionId) :
    K.Keeps w (Calls.functionValue name candidates) :=
  K.bind (single K name _ candidates) fun _ => K.allocAddress _ _

theorem methodValue (K : Congruence) {w : K.World} (receiver : Value)
    (name : String) : K.Keeps w (Calls.methodValue receiver name) := by
  unfold Calls.methodValue
  refine K.bind (K.read _) fun candidates => ?_
  refine K.bind (single K name _ candidates) fun id => ?_
  refine K.bind (K.allocate _) fun out => ?_
  refine K.bind (K.atomic (.writeWord _ _)) fun _ => ?_
  exact K.bind (K.atomic (.writeWord _ _)) fun _ => K.pure out

theorem explicitInstances (hc : c.Paired K c') (name : String)
    (explicit : List TemplateArg) :
    K.Rel w (c.explicitInstances name explicit)
      (c'.explicitInstances name explicit) := by
  unfold Calls.explicitInstances
  split
  · exact K.read _
  · refine K.bind (K.read _) fun templates => ?_
    exact K.mapM (fun template => hc.instantiateFunction template explicit)
      templates

theorem resolvedValue (hc : c.Paired K c') (operand : Operand) :
    K.Rel w (c.resolvedValue operand) (c'.resolvedValue operand) := by
  cases operand with
  | pending node => exact K.fail rfl
  | value v => exact K.pure v
  | type t =>
      simp only [Calls.resolvedValue]
      exact K.refuse fun _ => rfl
  | functions name explicit =>
      exact K.bind (hc.explicitInstances name explicit) fun ids =>
        functionValue K name ids
  | overloads name candidates => exact functionValue K name candidates
  | method receiver name => exact methodValue K receiver name

theorem resolved (hc : c.Paired K c') (operand : Operand) :
    K.Rel w (c.resolved operand) (c'.resolved operand) := by
  cases operand with
  | pending node => exact hc.resolveOperand node
  | value v => exact K.pure _
  | type t => exact K.pure _
  | functions name explicit => exact K.pure _
  | overloads name candidates => exact K.pure _
  | method receiver name => exact K.pure _

theorem operandValue (hc : c.Paired K c') (operand : Operand) :
    K.Rel w (c.operandValue operand) (c'.operandValue operand) :=
  K.bind (hc.resolved operand) fun operand => hc.resolvedValue operand

/-! ## Members -/

theorem memberFrom (K : Congruence) {w : K.World} (name : String)
    (receiver : Value) (depth : Nat) :
    K.Keeps w (Calls.memberFrom name receiver depth) := by
  induction depth generalizing receiver with
  | zero => exact K.fail rfl
  | succ depth ih =>
      refine K.bind (K.read _) fun field => ?_
      cases field with
      | some field => exact K.pure _
      | none =>
          refine K.bind (K.ensureInitialized _) fun _ => ?_
          refine K.bind (K.read _) fun members => ?_
          split
          · exact K.pure _
          · refine K.bind (K.read _) fun isReference => ?_
            split
            · exact K.bind (K.stripRef receiver) fun target => ih target
            · exact K.refuse fun _ => rfl

theorem memberAccess (hc : c.Paired K c') (left right : Operand) :
    K.Rel w (c.memberAccess left right) (c'.memberAccess left right) := by
  unfold Calls.memberAccess
  refine K.bind (hc.operandValue left) fun receiver => ?_
  split
  · exact memberFrom K _ receiver _
  · exact K.fail rfl

theorem memberOfType (K : Congruence) {w : K.World} (type : TypeId)
    (name : String) : K.Keeps w (Calls.memberOfType type name) := by
  unfold Calls.memberOfType
  refine K.bind (K.read _) fun constant => ?_
  cases constant with
  | some v => exact K.map _ (K.allocScalar _ _)
  | none =>
      refine K.bind (K.ensureInitialized type) fun _ => ?_
      refine K.bind (K.read _) fun members => ?_
      split
      · exact K.pure _
      · exact K.refuse fun _ => rfl
      · exact K.pure _

theorem scopeResolution (hc : c.Paired K c') (left right : Operand) :
    K.Rel w (c.scopeResolution left right) (c'.scopeResolution left right) := by
  unfold Calls.scopeResolution
  refine K.bind (hc.resolved left) fun operand => ?_
  split
  · exact memberOfType K _ _
  · exact K.fail rfl
  · exact K.fail rfl

/-! ## Calls of operands -/

theorem callValue (hc : c.Paired K c') (value : Value) (args : List Value) :
    K.Rel w (c.callValue value args) (c'.callValue value args) := by
  unfold Calls.callValue
  refine K.bind (K.stripRef value) fun value => ?_
  split
  · refine K.bind (K.inspect fun s => s.arena.ordinary_readWord _) fun raw => ?_
    refine K.bind (K.read _) fun found => ?_
    cases found with
    | some id => exact hc.invoke id args
    | none => exact K.fail rfl
  · split
    · refine K.bind (K.inspect fun s => s.arena.ordinary_readWord _)
        fun receiver => ?_
      refine K.bind (K.inspect fun s => s.arena.ordinary_readWord _)
        fun raw => ?_
      refine K.bind (K.read _) fun found => ?_
      cases found with
      | some id =>
          refine K.bind (K.read _) fun owner => ?_
          cases owner with
          | some owner => exact hc.invoke id _
          | none => exact hc.invoke id args
      | none => exact K.fail rfl
    · refine K.bind (hc.tryOperator _ _) fun result => ?_
      cases result with
      | some result => exact K.pure _
      | none => exact K.refuse fun _ => rfl

theorem callTypeNamed (hc : c.Paired K c') (name : String) (args : List Value) :
    K.Rel w (c.callTypeNamed name args) (c'.callTypeNamed name args) := by
  unfold Calls.callTypeNamed
  refine K.bind (K.read _) fun scope => ?_
  refine K.bind (K.read _) fun param => ?_
  split
  · exact K.map some (hc.constructNew _ args)
  · refine K.bind (K.read _) fun type => ?_
    cases type with
    | some type => exact K.map some (hc.constructNew type args)
    | none => exact K.fail rfl

theorem implicitReceiver (K : Congruence) {w : K.World} :
    K.Keeps w Calls.implicitReceiver := by
  refine K.inspect fun s => ?_
  split
  · exact .ok none
  · refine (s.ordinary_lookupVariable "self").bind fun this => ?_
    cases this with
    | some this => exact (s.ordinary_stripRef this).map some
    | none => exact .ok none

theorem callTemplateOrMethod (hc : c.Paired K c') (name : String)
    (explicit : List TemplateArg) (args : List Value) (seen : Bool) :
    K.Rel w (c.callTemplateOrMethod name explicit args seen)
      (c'.callTemplateOrMethod name explicit args seen) := by
  unfold Calls.callTemplateOrMethod
  refine K.bind (K.read _) fun templates => ?_
  refine K.bind (hc.tryTemplates _ explicit args templates) fun result => ?_
  cases result with
  | some result => exact K.pure result
  | none =>
      refine K.bind (implicitReceiver K) fun receiver => ?_
      refine K.bind (K.read _) fun member => ?_
      cases member with
      | some receiver => exact hc.callMethod receiver name args
      | none =>
          simp only
          split
          · exact K.refuse fun _ => rfl
          · exact hc.callTypeNamed name args

theorem callNamed (hc : c.Paired K c') (name : String)
    (explicit : List TemplateArg) (args : List Value) :
    K.Rel w (c.callNamed name explicit args)
      (c'.callNamed name explicit args) := by
  unfold Calls.callNamed
  split
  · refine K.bind (K.inspect fun s => s.ordinary_lookupVariable name)
      fun found => ?_
    cases found with
    | some value => exact hc.callValue value args
    | none =>
        refine K.bind (K.read _) fun candidates => ?_
        refine K.bind (selectCallee K candidates args) fun callee => ?_
        cases callee with
        | some callee => exact hc.invokeCallee callee args
        | none => exact hc.callTemplateOrMethod name explicit args _
  · exact hc.callTemplateOrMethod name explicit args false

theorem callOverloads (hc : c.Paired K c') (name : String)
    (candidates : List FunctionId) (args : List Value) :
    K.Rel w (c.callOverloads name candidates args)
      (c'.callOverloads name candidates args) := by
  unfold Calls.callOverloads
  refine K.bind (K.read _) fun found => ?_
  cases found with
  | some id => exact hc.invoke id args
  | none => exact K.refuse fun _ => rfl

theorem callResolved (hc : c.Paired K c') (callee : Operand)
    (args : List Value) :
    K.Rel w (c.callResolved callee args) (c'.callResolved callee args) := by
  cases callee with
  | pending node => exact K.fail rfl
  | value value => exact hc.callValue value args
  | type type => exact K.map some (hc.constructNew type args)
  | functions name explicit => exact hc.callNamed name explicit args
  | overloads name candidates => exact hc.callOverloads name candidates args
  | method receiver name => exact hc.callMethod receiver name args

theorem callOperand (hc : c.Paired K c') (callee : Operand)
    (args : List Value) :
    K.Rel w (c.callOperand callee args) (c'.callOperand callee args) := by
  unfold Calls.callOperand
  split
  · split
    · exact hc.callNamed _ [] args
    · exact K.bind (hc.resolveOperand _) fun operand =>
        hc.callResolved operand args
  · exact hc.callResolved _ args

/-! ## Expressions -/

theorem reduceCall (hc : c.Paired K c') (callee : Operand) (node : Node) :
    K.Rel w (c.reduceCall callee node) (c'.reduceCall callee node) := by
  unfold Calls.reduceCall
  refine K.bind (K.mapM hc.evaluate _) fun args => ?_
  refine K.bind (hc.callOperand callee args) fun result => ?_
  cases result with
  | some value => exact K.pure _
  | none => exact K.map _ (K.read _)

theorem reduceIndex (hc : c.Paired K c') (target : Operand) (node : Node) :
    K.Rel w (c.reduceIndex target node) (c'.reduceIndex target node) := by
  unfold Calls.reduceIndex
  refine K.bind (hc.operandValue target) fun target => ?_
  cases node.child? 0 with
  | some index =>
      refine K.bind (hc.evaluate index) fun index => ?_
      exact K.map _ (hc.binaryOperator _ target index)
  | none => exact K.fail rfl

theorem reduceTrailing (hc : c.Paired K c') (node : Node) (operand : Operand) :
    K.Rel w (c.reduceTrailing node operand)
      (c'.reduceTrailing node operand) := by
  unfold Calls.reduceTrailing
  split
  · exact hc.reduceCall operand node
  · exact hc.reduceIndex operand node
  · exact K.fail rfl

theorem logical (hc : c.Paired K c') (isAnd : Bool) (left right : Operand) :
    K.Rel w (c.logical isAnd left right) (c'.logical isAnd left right) := by
  unfold Calls.logical
  simp only
  refine K.bind (hc.operandValue left) fun value => ?_
  refine K.bind (K.stripRef value) fun l => ?_
  split
  · refine K.bind (hc.operandValue right) fun r => ?_
    exact hc.binaryOperator _ l r
  · refine K.bind (K.inspect fun s => s.ordinary_readBool _) fun lv => ?_
    split
    · exact K.allocBool lv
    · refine K.bind (hc.operandValue right) fun value => ?_
      refine K.bind (K.stripRef value) fun r => ?_
      split
      · exact hc.binaryOperator _ l r
      · exact K.bind (K.inspect fun s => s.ordinary_readBool _) fun rv =>
          K.allocBool _

theorem reduceJoining (hc : c.Paired K c') (symbol : String)
    (left right : Operand) :
    K.Rel w (c.reduceJoining symbol left right)
      (c'.reduceJoining symbol left right) := by
  unfold Calls.reduceJoining
  split
  · exact hc.memberAccess left right
  · exact hc.scopeResolution left right
  · exact K.map _ (hc.logical true left right)
  · exact K.map _ (hc.logical false left right)
  · refine K.bind (hc.operandValue left) fun l => ?_
    refine K.bind (hc.operandValue right) fun r => ?_
    exact K.map _ (hc.binaryOperator _ l r)

theorem reduceStep (hc : c.Paired K c') (step : Reduction.Step Operand) :
    K.Rel w (c.reduceStep step) (c'.reduceStep step) := by
  cases step with
  | leading op operand =>
      refine K.bind (hc.operandValue operand) fun value => ?_
      exact K.map _ (hc.unaryOperator _ value)
  | trailing operand op => exact hc.reduceTrailing op.node operand
  | joining left op right => exact hc.reduceJoining _ left right

theorem reduceFor {α : Type} {apply apply' : Reduction.Step α → Eval α}
    (happly : ∀ step, K.Rel w (apply step) (apply' step)) (rounds : Nat)
    (items : List (Item α)) :
    K.Rel w (Reduction.reduceFor apply rounds items)
      (Reduction.reduceFor apply' rounds items) := by
  induction rounds generalizing items with
  | zero =>
      unfold Reduction.reduceFor
      split
      · exact K.pure _
      · exact K.pure _
      · exact K.pure _
      · exact K.pure _
      · contradiction
  | succ rounds ih =>
      unfold Reduction.reduceFor
      split
      · exact K.pure _
      · exact K.pure _
      · exact K.pure _
      · contradiction
      · split
        · rename_i hrounds _ _ _ _ redex _
          cases hrounds
          exact K.bind (happly redex.step) fun a => ih (redex.plug a)
        · exact K.pure _

theorem reduceExpression (hc : c.Paired K c') (node : Node) :
    K.Rel w (c.reduceExpression node) (c'.reduceExpression node) := by
  unfold Calls.reduceExpression
  split
  · exact K.fail rfl
  · refine K.bind (reduceFor hc.reduceStep _ _) fun verdict => ?_
    cases verdict with
    | value operand => exact hc.operandValue operand
    | misplaced symbol => exact K.fail rfl
    | empty => exact K.read _

theorem evaluateStep (hc : c.Paired K c') (node : Node) :
    K.Rel w (c.evaluateStep node) (c'.evaluateStep node) := by
  unfold Calls.evaluateStep
  split
  · exact hc.reduceExpression node
  · exact K.bind (hc.resolveOperand node) fun operand =>
      hc.resolvedValue operand

end Calls.Paired

end ArenaScript
