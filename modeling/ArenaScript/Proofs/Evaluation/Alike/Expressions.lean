import ArenaScript.Proofs.Evaluation.Alike.Invocations

/-!
# Expressions run alike

Operands are resolved, read as values, looked into and called.  An operand is
known if the type, the value or the template arguments in it are, and a
reduction leads from known operands to known operands.
-/

namespace ArenaScript

open Handles (Known)
open Engine (Good Reached Lenient Steady Quiet Grows)

namespace Handles

instance : Handles Operand where
  Known n
    | .value v => Known n v
    | .type t => Known n t
    | .functions _ explicit => Known n explicit
    | .method receiver _ => Known n receiver
    | .pending _ | .overloads .. => True
  mono {_ _ a} h := by
    cases a with
    | value v => exact mono h
    | type t => exact mono h
    | functions name explicit => exact mono h
    | method receiver name => exact mono h
    | pending node => exact id
    | overloads name candidates => exact id

variable {α : Type} [Handles α]

instance : Handles (Item α) where
  Known n
    | .operand a => Known n a
    | .operator _ => True
  mono {_ _ a} h := by
    cases a with
    | operand a => exact mono h
    | operator op => exact id

instance : Handles (Reduction.Step α) where
  Known n
    | .leading _ a => Known n a
    | .joining l _ r => Known n l ∧ Known n r
    | .trailing a _ => Known n a
  mono {_ _ a} h := by
    cases a with
    | leading op a => exact mono h
    | joining l op r => exact fun hlr => ⟨mono h hlr.1, mono h hlr.2⟩
    | trailing a op => exact mono h

instance : Handles (Reduction.Redex α) :=
  ⟨fun n r => Known n r.before ∧ Known n r.step ∧ Known n r.after,
    fun h ⟨hbefore, hstep, hafter⟩ =>
      ⟨mono h hbefore, mono h hstep, mono h hafter⟩⟩

instance : Handles (Reduction.Verdict α) where
  Known n
    | .value a => Known n a
    | .empty | .misplaced _ => True
  mono {_ _ a} h := by
    cases a with
    | value a => exact mono h
    | empty => exact id
    | misplaced symbol => exact id

end Handles

/-! ## Reductions -/

namespace Reduction

variable {α : Type} [Handles α] {n : Nat}

theorem Redex.known_plug {r : Redex α} (hr : Known n r) {a : α}
    (ha : Known n a) : Known n (r.plug a) := by
  refine Handles.known_append.2
    ⟨fun item hitem => ?_, Handles.known_cons.2 ⟨ha, hr.2.2⟩⟩
  exact hr.1 item (List.mem_reverse.1 hitem)

theorem known_redexAt? {before after : List (Item α)} (hbefore : Known n before)
    (op : Operator) (hafter : Known n after) :
    Known n (redexAt? before op after) := by
  unfold redexAt?
  split
  · obtain ⟨ha, hafter⟩ := Handles.known_cons.1 hafter
    exact Handles.known_some.2 ⟨hbefore, ha, hafter⟩
  · obtain ⟨ha, hbefore⟩ := Handles.known_cons.1 hbefore
    exact Handles.known_some.2 ⟨hbefore, ha, hafter⟩
  · obtain ⟨hl, hbefore⟩ := Handles.known_cons.1 hbefore
    obtain ⟨hr, hafter⟩ := Handles.known_cons.1 hafter
    exact Handles.known_some.2 ⟨hbefore, ⟨hl, hr⟩, hafter⟩
  · exact Handles.known_none

theorem known_redexes {before items : List (Item α)} (hbefore : Known n before)
    (hitems : Known n items) : Known n (redexes before items) := by
  induction items generalizing before with
  | nil => exact Handles.known_nil
  | cons item after ih =>
      obtain ⟨hitem, hafter⟩ := Handles.known_cons.1 hitems
      have hrest := ih (Handles.known_cons.2 ⟨hitem, hbefore⟩) hafter
      cases item with
      | operand a => exact hrest
      | operator op =>
          have hredex := known_redexAt? hbefore op hafter
          unfold redexes
          simp only
          split
          · rename_i redex hfound
            exact Handles.known_cons.2 ⟨hredex redex hfound, hrest⟩
          · exact hrest

theorem known_tightest {l : List (Redex α)} (h : Known n l) :
    Known n (tightest l) := by
  induction l with
  | nil => exact Handles.known_none
  | cons redex rest ih =>
      obtain ⟨hredex, hrest⟩ := Handles.known_cons.1 h
      unfold tightest
      split
      · rename_i other hother
        split
        · exact Handles.known_some.2 (ih hrest other hother)
        · exact Handles.known_some.2 hredex
      · exact Handles.known_some.2 hredex

theorem known_next? {items : List (Item α)} (h : Known n items) :
    Known n (next? items) :=
  known_tightest (known_redexes Handles.known_nil h)

theorem known_itemsFrom {operand : Node → α}
    (hoperand : ∀ node, Known n (operand node)) {previous : Option (Item α)}
    {nodes : List Node} {items : List (Item α)}
    (h : itemsFrom operand previous nodes = .ok items) : Known n items := by
  induction nodes generalizing previous items with
  | nil =>
      cases h
      exact Handles.known_nil
  | cons node rest ih =>
      have hcons : ∀ item : Item α, Known n item →
          (itemsFrom operand (some item) rest).map (item :: ·) = .ok items →
          Known n items := by
        intro item hitem hmap
        cases hrest : itemsFrom operand (some item) rest with
        | ok others =>
            rw [hrest] at hmap
            cases hmap
            exact Handles.known_cons.2 ⟨hitem, ih hrest⟩
        | error symbol =>
            rw [hrest] at hmap
            cases hmap
      unfold itemsFrom at h
      split at h
      · extract_lets fixity misplaced item at h
        split at h
        · cases h
        · exact hcons item trivial h
      · exact hcons _ (hoperand node) h

end Reduction

namespace Agree

variable {α : Type} [Handles α] {I : Engine → Prop} {s : Engine}

theorem reduceFor {f g : Reduction.Step α → Eval α}
    (hfg : ∀ {t : Engine} {step : Reduction.Step α}, t.Good I → t.Knows step →
      Agree I Quiet t (f step) (g step)) (hs : s.Good I) (rounds : Nat)
    {items : List (Item α)} (hitems : s.Knows items) :
    Agree I Quiet s (Reduction.reduceFor f rounds items)
      (Reduction.reduceFor g rounds items) := by
  induction rounds generalizing s items with
  | zero =>
      unfold Reduction.reduceFor
      split
      · exact .pure hs trivial
      · exact .pure hs (Handles.known_cons.1 hitems).1
      · exact .pure hs trivial
      · exact .pure hs trivial
      · contradiction
  | succ rounds ih =>
      unfold Reduction.reduceFor
      split
      · exact .pure hs trivial
      · exact .pure hs (Handles.known_cons.1 hitems).1
      · exact .pure hs trivial
      · contradiction
      · rename_i hrounds _ _ _
        cases hrounds
        have hnext := Reduction.known_next? hitems
        split
        · rename_i redex hredex
          have hknown := hnext redex hredex
          refine .bind (hfg hs hknown.2.1) fun a t ht ha => ?_
          exact ih ht.good (Reduction.Redex.known_plug (ht.knows hknown) ha)
        · exact .pure hs trivial

end Agree

namespace Calls.Alike

variable {I : Engine → Prop} [Steady I] {c d : Calls} {s : Engine}

omit [Steady I] in
theorem asOperand {R : Engine → Engine → Prop} {x y : Eval Value}
    (h : Agree I R s x y) :
    Agree I R s (Operand.value <$> x) (Operand.value <$> y) :=
  .map h fun _ _ _ hv => hv

/-! ## Operands -/

theorem integerLiteral (hs : s.Good I) (text : String) :
    Sound I s (Calls.integerLiteral text) := by
  unfold Calls.integerLiteral
  cases Number.literal? text with
  | some v =>
      refine Sound.allocScalar hs ?_ _
      split
      · exact hs.closed.knows_builtin rfl
      · exact hs.closed.knows_builtin rfl
  | none => exact .fail hs _

theorem floatLiteral (hs : s.Good I) (text : String) :
    Sound I s (Calls.floatLiteral text) := by
  unfold Calls.floatLiteral
  cases Number.double? text with
  | some v => exact Sound.allocScalar hs (hs.closed.knows_builtin rfl) _
  | none => exact .fail hs _

theorem templateOperand (hs : s.Good I) {binding : TemplateBinding}
    (hbinding : s.Knows binding) :
    Sound I s (Calls.templateOperand binding) := by
  obtain ⟨harg, htype⟩ := hbinding
  unfold Calls.templateOperand
  cases hkind : binding.arg with
  | int n =>
      refine asOperand (Sound.allocScalar hs ?_ _)
      exact Handles.known_getD htype (hs.closed.knows_builtin rfl)
  | type t =>
      rw [hkind] at harg
      exact .pure hs harg

theorem resolveIdentifier (hs : s.Good I) (name : String) :
    Sound I s (Calls.resolveIdentifier name) := by
  unfold Calls.resolveIdentifier
  refine .bind_inspect hs fun found hfound => ?_
  cases found with
  | some v =>
      have hv := hs.closed.knows_lookupVariable name _ hfound
      exact .pure hs (hv v rfl)
  | none =>
      refine .bind_read (.bind_read ?_)
      cases hparam : s.scopes.findTemplateParam s.currentScope name with
      | some binding =>
          exact templateOperand hs
            (hs.closed.knows_findTemplateParam _ name binding hparam)
      | none =>
          refine .bind_read ?_
          cases htype : s.scopes.resolveTypeName s.currentScope name with
          | some type =>
              exact .pure hs (hs.closed.knows_resolveTypeName _ name type htype)
          | none =>
              refine .bind_read (.ite (fun _ => ?_) fun _ => .fail hs _)
              exact .pure hs Handles.known_nil

omit [Steady I] in
theorem resolveTemplateName (hc : c.Alike I d) (hs : s.Good I) (node : Node) :
    Agree I Quiet s (c.resolveTemplateName node)
      (d.resolveTemplateName node) := by
  unfold Calls.resolveTemplateName
  refine .bind_read (.bind_read (.ite (fun _ => ?_) fun _ => ?_))
  · exact .map (hc.resolveType node _ hs) fun _ _ _ h => h
  · refine .map (.mapM hs fun arg _ t ht => hc.resolveTemplateArg ht.good _ arg)
      fun _ _ _ h => ?_
    exact h

theorem resolveOperand (hc : c.Alike I d) (hs : s.Good I) (node : Node) :
    Agree I Quiet s (c.resolveOperand node) (d.resolveOperand node) := by
  unfold Calls.resolveOperand
  split
  · exact asOperand (integerLiteral hs node.text)
  · exact asOperand (floatLiteral hs node.text)
  · exact asOperand (Sound.allocStr hs node.text)
  · exact asOperand (Sound.allocBool hs _)
  · exact asOperand (hc.evaluate node hs)
  · exact resolveIdentifier hs node.text
  · exact .ite (fun _ => resolveIdentifier hs node.text) fun _ =>
      hc.resolveTemplateName hs node
  · exact .fail hs _

omit [Steady I] in
theorem single (hs : s.Good I) (name hint : String)
    (candidates : List FunctionId) :
    Sound I s (Calls.single name hint candidates) := by
  unfold Calls.single
  split
  · exact .pure hs trivial
  · exact .fail hs _

theorem functionValue (hs : s.Good I) (name : String)
    (candidates : List FunctionId) :
    Sound I s (Calls.functionValue name candidates) :=
  .bind (single hs name _ candidates) fun _ _ ht _ =>
    Sound.allocAddress ht.good (ht.closed.knows_builtin rfl) _

theorem methodValue (hs : s.Good I) (receiver : Value) (name : String) :
    Sound I s (Calls.methodValue receiver name) := by
  unfold Calls.methodValue
  refine .bind_read (.bind (single hs name _ _) fun id t ht _ => ?_)
  refine .bind (Sound.allocate ht.good (ht.closed.knows_builtin rfl))
    fun out u hu hout => ?_
  refine .bind (Sound.writeWord hu.good _ _) fun _ v hv _ => ?_
  refine .bind (Sound.writeWord hv.good _ _) fun _ w hw _ => ?_
  exact .pure hw.good (hw.knows (hv.knows hout))

theorem explicitInstances (hc : c.Alike I d) (hs : s.Good I) (name : String)
    {explicit : List TemplateArg} (hexplicit : s.Knows explicit) :
    Agree I Quiet s (c.explicitInstances name explicit)
      (d.explicitInstances name explicit) := by
  unfold Calls.explicitInstances
  refine .ite (fun _ => .read hs fun _ _ => trivial) fun _ =>
    .bind_read (.mapM hs ?_)
  exact fun template _ t ht =>
    hc.instantiateFunction ht.good template (ht.knows hexplicit)

theorem resolvedValue (hc : c.Alike I d) (hs : s.Good I) {operand : Operand}
    (hoperand : s.Knows operand) :
    Agree I Quiet s (c.resolvedValue operand) (d.resolvedValue operand) := by
  cases operand with
  | pending node => exact .fail hs _
  | value v => exact .pure hs hoperand
  | type t =>
      unfold Calls.resolvedValue
      exact .inspect hs Handles.known_error
  | functions name explicit =>
      exact .bind (hc.explicitInstances hs name hoperand) fun ids t ht _ =>
        functionValue ht.good name ids
  | overloads name candidates => exact functionValue hs name candidates
  | method receiver name => exact methodValue hs receiver name

theorem resolved (hc : c.Alike I d) (hs : s.Good I) {operand : Operand}
    (hoperand : s.Knows operand) :
    Agree I Quiet s (c.resolved operand) (d.resolved operand) := by
  cases operand with
  | pending node => exact hc.resolveOperand hs node
  | value v => exact .pure hs hoperand
  | type t => exact .pure hs hoperand
  | functions name explicit => exact .pure hs hoperand
  | overloads name candidates => exact .pure hs hoperand
  | method receiver name => exact .pure hs hoperand

theorem operandValue (hc : c.Alike I d) (hs : s.Good I) {operand : Operand}
    (hoperand : s.Knows operand) :
    Agree I Quiet s (c.operandValue operand) (d.operandValue operand) :=
  .bind (hc.resolved hs hoperand) fun _ _ ht hresolved =>
    hc.resolvedValue ht.good hresolved

/-! ## Members -/

theorem memberFrom (hs : s.Good I) (name : String) {receiver : Value}
    (hreceiver : s.Knows receiver) (depth : Nat) :
    Sound I s (Calls.memberFrom name receiver depth) := by
  induction depth generalizing s receiver with
  | zero => exact .fail hs _
  | succ depth ih =>
      unfold Calls.memberFrom
      refine .bind_read ?_
      cases hfield :
        (s.types.get receiver.type).structural?.bind (·.field? name) with
      | some field =>
          have htype :=
            TypeEntry.known_field? (hs.closed.types receiver.type) name
              field hfield
          exact .pure hs (Value.known_view htype _)
      | none =>
          refine .bind (Sound.ensureInitialized hs hreceiver.1) fun _ t ht _ =>
            .bind_read ?_
          refine .ite (fun _ => .pure ht.good (ht.knows hreceiver)) fun _ =>
            .bind_read ?_
          refine .ite (fun _ => ?_) fun _ =>
            .inspect ht.good Handles.known_error
          refine .bind (Sound.stripRef ht.good (ht.knows hreceiver))
            fun target u hu htarget => ?_
          exact ih hu.good htarget

theorem memberAccess (hc : c.Alike I d) (hs : s.Good I) {left : Operand}
    (hleft : s.Knows left) (right : Operand) :
    Agree I Quiet s (c.memberAccess left right)
      (d.memberAccess left right) := by
  unfold Calls.memberAccess
  refine .bind (hc.operandValue hs hleft) fun receiver t ht hreceiver => ?_
  split
  · exact memberFrom ht.good _ hreceiver _
  · exact .fail ht.good _

theorem memberOfType (hs : s.Good I) {type : TypeId} (htype : s.Knows type)
    (name : String) : Sound I s (Calls.memberOfType type name) := by
  unfold Calls.memberOfType
  refine .bind_read ?_
  cases (s.types.get type).structural?.bind (·.variant? name) with
  | some v => exact asOperand (Sound.allocScalar hs htype _)
  | none =>
      refine .bind (Sound.ensureInitialized hs htype) fun _ t ht _ =>
        .bind_read ?_
      split
      · rename_i nested _ hnested
        exact .pure ht.good ((ht.closed.scopes _).1 name nested hnested)
      · exact .inspect ht.good Handles.known_error
      · exact .pure ht.good trivial

theorem scopeResolution (hc : c.Alike I d) (hs : s.Good I) {left : Operand}
    (hleft : s.Knows left) (right : Operand) :
    Agree I Quiet s (c.scopeResolution left right)
      (d.scopeResolution left right) := by
  unfold Calls.scopeResolution
  refine .bind (hc.resolved hs hleft) fun operand t ht hoperand => ?_
  split
  · exact memberOfType ht.good hoperand _
  · exact .fail ht.good _
  · exact .fail ht.good _

/-! ## Calls of operands -/

theorem callValue (hc : c.Alike I d) (hs : s.Good I) {value : Value}
    (hvalue : s.Knows value) {args : List Value} (hargs : s.Knows args) :
    Agree I Quiet s (c.callValue value args) (d.callValue value args) := by
  unfold Calls.callValue
  refine .bind (Sound.stripRef hs hvalue) fun value t ht hvalue => ?_
  have hargs := ht.knows hargs
  refine .ite (fun _ => ?_) fun _ => .ite (fun _ => ?_) fun _ => ?_
  · refine .bind_inspect ht.good fun raw _ => .bind_read ?_
    cases t.functions.checked? raw with
    | some id => exact hc.invoke id ht.good hargs
    | none => exact .fail ht.good _
  · refine .bind_inspect ht.good fun receiver hreceiver => ?_
    refine .bind_inspect ht.good fun raw _ => .bind_read ?_
    cases t.functions.checked? raw with
    | some id =>
        refine .bind_read ?_
        have hf := ht.closed.functions id
        cases howner : (t.functions.get id).owner with
        | some owner =>
            refine hc.invoke id ht.good (Handles.known_cons.2 ⟨⟨?_, ?_⟩, hargs⟩)
            · exact hf.2.2.1 owner howner
            · exact Arena.readWord_lt hreceiver
        | none => exact hc.invoke id ht.good hargs
    | none => exact .fail ht.good _
  · refine .bind
      (hc.tryOperator ht.good _ (Handles.known_cons.2 ⟨hvalue, hargs⟩))
      fun result u hu hresult => ?_
    cases result with
    | some result => exact .pure hu.good hresult
    | none => exact .inspect hu.good Handles.known_error

theorem callTypeNamed (hc : c.Alike I d) (hs : s.Good I) (name : String)
    {args : List Value} (hargs : s.Knows args) :
    Agree I Quiet s (c.callTypeNamed name args)
      (d.callTypeNamed name args) := by
  have hconstruct : ∀ type, s.Knows type →
      Agree I Quiet s (some <$> c.constructNew type args)
        (some <$> d.constructNew type args) :=
    fun type htype => .map (hc.constructNew hs htype hargs) fun _ _ _ h =>
      Handles.known_some.2 h
  unfold Calls.callTypeNamed
  refine .bind_read (.bind_read ?_)
  split
  · rename_i type _ hparam
    exact hconstruct type (hs.closed.knows_findTemplateParam _ name _ hparam).1
  · refine .bind_read ?_
    cases htype : s.scopes.resolveTypeName s.currentScope name with
    | some type =>
        exact hconstruct type
          (hs.closed.knows_resolveTypeName _ name type htype)
    | none => exact .fail hs _

omit [Steady I] in
theorem implicitReceiver (hs : s.Good I) :
    Sound I s Calls.implicitReceiver := by
  refine .inspect hs ?_
  split
  · exact Handles.known_ok.2 Handles.known_none
  · refine Handles.known_exceptBind fun found hfound => ?_
    have hself := hs.closed.knows_lookupVariable "self" found hfound
    cases found with
    | some this =>
        refine Handles.known_exceptMap fun target htarget =>
          Handles.known_some.2 ?_
        exact hs.closed.knows_stripRef (Handles.known_some.1 hself)
          target htarget
    | none => exact Handles.known_pure.2 Handles.known_none

theorem callTemplateOrMethod (hc : c.Alike I d) (hs : s.Good I) (name : String)
    {explicit : List TemplateArg} (hexplicit : s.Knows explicit)
    {args : List Value} (hargs : s.Knows args) (seen : Bool) :
    Agree I Quiet s (c.callTemplateOrMethod name explicit args seen)
      (d.callTemplateOrMethod name explicit args seen) := by
  have hsite : s.Knows (CallSite.free (args.map Value.type)).args :=
    Handles.known_map.2 fun v hv => (hargs v hv).1
  unfold Calls.callTemplateOrMethod
  refine .bind_read (.bind (hc.tryTemplates hs hsite hexplicit hargs _)
    fun result t ht hresult => ?_)
  cases result with
  | some result => exact .pure ht.good (Handles.known_some.1 hresult)
  | none =>
      refine .bind (implicitReceiver ht.good) fun receiver u hu hreceiver =>
        .bind_read ?_
      split
      · rename_i receiver' hmember
        have hknown := hreceiver _ (Option.filter_eq_some_iff.1 hmember).1
        exact hc.callMethod hu.good hknown name (hu.knows (ht.knows hargs))
      · refine .ite (fun _ => .inspect hu.good Handles.known_error) fun _ => ?_
        exact hc.callTypeNamed hu.good name (hu.knows (ht.knows hargs))

theorem callNamed (hc : c.Alike I d) (hs : s.Good I) (name : String)
    {explicit : List TemplateArg} (hexplicit : s.Knows explicit)
    {args : List Value} (hargs : s.Knows args) :
    Agree I Quiet s (c.callNamed name explicit args)
      (d.callNamed name explicit args) := by
  unfold Calls.callNamed
  refine .ite (fun _ => ?_) fun _ =>
    hc.callTemplateOrMethod hs name hexplicit hargs false
  refine .bind_inspect hs fun found hfound => ?_
  cases found with
  | some value =>
      have hvalue :=
        Handles.known_some.1 (hs.closed.knows_lookupVariable name _ hfound)
      exact hc.callValue hs hvalue hargs
  | none =>
      refine .bind_read
        (.bind (selectCallee hs (hs.closed.knows_functionCandidates name) args)
          fun callee t ht hcallee => ?_)
      cases callee with
      | some callee =>
          exact hc.invokeCallee ht.good (Handles.known_some.1 hcallee)
            (ht.knows hargs)
      | none =>
          exact hc.callTemplateOrMethod ht.good name (ht.knows hexplicit)
            (ht.knows hargs) _

omit [Steady I] in
theorem callOverloads (hc : c.Alike I d) (hs : s.Good I) (name : String)
    (candidates : List FunctionId) {args : List Value} (hargs : s.Knows args) :
    Agree I Quiet s (c.callOverloads name candidates args)
      (d.callOverloads name candidates args) := by
  unfold Calls.callOverloads
  refine .bind_read ?_
  split
  · exact hc.invoke _ hs hargs
  · exact .inspect hs Handles.known_error

theorem callResolved (hc : c.Alike I d) (hs : s.Good I) {callee : Operand}
    (hcallee : s.Knows callee) {args : List Value} (hargs : s.Knows args) :
    Agree I Quiet s (c.callResolved callee args)
      (d.callResolved callee args) := by
  cases callee with
  | pending node => exact .fail hs _
  | value value => exact hc.callValue hs hcallee hargs
  | type type =>
      exact .map (hc.constructNew hs hcallee hargs) fun _ _ _ h =>
        Handles.known_some.2 h
  | functions name explicit => exact hc.callNamed hs name hcallee hargs
  | overloads name candidates => exact hc.callOverloads hs name candidates hargs
  | method receiver name => exact hc.callMethod hs hcallee name hargs

theorem callOperand (hc : c.Alike I d) (hs : s.Good I) {callee : Operand}
    (hcallee : s.Knows callee) {args : List Value} (hargs : s.Knows args) :
    Agree I Quiet s (c.callOperand callee args)
      (d.callOperand callee args) := by
  unfold Calls.callOperand
  split
  · refine .ite (fun _ => hc.callNamed hs _ Handles.known_nil hargs) fun _ => ?_
    refine .bind (hc.resolveOperand hs _) fun operand t ht hoperand => ?_
    exact hc.callResolved ht.good hoperand (ht.knows hargs)
  · exact hc.callResolved hs hcallee hargs

/-! ## Expressions -/

theorem reduceCall (hc : c.Alike I d) (hs : s.Good I) {callee : Operand}
    (hcallee : s.Knows callee) (node : Node) :
    Agree I Quiet s (c.reduceCall callee node) (d.reduceCall callee node) := by
  unfold Calls.reduceCall
  refine .bind (.mapM hs fun arg _ t ht => hc.evaluate arg ht.good)
    fun args t ht hargs => ?_
  refine .bind (hc.callOperand ht.good (ht.knows hcallee) hargs)
    fun result u hu hresult => ?_
  cases result with
  | some value => exact .pure hu.good (hresult value rfl)
  | none => exact asOperand (.read hu.good hu.closed.knows_voidValue)

theorem reduceIndex (hc : c.Alike I d) (hs : s.Good I) {target : Operand}
    (htarget : s.Knows target) (node : Node) :
    Agree I Quiet s (c.reduceIndex target node)
      (d.reduceIndex target node) := by
  unfold Calls.reduceIndex
  refine .bind (hc.operandValue hs htarget) fun target t ht htarget => ?_
  cases node.child? 0 with
  | some index =>
      refine .bind (hc.evaluate index ht.good) fun index u hu hindex => ?_
      exact asOperand (hc.binaryOperator hu.good _ (hu.knows htarget) hindex)
  | none => exact .fail ht.good _

theorem reduceTrailing (hc : c.Alike I d) (hs : s.Good I) (node : Node)
    {operand : Operand} (hoperand : s.Knows operand) :
    Agree I Quiet s (c.reduceTrailing node operand)
      (d.reduceTrailing node operand) := by
  unfold Calls.reduceTrailing
  split
  · exact hc.reduceCall hs hoperand node
  · exact hc.reduceIndex hs hoperand node
  · exact .fail hs _

theorem logical (hc : c.Alike I d) (hs : s.Good I) (isAnd : Bool)
    {left right : Operand} (hleft : s.Knows left) (hright : s.Knows right) :
    Agree I Quiet s (c.logical isAnd left right)
      (d.logical isAnd left right) := by
  unfold Calls.logical
  refine .bind (hc.operandValue hs hleft) fun value t ht hvalue => ?_
  refine .bind (Sound.stripRef ht.good hvalue) fun l u hu hl => ?_
  have hright := hu.knows (ht.knows hright)
  refine .ite (fun _ => ?_) fun _ => .bind_inspect hu.good fun lv _ => ?_
  · refine .bind (hc.operandValue hu.good hright) fun r v hv hr => ?_
    exact hc.binaryOperator hv.good _ (hv.knows hl) hr
  · refine .ite (fun _ => Sound.allocBool hu.good lv) fun _ => ?_
    refine .bind (hc.operandValue hu.good hright) fun value v hv hvalue => ?_
    refine .bind (Sound.stripRef hv.good hvalue) fun r w hw hr => ?_
    refine .ite
      (fun _ => hc.binaryOperator hw.good _ (hw.knows (hv.knows hl)) hr)
        fun _ => ?_
    exact .bind_inspect hw.good fun rv _ => Sound.allocBool hw.good _

theorem reduceJoining (hc : c.Alike I d) (hs : s.Good I) (symbol : String)
    {left right : Operand} (hleft : s.Knows left) (hright : s.Knows right) :
    Agree I Quiet s (c.reduceJoining symbol left right)
      (d.reduceJoining symbol left right) := by
  unfold Calls.reduceJoining
  split
  · exact hc.memberAccess hs hleft right
  · exact hc.scopeResolution hs hleft right
  · exact asOperand (hc.logical hs true hleft hright)
  · exact asOperand (hc.logical hs false hleft hright)
  · refine .bind (hc.operandValue hs hleft) fun l t ht hl => ?_
    refine .bind (hc.operandValue ht.good (ht.knows hright)) fun r u hu hr => ?_
    exact asOperand (hc.binaryOperator hu.good _ (hu.knows hl) hr)

theorem reduceStep (hc : c.Alike I d) (hs : s.Good I)
    {step : Reduction.Step Operand} (hstep : s.Knows step) :
    Agree I Quiet s (c.reduceStep step) (d.reduceStep step) := by
  cases step with
  | leading op operand =>
      refine .bind (hc.operandValue hs hstep) fun value t ht hvalue => ?_
      exact asOperand (hc.unaryOperator ht.good _ hvalue)
  | trailing operand op => exact hc.reduceTrailing hs op.node hstep
  | joining left op right => exact hc.reduceJoining hs _ hstep.1 hstep.2

theorem reduceExpression (hc : c.Alike I d) (hs : s.Good I) (node : Node) :
    Agree I Quiet s (c.reduceExpression node) (d.reduceExpression node) := by
  unfold Calls.reduceExpression
  cases hitems : Reduction.items Operand.pending node.children with
  | error symbol => exact .fail hs _
  | ok items =>
      have hknown : s.Knows items :=
        Reduction.known_itemsFrom (fun _ => trivial) hitems
      refine .bind (.reduceFor (fun ht => hc.reduceStep ht) hs _ hknown)
        fun verdict t ht hverdict => ?_
      cases verdict with
      | value operand => exact hc.operandValue ht.good hverdict
      | misplaced symbol => exact .fail ht.good _
      | empty => exact .read ht.good ht.closed.knows_voidValue

theorem evaluateStep (hc : c.Alike I d) (hs : s.Good I) (node : Node) :
    Agree I Quiet s (c.evaluateStep node) (d.evaluateStep node) := by
  unfold Calls.evaluateStep
  refine .ite (fun _ => hc.reduceExpression hs node) fun _ => ?_
  refine .bind (hc.resolveOperand hs node) fun operand t ht hoperand => ?_
  exact hc.resolvedValue ht.good hoperand

end Calls.Alike

end ArenaScript
