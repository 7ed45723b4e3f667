import ArenaScript.Proofs.Evaluation.Constants
import ArenaScript.Proofs.Evaluation.Copying

/-!
# The fields of the object that a method runs on

Inside of a method the name of a field alone stands for the field of `self`.
Then the class of the method tells where the field lies, and the variable
`self` where the object is.  `self.name` asks the type of the variable instead,
and looks through the variable if it is a reference.

The two agree where `self` is an object of the class or a reference to one,
unless the reference has a member function of that name: such a function is
found before the reference is looked through.
-/

namespace ArenaScript

/-! ## Names and members of `self` -/

def Node.Bare (node : Node) (name : String) : Prop :=
  ∃ inner : Node, inner.kind = .identifier ∧ inner.text = name ∧
    (node = inner ∨ node.kind = .expression ∧ node.children = [inner])

def Node.OfSelf (node : Node) (name : String) : Prop :=
  node.kind = .expression ∧ ∃ self op member,
    node.children = [self, op, member] ∧
    self.kind = .identifier ∧ self.text = "self" ∧ op.kind = .operator ∧
    op.text = "." ∧
    member.kind.isOperator = false ∧ member.text = name

namespace Calls

variable {node : Node} {name : String}

theorem resolveOperand_identifier (c : Calls) (h : node.kind = .identifier) :
    c.resolveOperand node = resolveIdentifier node.text := by
  simp only [resolveOperand, h]

theorem evaluateStep_bare (c : Calls) (h : node.Bare name) :
    c.evaluateStep node = (do c.resolvedValue (← resolveIdentifier name)) := by
  obtain ⟨inner, hkind, rfl, rfl | ⟨hnode, hchildren⟩⟩ := h
  · have hnot : (node.kind == .expression) = false := by rw [hkind]; rfl
    simp only [evaluateStep, hnot, Bool.false_eq_true, if_false,
      c.resolveOperand_identifier hkind]
  · rw [c.evaluateStep_operand hnode hchildren (by rw [hkind]; rfl),
      c.resolveOperand_identifier hkind]

theorem evaluateStep_ofSelf (c : Calls) (h : node.OfSelf name) :
    c.evaluateStep node =
      (do
        let receiver ← c.resolvedValue (← resolveIdentifier "self")
        c.operandValue (← memberOf receiver name)) := by
  obtain ⟨hnode, self, op, member, hchildren, hself, htext, hop, hdot, hmember,
    rfl⟩ := h
  have hitems : Reduction.items Operand.pending node.children =
      .ok [.operand (.pending self), .operator (.make op .joining),
        .operand (.pending member)] := by
    rw [Reduction.items, hchildren,
      Reduction.itemsFrom_operand (by rw [hself]; rfl),
      Reduction.itemsFrom_joining hop, Reduction.itemsFrom_operand hmember]
    rfl
  have hstep :
      c.reduceStep (.joining (.pending self) (.make op .joining)
        (.pending member)) =
      c.memberAccess (.pending self) (.pending member) := by
    simp only [reduceStep, Operator.make, hdot, reduceJoining]
  have hreduce : Reduction.reduce c.reduceStep
      [.operand (.pending self), .operator (.make op .joining),
        .operand (.pending member)] = (do
          let a ← c.memberAccess (.pending self) (.pending member)
          pure (.value a)) := by
    rw [← hstep]
    rfl
  simp only [evaluateStep, hnode, beq_self_eq_true, if_true, reduceExpression,
    hitems, hreduce, bind_assoc, pure_bind, memberAccess, operandValue,
    resolved, c.resolveOperand_identifier hself, htext]

end Calls

/-! ## What a method sees -/

namespace Engine

variable {s t : Engine} {owner type : TypeId} {self : Value} {name : String}
  {field : Field}

/-- The variable of this name in the running function. -/
def local? (s : Engine) (name : String) : Option Value :=
  localIn (reachableFrames s.arena.frames) name

def functionFrame? (s : Engine) : Option Frame :=
  (reachableFrames s.arena.frames).getLast?

def runningOwner? (s : Engine) : Option TypeId :=
  s.functionFrame?.bind fun frame => frame.call.bind CallRecord.owner

/-- What the frame of the running function itself binds `self` to. -/
def boundSelf? (s : Engine) : Option Value :=
  s.functionFrame?.bind fun frame => (frame.local? "self").map frame.resolve

def field? (s : Engine) (type : TypeId) (name : String) : Option Field :=
  (s.types.get type).structural?.bind (·.field? name)

/-- Once the type has been used it has a member function of this name. -/
def HasMethod (s : Engine) (type : TypeId) (name : String) : Prop :=
  let members := ((Eval.ensureInitialized type).after s).membersOf type
  ((members.findFunction name).isEmpty &&
    (members.findTemplateFunctions name).isEmpty) = false

/-- Members of class `owner` are looked for in `self` under this name: it is an
object of the class, or a reference to one without a member function of that
name. -/
inductive Receives (s : Engine) (owner : TypeId) (name : String)
    (self : Value) : Prop
  | object (h : self.type = owner)
  | reference (h : (s.types.get self.type).referenceTarget? = some owner)
      (hnone : ¬ s.HasMethod self.type name)

end Engine

def Eval.answer {α : Type} (x : Eval α) (s : Engine) : Except Stop α :=
  match x s with
  | .ok a _ => .ok a
  | .error e _ => .error e

namespace Engine

variable {s t : Engine} {owner type : TypeId} {self : Value} {name : String}
  {field : Field}

/-- The name alone and as a member of `self` evaluates to the same value, of one
type and at one address, or fails with the same error. -/
def NamesField (s : Engine) (name : String) : Prop :=
  ∀ (fuel : Nat) (bare dotted : Node), bare.Bare name → dotted.OfSelf name →
    Eval.answer ((Calls.ofFuel (fuel + 1)).evaluate bare) s =
      Eval.answer ((Calls.ofFuel (fuel + 1)).evaluate dotted) s

theorem structural_of_field? (h : s.field? type name = some field) :
    ∃ body, (s.types.get type).shape = .structural body ∧
      body.field? name = some field := by
  obtain ⟨body, hbody, hfield⟩ := Option.bind_eq_some_iff.1 h
  exact ⟨body, TypeEntry.shape_of_structural? hbody, hfield⟩

theorem referenceTarget?_of_field? (h : s.field? type name = some field) :
    (s.types.get type).referenceTarget? = none := by
  obtain ⟨body, hshape, -⟩ := structural_of_field? h
  simp only [TypeEntry.referenceTarget?, hshape]

/-- Without a variable of the name, it stands for the field of what `self` is,
or refers to. -/
theorem lookupVariable_field (howner : s.runningOwner? = some owner)
    (hself : s.boundSelf? = some self)
    (hfield : s.field? owner name = some field)
    (hlocal : s.local? name = none) :
    s.lookupVariable name =
      (s.stripRef self).map fun object =>
        some (object.view field.type field.offset) := by
  obtain ⟨frame, hframe, hcall⟩ := Option.bind_eq_some_iff.1 howner
  rw [boundSelf?, hframe, Option.bind_some, Option.map_eq_some_iff] at hself
  obtain ⟨slot, hslot, rfl⟩ := hself
  have hthrough : s.fieldThroughSelf frame name =
      (s.stripRef (frame.resolve slot)).map fun object =>
        some (object.view field.type field.offset) := by
    unfold field? at hfield
    simp only [fieldThroughSelf, hcall, hslot, hfield]
    rfl
  unfold local? at hlocal
  unfold functionFrame? at hframe
  simp only [lookupVariable, hlocal, hframe, hthrough]
  cases s.stripRef (frame.resolve slot) <;> rfl

theorem field?_grown (h : s.types.Grown t.types) (htype : s.types.Has type)
    (hfield : s.field? type name = some field) :
    t.field? type name = some field := by
  obtain ⟨body, hshape, hbody⟩ := structural_of_field? hfield
  obtain ⟨body', hshape', -, hfields, -, -⟩ :=
    TypeEntry.structural_of_fixed (h.entry type htype).symm hshape
  unfold field? TypeEntry.structural?
  rw [hshape']
  change body'.field? name = some field
  rwa [Structural.field?, ← hfields]

theorem memberFrom_object (hfield : s.field? self.type name = some field)
    (depth : Nat) :
    Calls.memberFrom name self (depth + 1) s =
      .ok (.value (self.view field.type field.offset)) s := by
  unfold field? at hfield
  rw [Calls.memberFrom, Eval.bind_read, hfield]
  rfl

theorem stripRef_type {object : Value}
    (htarget : (s.types.get self.type).referenceTarget? = some owner)
    (h : s.stripRef self = .ok object) : object.type = owner := by
  rw [stripRef, htarget] at h
  cases hword : s.arena.readWord self.addr with
  | ok addr =>
      rw [hword] at h
      cases h
      rfl
  | error e =>
      rw [hword] at h
      cases h

/-- A reference without a member function of the name is looked through, and
what it refers to has the field. -/
theorem exists_memberOf_reference (hs : s.Good Stocked)
    (hself : s.types.Has self.type)
    (htarget : (s.types.get self.type).referenceTarget? = some owner)
    (hfield : s.field? owner name = some field)
    (hnone : ¬ s.HasMethod self.type name) :
    ∃ t, Calls.memberOf self name s =
      (Eval.inspect fun s => (s.stripRef self).map fun object =>
        .value (object.view field.type field.offset)) t ∧
          t.stripRef self = s.stripRef self := by
  have hshape : ∃ rest, (s.types.get self.type).shape =
      .template .ref (.type owner :: rest) := by
    unfold TypeEntry.referenceTarget? at htarget
    split at htarget
    · rename_i hshape
      cases htarget
      exact ⟨_, hshape⟩
    · cases htarget
  obtain ⟨rest, hshape⟩ := hshape
  have hvoid : self.type ≠ .void := hs.inv.ne_void (by simp [hshape])
  have hcomplete : (s.types.get self.type).isComplete = true := by
    simp only [TypeEntry.isComplete, hshape]
  have hnofield : (s.types.get self.type).structural?.bind (·.field? name) =
      none := by
    simp only [TypeEntry.structural?, hshape, Option.bind_none]
  obtain ⟨t, hrun, hst, -, harena, -⟩ :=
    exists_prepared hs hself hcomplete hvoid
  have hgrown := hst.quiet.grows.types
  have htarget' : (t.types.get self.type).referenceTarget? = some owner :=
    (hgrown.referenceTarget? hself).trans htarget
  have hstrip : t.stripRef self = s.stripRef self := by
    rw [stripRef, stripRef, htarget, htarget', harena]
  have howner : s.types.Has owner :=
    TypeEntry.known_referenceTarget? (hs.closed.types self.type) owner htarget
  have hnomethod : (!((t.membersOf self.type).findFunction name).isEmpty ||
      !((t.membersOf self.type).findTemplateFunctions name).isEmpty) =
        false := by
    rw [HasMethod, Eval.after_ok hrun] at hnone
    simpa using hnone
  obtain ⟨depth, hdepth⟩ : ∃ depth, self.type.index = depth + 1 :=
    Nat.exists_eq_succ_of_ne_zero fun hzero => hvoid (congrArg TypeId.mk hzero)
  refine ⟨t, ?_, hstrip⟩
  rw [Calls.memberOf, Calls.memberFrom, Eval.bind_read, hnofield]
  change (Eval.ensureInitialized self.type >>= _) s = _
  rw [Eval.bind_ok hrun, Eval.bind_read, hnomethod]
  change (Eval.read _ >>= _) t = _
  rw [Eval.bind_read, htarget']
  change (Eval.inspect (fun s => s.stripRef self) >>= _) t = Eval.inspect _ t
  cases hobject : t.stripRef self with
  | ok object =>
      have htype := stripRef_type htarget' hobject
      have hat : t.field? object.type name = some field :=
        htype ▸ field?_grown hgrown howner hfield
      rw [Eval.bind_inspect hobject, hdepth, memberFrom_object hat]
      simp only [Eval.inspect, hobject, Except.map]
  | error e => simp only [bind, EStateM.bind, Eval.inspect, hobject, Except.map]

theorem resolveIdentifier_variable {v : Value}
    (h : s.lookupVariable name = .ok (some v)) :
    Calls.resolveIdentifier name s = .ok (.value v) s := by
  rw [Calls.resolveIdentifier, Eval.bind_inspect h]
  rfl

theorem evaluateStep_bare_ok (c : Calls) {node : Node} (hnode : node.Bare name)
    {v : Value} (h : s.lookupVariable name = .ok (some v)) :
    c.evaluateStep node s = .ok v s := by
  rw [c.evaluateStep_bare hnode, Eval.bind_ok (resolveIdentifier_variable h)]
  rfl

theorem evaluateStep_bare_error (c : Calls) {node : Node}
    (hnode : node.Bare name) {e : Failure}
    (h : s.lookupVariable name = .error e) :
    c.evaluateStep node s = .error (.failed e) s := by
  have hidentifier : Calls.resolveIdentifier name s = .error (.failed e) s := by
    have hinspect : Eval.inspect (fun s => s.lookupVariable name) s =
        .error (.failed e) s := by
      simp only [Eval.inspect, h]
    exact Eval.bind_error hinspect
  rw [c.evaluateStep_bare hnode, Eval.bind_error hidentifier]

theorem evaluateStep_ofSelf_eq (c : Calls) {node : Node}
    (hnode : node.OfSelf name)
    (hself : s.lookupVariable "self" = .ok (some self)) :
    c.evaluateStep node s =
      (Calls.memberOf self name >>= c.operandValue) s := by
  rw [c.evaluateStep_ofSelf hnode,
    Eval.bind_ok (resolveIdentifier_variable hself)]
  rfl

theorem Receives.namesField (h : s.Receives owner name self)
    (hs : s.Good Stocked) (howner : s.runningOwner? = some owner)
    (hself : s.boundSelf? = some self)
    (hinnermost : s.local? "self" = some self)
    (hfield : s.field? owner name = some field)
    (hlocal : s.local? name = none) : s.NamesField name := by
  intro fuel bare dotted hbare hdotted
  have hlookup := lookupVariable_field howner hself hfield hlocal
  have hvariable : s.lookupVariable "self" = .ok (some self) := by
    unfold local? at hinnermost
    simp only [lookupVariable, hinnermost]
  change Eval.answer ((Calls.ofFuel fuel).evaluateStep bare) s =
    Eval.answer ((Calls.ofFuel fuel).evaluateStep dotted) s
  unfold Eval.answer
  rw [evaluateStep_ofSelf_eq _ hdotted hvariable]
  cases h with
  | object hobject =>
      subst hobject
      have hstrip : s.stripRef self = .ok self := by
        rw [stripRef, referenceTarget?_of_field? hfield]
      rw [hstrip] at hlookup
      rw [evaluateStep_bare_ok _ hbare hlookup, Calls.memberOf,
        Eval.bind_ok (memberFrom_object hfield _)]
      rfl
  | reference htarget hnone =>
      have hhas : s.types.Has self.type :=
        (hs.closed.knows_localIn (Closed.reachableFrames_subset s.arena.frames)
          "self" self hinnermost).1
      obtain ⟨t, hmember, hstrip⟩ :=
        exists_memberOf_reference hs hhas htarget hfield hnone
      cases hobject : s.stripRef self with
      | ok object =>
          rw [hobject] at hlookup hstrip
          have hrun : Calls.memberOf self name s =
              .ok (.value (object.view field.type field.offset)) t := by
            rw [hmember]
            simp only [Eval.inspect, hstrip, Except.map]
          rw [evaluateStep_bare_ok _ hbare hlookup, Eval.bind_ok hrun]
          rfl
      | error e =>
          rw [hobject] at hlookup hstrip
          have hrun : Calls.memberOf self name s = .error (.failed e) t := by
            rw [hmember]
            simp only [Eval.inspect, hstrip, Except.map]
          rw [evaluateStep_bare_error _ hbare hlookup, Eval.bind_error hrun]

/-- A data member of the class whose method is running goes by its name alone as
it does by its name as a member of `self`, if no variable has the name: both are
values of one type and at one address, or neither is a value. -/
def OwnFields (s : Engine) : Prop :=
  ∀ owner name, s.runningOwner? = some owner →
    (s.field? owner name).isSome = true →
    s.local? name = none →
      ∀ (fuel : Nat) (bare dotted : Node), bare.Bare name → dotted.OfSelf name →
        (Eval.answer ((Calls.ofFuel (fuel + 1)).evaluate bare) s).toOption =
          (Eval.answer ((Calls.ofFuel (fuel + 1)).evaluate dotted) s).toOption

/-- Even errors are the same, if the method has bound `self` to what receives
the name, and no variable `self` of an inner block hides that. -/
def ReceivedFields (s : Engine) : Prop :=
  ∀ owner self name, s.runningOwner? = some owner → s.boundSelf? = some self →
    s.local? "self" = some self → s.Receives owner name self →
      (s.field? owner name).isSome = true → s.local? name = none →
      s.NamesField name

theorem receivedFields (hs : s.Good Stocked) : s.ReceivedFields := by
  intro owner self name howner hself hinnermost hreceives hfield hlocal
  obtain ⟨field, hfield⟩ := Option.isSome_iff_exists.1 hfield
  exact hreceives.namesField hs howner hself hinnermost hfield hlocal

end Engine

/-- At any time, in a method that has bound `self` to an object of its class or
to a reference to one, the fields of the class go by their names alone as they
do as members of `self`. -/
theorem Reachable.fields_received {s : Engine} (hs : Reachable s) :
    s.ReceivedFields ∧ ∀ (fuel : Nat) (request : Request), s.Knows request →
      Calls.Throughout Engine.ReceivedFields fuel request.perform s :=
  ⟨Engine.receivedFields hs.good, fun fuel _ hrequest =>
    hs.throughout (fun _ => Engine.receivedFields) fuel hrequest⟩

/-! ### Methods whose `self` is not what the class says -/

namespace Boxes

open Cells (node run variableOf)

def member (name : String) : Node :=
  node .expression ""
    [node .identifier "self" [], node .operator "." [],
      node .identifier name []]

def returned (nodes : List Node) : Node := node .returnStmt "" nodes

def int32 : Node := node .typeName "Int32" []

def int64 : Node := node .typeName "Int64" []

def ref (type : Node) : Node := node .typeName "Ref" [type]

/-- `class Box { get: Int32 = 5; held: Int32 = 7; peek(): Int32 { … } }`. -/
def box (body : List Node) : Node :=
  node .classDecl "Box"
    [node .variableDefinition "get" [int32, node .integerLiteral "5" []],
      node .variableDefinition "held" [int32, node .integerLiteral "7" []],
      node .function "peek"
        [node .parameters "" [], int32, node .block "" body]]

def engine (body : List Node) : Engine := run [box body, variableOf "b" "Box"]

def followed : List Node := [returned [member "get"]]

/-- `{ self: Int32; return self.held }`. -/
def covered : List Node :=
  [node .block "" [variableOf "self" "Int32", returned [member "held"]]]

def request : Request :=
  .item (node .expression ""
    [node .identifier "b" [], node .operator "." [], node .identifier "peek" [],
      node .call "" []])

/-- `class C { x: Int32 = 5; word(self: type): Int32 { return x } }`. -/
def declaring (type : Node) : Node :=
  node .classDecl "C"
    [node .variableDefinition "x" [int32, node .integerLiteral "5" []],
      node .function "word"
        [node .parameters "" [node .parameter "self" [type]], int32,
          node .block "" [returned [node .identifier "x" []]]]]

def counted : Engine :=
  run [declaring int64,
    node .variableDefinition "w" [int64, node .integerLiteral "4294967303" []]]

def nested : Engine :=
  run [declaring (ref (ref (node .typeName "C" []))), variableOf "c" "C",
    node .variableDefinition "r"
      [ref (node .typeName "C" []), node .identifier "c" []]]

/-- `C::word(arg)`. -/
def called (arg : String) : Request :=
  .item (node .expression ""
    [node .identifier "C" [], node .operator "::" [],
      node .identifier "word" [], node .call "" [node .identifier arg []]])

def Within (name : String) (s : Engine) : Prop :=
  s.runningOwner? = some ⟨15⟩ ∧ (s.field? ⟨15⟩ name).isSome = true ∧
    s.local? name = none

def Differs (name : String) (s : Engine) : Prop :=
  Within name s ∧
    (Eval.answer ((Calls.ofFuel 1).evaluate (node .identifier name []))
      s).toOption ≠
      (Eval.answer ((Calls.ofFuel 1).evaluate (member name)) s).toOption

def Holding (s : Engine) : Prop :=
  Within "held" s ∧ s.boundSelf? = some ⟨⟨16⟩, 20⟩ ∧
    s.local? "self" = some ⟨⟨16⟩, 20⟩ ∧
    (s.types.get ⟨16⟩).referenceTarget? = some ⟨15⟩ ∧ ¬ s.HasMethod ⟨16⟩ "held"

instance (s : Engine) (type : TypeId) (name : String) :
    Decidable (s.HasMethod type name) :=
  inferInstanceAs (Decidable (_ = false))

instance (name : String) : DecidablePred (Within name) :=
  fun _ => inferInstanceAs (Decidable (_ ∧ _ ∧ _))

instance (name : String) : DecidablePred (Differs name) :=
  fun _ => inferInstanceAs (Decidable (_ ∧ _))

instance : DecidablePred Holding :=
  fun _ => inferInstanceAs (Decidable (_ ∧ _ ∧ _ ∧ _ ∧ _))

theorem Differs.not_ownFields {name : String} {s : Engine}
    (h : Differs name s) : ¬ s.OwnFields := by
  obtain ⟨⟨howner, hfield, hlocal⟩, hne⟩ := h
  intro hall
  exact hne
    (hall ⟨15⟩ name howner hfield hlocal 0 (node .identifier name [])
      (member name)
      ⟨_, rfl, rfl, .inl rfl⟩ ⟨rfl, _, _, _, rfl, rfl, rfl, rfl, rfl, rfl, rfl⟩)

/-- While the request is performed, not every field of the running
method's class goes by its name alone as it does as a member of `self`. -/
def Shadows (s : Engine) (request : Request) : Prop :=
  Reachable s ∧ s.Knows request ∧
    ¬ Calls.Throughout Engine.OwnFields 20 request.perform s

theorem shadows {name : String} {s : Engine} {request : Request}
    (hs : Reachable s) (hrequest : s.Knows request)
    (h : Calls.Meets (Differs name) 20 request.perform s) :
    Shadows s request := by
  refine ⟨hs, hrequest, fun hall => ?_⟩
  obtain ⟨t, hdiffers, hfields⟩ := hall.exists_of_meets h
  exact hdiffers.not_ownFields hfields

end Boxes

open Boxes in
/-- A method may declare `self` with any type, and its name alone still stands
for the field that an object of the class would have at this place: in a number,
or in the reference that a reference refers to.  The field `get` alone is a
number, but `self.get` is the function that follows a reference.  And a variable
`self` of an inner block makes a difference to `self.held` only. -/
theorem Reachable.fields_shadowed :
    Shadows counted (called "w") ∧ Shadows nested (called "r") ∧
      Shadows (engine followed) request ∧ Shadows (engine covered) request := by
  have hcounted : Calls.Meets (Differs "x") 20 (called "w").perform counted :=
    Calls.meets_of_stopWhen (by decide +kernel)
  have hnested : Calls.Meets (Differs "x") 20 (called "r").perform nested :=
    Calls.meets_of_stopWhen (by decide +kernel)
  have hfollowed : Calls.Meets (Differs "get") 20 request.perform
      (engine followed) :=
    Calls.meets_of_stopWhen (by decide +kernel)
  have hcovered : Calls.Meets (Differs "held") 20 request.perform
      (engine covered) :=
    Calls.meets_of_stopWhen (by decide +kernel)
  exact ⟨shadows (Cells.reachable _) trivial hcounted,
    shadows (Cells.reachable _) trivial hnested,
    shadows (Cells.reachable _) trivial hfollowed,
    shadows (Cells.reachable _) trivial hcovered⟩

open Boxes in
theorem Reachable.fields_received_held :
    Reachable (engine followed) ∧ (engine followed).Knows request ∧
      Calls.Meets Holding 20 request.perform (engine followed) ∧
      ∃ t, Holding t ∧ t.ReceivedFields ∧ t.NamesField "held" := by
  have hengine : Reachable (engine followed) := Cells.reachable _
  have hmeets : Calls.Meets Holding 20 request.perform (engine followed) :=
    Calls.meets_of_stopWhen (by decide +kernel)
  refine ⟨hengine, trivial, hmeets, ?_⟩
  obtain ⟨t, ht, hfields⟩ :=
    ((fields_received hengine).2 20 request trivial).exists_of_meets hmeets
  obtain ⟨⟨howner, hfield, hlocal⟩, hself, hinnermost, htarget, hnone⟩ := ht
  exact ⟨t, ⟨⟨howner, hfield, hlocal⟩, hself, hinnermost, htarget, hnone⟩,
    hfields,
    hfields ⟨15⟩ ⟨⟨16⟩, 20⟩ "held" howner hself hinnermost
      (.reference htarget hnone) hfield hlocal⟩

end ArenaScript
