import ArenaScript.Proofs.Evaluation.Completion

/-!
# The bodies of instances

An instance that is asked for and is not there yet is declared, and if that
succeeds it has the fields that the body of the template declares.  From then on
the instance is found by its name, and it stays what it is.  The same name is
found if the declaration has failed, so whoever asks again gets what the failure
has left, for good.
-/

namespace ArenaScript

open Engine (Advances Later Preserves)

/-! ## Fields -/

namespace TypeTable

def fieldsOf (t : TypeTable) (id : TypeId) : List Field :=
  match (t.get id).shape with
  | .structural body => body.fields
  | _ => []

theorem Grown.fieldsOf {t u : TypeTable} (h : t.Grown u) {id : TypeId}
    (hid : t.Has id) : u.fieldsOf id = t.fieldsOf id := by
  have hshape := congrArg TypeEntry.shape (h.entry id hid)
  simp only [TypeEntry.fixed, Shape.fixed] at hshape
  unfold TypeTable.fieldsOf
  cases hold : (t.get id).shape <;> cases hnew : (u.get id).shape <;>
    simp_all [Structural.mk.injEq]

end TypeTable

namespace Calls

/-- The node declares the field in the body of an instance of `d`, which is
declared between `s` and `t` in `scope`: the type of the field is what its type
name stands for where the parameters of `d` stand for `args`. -/
structure DeclaresField (c : Calls) (d : TemplateDef) (args : List TemplateArg)
    (scope : ScopeId) (s t : Engine) (node : Node) (field : Field) : Prop where
  name : field.name = node.text
  initializer : field.initializer = (definitionParts node).2.map (⟨d.tree, ·⟩)
  type : ∃ typeNode u v, (definitionParts node).1 = some typeNode ∧ s.Later u ∧
    v.Later t ∧
    u.currentTree = d.tree ∧ u.scopes.Binds scope (d.bindings args) ∧
      c.resolveType typeNode scope u = .ok field.type v

structure DeclaresBody (c : Calls) (d : TemplateDef) (args : List TemplateArg)
    (s : Engine) (type : TypeId) (t : Engine) : Prop where
  new : type = ⟨s.types.size⟩
  complete : (t.types.get type).isComplete
  fields : List.Forall₂ (c.DeclaresField d args (t.types.get type).members s t)
    (d.node.children.filter (·.kind == .variableDefinition))
      (t.types.fieldsOf type)

end Calls

/-! ## Declaring an instance -/

namespace Calls

variable {c : Calls} {template : TemplateId} {args : List TemplateArg}
  {s t : Engine}

theorem instantiateClass_takes (hnew : s.types.findByName?
      (s.renderInstance (s.templates.get template) args) = none) {type : TypeId}
    (hrun : c.instantiateClass template args s = .ok type t) :
    (s.templates.get template).takes args = true := by
  refine Bool.of_not_eq_false fun hrefused => ?_
  obtain ⟨e, herror⟩ := instantiateClass_refused hnew hrefused
  rw [herror] at hrun
  cases hrun

theorem DeclaresField.congr {d : TemplateDef} {scope : ScopeId} {node : Node}
    {field placed : Field} (h : c.DeclaresField d args scope s t node field)
    (hplaced : placed.declared = field.declared) :
    c.DeclaresField d args scope s t node placed := by
  have hname : placed.declared.name = field.declared.name :=
    congrArg Field.name hplaced
  have htype : placed.declared.type = field.declared.type :=
    congrArg Field.type hplaced
  have hinit : placed.declared.initializer = field.declared.initializer :=
    congrArg Field.initializer hplaced
  obtain ⟨typeNode, u, v, hnode, hu, hv, htree, hbinds, hrun⟩ := h.type
  refine ⟨hname.trans h.name, hinit.trans h.initializer, ?_⟩
  refine ⟨typeNode, u, v, hnode, hu, hv, htree, hbinds, hrun.trans ?_⟩
  exact congrArg (EStateM.Result.ok · v) htype.symm

theorem declaresField_of_placed {d : TemplateDef} {scope : ScopeId}
    {nodes : List Node} {fields placed : List Field}
    (h : List.Forall₂ (c.DeclaresField d args scope s t) nodes fields)
    (hplaced : placed.map Field.declared = fields.map Field.declared) :
    List.Forall₂ (c.DeclaresField d args scope s t) nodes placed := by
  induction h generalizing placed with
  | nil =>
      rw [List.map_eq_nil_iff.1 hplaced]
      exact .nil
  | cons hfield _ ih =>
      obtain ⟨first, rest, rfl, hfirst, hrest⟩ := List.map_eq_cons_iff.1 hplaced
      exact .cons (hfield.congr hfirst) (ih hrest)

/-- While the fields are built, in order, the parameters stand for the
arguments. -/
theorem buildFields_declare {fuel : Nat} {d : TemplateDef} {scope : ScopeId}
    {nodes : List Node} {fields : List Field} {u v : Engine} (hu : s.Later u)
    (htree : u.currentTree = d.tree)
    (hbinds : ∀ w : Engine, u.Preserves w →
      w.scopes.Binds scope (d.bindings args))
        (hrun : nodes.mapM ((ofFuel fuel).buildField scope) u = .ok fields v)
        (hv : v.Later t) :
    List.Forall₂ ((ofFuel fuel).DeclaresField d args scope s t) nodes
      fields := by
  have hwithin := Within.ofFuel Later.stable fuel
  have hpaired := hwithin.paired Later.stable.toLocal
  induction nodes generalizing u fields with
  | nil =>
      cases hrun
      exact .nil
  | cons node nodes ih =>
      rw [List.mapM_cons] at hrun
      obtain ⟨field, w, hfield, hrun⟩ := Eval.bind_eq_ok hrun
      obtain ⟨rest, x, hrest, hrun⟩ := Eval.bind_eq_ok hrun
      cases hrun
      have hbuilt : Eval.Within (fun s t => s.Advances t ∧ s.Later t)
          ((ofFuel fuel).buildField scope node) :=
        .of_related fun _ => hpaired.buildField scope node
      obtain ⟨hadvances, hlater⟩ := hbuilt.of_ok hfield
      have htidy : Eval.Tidy ((ofFuel fuel).buildField scope node) :=
        .of_kept fun _ => (Tidy.ofFuel fuel).buildField scope node
      have hkept := htidy.preserves.of_ok hfield
      -- What this field has resolved is still there after the fields behind it.
      have hend : w.Later t := by
        have hrests : Eval.Within (fun s t => s.Advances t ∧ s.Later t)
            (nodes.mapM ((ofFuel fuel).buildField scope)) :=
          .of_related fun _ =>
            Congruence.mapM _ (hpaired.buildField scope) nodes
        exact (hrests.of_ok hrest).2.trans hv
      refine .cons ?_ (ih (hu.trans hlater) (hadvances.currentTree.trans htree)
        (fun y hy => hbinds y (Preserves.composable.trans hkept hy)) hrest)
      obtain ⟨⟨declared, init⟩, hparts⟩ : ∃ parts, definitionParts node =
        parts := ⟨_, rfl⟩
      unfold buildField at hfield
      rw [hparts] at hfield
      cases declared with
      | none => cases hfield
      | some typeNode =>
          obtain ⟨type, y, htype, hfield⟩ := Eval.bind_eq_ok hfield
          have hresolved := (hwithin.resolveType typeNode scope).of_ok htype
          rw [Eval.bind_read] at hfield
          cases hfield
          refine ⟨rfl, ?_, typeNode, u, w, by rw [hparts], hu, hend, htree,
            hbinds u (Preserves.composable.refl u), htype⟩
          rw [hparts, hresolved.1.currentTree, htree]

theorem classMembers_declare {fuel : Nat} {d : TemplateDef}
    {scope classScope : ScopeId}
    {origin : Option (TemplateId × List TemplateArg)} {type : TypeId}
    {fields : List Field} {variants : List (String × Int64)} {u v : Engine}
    (hu : s.Later u) (htree : u.currentTree = d.tree)
    (hbinds : ∀ w : Engine, u.Preserves w →
      w.scopes.Binds classScope (d.bindings args))
        (hrun : (ofFuel fuel).classMembers d.node scope classScope
          origin type u = .ok (fields, variants) v) (hv : v.Later t) :
    List.Forall₂ ((ofFuel fuel).DeclaresField d args classScope s t)
      (d.node.children.filter (·.kind == .variableDefinition)) fields := by
  have hR := Later.stable.toLocal
  obtain ⟨_, w, hannounce, hrun⟩ := Eval.bind_eq_ok hrun
  obtain ⟨_, x, howner, hrun⟩ := Eval.bind_eq_ok hrun
  obtain ⟨built, y, hbuilt, hrun⟩ := Eval.bind_eq_ok hrun
  cases hrun
  have hannounced : Eval.Within (fun s t => s.Advances t ∧ s.Later t)
      (announce d.node scope type origin) :=
    .of_related fun _ => Paired.announce (.within hR) d.node scope type origin
  have howned : Eval.Within (fun s t => s.Advances t ∧ s.Later t)
      (Eval.updateScope classScope fun s => { s with owner := some type }) :=
    .of_related fun _ => Paired.setOwner (.within hR) classScope type
  have htidy : Eval.Tidy (announce d.node scope type origin) :=
    .of_kept fun _ => Paired.announce .tidy d.node scope type origin
  have htidy' :
      Eval.Tidy (Eval.updateScope classScope fun s =>
        { s with owner := some type }) :=
    .of_kept fun _ => Paired.setOwner .tidy classScope type
  obtain ⟨hadvances, hlater⟩ := hannounced.of_ok hannounce
  obtain ⟨hadvances', hlater'⟩ := howned.of_ok howner
  have hkept := Preserves.composable.trans (htidy.preserves.of_ok hannounce)
    (htidy'.preserves.of_ok howner)
  refine buildFields_declare ((hu.trans hlater).trans hlater') ?_
    (fun z hz => hbinds z (Preserves.composable.trans hkept hz)) hbuilt hv
  rw [hadvances'.currentTree, hadvances.currentTree, htree]

theorem declareType_declaresBody {fuel : Nat} {d : TemplateDef} {name : String}
    {kind : StructKind} {scope classScope : ScopeId}
    {origin : Option (TemplateId × List TemplateArg)} {type : TypeId}
    {u v : Engine} (hu : s.Later u) (htypes : u.types = s.types)
    (htree : u.currentTree = d.tree)
    (hbinds : ∀ w : Engine, u.Preserves w →
      w.scopes.Binds classScope (d.bindings args))
        (hrun : Eval.declareType name kind classScope
          ((ofFuel fuel).classMembers d.node scope classScope origin) u =
            .ok type v) (hv : v.Later t) (hvt : v.Preserves t) :
    (ofFuel fuel).DeclaresBody d args s type t := by
  have hdeclared := Eval.declareType_declared name kind classScope
    ((ofFuel fuel).classMembers d.node scope classScope origin) u
  rw [hrun] at hdeclared
  cases hdeclared with
  | @done _ types types' fields variants w hregister hmembers hcomplete =>
      have hscope := TypeTable.register_members hregister
      have hregistered := Eval.register_preserves hregister
      have hmove : u.Move { u with types } := .registerShell hregister
      obtain ⟨rfl, -, e, -, -, rfl⟩ := TypeTable.register_eq_ok hregister
      have htidy :
          Eval.Tidy ((ofFuel fuel).classMembers d.node scope classScope origin
            ⟨u.types.size⟩) :=
        .of_kept fun _ =>
          (Tidy.ofFuel fuel).classMembers d.node scope _ origin _
      have hold : (u.types.push e).2.Has ⟨u.types.size⟩ :=
        TypeTable.has_push.2 (.inr rfl)
      have hkept := (htidy.preserves.of_ok hmembers).types
      have hhas : w.types.Has ⟨u.types.size⟩ :=
        Nat.lt_of_lt_of_le hold hkept.size
      obtain ⟨body, -, -, hsize, hentry, -⟩ :=
        TypeTable.complete_eq_ok hhas hcomplete
      have hhas' : types'.Has ⟨u.types.size⟩ := by
        rw [TypeTable.Has, hsize]
        exact hhas
      have hfields : t.types.fieldsOf ⟨u.types.size⟩ =
          (Layout.ofFields w.types.extentOf body.kind fields).1 := by
        rw [hvt.types.fieldsOf hhas']
        simp only [TypeTable.fieldsOf, hentry, TypeTable.completed]
      have hmember : (t.types.get ⟨u.types.size⟩).members = classScope := by
        rw [hvt.types.members hhas']
        simp only [hentry, TypeTable.completed]
        rw [hkept.members hold, hscope]
      refine ⟨by rw [htypes], ?_, ?_⟩
      · rw [hvt.types.isComplete hhas']
        exact (TypeTable.complete_noNewShell hcomplete).2
      · rw [hfields, hmember]
        refine declaresField_of_placed
          (classMembers_declare (hu.move hmove) htree ?_ hmembers ?_)
          (Layout.declared_ofFields _ _ _)
        · exact fun z hz => hbinds z (Preserves.composable.trans hregistered hz)
        · exact Later.trans (.move .refl (.completeType hcomplete)) hv

theorem later_open (d : TemplateDef) (args : List TemplateArg) (s : Engine) :
    s.Later { s with
      scopes := s.scopes.openInstance d args .classBody,
      currentTree := d.tree } :=
  .place ((Later.refl.move (.bindTemplateScope d args)).move
    (.createScope .classBody (some ⟨s.scopes.size⟩))) s.arena d.tree s.callDepth

section Methods

variable {fuel : Nat}

theorem classMethods_later (fuel : Nat) (node : Node) (scope : ScopeId)
    (type : TypeId) :
    Eval.Within (fun s t => s.Advances t ∧ s.Later t)
      ((ofFuel fuel).classMethods node scope type) :=
  .of_related fun _ =>
    ((Within.ofFuel Later.stable fuel).paired Later.stable.toLocal).classMethods
    trivial trivial type

theorem classMethods_tidy (fuel : Nat) (node : Node) (scope : ScopeId)
    (type : TypeId) : Eval.Tidy ((ofFuel fuel).classMethods node scope type) :=
  .of_kept fun _ => (Tidy.ofFuel fuel).classMethods trivial trivial type

theorem classMembers_tidy (fuel : Nat) (node : Node)
    (scope classScope : ScopeId)
    (origin : Option (TemplateId × List TemplateArg)) (type : TypeId) :
    Eval.Tidy ((ofFuel fuel).classMembers node scope classScope origin type) :=
  .of_kept fun _ =>
    (Tidy.ofFuel fuel).classMembers node scope classScope origin type

end Methods

theorem instantiateClass_declaresBody {fuel : Nat} (hnew : s.types.findByName?
      (s.renderInstance (s.templates.get template) args) = none) {type : TypeId}
    (hrun : (ofFuel fuel).instantiateClass template args s = .ok type t) :
    (ofFuel fuel).DeclaresBody (s.templates.get template) args s type t := by
  rw [instantiateClass_new _ hnew (instantiateClass_takes hnew hrun)] at hrun
  generalize s.templates.get template = d at hrun ⊢
  obtain ⟨z, hdefine, rfl⟩ := Eval.withTree_eq_ok hrun
  rw [defineClass_eq] at hdefine
  obtain ⟨type', y, hdeclare, hdefine⟩ := Eval.bind_eq_ok hdefine
  obtain ⟨_, z', hmethods, hdefine⟩ := Eval.bind_eq_ok hdefine
  cases hdefine
  have hlater : y.Later { z with currentTree := s.currentTree } :=
    .place ((classMethods_later fuel _ _ _).of_ok hmethods).2 z.arena
      s.currentTree z.callDepth
  have hkept := (classMethods_tidy fuel _ _ _).preserves.of_ok hmethods
  exact declareType_declaresBody (later_open d args s) rfl rfl
    (fun w hw => ScopeTable.binds_openInstance hw.scopes) hdeclare hlater
    ⟨hkept.types, hkept.scopes⟩

section Shells

variable {name : String} {kind : StructKind} {scope : ScopeId} {type : TypeId}
  {types : TypeTable} {x : TypeId → Eval (List Field × List (String × Int64))}

theorem grown_of_declareType_error (hx : ∀ type, Eval.Tidy (x type)) {e : Stop}
    (hregister : s.types.register name (.shell kind) scope = .ok (type, types))
    (hrun : Eval.declareType name kind scope x s = .error e t) :
    types.Grown t.types := by
  have hdeclared := Eval.declareType_declared name kind scope x s
  rw [hrun] at hdeclared
  cases hdeclared with
  | refused hrefused =>
      rw [hregister] at hrefused
      cases hrefused
  | interrupted hregister' hmembers =>
      rw [hregister] at hregister'
      cases hregister'
      exact ((hx _).preserves.of_error hmembers).types
  | unsized hregister' hmembers _ =>
      rw [hregister] at hregister'
      cases hregister'
      exact ((hx _).preserves.of_ok hmembers).types

theorem declareType_left (hx : ∀ type, Eval.Tidy (x type)) {e : Stop}
    (hnew : s.types.findByName? name = none)
    (hrun : Eval.declareType name kind scope x s = .error e t) :
    t.types.Has ⟨s.types.size⟩ ∧ t.types.name ⟨s.types.size⟩ = name ∧
      (t.types.get ⟨s.types.size⟩).isComplete = false := by
  obtain ⟨types, hregister⟩ := TypeTable.register_new hnew (.shell kind) scope
  obtain ⟨hhas, hname, hopen⟩ := TypeTable.register_shell hregister
  have hgrown := grown_of_declareType_error hx hregister hrun
  exact ⟨Nat.lt_of_lt_of_le hhas hgrown.size, (hgrown.name hhas).trans hname,
    (hgrown.isComplete hhas).trans hopen⟩

theorem declareType_named (hx : ∀ type, Eval.Tidy (x type))
    (hrun : Eval.declareType name kind scope x s = .ok type t) :
    t.types.Has type ∧ t.types.name type = name := by
  have hdeclared := Eval.declareType_declared name kind scope x s
  rw [hrun] at hdeclared
  cases hdeclared with
  | done hregister hmembers hcomplete =>
      obtain ⟨hhas, hname, -⟩ := TypeTable.register_shell hregister
      have hgrown := ((hx _).preserves.of_ok hmembers).types
      have hhas' := Nat.lt_of_lt_of_le hhas hgrown.size
      obtain ⟨hextends, -⟩ := TypeTable.complete_extends hcomplete
      exact ⟨hextends.has hhas',
        (hextends.name hhas').trans ((hgrown.name hhas).trans hname)⟩

end Shells

/-- A declaration that fails leaves the type it has registered: without its
members, unless only a method is to blame. -/
theorem instantiateClass_left {fuel : Nat} (hnew : s.types.findByName?
      (s.renderInstance (s.templates.get template) args) = none)
    (htakes : (s.templates.get template).takes args = true) {e : Stop}
    (hrun : (ofFuel fuel).instantiateClass template args s = .error e t) :
    t.types.Has ⟨s.types.size⟩ ∧
      t.types.name ⟨s.types.size⟩ =
        s.renderInstance (s.templates.get template) args ∧
      ((t.types.get ⟨s.types.size⟩).isComplete = false ∨
        (ofFuel fuel).DeclaresBody (s.templates.get template) args s
          ⟨s.types.size⟩ t) := by
  rw [instantiateClass_new _ hnew htakes] at hrun
  generalize s.templates.get template = d at hnew hrun ⊢
  obtain ⟨z, hdefine, rfl⟩ := Eval.withTree_eq_error hrun
  rw [defineClass_eq] at hdefine
  have hmembers :=
    classMembers_tidy fuel d.node ⟨s.scopes.size⟩ ⟨s.scopes.size + 1⟩
    (some (template, args))
  have hvacant : ({ s with
      scopes := s.scopes.openInstance d args .classBody,
      currentTree := d.tree } : Engine).types.findByName?
        (s.renderInstance d args) = none := hnew
  rcases Eval.bind_eq_error hdefine with hdeclare | ⟨type, y, hdeclare, hdefine⟩
  · obtain ⟨hhas, hname, hopen⟩ := declareType_left hmembers hvacant hdeclare
    exact ⟨hhas, hname, .inl hopen⟩
  · obtain hmethods | ⟨_, z', -, hpure⟩ := Eval.bind_eq_error hdefine
    · -- The type is complete, and the methods keep it and its name.
      have hlater : y.Later { z with currentTree := s.currentTree } :=
        .place ((classMethods_later fuel _ _ _).of_error hmethods).2 z.arena
          s.currentTree z.callDepth
      have hkept := (classMethods_tidy fuel _ _ _).preserves.of_error hmethods
      have hbody :=
        declareType_declaresBody (t := { z with currentTree := s.currentTree })
        (later_open d args s) rfl rfl
        (fun w hw => ScopeTable.binds_openInstance hw.scopes) hdeclare hlater
        ⟨hkept.types, hkept.scopes⟩
      obtain rfl := hbody.new
      obtain ⟨hhas, hname⟩ := declareType_named hmembers hdeclare
      exact ⟨Nat.lt_of_lt_of_le hhas hkept.types.size,
        (hkept.types.name hhas).trans hname,
        .inr hbody⟩
    · cases hpure

end Calls

/-! ## Asking again -/

namespace Engine

variable {r s t u : Engine} {template : TemplateId} {args : List TemplateArg}
  {type : TypeId}

structure Becomes (s t : Engine) : Prop where
  later : s.Later t
  preserves : s.Preserves t

theorem Becomes.perform (fuel : Nat) (request : Request)
    (hs : s.atRoot = true) :
    s.Becomes ((request.perform (Calls.ofFuel fuel)).after s) :=
  ⟨(Calls.Within.ofFuel Later.stable fuel).perform_later request hs,
    Request.perform_preserves (.ofFuel fuel) request s⟩

/-- From now on `type` is the instance, and it stays as it is. -/
def HandsOut (t : Engine) (template : TemplateId) (args : List TemplateArg)
    (type : TypeId) : Prop :=
  ∀ u, t.Becomes u → ∀ c : Calls, c.instantiateClass template args u =
    .ok type u ∧
    u.types.fieldsOf type = t.types.fieldsOf type ∧
    (u.types.get type).isComplete = (t.types.get type).isComplete

/-- So whatever the host asks for next, the instance is handed out again. -/
theorem HandsOut.perform (h : t.HandsOut template args type)
    (ht : t.atRoot = true) (fuel : Nat) (request : Request) (c : Calls) :
    c.instantiateClass template args
      ((request.perform (Calls.ofFuel fuel)).after t) =
      .ok type ((request.perform (Calls.ofFuel fuel)).after t) :=
  (h _ (.perform fuel request ht) c).1

/-- A type that has the name of the instance is the instance for good. -/
theorem handsOut_of_named (hr : Reachable r) (hst : r.Later t)
    (hlater : s.Later t) (htemplate : template.index < s.templates.defs.size)
    (hargs : s.types.HasArgs args) (hhas : t.types.Has type)
    (hname : t.types.name type =
      s.renderInstance (s.templates.get template) args) :
    t.HandsOut template args type := by
  intro u hu c
  have hhasu : u.types.Has type := hu.later.types.has hhas
  refine ⟨Calls.instantiateClass_known c ?_, hu.preserves.types.fieldsOf hhas,
    hu.preserves.types.isComplete hhas⟩
  have hsu : s.Later u := hlater.trans hu.later
  rw [hsu.template htemplate, hsu.renderInstance _ hargs, ← hname,
    ← hu.later.types.name hhas]
  exact TypeTable.findByName?_name
    ((hst.trans hu.later).distinct hr.distinct) hhasu

end Engine

namespace Calls

structure HandedOut (c : Calls) (template : TemplateId)
    (args : List TemplateArg) (s : Engine) (type : TypeId) (t : Engine) :
    Prop where
  origin : s.types.findByName?
    (s.renderInstance (s.templates.get template) args) = some type ∧
      t = s ∨
    s.types.findByName? (s.renderInstance (s.templates.get template) args) =
      none ∧
      c.DeclaresBody (s.templates.get template) args s type t
  filled : s.types.NoNewShell t.types
  kept : t.HandsOut template args type

structure LeftBehind (c : Calls) (template : TemplateId)
    (args : List TemplateArg) (s : Engine) (t : Engine) : Prop where
  unknown :
    s.types.findByName? (s.renderInstance (s.templates.get template) args) =
      none
  /-- Arguments that do not fit are refused at once; otherwise a type stays
  behind, without its members unless only a method is to blame, and whoever asks
  again gets this type. -/
  left : (s.templates.get template).takes args = false ∧ t = s ∨
    (s.templates.get template).takes args = true ∧
      ((t.types.get ⟨s.types.size⟩).isComplete = false ∨
        c.DeclaresBody (s.templates.get template) args s ⟨s.types.size⟩ t) ∧
      t.HandsOut template args ⟨s.types.size⟩

variable {template : TemplateId} {args : List TemplateArg} {r s : Engine}

theorem instantiateClass_later (fuel : Nat) (template : TemplateId)
    (args : List TemplateArg) :
    Eval.Within Later ((ofFuel fuel).instantiateClass template args) :=
  have hpaired := (Within.ofFuel Later.stable fuel).paired Later.stable.toLocal
  Within.later (.of_related fun _ => hpaired.instantiateClass template args)

/-- An instance that is handed out has the body of the template, unless it had
been there before; it is complete as long as nothing has failed.  A declaration
that fails leaves a type which is handed out from then on, as it is. -/
theorem instances_handed_out (hr : Reachable r) (hs : r.Later s)
    (htemplate : template.index < s.templates.defs.size)
    (hargs : s.types.HasArgs args) (fuel : Nat) :
    (Unbroken s → s.types.Whole) ∧
      (∀ type t, (ofFuel fuel).instantiateClass template args s = .ok type t →
        (ofFuel fuel).HandedOut template args s type t) ∧
      (∀ e t, (ofFuel fuel).instantiateClass template args s = .error e t →
        (ofFuel fuel).LeftBehind template args s t) := by
  have hcalls := Within.ofFuel Later.stable fuel
  refine ⟨Unbroken.whole, fun type t hrun => ?_, fun e t hrun => ?_⟩
  · have hlater := (instantiateClass_later fuel template args).of_ok hrun
    have htidy : Eval.Tidy ((ofFuel fuel).instantiateClass template args) :=
      .of_kept fun _ => (Tidy.ofFuel fuel).instantiateClass template args
    obtain ⟨hhas, hname⟩ := instantiateClass_named hcalls hrun
    refine ⟨?_, htidy.fills s type t hrun,
      Engine.handsOut_of_named hr (hs.trans hlater) hlater htemplate hargs
        hhas hname⟩
    cases hfound :
      s.types.findByName? (s.renderInstance (s.templates.get template)
        args) with
    | some known =>
        rw [instantiateClass_known _ hfound] at hrun
        cases hrun
        exact .inl ⟨rfl, rfl⟩
    | none => exact .inr ⟨rfl, instantiateClass_declaresBody hfound hrun⟩
  · have hlater := (instantiateClass_later fuel template args).of_error hrun
    have hunknown :
        s.types.findByName? (s.renderInstance (s.templates.get template) args) =
        none := by
      refine Option.eq_none_iff_forall_ne_some.2 fun type hfound => ?_
      rw [instantiateClass_known _ hfound] at hrun
      cases hrun
    refine ⟨hunknown, ?_⟩
    cases htakes : (s.templates.get template).takes args with
    | false =>
        obtain ⟨_, hrefused⟩ := instantiateClass_refused hunknown htakes
        rw [hrefused] at hrun
        cases hrun
        exact .inl ⟨rfl, rfl⟩
    | true =>
        obtain ⟨hhas, hname, hleft⟩ :=
          instantiateClass_left hunknown htakes hrun
        exact .inr ⟨rfl, hleft,
          Engine.handsOut_of_named hr (hs.trans hlater) hlater htemplate hargs
            hhas hname⟩

end Calls

/-! ### A field of an unknown type -/

namespace Halves

def leaf (kind : NodeKind) (text : String) : Node := ⟨kind, text, .dummy, 0, []⟩

def template (name type : String) : Node :=
  ⟨.classDecl, name, .dummy, 0,
    [⟨.templateParameters, "", .dummy, 0, [leaf .templateParameter "T"]⟩,
      ⟨.variableDefinition, "a", .dummy, 0, [leaf .typeName type]⟩]⟩

def variableOf (name : String) : Node :=
  ⟨.variableDefinition, "x", .dummy, 0,
    [⟨.typeName, name, .dummy, 0, [leaf .typeName "Int32"]⟩]⟩

def evaluate (node : Node) : Eval Unit :=
  (Request.item node).attempt (Calls.ofFuel 20)

def fresh : Engine := .new { stackCapacity := 64 } ⟨.buffer, ""⟩ none []

def engine : Engine :=
  (evaluate (template "Torn" "Missing")).after
    ((evaluate (template "Box" "T")).after fresh)

def failed : Engine := (evaluate (variableOf "Torn")).after engine

def instantiate (template : Nat) : Eval TypeId :=
  (Calls.ofFuel 20).instantiateClass ⟨template⟩ [.type .int32]

theorem unbroken : Unbroken engine :=
  .after 20 (.item (template "Torn" "Missing"))
    (.after 20 (.item (template "Box" "T")) (.new _ _ _ _ (by decide)) trivial
      (Eval.eq_ok_of_value? (by decide +kernel)))
    trivial (Eval.eq_ok_of_value? (by decide +kernel))

end Halves

open Halves in
theorem instances_handed_out_halves :
    Reachable engine ∧ engine.types.Whole ∧
      (Calls.ofFuel 20).HandedOut ⟨0⟩ [.type .int32] engine ⟨15⟩
        ((instantiate 0).after engine) ∧
      (Calls.ofFuel 20).LeftBehind ⟨1⟩ [.type .int32] engine
        ((instantiate 1).after engine) := by
  have hhas : engine.types.Has .int32 := by decide +kernel
  have hboth :=
    fun (id : TemplateId) (hid : id.index < engine.templates.defs.size) =>
      Calls.instances_handed_out unbroken.reachable .refl hid
        (Registry.hasArgs_single hhas) 20
  have hbox : instantiate 0 engine = .ok ⟨15⟩ ((instantiate 0).after engine) :=
    Eval.eq_ok_of_value? (by decide +kernel)
  have htorn : (instantiate 1).fault? engine =
      some (.unknownType "Missing") := by decide +kernel
  obtain ⟨e, -, hfailed⟩ := Eval.eq_error_of_fault? htorn
  have hfirst := hboth ⟨0⟩ (by decide +kernel)
  have hsecond := hboth ⟨1⟩ (by decide +kernel)
  exact ⟨unbroken.reachable, hfirst.1 unbroken, hfirst.2.1 _ _ hbox,
    hsecond.2.2 _ _ hfailed⟩

open Halves in
/-- Whoever asks for the instance again gets it, without its members. -/
theorem failed_instance_handed_out :
    Unbroken engine ∧
      (evaluate (variableOf "Torn")).fault? engine =
        some (.unknownType "Missing") ∧
      Reachable failed ∧ instantiate 1 failed = .ok ⟨15⟩ failed ∧
      (failed.types.get ⟨15⟩).isComplete = false ∧
      (evaluate (variableOf "Torn")).value? failed = some () := by
  have hreachable : Reachable failed :=
    .after 20 (.item (variableOf "Torn")) unbroken.reachable trivial
  have hknown : failed.types.findByName?
      (failed.renderInstance (failed.templates.get ⟨1⟩) [.type .int32]) =
        some ⟨15⟩ := by
    decide +kernel
  exact ⟨unbroken, by decide +kernel, hreachable,
    Calls.instantiateClass_known _ hknown,
    by decide +kernel, by decide +kernel⟩

end ArenaScript
