import ArenaScript.Proofs.Evaluation.Bodies
import ArenaScript.Proofs.Evaluation.Failures
import ArenaScript.Proofs.Evaluation.Signatures

/-!
# Declarations that are seen

A declaration that is executed for the first time enters what it declares in the
scope it is executed in: a function at the end of an overload list, a template,
or a type under its name.  Scopes only gain entries, so the name is seen there
for good, and whoever executes the declaration again enters nothing.  But a node
is processed once, and not once for each scope: where the same code runs in
another scope, as in a second instance of a function template, nothing is
declared.
-/

namespace ArenaScript

open Engine (Later Becomes Preserves)

/-! ## Scopes only gain entries -/

structure Scope.Accrues (s u : Scope) : Prop where
  overloads : ∀ operator name, s.overloads operator name <+:
    u.overloads operator name
  templates : ∀ name, s.findTemplateFunctions name <+:
    u.findTemplateFunctions name
  types : ∀ name type, s.types.get? name = some type →
    u.types.get? name = some type
  templateTypes : ∀ name template, s.templateTypes.get? name = some template →
    u.templateTypes.get? name = some template

namespace Scope.Accrues

variable {s u v : Scope}

theorem refl (s : Scope) : s.Accrues s :=
  ⟨fun _ _ => List.prefix_rfl, fun _ => List.prefix_rfl, fun _ _ h => h,
    fun _ _ h => h⟩

theorem trans (hsu : s.Accrues u) (huv : u.Accrues v) : s.Accrues v where
  overloads operator name :=
    (hsu.overloads operator name).trans (huv.overloads operator name)
  templates name := (hsu.templates name).trans (huv.templates name)
  types name type h := huv.types name type (hsu.types name type h)
  templateTypes name template h :=
    huv.templateTypes name template (hsu.templateTypes name template h)

theorem of_same (hfunctions : u.functions = s.functions)
    (hoperators : u.operators = s.operators)
    (htemplates : u.templateFunctions = s.templateFunctions)
    (htypes : u.types = s.types)
    (htemplateTypes : u.templateTypes = s.templateTypes) : s.Accrues u where
  overloads operator name := by
    simp only [Scope.overloads_congr hfunctions hoperators, List.prefix_rfl]
  templates name := by
    simp only [findTemplateFunctions, htemplates, List.prefix_rfl]
  types name type h := by rwa [htypes]
  templateTypes name template h := by rwa [htemplateTypes]

theorem register (s : Scope) (operator : Bool) (name : String)
    (id : FunctionId) : s.Accrues (s.register operator name id) where
  overloads other text := by
    rw [Scope.overloads_register]
    exact List.prefix_append _ _
  templates text := by
    unfold Scope.register
    split <;> exact List.prefix_rfl
  types text type h := by
    unfold Scope.register
    split <;> exact h
  templateTypes text template h := by
    unfold Scope.register
    split <;> exact h

theorem findTemplateFunctions_register (s : Scope) (name other : String)
    (id : TemplateId) :
    (s.registerTemplateFunction name id).findTemplateFunctions other =
      s.findTemplateFunctions other ++ if other = name then [id] else [] := by
  unfold Scope.findTemplateFunctions Scope.registerTemplateFunction
  rw [Overloads.get_push]
  split
  · rename_i heq
    rw [heq]
  · rw [List.append_nil]

theorem registerTemplateFunction (s : Scope) (name : String) (id : TemplateId) :
    s.Accrues (s.registerTemplateFunction name id) where
  overloads _ _ := List.prefix_rfl
  templates other := by
    rw [findTemplateFunctions_register]
    exact List.prefix_append _ _
  types _ _ h := h
  templateTypes _ _ h := h

theorem registerType {name : String} {type : TypeId}
    (h : s.registerType name type = .ok u) : s.Accrues u := by
  obtain ⟨rfl, hsame⟩ := Scope.registerType_eq_ok h
  refine ⟨fun _ _ => List.prefix_rfl, fun _ => List.prefix_rfl,
    fun other found hbound => ?_,
    fun _ _ hbound => hbound⟩
  rw [Bindings.get?_put]
  split
  · rename_i heq
    rw [hsame found (heq ▸ hbound)]
  · exact hbound

theorem registerTemplateType {name : String} {id : TemplateId}
    (h : s.registerTemplateType name id = .ok u) : s.Accrues u := by
  have hsame : ∀ found, s.templateTypes.get? name = some found →
      found = id := by
    intro found hbound
    simp only [Scope.registerTemplateType, hbound] at h
    split at h
    · assumption
    · cases h
  rw [Scope.registerTemplateType_eq_ok h]
  refine ⟨fun _ _ => List.prefix_rfl, fun _ => List.prefix_rfl,
    fun _ _ hbound => hbound,
    fun other found hbound => ?_⟩
  rw [Bindings.get?_put]
  split
  · rename_i heq
    rw [hsame found (heq ▸ hbound)]
  · exact hbound

end Scope.Accrues

/-- Scopes stay where they are and only gain entries, and the scope of a node
stays its scope. -/
structure ScopeTable.Accrues (t u : ScopeTable) : Prop where
  size : t.size ≤ u.size
  scopes : ∀ id : ScopeId, id.index < t.size → (t.get id).Accrues (u.get id)
  nodes : ∀ key id, t.byNode.lookup key = some id →
    u.byNode.lookup key = some id

namespace ScopeTable

variable {t u v : ScopeTable}

theorem lookup_scopeFor (t : ScopeTable) (key : NodeKey) (kind : ScopeKind)
    (parent : ScopeId) :
    (t.scopeFor key kind parent).2.byNode.lookup (key, parent) =
      some (t.scopeFor key kind parent).1 := by
  unfold scopeFor
  split
  · assumption
  · exact List.lookup_cons_self

namespace Accrues

theorem refl (t : ScopeTable) : t.Accrues t :=
  ⟨Nat.le_refl _, fun _ _ => .refl _, fun _ _ h => h⟩

theorem trans (htu : t.Accrues u) (huv : u.Accrues v) : t.Accrues v where
  size := Nat.le_trans htu.size huv.size
  scopes id hid :=
    (htu.scopes id hid).trans (huv.scopes id (Nat.lt_of_lt_of_le hid htu.size))
  nodes key id h := huv.nodes key id (htu.nodes key id h)

theorem of_old (hsize : t.size ≤ u.size)
    (h : ∀ id : ScopeId, id.index < t.size → u.get id = t.get id)
    (hnodes : ∀ key id, t.byNode.lookup key = some id →
      u.byNode.lookup key = some id) : t.Accrues u :=
  ⟨hsize, fun id hid => h id hid ▸ .refl _, hnodes⟩

theorem create (t : ScopeTable) (kind : ScopeKind) (parent : Option ScopeId) :
    t.Accrues (t.create kind parent).2 :=
  of_old ((Keeps.create t kind parent).size) (fun _ hid => get_create_old hid)
    fun _ _ h => h

theorem scopeFor (t : ScopeTable) (key : NodeKey) (kind : ScopeKind)
    (parent : ScopeId) : t.Accrues (t.scopeFor key kind parent).2 := by
  refine of_old (size_scopeFor t key kind parent)
    (fun _ hid => get_scopeFor_old hid) fun other id h => ?_
  unfold ScopeTable.scopeFor
  split
  · exact h
  · rename_i hnew
    have hne : (other == (key, parent)) = false := by
      refine beq_false_of_ne fun heq => ?_
      rw [heq, hnew] at h
      cases h
    rw [List.lookup_cons, hne]
    exact h

theorem bindTemplate (t : ScopeTable) (d : TemplateDef)
    (args : List TemplateArg) : t.Accrues (t.bindTemplate d args) := by
  have hnodes : ∀ (pairs : List (TemplateParam × TemplateArg)) (w : ScopeTable)
      (scope : ScopeId),
      (w.bindAll scope pairs).byNode = w.byNode := by
    intro pairs
    induction pairs with
    | nil => exact fun _ _ => rfl
    | cons pair rest ih => exact fun w scope => ih (w.modify scope _) scope
  refine of_old (Keeps.bindTemplate t d args).size
    (fun _ hid => get_bindTemplate_old hid) fun key id h => ?_
  rw [ScopeTable.bindTemplate, hnodes]
  exact h

theorem modify (id : ScopeId) {f : Scope → Scope}
    (h : (t.get id).Accrues (f (t.get id))) : t.Accrues (t.modify id f) where
  size := Nat.le_of_eq (size_modify t id f).symm
  scopes other _ := by
    rw [get_modify]
    split
    · rename_i heq
      exact heq.1 ▸ h
    · exact .refl _
  nodes _ _ h := h

end Accrues

end ScopeTable

namespace Engine.Later

variable {s t : Engine}

theorem scopes (h : s.Later t) : s.scopes.Accrues t.scopes := by
  induction h with
  | refl => exact .refl _
  | place _ _ _ _ ih => exact ih
  | enter _ _ _ ih => exact ih.trans (.create _ _ _)
  | move _ hmove ih =>
      refine ih.trans ?_
      cases hmove with
      | instantiate h =>
          rcases TypeTable.findOrCreate_scopes h with rfl | rfl
          · exact .refl _
          · exact .create _ _ _
      | createScope => exact .create _ _ _
      | scopeFor => exact .scopeFor _ _ _ _
      | addImport scope =>
          refine .modify scope ?_
          unfold Scope.addImport
          split <;> exact .of_same rfl rfl rfl rfl rfl
      | setOwner scope => exact .modify scope (.of_same rfl rfl rfl rfl rfl)
      | registerFunction scope name id =>
          exact .modify scope (.register _ false name id)
      | registerOperator scope symbol id =>
          exact .modify scope (.register _ true symbol id)
      | registerTemplateFunction scope name id =>
          exact .modify scope (.registerTemplateFunction _ name id)
      | bindTemplateScope => exact .bindTemplate _ _ _
      | registerType h => exact .modify _ (.registerType h)
      | registerTemplateType h => exact .modify _ (.registerTemplateType h)
      | _ => exact .refl _

theorem functions (h : s.Later t) :
    s.functions.functions.toList <+: t.functions.functions.toList := by
  induction h with
  | refl => exact List.prefix_rfl
  | move _ hmove ih =>
      refine ih.trans ?_
      cases hmove with
      | addFunction f => exact ⟨[f], by simp [FunctionTable.add]⟩
      | _ => exact List.prefix_rfl
  | place _ _ _ _ ih => exact ih
  | enter _ _ _ ih => exact ih

theorem function (h : s.Later t) {id : FunctionId}
    (hid : id.index < s.functions.size) :
    t.functions.get id = s.functions.get id := by
  obtain ⟨added, hadded⟩ := h.functions
  have hlt : id.index < s.functions.functions.size := hid
  have hget : t.functions.functions[id.index]? =
      s.functions.functions[id.index]? := by
    rw [← Array.getElem?_toList, ← Array.getElem?_toList, ← hadded,
      List.getElem?_append_left]
    simpa using hlt
  simp only [FunctionTable.get, Array.getD_eq_getD_getElem?, hget]

end Engine.Later

/-! ## What a scope shows -/

namespace Node

def label (node : Node) : String := (operatorSymbol? node.text).getD node.text

def memberNames (node : Node) : StructKind → List String
  | .enumKind => (node.children.filter (·.kind == .enumValue)).map Node.text
  | _ => (node.children.filter (·.kind == .variableDefinition)).map Node.text

end Node

def TypeEntry.Lists (e : TypeEntry) (kind : StructKind) (names : List String) :
    Prop :=
  ∃ body, e.shape = .structural body ∧ body.kind = kind ∧ body.complete = true ∧
    body.fields.map Field.name ++ body.variants.map Prod.fst = names

theorem TypeTable.Grown.lists {t u : TypeTable} (h : t.Grown u) {id : TypeId}
    (hid : t.Has id) {kind : StructKind} {names : List String}
    (hlists : (t.get id).Lists kind names) : (u.get id).Lists kind names := by
  obtain ⟨body, hshape, hkind, hcomplete, hnames⟩ := hlists
  have hfixed : (u.get id).shape.fixed = (t.get id).shape.fixed :=
    congrArg TypeEntry.shape (h.entry id hid)
  rw [hshape] at hfixed
  cases hshape' : (u.get id).shape with
  | structural body' =>
      rw [hshape'] at hfixed
      have hbody : ({ body' with origin := none } : Structural) =
          { body with origin := none } :=
        Shape.structural.inj hfixed
      simp only [Structural.mk.injEq, true_and] at hbody
      obtain ⟨hkind', hfields, hvariants, -, hcomplete'⟩ := hbody
      refine ⟨body', hshape', hkind'.trans hkind,
        hcomplete'.trans hcomplete, ?_⟩
      rw [hfields, hvariants, hnames]
  | _ =>
      rw [hshape'] at hfixed
      cases hfixed

namespace Engine

variable {s t : Engine} {tree : TreeId} {node : Node} {scope : ScopeId}
  {d : Declaration}

structure HasFunction (s : Engine) (tree : TreeId) (node : Node)
    (scope : ScopeId) (id : FunctionId) : Prop where
  lt : id.index < s.functions.size
  name : (s.functions.get id).name = node.label
  body : ∃ inner, (s.functions.get id).body = .interpreted tree node inner ∧
    s.scopes.byNode.lookup (⟨tree, node.id⟩, scope) = some inner

structure HasTemplate (s : Engine) (tree : TreeId) (node : Node)
    (scope : ScopeId) (item : TemplateItem) (id : TemplateId) : Prop where
  lt : id.index < s.templates.defs.size
  eq : ∃ params, s.templates.get id =
    { name := node.text, params, tree, node, scope, item }

structure HasType (s : Engine) (tree : TreeId) (node : Node) (scope : ScopeId)
    (kind : StructKind) (type : TypeId) : Prop where
  has : s.types.Has type
  name : s.types.name type = node.text
  members : s.scopes.byNode.lookup (⟨tree, node.id⟩, scope) =
    some (s.types.get type).members
  lists : (s.types.get type).Lists kind (node.memberNames kind)

inductive Shows (s : Engine) (tree : TreeId) (node : Node) (scope : ScopeId) :
    Declaration → Prop
  | function {id : FunctionId}
      (hplain : node.findChild? .templateParameters = none)
      (hlisted : id ∈ (s.scopes.get scope).overloads
        (operatorSymbol? node.text).isSome node.label)
          (h : s.HasFunction tree node scope id) :
          Shows s tree node scope .function
  | functionTemplate {params : Node} {id : TemplateId}
      (hparams : node.findChild? .templateParameters = some params)
      (hlisted : id ∈ (s.scopes.get scope).findTemplateFunctions node.text)
      (h : s.HasTemplate tree node scope (.function none) id) :
      Shows s tree node scope .function
  | template {params : Node} {kind : StructKind} {id : TemplateId}
      (hbound : (s.scopes.get scope).templateTypes.get? node.text = some id)
      (h : s.HasTemplate tree node scope (.record kind) id) :
      Shows s tree node scope (.template params kind)
  | type {kind : StructKind} {type : TypeId}
      (hbound : (s.scopes.get scope).types.get? node.text = some type)
      (h : s.HasType tree node scope kind type) :
      Shows s tree node scope (.type kind)

theorem HasFunction.later {id : FunctionId}
    (h : s.HasFunction tree node scope id) (hst : s.Later t) :
    t.HasFunction tree node scope id where
  lt := by
    have hlength := hst.functions.length_le
    simp only [Array.length_toList] at hlength
    exact Nat.lt_of_lt_of_le h.lt hlength
  name := by
    rw [hst.function h.lt]
    exact h.name
  body := by
    obtain ⟨inner, hbody, hscope⟩ := h.body
    exact ⟨inner, by rw [hst.function h.lt, hbody], hst.scopes.nodes _ _ hscope⟩

theorem HasTemplate.later {item : TemplateItem} {id : TemplateId}
    (h : s.HasTemplate tree node scope item id) (hst : s.Later t) :
    t.HasTemplate tree node scope item id where
  lt := by
    have hlength := hst.templates.length_le
    simp only [Array.length_toList] at hlength
    exact Nat.lt_of_lt_of_le h.lt hlength
  eq := by
    rw [hst.template h.lt]
    exact h.eq

theorem HasType.becomes {kind : StructKind} {type : TypeId}
    (h : s.HasType tree node scope kind type) (hst : s.Becomes t) :
    t.HasType tree node scope kind type where
  has := hst.later.types.has h.has
  name := (hst.later.types.name h.has).trans h.name
  members := by
    rw [hst.preserves.types.members h.has]
    exact hst.later.scopes.nodes _ _ h.members
  lists := hst.preserves.types.lists h.has h.lists

theorem Shows.becomes (h : s.Shows tree node scope d)
    (hscope : scope.index < s.scopes.size) (hst : s.Becomes t) :
    t.Shows tree node scope d := by
  have hgains := hst.later.scopes.scopes scope hscope
  cases h with
  | function hplain hlisted h =>
      exact .function hplain ((hgains.overloads _ _).subset hlisted)
        (h.later hst.later)
  | functionTemplate hparams hlisted h =>
      exact .functionTemplate hparams ((hgains.templates _).subset hlisted)
        (h.later hst.later)
  | template hbound h =>
      exact .template (hgains.templateTypes _ _ hbound) (h.later hst.later)
  | type hbound h => exact .type (hgains.types _ _ hbound) (h.becomes hst)

end Engine

/-! ## What a declaration enters -/

namespace Calls

variable {fuel : Nat} {node : Node} {scope : ScopeId} {s t : Engine}

theorem buildFunction_built {inner : ScopeId} {owner : Option TypeId}
    {id : FunctionId}
    (hrun : (ofFuel fuel).buildFunction node inner owner s = .ok id t) :
    id.index < t.functions.size ∧ (t.functions.get id).name = node.label ∧
      (t.functions.get id).body = .interpreted s.currentTree node inner := by
  have hR := Engine.Advances.stable.toLocal
  have hpaired := (Within.ofFuel Engine.Advances.stable fuel).paired hR
  have hadded : ∀ (f : Function) (w : Engine), f.name = node.label →
      f.body = .interpreted s.currentTree node inner →
      Eval.addFunction f w = .ok id t →
        id.index < t.functions.size ∧ (t.functions.get id).name = node.label ∧
          (t.functions.get id).body =
            .interpreted s.currentTree node inner := by
    intro f w hname hbody hrun
    cases hrun
    have hnew := FunctionTable.get_add_new w.functions f
    refine ⟨?_, (congrArg Function.name hnew).trans hname,
      (congrArg Function.body hnew).trans hbody⟩
    exact Nat.lt_of_lt_of_eq (Nat.lt_succ_self _)
      (FunctionTable.size_add _ f).symm
  unfold buildFunction at hrun
  cases hparams : node.findChild? .parameters with
  | none =>
      rw [hparams] at hrun
      cases hrun
  | some params =>
      rw [hparams] at hrun
      obtain ⟨self, u, hself, hrun⟩ := Eval.bind_eq_ok hrun
      obtain ⟨declared, v, hdeclared, hrun⟩ := Eval.bind_eq_ok hrun
      have hselfed : Eval.Within Engine.Advances (implicitSelf owner params) :=
        .of_related fun _ => Paired.implicitSelf (.within hR) owner params
      have hbuilt :
          Eval.Within Engine.Advances
            ((ofFuel fuel).buildParams inner params.children) :=
        .of_related fun _ => hpaired.buildParams inner params.children
      have htree : v.currentTree = s.currentTree :=
        (hbuilt.of_ok hdeclared).currentTree.trans
          (hselfed.of_ok hself).currentTree
      cases hret : node.findChild? .typeName with
      | some type =>
          rw [hret] at hrun
          obtain ⟨ret, w, hresolved, hrun⟩ := Eval.bind_eq_ok hrun
          have hadvances :=
            ((Within.ofFuel Engine.Advances.stable fuel).resolveType type
              inner).of_ok hresolved
          have hbody := hadvances.currentTree.trans htree
          exact hadded _ w rfl
            (congrArg (Body.interpreted · node inner) hbody) hrun
      | none =>
          rw [hret] at hrun
          exact hadded _ v rfl
            (congrArg (Body.interpreted · node inner) htree) hrun

theorem declareTemplate_declares {params : Node} {item : TemplateItem}
    {id : TemplateId}
    (hrun : (ofFuel fuel).declareTemplate node params scope item s = .ok id t) :
    t.HasTemplate s.currentTree node scope item id := by
  have hR := Engine.Advances.stable.toLocal
  have hpaired := (Within.ofFuel Engine.Advances.stable fuel).paired hR
  obtain ⟨built, u, hbuilt, hrun⟩ := Eval.bind_eq_ok hrun
  have hparams : Eval.Within Engine.Advances
      (params.children.mapM ((ofFuel fuel).buildTemplateParam scope)) :=
    .of_related fun _ => Congruence.mapM _ (hpaired.buildTemplateParam scope) _
  cases hrun
  refine ⟨by simp, built, ?_⟩
  rw [← (hparams.of_ok hbuilt).currentTree]
  simp [TemplateTable.get]

theorem defineFunction_shows (hscope : scope.index < s.scopes.size)
    (hrun : (ofFuel fuel).defineFunction node scope none s = .ok () t) :
    t.Shows s.currentTree node scope .function := by
  have hR := Later.stable.toLocal
  have hpaired := (Within.ofFuel Later.stable fuel).paired hR
  unfold defineFunction at hrun
  cases hparams : node.findChild? .templateParameters with
  | some params =>
      rw [hparams] at hrun
      obtain ⟨id, u, hdeclare, hrun⟩ := Eval.bind_eq_ok hrun
      have hlater : Eval.Within (fun s t => s.Advances t ∧ s.Later t)
          ((ofFuel fuel).declareTemplate node params scope (.function none)) :=
        .of_related fun _ => hpaired.declareTemplate trivial params trivial _
      have hlive :=
        Nat.lt_of_lt_of_le hscope (hlater.of_ok hdeclare).2.scopes.size
      have htemplate := declareTemplate_declares hdeclare
      cases hrun
      refine .functionTemplate hparams ?_ ⟨htemplate.lt, htemplate.eq⟩
      simp only [ScopeTable.get_modify, hlive, and_self, if_true,
        Scope.Accrues.findTemplateFunctions_register]
      exact List.mem_append_right _ List.mem_cons_self
  | none =>
      rw [hparams] at hrun
      obtain ⟨inner, u, hopen, hrest⟩ := Eval.bind_eq_ok hrun
      obtain ⟨id, v, hbuild, henter⟩ := Eval.bind_eq_ok hrest
      cases hopen
      have hlater : Eval.Within (fun s t => s.Advances t ∧ s.Later t)
          ((ofFuel fuel).buildFunction node
            (s.scopes.scopeFor ⟨s.currentTree, node.id⟩ .function scope).1
              none) :=
        .of_related fun _ => hpaired.buildFunction trivial trivial none
      have hscopes := (hlater.of_ok hbuild).2.scopes
      have hlive : scope.index < v.scopes.size :=
        Nat.lt_of_lt_of_le hscope
          (Nat.le_trans (ScopeTable.size_scopeFor _ _ _ _) hscopes.size)
      obtain ⟨hlt, hname, hbody⟩ := buildFunction_built hbuild
      have hregister : Eval.updateScope scope
          (·.register (operatorSymbol? node.text).isSome node.label id) v =
            .ok () t := by
        rw [← henter]
        unfold Node.label
        cases operatorSymbol? node.text <;> rfl
      cases hregister
      refine .function hparams ?_ ⟨hlt, hname, _, hbody, ?_⟩
      · simp only [ScopeTable.get_modify, hlive, and_self, if_true,
          Scope.overloads_register]
        exact List.mem_append_right _ List.mem_cons_self
      · exact hscopes.nodes _ _ (ScopeTable.lookup_scopeFor _ _ _ _)

/-! ### Types -/

theorem buildField_name {c : Calls} {field : Field}
    (hrun : c.buildField scope node s = .ok field t) :
    field.name = node.text := by
  obtain ⟨⟨declared, init⟩, hparts⟩ : ∃ parts, definitionParts node = parts :=
    ⟨_, rfl⟩
  unfold buildField at hrun
  rw [hparts] at hrun
  cases declared with
  | some typeNode =>
      obtain ⟨_, u, -, hrun⟩ := Eval.bind_eq_ok hrun
      cases hrun
      rfl
  | none => cases hrun

theorem buildFields_names {c : Calls} {nodes : List Node} {fields : List Field}
    (hrun : nodes.mapM (c.buildField scope) s = .ok fields t) :
    fields.map Field.name = nodes.map Node.text := by
  induction nodes generalizing s fields with
  | nil =>
      cases hrun
      rfl
  | cons node nodes ih =>
      rw [List.mapM_cons] at hrun
      obtain ⟨field, u, hfield, hrun⟩ := Eval.bind_eq_ok hrun
      obtain ⟨rest, v, hrest, hrun⟩ := Eval.bind_eq_ok hrun
      cases hrun
      rw [List.map_cons, List.map_cons, buildField_name hfield, ih hrest]

theorem buildConstants_names {c : Calls} {nodes : List Node} {next : Int64}
    {constants : List (String × Int64)}
    (hrun : c.buildConstants next nodes s = .ok constants t) :
    constants.map Prod.fst = nodes.map Node.text := by
  induction nodes generalizing s next constants with
  | nil =>
      cases hrun
      rfl
  | cons node nodes ih =>
      unfold buildConstants at hrun
      extract_lets rest at hrun
      have hrest : ∀ value u, rest value u = .ok constants t →
          constants.map Prod.fst = (node :: nodes).map Node.text := by
        intro value u hrun
        obtain ⟨others, v, hothers, hrun⟩ := Eval.bind_eq_ok hrun
        cases hrun
        rw [List.map_cons, List.map_cons, ih hothers]
      cases hvalue : node.child? 0 with
      | some expression =>
          rw [hvalue] at hrun
          obtain ⟨value, u, -, hrun⟩ := Eval.bind_eq_ok hrun
          exact hrest value u hrun
      | none =>
          rw [hvalue] at hrun
          exact hrest next s hrun

theorem completeType_eq_ok {type : TypeId} {fields : List Field}
    {variants : List (String × Int64)}
    (hrun : Eval.completeType type fields variants s = .ok () t) :
    ∃ types, s.types.complete type fields variants = .ok types ∧
      t = { s with types } := by
  unfold Eval.completeType at hrun
  split at hrun
  · rename_i types hcomplete
    cases hrun
    exact ⟨types, hcomplete, rfl⟩
  · cases hrun

theorem defineMembers_completes {own : ScopeId} {type : TypeId}
    {kind : StructKind}
    (hrun : (ofFuel fuel).defineMembers node own type kind s = .ok () t) :
    ∃ u fields variants types, s.Preserves u ∧
      u.types.complete type fields variants = .ok types ∧
      fields.map Field.name ++ variants.map Prod.fst = node.memberNames kind ∧
      Preserves { u with types } t := by
  have hR := Preserves.composable
  have htidy := Tidy.ofFuel fuel
  have howner :=
    (Eval.Tidy.of_kept fun _ => Paired.setOwner .tidy own type).preserves
  cases kind with
  | enumKind =>
      obtain ⟨_, v, hown, hrun⟩ := Eval.bind_eq_ok hrun
      obtain ⟨constants, w, hbuilt, hrun⟩ := Eval.bind_eq_ok hrun
      obtain ⟨types, hcomplete, rfl⟩ := completeType_eq_ok hrun
      have hconstants := (Eval.Tidy.of_kept fun _ => htidy.buildConstants 0
        (node.children.filter (·.kind == .enumValue))).preserves
      exact ⟨w, [], constants, types,
        hR.trans (howner.of_ok hown) (hconstants.of_ok hbuilt),
        hcomplete, buildConstants_names hbuilt, hR.refl _⟩
  | _ =>
      obtain ⟨_, x, hclass, hrun⟩ := Eval.bind_eq_ok hrun
      cases hrun
      obtain ⟨_, v, hown, hclass⟩ := Eval.bind_eq_ok hclass
      obtain ⟨fields, w, hbuilt, hclass⟩ := Eval.bind_eq_ok hclass
      obtain ⟨_, y, hcompleted, hclass⟩ := Eval.bind_eq_ok hclass
      obtain ⟨_, z, hmethods, hclass⟩ := Eval.bind_eq_ok hclass
      cases hclass
      obtain ⟨types, hcomplete, rfl⟩ := completeType_eq_ok hcompleted
      have hfields :=
        (Eval.Tidy.of_kept fun _ => Congruence.mapM _ (htidy.buildField own)
          (node.children.filter (·.kind == .variableDefinition))).preserves
      refine ⟨w, fields, [], types,
        hR.trans (howner.of_ok hown) (hfields.of_ok hbuilt), hcomplete,
        ?_, (classMethods_tidy fuel node own type).preserves.of_ok hmethods⟩
      rw [List.map_nil, List.append_nil]
      exact buildFields_names hbuilt

theorem registerTypeName_eq_ok {name : String} {type : TypeId}
    (hrun : Eval.registerTypeName scope name type s = .ok () t) :
    t = { s with scopes := s.scopes.modify scope (·.bindType name type) } := by
  unfold Eval.registerTypeName at hrun
  split at hrun
  · rename_i changed hbind
    cases hrun
    have hchanged : changed = (s.scopes.get scope).bindType name type :=
      (Scope.registerType_eq_ok hbind).1
    rw [hchanged, ScopeTable.modify_get s.scopes scope (·.bindType name type)]
  · cases hrun

theorem process_type_ok {c : Calls} {kind : StructKind}
    (hrun : c.process node scope (.type kind) s = .ok () t) :
    ∃ types, s.types.register node.text (.shell kind) (s.ownScope node scope) =
        .ok (⟨s.types.size⟩, types) ∧
      c.defineMembers node (s.ownScope node scope) ⟨s.types.size⟩ kind
        ((s.withOwnScope node scope).boundIn types scope node.text) =
          .ok () t := by
  rw [process_type] at hrun
  obtain ⟨type, u, hshell, hrest⟩ := Eval.bind_eq_ok hrun
  obtain ⟨_, v, hname, hmembers⟩ := Eval.bind_eq_ok hrest
  rw [registerTypeName_eq_ok hname] at hmembers
  unfold Eval.registerShell at hshell
  split at hshell
  · rename_i id types hregister
    cases hshell
    obtain ⟨rfl, -⟩ := TypeTable.register_eq_ok hregister
    exact ⟨types, hregister, hmembers⟩
  · cases hshell

/-- What has been registered for the node has its members when the declaration
is done. -/
theorem process_type_shows {kind : StructKind}
    (hscope : scope.index < s.scopes.size)
    (hrun : (ofFuel fuel).process node scope (.type kind) s = .ok () t) :
    t.Shows s.currentTree node scope (.type kind) := by
  obtain ⟨types, hregister, hmembers⟩ := process_type_ok hrun
  have hlater := ((defineMembers_later fuel node _ _ kind).of_ok hmembers).2
  obtain ⟨u, fields, variants, completed, hu, hcomplete, hnames, ht⟩ :=
    defineMembers_completes hmembers
  obtain ⟨hhas, hname, -⟩ := TypeTable.register_shell hregister
  have hhasu : u.types.Has ⟨s.types.size⟩ :=
    Nat.lt_of_lt_of_le hhas hu.types.size
  obtain ⟨body, hshape, -, hsize, hentry, -⟩ :=
    TypeTable.complete_eq_ok hhasu hcomplete
  have hhasc : completed.Has ⟨s.types.size⟩ := by
    rw [TypeTable.Has, hsize]
    exact hhasu
  have hkind : body.kind = kind := by
    obtain ⟨-, -, e, -, heshape, rfl⟩ := TypeTable.register_eq_ok hregister
    have hfixed : (u.types.get ⟨s.types.size⟩).shape.fixed = e.shape.fixed :=
      (congrArg TypeEntry.shape (hu.types.entry _ hhas)).trans
        (congrArg (fun entry => entry.shape.fixed)
          (TypeTable.get_push_new s.types e))
    rw [hshape, heshape] at hfixed
    exact congrArg Structural.kind (Shape.structural.inj hfixed)
  have hlists :
      (completed.get ⟨s.types.size⟩).Lists kind (node.memberNames kind) := by
    rw [hentry]
    refine ⟨_, rfl, hkind, rfl, ?_⟩
    rw [← hnames]
    have hplaced := congrArg (List.map Field.name)
      (Layout.declared_ofFields u.types.extentOf body.kind fields)
    rw [List.map_map, List.map_map] at hplaced
    exact congrArg (· ++ variants.map Prod.fst) hplaced
  have hmembers : (t.types.get ⟨s.types.size⟩).members =
      s.ownScope node scope := by
    refine (ht.types.members hhasc).trans ?_
    rw [hentry]
    exact (hu.types.members hhas).trans (TypeTable.register_members hregister)
  have hbound :
      (((s.withOwnScope node scope).boundIn types scope node.text).scopes.get
        scope).types.get? node.text = some ⟨s.types.size⟩ := by
    have hlive : scope.index < (s.withOwnScope node scope).scopes.size :=
      Nat.lt_of_lt_of_le hscope (ScopeTable.size_scopeFor _ _ _ _)
    simp only [Engine.boundIn, ScopeTable.get_modify, hlive, and_self, if_true,
      Scope.bindType, Bindings.get?_put]
    rfl
  refine .type (hlater.keepsTypes _ _ _ hbound) ⟨hlater.types.has hhas,
    (hlater.types.name hhas).trans hname, ?_, ht.types.lists hhasc hlists⟩
  rw [hmembers]
  exact hlater.scopes.nodes _ _ (ScopeTable.lookup_scopeFor _ _ _ _)

/-! ### Executing a declaration -/

variable {d : Declaration}

theorem registerTemplateName_eq_ok {name : String} {id : TemplateId}
    (hrun : Eval.registerTemplateName scope name id s = .ok () t) :
    t = { s with scopes := s.scopes.modify scope fun x =>
      { x with templateTypes := x.templateTypes.put name id } } := by
  unfold Eval.registerTemplateName at hrun
  split at hrun
  · rename_i changed hbind
    cases hrun
    rw [Scope.registerTemplateType_eq_ok hbind,
      ScopeTable.modify_get s.scopes scope fun x =>
        { x with templateTypes := x.templateTypes.put name id }]
  · cases hrun

theorem process_shows (hscope : scope.index < s.scopes.size)
    (hrun : (ofFuel fuel).process node scope d s = .ok () t) :
    t.Shows s.currentTree node scope d := by
  cases d with
  | function => exact defineFunction_shows hscope hrun
  | type kind => exact process_type_shows hscope hrun
  | template params kind =>
      obtain ⟨id, u, hdeclare, hname⟩ := Eval.bind_eq_ok hrun
      have hpaired :=
        (Within.ofFuel Later.stable fuel).paired Later.stable.toLocal
      have hlater : Eval.Within (fun s t => s.Advances t ∧ s.Later t)
          ((ofFuel fuel).declareTemplate node params scope (.record kind)) :=
        .of_related fun _ => hpaired.declareTemplate trivial params trivial _
      have hlive :=
        Nat.lt_of_lt_of_le hscope (hlater.of_ok hdeclare).2.scopes.size
      have htemplate := declareTemplate_declares hdeclare
      obtain rfl := registerTemplateName_eq_ok hname
      refine .template ?_ ⟨htemplate.lt, htemplate.eq⟩
      simp only [ScopeTable.get_modify, hlive, and_self, if_true,
        Bindings.get?_put]

theorem execute_eq_ok (hd : node.declaration? = some d) {flow : Flow}
    (hrun : (ofFuel (fuel + 1)).execute node s = .ok flow t) :
    flow = .normal ∧
    (ofFuel fuel).declare node s.currentScope (s.arrivedAt node) =
      .ok () t := by
  rw [execute_eq hd] at hrun
  unfold Eval.mapFailure at hrun
  split at hrun
  · rename_i hinner
    cases hrun
    obtain ⟨_, u, hdeclare, hpure⟩ := Eval.bind_eq_ok hinner
    cases hpure
    exact ⟨rfl, hdeclare⟩
  · cases hrun
  · cases hrun

structure Executed (node : Node) (d : Declaration) (s t : Engine) : Prop where
  /-- What has been processed before, in whatever scope, is passed over. -/
  passed : s.keyOf node ∈ s.declared → t = s.arrivedAt node
  /-- Otherwise the name is seen in the scope from now on. -/
  shown : s.keyOf node ∉ s.declared → ∀ u, t.Becomes u →
    u.Shows s.currentTree node s.currentScope d
  /-- Executed again, there or anywhere else, the node enters nothing. -/
  again : ∀ u, t.Later u → u.currentTree = s.currentTree → ∀ n,
    (ofFuel (n + 1)).execute node u = .ok .normal (u.arrivedAt node)

/-- A declaration that is executed without a failure is seen in its scope for
good and entered once, unless it has been processed before: then nothing is
entered. -/
theorem executed_declaration (hd : node.declaration? = some d)
    (hscope : s.currentScope.index < s.scopes.size) {flow : Flow}
    (hrun : (ofFuel (fuel + 1)).execute node s = .ok flow t) :
    flow = .normal ∧ Executed node d s t := by
  obtain ⟨hflow, hdeclare⟩ := execute_eq_ok hd hrun
  have hlater : s.Later t :=
    ((Within.ofFuel Later.stable (fuel + 1)).execute node).of_ok hrun |>.2
  by_cases hknown : s.keyOf node ∈ s.declared
  · have hskipped :=
      declare_known (s := s.arrivedAt node) (ofFuel fuel) s.currentScope
        hd hknown
    rw [hskipped] at hdeclare
    cases hdeclare
    refine ⟨hflow, fun _ => rfl, fun hfresh => absurd hknown hfresh,
      fun u hu htree n => ?_⟩
    have hkey : u.keyOf node = s.keyOf node := by
      simp only [Engine.keyOf, htree]
    exact execute_known hd n (hkey ▸ hu.declared (hlater.declared hknown))
  · have hprocess :=
      (declare_new (s := s.arrivedAt node) (ofFuel fuel) s.currentScope hd
        hknown).symm.trans hdeclare
    have hprocessed :=
      ((process_later fuel node s.currentScope d).of_ok hprocess).2
    have hshown : t.Shows s.currentTree node s.currentScope d :=
      process_shows (s := (s.arrivedAt node).markedFor node) hscope hprocess
    have hlive : s.currentScope.index < t.scopes.size :=
      Nat.lt_of_lt_of_le hscope hlater.scopes.size
    refine ⟨hflow, fun hold => absurd hold hknown, fun _ u hu =>
      hshown.becomes hlive hu,
      fun u hu htree n => ?_⟩
    have hmarked : s.keyOf node ∈ t.declared :=
      hprocessed.declared List.mem_cons_self
    have hkey : u.keyOf node = s.keyOf node := by
      simp only [Engine.keyOf, htree]
    exact execute_known hd n (hkey ▸ hu.declared hmarked)

end Calls

/-! ### A function in the body of a function template -/

namespace Concealed

def leaf (kind : NodeKind) (text : String) (id : Nat) : Node :=
  ⟨kind, text, .dummy, id, []⟩

def node (kind : NodeKind) (text : String) (id : Nat) (children : List Node) :
    Node :=
  ⟨kind, text, .dummy, id, children⟩

def body (first : Nat) (operand : List Node) : Node :=
  node .returnStmt "" (first + 1) [node .expression "" first operand]

/-- `function g(): Int32 { return 1 }` -/
def inner : Node :=
  node .function "g" 6 [leaf .parameters "" 0, leaf .typeName "Int32" 1,
    node .block "" 5 [body 3 [leaf .integerLiteral "1" 2]]]

/--
`function h<T>(x: T): Int32 { function g(): Int32 { return 1 } return g() }` -/
def outer : Node :=
  node .function "h" 20 [
    node .templateParameters "" 8 [leaf .templateParameter "T" 7],
    node .parameters "" 11 [node .parameter "x" 10 [leaf .typeName "T" 9]],
    leaf .typeName "Int32" 12,
    node .block "" 19
      [inner, body 15 [leaf .identifier "g" 13, leaf .call "" 14]]]

def tree : SyntaxTree := ⟨⟨1⟩, node .moduleRoot "" 21 [outer]⟩

def call (kind : NodeKind) (text : String) : Node :=
  node .expression "" 0 [leaf .identifier "h" 0,
    node .call "" 0 [node .expression "" 0 [leaf kind text 0]]]

def callInt : Node := call .integerLiteral "1"

def callBool : Node := call .boolLiteral "true"

def fresh : Engine := .new { stackCapacity := 256 } ⟨.buffer, ""⟩ none []

theorem reachable_fresh : Reachable fresh := .new _ _ _ _ (by decide)

def evaluate (node : Node) : Eval Unit :=
  (Request.item node).attempt (Calls.ofFuel 30)

def declared : Engine :=
  ((Request.evaluate tree outer).perform (Calls.ofFuel 30)).after fresh

theorem reachable_declared : Reachable declared :=
  .after 30 (.evaluate tree outer) reachable_fresh trivial

def once : Engine :=
  ((Request.item callInt).perform (Calls.ofFuel 30)).after declared

def twice : Engine :=
  ((Request.item callBool).perform (Calls.ofFuel 30)).after once

end Concealed

open Concealed in
theorem executed_declaration_outer :
    Reachable fresh ∧ outer.declaration? = some .function ∧
    fresh.keyOf outer ∉ fresh.declared ∧
      fresh.currentScope.index < fresh.scopes.size ∧
      ∃ t, (Calls.ofFuel 30).execute outer fresh = .ok .normal t ∧
        Calls.Executed outer .function fresh t := by
  have hrun : (Calls.ofFuel 30).execute outer fresh =
      .ok .normal (((Calls.ofFuel 30).execute outer).after fresh) :=
    Eval.eq_ok_of_value? (by decide +kernel)
  have hscope : fresh.currentScope.index < fresh.scopes.size := by
    decide +kernel
  exact ⟨reachable_fresh, rfl, by decide +kernel, hscope, _, hrun,
    (Calls.executed_declaration rfl hscope hrun).2⟩

open Concealed in
/-- Either instance alone runs, but the second one does not see the function it
declares: the scope 17 of the first instance has it, the scope 21 of the second
one has not. -/
theorem nested_function_unseen :
    Reachable declared ∧ (evaluate callInt).value? declared = some () ∧
      (evaluate callBool).value? declared = some () ∧
      Reachable once ∧ (evaluate callBool).fault? once =
        some (.unresolvedIdentifier "g") ∧
      Reachable twice ∧ ⟨⟨1⟩, inner.id⟩ ∈ twice.declared ∧
      ((twice.scopes.get ⟨17⟩).overloads false "g").length = 1 ∧
      (twice.scopes.get ⟨21⟩).kind = .function ∧
      (twice.scopes.get ⟨21⟩).overloads false "g" = [] := by
  have honce : Reachable once :=
    .after 30 (.item callInt) reachable_declared trivial
  have hcalls : (evaluate callInt).value? declared = some () ∧
      (evaluate callBool).value? declared = some () ∧
      (evaluate callBool).fault? once = some (.unresolvedIdentifier "g") ∧
      ⟨⟨1⟩, inner.id⟩ ∈ twice.declared ∧
      ((twice.scopes.get ⟨17⟩).overloads false "g").length = 1 ∧
      (twice.scopes.get ⟨21⟩).kind = .function ∧
      (twice.scopes.get ⟨21⟩).overloads false "g" = [] := by
    decide +kernel
  obtain ⟨hint, hbool, hunseen, htwice⟩ := hcalls
  exact ⟨reachable_declared, hint, hbool, honce, hunseen,
    .after 30 (.item callBool) honce trivial, htwice⟩

end ArenaScript
