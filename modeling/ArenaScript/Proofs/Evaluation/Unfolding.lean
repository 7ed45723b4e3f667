import Mathlib.Data.Finset.Lattice.Fold
import ArenaScript.Proofs.Evaluation.Resolution
import ArenaScript.Proofs.Evaluation.Runaway

/-!
# Class templates that unfold without end

Resolving a type name ends with a type or an error exactly if it registers a
bounded number of types, however much fuel there is.  This is so for class
templates that refer back to instances which are there already.  But an instance
is looked up by its name, and nothing else stops the instances inside one
another: a class template with a field whose type is an instance for an instance
of itself asks for longer and longer names, and limits on calls and on the arena
do not count them.
-/

namespace ArenaScript

open Eval (Stops)

/-! ## What ends -/

namespace Calls

/-- Resolving the type name ends, with a type or an error, if there is enough
fuel. -/
def ResolutionEnds (node : Node) (scope : ScopeId) (s : Engine) : Prop :=
  ∃ fuel, ∀ t, (ofFuel fuel).resolveType node scope s ≠ .error .outOfFuel t

variable {depth : Nat} {node : Node} {scope : ScopeId} {s : Engine}

/-- Where type names have no expressions, resolving one ends exactly if the
number of types is bounded.  With given fuel either the result is there, and
stays the same with more fuel, or types have been registered in proportion to
the fuel. -/
theorem resolution_ends_iff
    (hs : ∀ id, (s.templates.get id).node.isPlain depth = true)
    (hnode : node.isPlainType depth = true) :
    (ResolutionEnds node scope s ↔ ∃ bound, ∀ fuel,
      (((ofFuel fuel).resolveType node scope).after s).types.size ≤ bound) ∧
    ∀ fuel,
      (∀ more, (ofFuel (fuel + more)).resolveType node scope s =
        (ofFuel fuel).resolveType node scope s) ∨
      ∃ t, (ofFuel fuel).resolveType node scope s = .error .outOfFuel t ∧
        s.types.size + fuel / (depth + 1) ≤ t.types.size := by
  have hplain : s.Plain depth fun _ => False := ⟨hs, nofun⟩
  have hcases : ∀ fuel,
      (∀ t, (ofFuel fuel).resolveType node scope s ≠ .error .outOfFuel t) ∨
      ∃ t, (ofFuel fuel).resolveType node scope s =
        .error .outOfFuel t := fun fuel =>
    or_iff_not_imp_right.2 fun hnone t ht => hnone ⟨t, ht⟩
  refine ⟨⟨?_, ?_⟩, fun fuel => ?_⟩
  · rintro ⟨enough, hends⟩
    let size :=
      fun fuel => (((ofFuel fuel).resolveType node scope).after s).types.size
    refine ⟨(Finset.range (enough + 1)).sup size, fun fuel => ?_⟩
    rcases Nat.le_total fuel enough with hle | hge
    · exact Finset.le_sup (f := size)
        (Finset.mem_range.2 (Nat.lt_succ_of_le hle))
    · have hsame := resolveType_stable hplain hnode hge hends
      have hsize : size fuel = size enough := by
        simp only [size, Eval.after_congr hsame]
      have hle : size enough ≤ (Finset.range (enough + 1)).sup size :=
        Finset.le_sup (f := size) (Finset.mem_range.2 (Nat.lt_succ_self _))
      exact Nat.le_trans (Nat.le_of_eq hsize) hle
  · rintro ⟨bound, hbound⟩
    -- With this much fuel more types would have to be registered than there
    -- are.
    refine ⟨(bound + 1) * (depth + 1), fun t hrun => ?_⟩
    have hsize := resolveType_progress hplain hnode hrun
    rw [Nat.mul_div_cancel _ (Nat.succ_pos depth)] at hsize
    have hle := hbound ((bound + 1) * (depth + 1))
    rw [Eval.after_error hrun] at hle
    omega
  · rcases hcases fuel with hends | ⟨t, hrun⟩
    · exact .inl fun more =>
        resolveType_stable hplain hnode (Nat.le_add_right _ _) hends
    · exact .inr ⟨t, hrun, resolveType_progress hplain hnode hrun⟩

end Calls

/-! ## What does not -/

def Node.isNested (node : Node) (name param : String) : Bool :=
  match node.children with
  | [inner] =>
      node.text == name && inner.kind == .typeName && inner.text == name &&
        match inner.children with
        | [leaf] =>
            leaf.kind == .typeName && leaf.text == param &&
              leaf.children.isEmpty
        | _ => false
  | _ => false

theorem Node.shape_of_isNested {node : Node} {name param : String}
    (h : node.isNested name param = true) :
    ∃ inner leaf, node.text = name ∧ node.children = [inner] ∧
      inner.kind = .typeName ∧
      inner.text = name ∧ inner.children = [leaf] ∧ leaf.kind = .typeName ∧
      leaf.text = param ∧
        leaf.children = [] := by
  unfold isNested at h
  split at h
  · rename_i inner hnode
    obtain ⟨hinner, hleaf⟩ := Bool.and_eq_true_iff.1 h
    split at hleaf
    · rename_i leaf hchildren
      simp only [Bool.and_eq_true, beq_iff_eq, List.isEmpty_iff] at hinner hleaf
      obtain ⟨⟨htext, hkind⟩, htext'⟩ := hinner
      obtain ⟨⟨hkind', hparam⟩, hempty⟩ := hleaf
      exact ⟨inner, leaf, htext, hnode, hkind, htext', hchildren, hkind',
        hparam, hempty⟩
    · cases hleaf
  · cases h

/-- The first field of the class template is of an instance for an instance of
itself. -/
def TemplateDef.isSpiral (d : TemplateDef) (param : String) : Bool :=
  TemplateKind.ofName? d.name == none && d.params == [⟨param, .type⟩] &&
    match d.node.children.filter (·.kind == .variableDefinition) with
    | field :: _ => (definitionParts field).1.any (·.isNested d.name param)
    | [] => false

theorem TemplateDef.shape_of_isSpiral {d : TemplateDef} {param : String}
    (h : d.isSpiral param = true) :
    TemplateKind.ofName? d.name = none ∧ d.params = [⟨param, .type⟩] ∧
      ∃ field rest type init,
        d.node.children.filter (·.kind == .variableDefinition) = field :: rest ∧
        definitionParts field = (some type, init) ∧ type.isNested d.name param =
          true := by
  unfold isSpiral at h
  obtain ⟨hhead, hfield⟩ := Bool.and_eq_true_iff.1 h
  obtain ⟨hname, hparams⟩ := Bool.and_eq_true_iff.1 hhead
  refine ⟨beq_iff_eq.1 hname, beq_iff_eq.1 hparams, ?_⟩
  split at hfield
  · rename_i field rest hfields
    obtain ⟨⟨type, init⟩, hparts⟩ : ∃ parts, definitionParts field = parts :=
      ⟨_, rfl⟩
    rw [hparts] at hfield
    cases type with
    | none => cases hfield
    | some type => exact ⟨field, rest, type, init, hfields, hparts, hfield⟩
  · cases hfield

namespace ScopeTable

variable {t : ScopeTable}

theorem findTemplateType_inner {inner outer scope : ScopeId} {name : String}
    {template : TemplateId} (hinner : (t.get inner).parent = some outer)
    (houter : (t.get outer).parent = some scope) (hindex : 1 < inner.index)
    (hnames : ∀ id, id = inner ∨ id = outer →
      (t.get id).imports = [] ∧ (t.get id).templateTypes = .empty)
    (hscope : (t.get scope).templateTypes.get? name = some template) :
    t.findTemplateType inner name = some template := by
  obtain ⟨rounds, hrounds⟩ := Nat.exists_eq_add_of_lt hindex
  obtain ⟨rest, hrest⟩ := t.ancestorsFrom_head scope rounds
  have hancestors : t.ancestors inner = inner :: outer :: scope :: rest := by
    rw [ancestors, hrounds, ancestorsFrom_parent hinner, Nat.add_comm,
      ancestorsFrom_parent houter, hrest]
  obtain ⟨himports, htypes⟩ := hnames inner (.inl rfl)
  obtain ⟨himports', htypes'⟩ := hnames outer (.inr rfl)
  rw [findTemplateType, closure, hancestors]
  simp [himports, htypes, himports', htypes', hscope]

end ScopeTable

namespace Engine

variable {s : Engine} {template : TemplateId} {param : String} {arg : TypeId}

/-- The template is found where it is declared, and the name of its instance for
`arg` is longer than all names that are in use. -/
structure Spirals (s : Engine) (template : TemplateId) (param : String)
    (arg : TypeId) : Prop where
  isSpiral : (s.templates.get template).isSpiral param = true
  hasArg : s.types.Has arg
  scope : (s.templates.get template).scope.index < s.scopes.size
  declared : (s.scopes.get (s.templates.get template).scope).templateTypes.get?
    (s.templates.get template).name = some template
  longest : ∀ id, s.types.Has id → (s.types.name id).length <
    (s.renderInstance (s.templates.get template) [.type arg]).length

def unfolded (s : Engine) (template : TemplateId) (arg : TypeId) : Engine :=
  let d := s.templates.get template
  let entry : TypeEntry :=
    { name := s.renderInstance d [.type arg],
      shape := .structural (.shell d.structKind), size := 0
      members := ⟨s.scopes.size + 1⟩, aggregate := d.structKind != .enumKind,
      initialized := false }
  { s with
    types := (s.types.push entry).2.setOrigin ⟨s.types.size⟩ template
      [.type arg]
    scopes :=
      (s.scopes.openInstance d [.type arg] .classBody).modify
        ⟨s.scopes.size + 1⟩
      fun x => { x with owner := some ⟨s.types.size⟩ }
    currentTree := d.tree }

theorem types_unfolded (s : Engine) (template : TemplateId) (arg : TypeId) :
    s.types.Extends (s.unfolded template arg).types ∧
      (s.unfolded template arg).types.size = s.types.size + 1 ∧
      (s.unfolded template arg).types.name ⟨s.types.size⟩ =
        s.renderInstance (s.templates.get template) [.type arg] := by
  unfold unfolded
  extract_lets d entry
  have hpush : s.types.Extends (s.types.push entry).2 := .push s.types entry
  obtain ⟨horigin, hsize⟩ :=
    (s.types.push entry).2.setOrigin_extends ⟨s.types.size⟩ template [.type arg]
  have hnew : (s.types.push entry).2.Has ⟨s.types.size⟩ :=
    TypeTable.has_push.2 (.inr rfl)
  refine ⟨hpush.trans horigin,
    hsize.trans (TypeTable.size_push s.types entry), ?_⟩
  exact (horigin.name hnew).trans (TypeTable.name_push_new s.types entry)

theorem keeps_unfolded (s : Engine) (template : TemplateId) (arg : TypeId) :
    (s.scopes.openInstance (s.templates.get template)
      [.type arg] .classBody).Keeps (s.unfolded template arg).scopes := by
  exact .modify (f := fun x => { x with owner := some ⟨s.types.size⟩ })
    (fun _ => rfl) _

theorem size_unfolded (s : Engine) (template : TemplateId) (arg : TypeId) :
    (s.unfolded template arg).scopes.size = s.scopes.size + 2 :=
  (ScopeTable.size_modify _ _ _).trans (ScopeTable.size_openInstance _ _ _ _)

theorem get_unfolded_old {id : ScopeId} (h : id.index < s.scopes.size) :
    (s.unfolded template arg).scopes.get id = s.scopes.get id := by
  simp only [unfolded]
  rw [ScopeTable.get_modify, if_neg, ScopeTable.get_openInstance_old h]
  rintro ⟨rfl, -⟩
  exact Nat.not_succ_lt_self h

theorem get_unfolded_outer (s : Engine) (template : TemplateId) (arg : TypeId) :
    (s.unfolded template arg).scopes.get ⟨s.scopes.size⟩ =
      { kind := .template, parent := some (s.templates.get template).scope
        templateParams :=
          (s.templates.get template).bindings [.type arg] } := by
  simp only [unfolded]
  rw [ScopeTable.get_modify, if_neg, ScopeTable.get_openInstance_outer]
  rintro ⟨h, -⟩
  exact Nat.succ_ne_self _ (congrArg ScopeId.index h).symm

theorem get_unfolded_inner (s : Engine) (template : TemplateId) (arg : TypeId) :
    (s.unfolded template arg).scopes.get ⟨s.scopes.size + 1⟩ =
      { kind := .classBody, parent := some ⟨s.scopes.size⟩,
        owner := some ⟨s.types.size⟩ } := by
  simp only [unfolded]
  have hlt : s.scopes.size + 1 <
      (s.scopes.openInstance (s.templates.get template) [.type arg]
        .classBody).size := by
    rw [ScopeTable.size_openInstance]
    exact Nat.lt_succ_self _
  rw [ScopeTable.get_modify, if_pos ⟨rfl, hlt⟩,
    ScopeTable.get_openInstance_inner]

theorem length_renderInstance (s : Engine) (d : TemplateDef) (arg : TypeId) :
    (s.renderInstance d [.type arg]).length =
      d.name.length + (s.types.name arg).length + 2 := by
  have hargs : s.types.renderArgs [.type arg] = s.types.name arg := rfl
  simp only [renderInstance, hargs, String.length_append]
  have hopen : "<".length = 1 := rfl
  have hclose : ">".length = 1 := rfl
  omega

namespace Spirals

theorem params (hs : s.Spirals template param arg) :
    (s.templates.get template).params = [⟨param, .type⟩] :=
  (TemplateDef.shape_of_isSpiral hs.isSpiral).2.1

theorem takes (hs : s.Spirals template param arg) :
    (s.templates.get template).takes [.type arg] = true := by
  simp [TemplateDef.takes, hs.params, TemplateParam.admits]

theorem findTemplateParam (hs : s.Spirals template param arg) :
    (s.unfolded template arg).scopes.findTemplateParam
      ⟨s.scopes.size + 1⟩ param = some ⟨.type arg, none⟩ := by
  refine ScopeTable.binds_openInstance (keeps_unfolded s template arg)
    param _ ?_
  simp [TemplateDef.bindings, hs.params, TemplateParam.binding]

theorem findTemplateType (hs : s.Spirals template param arg) :
    (s.unfolded template arg).scopes.findTemplateType ⟨s.scopes.size + 1⟩
      (s.templates.get template).name = some template := by
  have hinner := get_unfolded_inner s template arg
  have houter := get_unfolded_outer s template arg
  refine ScopeTable.findTemplateType_inner (congrArg Scope.parent hinner)
    (congrArg Scope.parent houter) ?_ ?_ ?_
  · have hscope := hs.scope
    simp only
    omega
  · rintro id (rfl | rfl)
    · rw [hinner]
      exact ⟨rfl, rfl⟩
    · rw [houter]
      exact ⟨rfl, rfl⟩
  · rw [get_unfolded_old hs.scope]
    exact hs.declared

/-- No name that was in use is that of the instance, so the type that has been
registered is found under it. -/
theorem findByName? (hs : s.Spirals template param arg) :
    s.types.findByName? (s.renderInstance (s.templates.get template)
      [.type arg]) = none ∧
      (s.unfolded template arg).types.findByName?
        (s.renderInstance (s.templates.get template) [.type arg]) =
          some ⟨s.types.size⟩ := by
  obtain ⟨hextends, hsize, hname⟩ := types_unfolded s template arg
  have hold : ∀ id, s.types.Has id →
      s.types.name id ≠
        s.renderInstance (s.templates.get template)
          [.type arg] := fun id hid h =>
    Nat.lt_irrefl _ (h ▸ hs.longest id hid)
  refine ⟨TypeTable.findByName?_eq_none.2 hold, ?_⟩
  cases hfound : (s.unfolded template arg).types.findByName?
      (s.renderInstance (s.templates.get template) [.type arg]) with
  | none =>
      refine absurd hname (TypeTable.findByName?_eq_none.1 hfound _ ?_)
      exact Nat.lt_of_lt_of_eq (Nat.lt_succ_self _) hsize.symm
  | some found =>
      obtain ⟨hhas, hfoundName⟩ := TypeTable.findByName?_eq_some hfound
      by_cases hlt : s.types.Has found
      · exact absurd ((hextends.name hlt).symm.trans hfoundName)
          (hold found hlt)
      · have hindex : found.index = s.types.size := by
          have hbound : found.index < s.types.size + 1 := hsize ▸ hhas
          have hge : ¬ found.index < s.types.size := hlt
          omega
        rw [← hindex]

theorem renderInstance (hs : s.Spirals template param arg) :
    (s.unfolded template arg).renderInstance
      ((s.unfolded template arg).templates.get template)
      [.type arg] = s.renderInstance (s.templates.get template)
        [.type arg] := by
  have hextends := (types_unfolded s template arg).1
  simp only [Engine.renderInstance,
    hextends.renderArgs (Registry.hasArgs_single hs.hasArg)]
  rfl

theorem next (hs : s.Spirals template param arg) :
    (s.unfolded template arg).Spirals template param ⟨s.types.size⟩ where
  isSpiral := hs.isSpiral
  hasArg := by
    have hsize := (types_unfolded s template arg).2.1
    exact Nat.lt_of_lt_of_eq (Nat.lt_succ_self _) hsize.symm
  scope := by
    rw [size_unfolded]
    exact Nat.lt_add_right 2 hs.scope
  declared := by
    change ((s.unfolded template arg).scopes.get
      (s.templates.get template).scope).templateTypes.get?
      _ = _
    rw [get_unfolded_old hs.scope]
    exact hs.declared
  longest := by
    obtain ⟨hextends, hsize, hname⟩ := types_unfolded s template arg
    intro id hid
    have hbound : ((s.unfolded template arg).types.name id).length ≤
        (s.renderInstance (s.templates.get template) [.type arg]).length := by
      by_cases hlt : s.types.Has id
      · rw [hextends.name hlt]
        exact Nat.le_of_lt (hs.longest id hlt)
      · have hindex : id = ⟨s.types.size⟩ := by
          have hlast : id.index < s.types.size + 1 := hsize ▸ hid
          have hge : ¬ id.index < s.types.size := hlt
          have heq : id.index = s.types.size := by omega
          rw [← heq]
        rw [hindex, hname]
    rw [length_renderInstance, hname]
    omega

end Spirals

end Engine

namespace Calls

variable {s : Engine} {template : TemplateId} {param : String} {arg : TypeId}

/-! ### Type names with one argument -/

section

variable {c : Calls} {node child : Node} {scope : ScopeId} {t : Engine}

theorem resolveTemplateArg_applied (c : Calls) (hkind : node.kind = .typeName)
    (hchildren : node.children = [child]) (scope : ScopeId) :
    c.resolveTemplateArg scope node = .type <$> c.resolveType node scope := by
  unfold resolveTemplateArg
  simp [hkind, hchildren]

theorem resolveTemplateArg_param (c : Calls) (hkind : node.kind = .typeName)
    (hchildren : node.children = []) {binding : TemplateBinding}
    (hfound : t.scopes.findTemplateParam scope node.text = some binding) :
    c.resolveTemplateArg scope node t = .ok binding.arg t := by
  unfold resolveTemplateArg
  simp only [hkind, hchildren, List.isEmpty_nil, if_true]
  rw [Eval.bind_read, hfound]
  rfl

theorem resolveTemplateArg_named (c : Calls) (hkind : node.kind = .typeName)
    (hchildren : node.children = [])
    (hparam : t.scopes.findTemplateParam scope node.text = none) :
    c.resolveTemplateArg scope node t =
      (TemplateArg.type <$> c.resolveType node scope) t := by
  unfold resolveTemplateArg
  simp only [hkind, hchildren, List.isEmpty_nil, if_true]
  rw [Eval.bind_read, hparam]

theorem resolveTypeStep_named (c : Calls) (hchildren : node.children = [])
    (hparam : t.scopes.findTemplateParam scope node.text = none) {type : TypeId}
    (htype : t.scopes.resolveTypeName scope node.text = some type) :
    c.resolveTypeStep node scope t = .ok type t := by
  unfold resolveTypeStep
  simp only [hchildren, List.isEmpty_nil, if_true]
  rw [Eval.bind_read, hparam]
  simp only
  rw [Eval.bind_read, htype]
  rfl

theorem resolveTypeStep_applied (c : Calls)
    (hchildren : node.children = [child])
    (hname : TemplateKind.ofName? node.text = none) {a : TemplateArg}
    (harg : c.resolveTemplateArg scope child t = .ok a t)
    (hfound : t.scopes.findTemplateType scope node.text = some template) :
    c.resolveTypeStep node scope t = c.instantiateClass template [a] t := by
  have hargs : [child].mapM (c.resolveTemplateArg scope) t = .ok [a] t := by
    rw [List.mapM_cons, Eval.bind_ok harg]
    rfl
  unfold resolveTypeStep
  simp only [hchildren, List.isEmpty_cons, if_false, Bool.false_eq_true]
  rw [Eval.bind_ok hargs, hname]
  simp only
  rw [Eval.bind_read, hfound]

theorem resolveTypeStep_stops {Q : Stop → Prop}
    (hchildren : node.children = [child])
    (h : Stops Q (c.resolveTemplateArg scope child) t) :
    Stops Q (c.resolveTypeStep node scope) t := by
  unfold resolveTypeStep
  simp only [hchildren, List.isEmpty_cons, if_false, Bool.false_eq_true,
    List.mapM_cons]
  exact .bind _ (.bind _ h)

end

/-! ### The chain of instances -/

theorem instantiateClass_field (c : Calls) (hs : s.Spirals template param arg)
    {field type : Node} {rest : List Node} {init : Option Node}
    (hfields : (s.templates.get template).node.children.filter
      (·.kind == .variableDefinition) = field :: rest)
    (hparts : definitionParts field = (some type, init))
    (h : Stops (· = .outOfFuel) (c.resolveType type ⟨s.scopes.size + 1⟩)
      (s.unfolded template arg)) :
    Stops (· = .outOfFuel) (c.instantiateClass template [.type arg]) s := by
  obtain ⟨hnew, -⟩ := hs.findByName?
  have hfield : Stops (· = .outOfFuel) (c.buildField ⟨s.scopes.size + 1⟩ field)
      (s.unfolded template arg) := by
    unfold buildField
    rw [hparts]
    exact .bind _ h
  have hshell :
      Eval.registerShell (s.renderInstance (s.templates.get template)
        [.type arg]) (s.templates.get template).structKind ⟨s.scopes.size + 1⟩
      { s with
        scopes :=
          s.scopes.openInstance (s.templates.get template)
            [.type arg] .classBody
        currentTree := (s.templates.get template).tree } =
      .ok ⟨s.types.size⟩ { s with
        types := (s.types.push
          { name := s.renderInstance (s.templates.get template) [.type arg]
            shape := .structural (.shell (s.templates.get template).structKind),
            size := 0
            members := ⟨s.scopes.size + 1⟩
            aggregate := (s.templates.get template).structKind != .enumKind
            initialized := false }).2
        scopes :=
          s.scopes.openInstance (s.templates.get template)
            [.type arg] .classBody
        currentTree := (s.templates.get template).tree } := by
    simp only [Eval.registerShell, TypeTable.register, hnew]
    rfl
  have hclass : Stops (· = .outOfFuel)
      (c.defineClass (s.templates.get template).node ⟨s.scopes.size⟩
        ⟨s.scopes.size + 1⟩
        (s.renderInstance (s.templates.get template) [.type arg])
        (s.templates.get template).structKind (some (template, [.type arg])))
      { s with
        scopes :=
          s.scopes.openInstance (s.templates.get template)
            [.type arg] .classBody
        currentTree := (s.templates.get template).tree } := by
    unfold defineClass
    rw [hfields, List.mapM_cons]
    exact .bind_ok hshell
      (.bind_ok rfl (.bind_ok rfl (.bind _ (.bind _ hfield))))
  obtain ⟨e, t, hrun, he⟩ := Stops.withTree (s := { s with
    scopes :=
      s.scopes.openInstance (s.templates.get template) [.type arg] .classBody })
        hclass
  exact ⟨e, t, (instantiateClass_new c hnew hs.takes).trans hrun, he⟩

theorem instantiateClass_stops (hs : s.Spirals template param arg)
    (fuel : Nat) :
    Stops (· = .outOfFuel) ((ofFuel fuel).instantiateClass template [.type arg])
      s := by
  induction fuel generalizing s arg with
  | zero =>
      obtain ⟨-, -, field, rest, type, init, hfields, hparts, -⟩ :=
        TemplateDef.shape_of_isSpiral hs.isSpiral
      exact instantiateClass_field _ hs hfields hparts ⟨.outOfFuel, _, rfl, rfl⟩
  | succ fuel ih =>
      obtain ⟨hname, -, field, rest, type, init, hfields, hparts, hnested⟩ :=
        TemplateDef.shape_of_isSpiral hs.isSpiral
      obtain ⟨inner, leaf, htext, hinner, hkind, htext', hleaf, hkind', hparam,
        hempty⟩ :=
        Node.shape_of_isNested hnested
      refine instantiateClass_field _ hs hfields hparts ?_
      change Stops _ ((ofFuel fuel).resolveTypeStep type ⟨s.scopes.size + 1⟩) _
      have harg :=
        resolveTemplateArg_applied (ofFuel fuel) hkind hleaf ⟨s.scopes.size + 1⟩
      cases fuel with
      | zero =>
          refine resolveTypeStep_stops hinner ?_
          rw [harg]
          exact .map _ ⟨.outOfFuel, _, rfl, rfl⟩
      | succ fuel =>
          have hself : (ofFuel (fuel + 1)).resolveType inner ⟨s.scopes.size + 1⟩
              (s.unfolded template arg) =
                .ok ⟨s.types.size⟩ (s.unfolded template arg) := by
            refine (resolveTypeStep_applied (ofFuel fuel) hleaf (htext' ▸ hname)
              (resolveTemplateArg_param _ hkind' hempty
                (hparam ▸ hs.findTemplateParam))
              (htext' ▸ hs.findTemplateType)).trans ?_
            refine instantiateClass_known _ ?_
            rw [hs.renderInstance]
            exact hs.findByName?.2
          have hresolved :
              (ofFuel (fuel + 1)).resolveTemplateArg ⟨s.scopes.size + 1⟩ inner
              (s.unfolded template arg) =
              .ok (.type ⟨s.types.size⟩) (s.unfolded template arg) := by
            rw [harg]
            simp only [Functor.map, EStateM.map, hself]
          obtain ⟨e, t, hrun, he⟩ := ih hs.next
          refine ⟨e, t, ?_, he⟩
          rw [resolveTypeStep_applied _ hinner (htext ▸ hname) hresolved
            (htext ▸ hs.findTemplateType)]
          exact hrun

/-- So whoever resolves the name of such an instance runs out of fuel, however
much there is. -/
theorem resolveType_stops {node leaf : Node} {scope : ScopeId}
    (hs : s.Spirals template param arg)
    (hname : node.text = (s.templates.get template).name)
    (hchildren : node.children = [leaf])
    (hfound : s.scopes.findTemplateType scope node.text = some template)
    (hkind : leaf.kind = .typeName) (hleaf : leaf.children = [])
    (hparam : s.scopes.findTemplateParam scope leaf.text = none)
    (htype : s.scopes.resolveTypeName scope leaf.text = some arg) (fuel : Nat) :
    Stops (· = .outOfFuel) ((ofFuel fuel).resolveType node scope) s := by
  cases fuel with
  | zero => exact ⟨.outOfFuel, _, rfl, rfl⟩
  | succ fuel =>
      change Stops _ ((ofFuel fuel).resolveTypeStep node scope) s
      have harg := resolveTemplateArg_named (ofFuel fuel) hkind hleaf hparam
      cases fuel with
      | zero =>
          refine resolveTypeStep_stops hchildren ⟨.outOfFuel, s, ?_, rfl⟩
          rw [harg]
          rfl
      | succ fuel =>
          have hresolved : (ofFuel (fuel + 1)).resolveTemplateArg scope leaf s =
              .ok (.type arg) s := by
            have hstep : (ofFuel (fuel + 1)).resolveType leaf scope s =
                .ok arg s :=
              resolveTypeStep_named (ofFuel fuel) hleaf hparam htype
            rw [harg]
            simp only [Functor.map, EStateM.map, hstep]
          have hreserved := (TemplateDef.shape_of_isSpiral hs.isSpiral).1
          obtain ⟨e, t, hrun, he⟩ := instantiateClass_stops hs (fuel + 1)
          refine ⟨e, t, ?_, he⟩
          rw [resolveTypeStep_applied _ hchildren
            (hname ▸ hreserved) hresolved hfound]
          exact hrun

end Calls

/-! ## Two recursive class templates -/

namespace Recursive

def typeName (name : String) (args : List Node) : Node :=
  ⟨.typeName, name, .dummy, 0, args⟩

def template (name : String) (type : Node) : Node :=
  ⟨.classDecl, name, .dummy, 0,
    [⟨.templateParameters, "", .dummy, 0,
      [⟨.templateParameter, "T", .dummy, 0, []⟩]⟩,
      ⟨.variableDefinition, "next", .dummy, 0, [type]⟩]⟩

/-- `class List<T> { next : Ref<List<T>> }`. -/
def list : Node :=
  template "List" (typeName "Ref" [typeName "List" [typeName "T" []]])

/-- `class Box<T> { next : Box<Box<T>> }`. -/
def box : Node :=
  template "Box" (typeName "Box" [typeName "Box" [typeName "T" []]])

def perform (s : Engine) (node : Node) : Engine :=
  ((Request.item node).perform (Calls.ofFuel 20)).after s

def engine : Engine :=
  [list, box].foldl perform (.new { stackCapacity := 64 } ⟨.buffer, ""⟩ none [])

theorem reachable : Reachable engine := by
  have hempty :
      Reachable (.new { stackCapacity := 64 } ⟨.buffer, ""⟩ none []) :=
    .new _ _ _ _ (by decide)
  have hlist := hempty.after 20 (.item list) trivial
  exact hlist.after 20 (.item box) trivial

theorem plain : ∀ id, (engine.templates.get id).node.isPlain 3 = true :=
  Engine.plain_of_all (by decide +kernel)

def instanceOf (name : String) : Node := typeName name [typeName "Int32" []]

theorem spirals : engine.Spirals ⟨1⟩ "T" .int32 where
  isSpiral := by decide +kernel
  hasArg := by decide +kernel
  scope := by decide +kernel
  declared := by decide +kernel
  longest := by
    have hall : ∀ i, i < engine.types.size → (engine.types.name ⟨i⟩).length <
        (engine.renderInstance (engine.templates.get ⟨1⟩)
          [.type .int32]).length := by
      decide +kernel
    exact fun id hid => hall id.index hid

end Recursive

open Recursive in
theorem resolution_ends_iff_list :
    Reachable engine ∧ (∀ id, (engine.templates.get id).node.isPlain 3 = true) ∧
      (instanceOf "List").isPlainType 3 = true ∧
      Calls.ResolutionEnds (instanceOf "List") .universe engine ∧
      ∃ bound, ∀ fuel,
        (((Calls.ofFuel fuel).resolveType (instanceOf "List") .universe).after
          engine).types.size ≤ bound := by
  have hnode : (instanceOf "List").isPlainType 3 = true := by decide
  have hends : Calls.ResolutionEnds (instanceOf "List") .universe engine := by
    refine ⟨20, fun t hrun => ?_⟩
    have hok :
        ((Calls.ofFuel 20).resolveType (instanceOf "List") .universe).value?
          engine = some ⟨15⟩ := by
      decide +kernel
    rw [Eval.eq_ok_of_value? hok] at hrun
    cases hrun
  exact ⟨reachable, plain, hnode, hends,
    (Calls.resolution_ends_iff plain hnode).1.1 hends⟩

open Recursive in
/-- The instances of `Box` unfold without end, although no type name has an
expression. -/
theorem resolution_endless :
    Reachable engine ∧ (∀ id, (engine.templates.get id).node.isPlain 3 = true) ∧
      (instanceOf "Box").isPlainType 3 = true ∧
      ∀ fuel, ∃ t,
        (Calls.ofFuel fuel).resolveType (instanceOf "Box") .universe engine =
        .error .outOfFuel t := by
  have hfound : engine.scopes.findTemplateType .universe "Box" = some ⟨1⟩ := by
    decide +kernel
  have hparam : engine.scopes.findTemplateParam .universe "Int32" = none := by
    decide +kernel
  have htype : engine.scopes.resolveTypeName .universe "Int32" =
      some .int32 := by decide +kernel
  refine ⟨reachable, plain, by decide, fun fuel => ?_⟩
  obtain ⟨e, t, hrun, rfl⟩ : Eval.Stops (· = .outOfFuel)
      ((Calls.ofFuel fuel).resolveType (instanceOf "Box") .universe) engine :=
    Calls.resolveType_stops spirals rfl rfl hfound rfl rfl hparam htype fuel
  exact ⟨t, hrun⟩

end ArenaScript
