import ArenaScript.Proofs.Evaluation.Instances

/-!
# Type names without expressions

A template argument may be an expression, and whatever is evaluated may do
anything.  Where no type name contains an expression, resolving one only adds to
the tables: types, scopes, functions and templates.  It needs fuel for the
levels of the type names, of which there are boundedly many in each class body,
and for the instances inside one another, each of which registers a type.  So
whoever runs out of fuel has registered types in proportion to it.
-/

namespace ArenaScript

/-! ## Type names -/

namespace Node

def isPlainType : Node → Nat → Bool
  | _, 0 => false
  | node, depth + 1 =>
      node.kind != .expression && node.children.all fun child =>
        child.isPlainType depth

def hasPlainType (node : Node) (depth : Nat) : Bool :=
  (node.findChild? .typeName).all (·.isPlainType depth)

def hasPlainHead (node : Node) (depth : Nat) : Bool :=
  node.hasPlainType depth &&
    (node.findChild? .parameters).all (·.children.all (·.hasPlainType depth)) &&
    (node.findChild? .templateParameters).all
      (·.children.all (·.hasPlainType depth))

def declaresNothing (node : Node) : Bool :=
  node.children.all fun child => child.kind != .variableDefinition &&
    child.kind != .function

/-- The type names in the head of a declaration are plain, and those of fields
and methods. -/
def isPlain (node : Node) (depth : Nat) : Bool :=
  node.hasPlainHead depth && node.children.all fun child =>
    match child.kind with
    | .variableDefinition => (definitionParts child).1.all (·.isPlainType depth)
    | .function => child.hasPlainHead depth && child.declaresNothing
    | _ => true

variable {node child : Node} {depth : Nat}

theorem isPlainType_child (h : node.isPlainType (depth + 1) = true)
    (hchild : child ∈ node.children) : child.isPlainType depth = true := by
  simp only [isPlainType, Bool.and_eq_true] at h
  exact List.all_eq_true.1 h.2 child hchild

theorem kind_of_isPlainType (h : node.isPlainType depth = true) :
    node.kind ≠ .expression := by
  cases depth with
  | zero => cases h
  | succ depth =>
      simp only [isPlainType, Bool.and_eq_true] at h
      exact bne_iff_ne.1 h.1

theorem hasPlainType_child {kind : NodeKind} (hkind : kind = .typeName)
    (h : node.hasPlainType depth = true)
    (hchild : node.findChild? kind = some child) :
    child.isPlainType depth = true := by
  subst hkind
  rw [hasPlainType, hchild] at h
  exact h

theorem isPlain_of_declaresNothing (h : node.hasPlainHead depth = true)
    (hnothing : node.declaresNothing = true) : node.isPlain depth = true := by
  refine Bool.and_eq_true_iff.2 ⟨h, List.all_eq_true.2 fun child hchild => ?_⟩
  have hkinds := List.all_eq_true.1 hnothing child hchild
  simp only [Bool.and_eq_true, bne_iff_ne] at hkinds
  split
  · exact absurd ‹_› hkinds.1
  · exact absurd ‹_› hkinds.2
  · rfl

theorem hasPlainHead_params {params : Node} (h : node.hasPlainHead depth = true)
    (hparams : node.findChild? .parameters = some params) :
    ∀ param ∈ params.children, param.hasPlainType depth = true := by
  simp only [hasPlainHead, Bool.and_eq_true, hparams] at h
  exact List.all_eq_true.1 h.1.2

theorem hasPlainHead_templateParams {params : Node}
    (h : node.hasPlainHead depth = true)
    (hparams : node.findChild? .templateParameters = some params) :
    ∀ param ∈ params.children, param.hasPlainType depth = true := by
  simp only [hasPlainHead, Bool.and_eq_true, hparams] at h
  exact List.all_eq_true.1 h.2

theorem hasPlainHead_type (h : node.hasPlainHead depth = true) :
    node.hasPlainType depth = true := by
  simp only [hasPlainHead, Bool.and_eq_true] at h
  exact h.1.1

theorem isPlain_field (h : node.isPlain depth = true)
    (hchild : child ∈ node.children) (hkind : child.kind = .variableDefinition)
    {type : Node} (htype : (definitionParts child).1 = some type) :
    type.isPlainType depth = true := by
  have hall := List.all_eq_true.1 (Bool.and_eq_true_iff.1 h).2 child hchild
  simp only [hkind, htype] at hall
  exact hall

theorem isPlain_method (h : node.isPlain depth = true)
    (hchild : child ∈ node.children) (hkind : child.kind = .function) :
    child.hasPlainHead depth = true ∧ child.declaresNothing = true := by
  have hall := List.all_eq_true.1 (Bool.and_eq_true_iff.1 h).2 child hchild
  simp only [hkind] at hall
  exact Bool.and_eq_true_iff.1 hall

end Node

/-! ## Additions to the tables -/

namespace Engine

/-- Types, scopes, functions and templates have been added, the types under the
names of instances.  The scopes to keep have not changed. -/
structure Enlarges (keep : ScopeId → Prop) (s t : Engine) : Prop where
  rest : t = { s with
    types := t.types, scopes := t.scopes, functions := t.functions,
    templates := t.templates }
  types : s.types.Extends t.types
  instances : ∀ id, t.types.Has id → s.types.Has id ∨
    '<' ∈ (t.types.name id).toList
  size : s.scopes.size ≤ t.scopes.size
  scopes : ∀ id, keep id → t.scopes.get id = s.scopes.get id

namespace Enlarges

variable {keep : ScopeId → Prop} {s t u : Engine}

theorem refl (s : Engine) : s.Enlarges keep s :=
  ⟨rfl, .refl _, fun _ => .inl, Nat.le_refl _, fun _ _ => rfl⟩

theorem trans (hst : s.Enlarges keep t) (htu : t.Enlarges keep u) :
    s.Enlarges keep u where
  rest := by
    rw [htu.rest, hst.rest]
  types := hst.types.trans htu.types
  instances id hid := by
    rcases htu.instances id hid with hold | hnew
    · rcases hst.instances id hold with hold' | hnew
      · exact .inl hold'
      · exact .inr (by rwa [htu.types.name hold])
    · exact .inr hnew
  size := Nat.le_trans hst.size htu.size
  scopes id hid := (htu.scopes id hid).trans (hst.scopes id hid)

theorem of_types {types : TypeTable} (h : s.types.Extends types)
    (hnew : ∀ id, types.Has id → s.types.Has id ∨
      '<' ∈ (types.name id).toList) : s.Enlarges keep { s with types } :=
  ⟨rfl, h, hnew, Nat.le_refl _, fun _ _ => rfl⟩

theorem of_same {types : TypeTable}
    (h : s.types.Extends types ∧ types.size = s.types.size) :
    s.Enlarges keep { s with types } :=
  .of_types h.1 fun _ hid => .inl (Nat.lt_of_lt_of_eq hid h.2)

theorem push {e : TypeEntry} (hname : '<' ∈ e.name.toList) :
    s.Enlarges keep { s with types := (s.types.push e).2 } := by
  refine .of_types (.push s.types e) fun id hid => ?_
  rcases TypeTable.has_push.1 hid with hold | rfl
  · exact .inl hold
  · exact .inr (by rwa [TypeTable.name_push_new])

theorem of_scopes {scopes : ScopeTable} (hsize : s.scopes.size ≤ scopes.size)
    (h : ∀ id, keep id → scopes.get id = s.scopes.get id) :
    s.Enlarges keep { s with scopes } :=
  ⟨rfl, .refl _, fun _ => .inl, hsize, h⟩

theorem createScope (hkeeps : ∀ id, keep id → id.index < s.scopes.size)
    (kind : ScopeKind) (parent : Option ScopeId) :
    s.Enlarges keep { s with scopes := (s.scopes.create kind parent).2 } :=
  .of_scopes (Nat.le_of_lt (s.scopes.size_lt_create kind parent))
    fun id hid => ScopeTable.get_create_old (hkeeps id hid)

theorem modifyScope {scope : ScopeId} (hscope : ¬ keep scope)
    (f : Scope → Scope) :
    s.Enlarges keep { s with scopes := s.scopes.modify scope f } := by
  refine .of_scopes (Nat.le_of_eq (ScopeTable.size_modify _ _ _).symm)
    fun id hid => ?_
  rw [ScopeTable.get_modify, if_neg]
  rintro ⟨rfl, -⟩
  exact hscope hid

theorem of_tables {functions : FunctionTable} {templates : TemplateTable} :
    s.Enlarges keep { s with functions, templates } :=
  ⟨rfl, .refl _, fun _ => .inl, Nat.le_refl _, fun _ _ => rfl⟩

end Enlarges

structure Plain (depth : Nat) (keep : ScopeId → Prop) (s : Engine) : Prop where
  templates : ∀ id, (s.templates.get id).node.isPlain depth = true
  keeps : ∀ id, keep id → id.index < s.scopes.size

theorem plain_of_all {depth : Nat} {s : Engine}
    (h : s.templates.defs.all (·.node.isPlain depth) = true) (id : TemplateId) :
    (s.templates.get id).node.isPlain depth = true := by
  rw [TemplateTable.get, Array.getD_eq_getD_getElem?]
  cases hdef : s.templates.defs[id.index]? with
  | none => rfl
  | some d =>
      exact Array.all_eq_true_iff_forall_mem.1 h d (Array.mem_of_getElem? hdef)

theorem Plain.of_templates {depth : Nat} {keep : ScopeId → Prop} {s t : Engine}
    (hs : s.Plain depth keep) (htemplates : t.templates = s.templates)
    (hsize : s.scopes.size ≤ t.scopes.size) : t.Plain depth keep where
  templates id := htemplates ▸ hs.templates id
  keeps id hid := Nat.lt_of_lt_of_le (hs.keeps id hid) hsize

theorem Plain.addTemplate {depth : Nat} {keep : ScopeId → Prop} {s : Engine}
    (hs : s.Plain depth keep) {d : TemplateDef}
    (hd : d.node.isPlain depth = true) :
    { s with templates := (s.templates.add d).2 }.Plain depth keep where
  templates id := by
    rcases TemplateTable.get_add s.templates d id with h | h
    · rwa [h]
    · rw [h]
      exact hs.templates id
  keeps := hs.keeps

end Engine

/-! ## Computations that resolve -/

namespace Eval

section

variable {α β : Type} {depth : Nat} {keep : ScopeId → Prop} {new left : Nat}
  {x y : Eval α} {s t : Engine}

/-- The computation does not run out of fuel. -/
def Lasts (x : Eval α) : Prop := ∀ s t, x s ≠ .error .outOfFuel t

/-- From `s`, `x` only adds to the tables.  It does what `y` does, unless it
runs out of fuel, and then it has registered so many types. -/
structure Resolves (depth : Nat) (keep : ScopeId → Prop) (new : Nat)
    (x y : Eval α) (s : Engine) : Prop where
  plain : (x.after s).Plain depth keep
  enlarges : s.Enlarges keep (x.after s)
  outcome : x s = y s ∧ (∀ t, x s ≠ .error .outOfFuel t) ∨
    ∃ t, x s = .error .outOfFuel t ∧ s.types.size + new ≤ t.types.size

def Resolving (depth : Nat) (keep : ScopeId → Prop) (new : Nat) (x y : Eval α) :
    Prop :=
  ∀ s : Engine, s.Plain depth keep → Resolves depth keep new x y s

theorem Resolves.mono (h : Resolves depth keep new x y s) {less : Nat}
    (hless : less ≤ new) : Resolves depth keep less x y s where
  plain := h.plain
  enlarges := h.enlarges
  outcome := by
    refine h.outcome.imp_right fun ⟨t, hrun, hsize⟩ => ⟨t, hrun, ?_⟩
    omega

theorem Resolves.of_eq {x' y' : Eval α} (hx : x s = x' t) (hy : y s = y' t)
    (henlarges : s.Enlarges keep t)
    (hsize : s.types.size + new ≤ t.types.size + left)
    (h : Resolves depth keep left x' y' t) : Resolves depth keep new x y s where
  plain := by
    rw [after_congr hx]
    exact h.plain
  enlarges := by
    rw [after_congr hx]
    exact henlarges.trans h.enlarges
  outcome := by
    rw [hx, hy]
    refine h.outcome.imp_right fun ⟨u, hrun, hnew⟩ => ⟨u, hrun, ?_⟩
    omega

theorem Resolves.of_error {f g : α → Eval β} {e : Stop}
    (h : Resolves depth keep new x y s) (hx : x s = .error e t) :
    Resolves depth keep new (x >>= f) (y >>= g) s where
  plain := by
    rw [after_bind_error hx, ← after_error hx]
    exact h.plain
  enlarges := by
    rw [after_bind_error hx, ← after_error hx]
    exact h.enlarges
  outcome := by
    rw [bind_error hx]
    rcases h.outcome with ⟨hsame, hlasts⟩ | ⟨u, hrun, hsize⟩
    · rw [hx] at hsame hlasts
      rw [bind_error hsame.symm]
      refine .inl ⟨rfl, fun u hrun => hlasts u ?_⟩
      cases hrun
      rfl
    · rw [hx] at hrun
      cases hrun
      exact .inr ⟨t, rfl, hsize⟩

theorem Resolves.ok (h : Resolves depth keep new x y s) {a : α}
    (hx : x s = .ok a t) :
    y s = .ok a t ∧ t.Plain depth keep ∧ s.Enlarges keep t := by
  have hplain := h.plain
  have henlarges := h.enlarges
  rw [after_ok hx] at hplain henlarges
  rcases h.outcome with ⟨hsame, -⟩ | ⟨u, hrun, -⟩
  · exact ⟨hsame.symm.trans hx, hplain, henlarges⟩
  · rw [hx] at hrun
    cases hrun

theorem Resolves.failed (h : Resolves depth keep new x y s) {e : Stop}
    (hx : x s = .error e t) : s.Enlarges keep t := by
  have henlarges := h.enlarges
  rwa [after_error hx] at henlarges

namespace Resolving

theorem mono (h : Resolving depth keep new x y) {less : Nat}
    (hless : less ≤ new) :
    Resolving depth keep less x y := fun s hs => (h s hs).mono hless

theorem bind {f g : α → Eval β} (hx : Resolving depth keep new x y)
    (hf : ∀ a, Resolving depth keep new (f a) (g a)) :
    Resolving depth keep new (x >>= f) (y >>= g) := by
  intro s hs
  have h := hx s hs
  cases hrun : x s with
  | ok a t =>
      obtain ⟨hy, ht, henlarges⟩ := h.ok hrun
      exact .of_eq (bind_ok hrun) (bind_ok hy) henlarges
        (Nat.add_le_add_right henlarges.types.size _) (hf a t ht)
  | error e t => exact h.of_error hrun

theorem step (hlasts : Lasts x) (h : ∀ s : Engine, s.Plain depth keep →
    (x.after s).Plain depth keep ∧ s.Enlarges keep (x.after s)) :
      Resolving depth keep new x x :=
  fun s hs => ⟨(h s hs).1, (h s hs).2, .inl ⟨rfl, hlasts s⟩⟩

theorem of_enlarges (hlasts : Lasts x) (h : ∀ s : Engine, s.Plain depth keep →
    (x.after s).templates = s.templates ∧ s.Enlarges keep (x.after s)) :
    Resolving depth keep new x x :=
  step hlasts fun s hs =>
    ⟨hs.of_templates (h s hs).1 (h s hs).2.size, (h s hs).2⟩

theorem of_same (hlasts : Lasts x) (h : ∀ s, x.after s = s) :
    Resolving depth keep new x x := by
  refine step hlasts fun s hs => ?_
  rw [h s]
  exact ⟨hs, .refl s⟩

theorem pure (a : α) : Resolving depth keep new (Pure.pure a) (Pure.pure a) :=
  of_same (fun _ _ h => by cases h) fun _ => rfl

theorem read (f : Engine → α) :
    Resolving depth keep new (Eval.read f) (Eval.read f) :=
  of_same (fun _ _ h => by cases h) fun _ => rfl

theorem fail (e : Failure) :
    Resolving depth keep new (Eval.fail e : Eval α) (Eval.fail e) :=
  of_same (fun _ _ h => by cases h) fun _ => rfl

theorem map (f : α → β) (h : Resolving depth keep new x y) :
    Resolving depth keep new (f <$> x) (f <$> y) := by
  rw [map_eq_pure_bind, map_eq_pure_bind]
  exact h.bind fun a => pure (f a)

theorem mapM {f g : α → Eval β} {l : List α}
    (h : ∀ a ∈ l, Resolving depth keep new (f a) (g a)) :
    Resolving depth keep new (l.mapM f) (l.mapM g) := by
  induction l with
  | nil => exact pure []
  | cons a l ih =>
      obtain ⟨ha, hl⟩ := List.forall_mem_cons.1 h
      rw [List.mapM_cons, List.mapM_cons]
      exact ha.bind fun b => (ih hl).bind fun bs => pure (b :: bs)

theorem forM {f g : α → Eval Unit} {l : List α}
    (h : ∀ a ∈ l, Resolving depth keep new (f a) (g a)) :
    Resolving depth keep new (l.forM f) (l.forM g) := by
  induction l with
  | nil => exact pure ()
  | cons a l ih =>
      obtain ⟨ha, hl⟩ := List.forall_mem_cons.1 h
      exact ha.bind fun _ => ih hl

theorem withTree (id : TreeId) (h : Resolving depth keep new x y) :
    Resolving depth keep new (Eval.withTree id x) (Eval.withTree id y) := by
  intro s hs
  have hinner := h { s with currentTree := id } ⟨hs.templates, hs.keeps⟩
  refine ⟨?_, ?_, ?_⟩
  · rw [after_withTree]
    exact ⟨hinner.plain.templates, hinner.plain.keeps⟩
  · rw [after_withTree]
    have henlarges := hinner.enlarges
    refine ⟨?_, henlarges.types, henlarges.instances, henlarges.size,
      henlarges.scopes⟩
    rw [henlarges.rest]
  · rcases hinner.outcome with ⟨hsame, hlasts⟩ | ⟨t, hrun, hsize⟩
    · refine .inl ⟨by simp only [Eval.withTree, hsame], fun t hrun => ?_⟩
      obtain ⟨u, hrun, -⟩ := withTree_eq_error hrun
      exact hlasts u hrun
    · refine .inr ⟨{ t with currentTree := s.currentTree }, ?_, hsize⟩
      simp only [Eval.withTree, hrun]

/-! ### Tables -/

theorem scopeFor (node : Node) (kind : ScopeKind) (parent : ScopeId) :
    Resolving depth keep new (Eval.scopeFor node kind parent)
      (Eval.scopeFor node kind parent) := by
  refine of_enlarges (fun _ _ h => by cases h) fun s hs =>
    ⟨rfl, .of_scopes ?_ fun id hid => ?_⟩
  · exact ScopeTable.size_scopeFor _ _ kind parent
  · exact ScopeTable.get_scopeFor_old (hs.keeps id hid)

theorem updateScope {scope : ScopeId} (hscope : ¬ keep scope)
    (f : Scope → Scope) :
    Resolving depth keep new (Eval.updateScope scope f)
      (Eval.updateScope scope f) :=
  of_enlarges (fun _ _ h => by cases h) fun _ _ => ⟨rfl, .modifyScope hscope f⟩

theorem addFunction (f : Function) :
    Resolving depth keep new (Eval.addFunction f) (Eval.addFunction f) :=
  of_enlarges (fun _ _ h => by cases h) fun _ _ => ⟨rfl, .of_tables⟩

theorem instantiateBuiltin (kind : TemplateKind) (args : List TemplateArg) :
    Resolving depth keep new (Eval.instantiateBuiltin kind args)
      (Eval.instantiateBuiltin kind args) := by
  refine of_enlarges (fun s t hrun => ?_) fun s hs => ?_
  · unfold Eval.instantiateBuiltin at hrun
    split at hrun <;> cases hrun
  unfold after Eval.instantiateBuiltin
  cases hfound : s.types.findOrCreate s.scopes kind args with
  | error e => exact ⟨rfl, .refl s⟩
  | ok result =>
      obtain ⟨⟨id, created⟩, types, scopes⟩ := result
      refine ⟨rfl, ?_⟩
      have hkept : s.Enlarges keep { s with scopes } := by
        rcases TypeTable.findOrCreate_scopes hfound with rfl | rfl
        · exact .refl s
        · exact .createScope hs.keeps .members none
      refine hkept.trans ?_
      rcases TypeTable.findOrCreate_cases hfound with ⟨-, rfl, -⟩ |
        ⟨-, -, -, e, hname, -, rfl⟩
      · exact .refl _
      · refine .push (s := { s with scopes }) ?_
        rw [hname, TypeTable.render]
        simp

theorem completeType (type : TypeId) (fields : List Field)
    (variants : List (String × Int64)) :
    Resolving depth keep new (Eval.completeType type fields variants)
      (Eval.completeType type fields variants) := by
  refine of_enlarges (fun s t hrun => ?_) fun s _ => ?_
  · unfold Eval.completeType at hrun
    split at hrun <;> cases hrun
  unfold after Eval.completeType
  cases hcomplete : s.types.complete type fields variants with
  | error e => exact ⟨rfl, .refl s⟩
  | ok types => exact ⟨rfl, .of_same (TypeTable.complete_extends hcomplete)⟩

theorem registerShell {f g : TypeId → Eval α} {name : String}
    (hname : '<' ∈ name.toList) (kind : StructKind) (scope : ScopeId)
    (h : ∀ type, Resolving depth keep new (f type) (g type)) :
    Resolving depth keep (new + 1) (Eval.registerShell name kind scope >>= f)
      (Eval.registerShell name kind scope >>= g) := by
  intro s hs
  cases hregister : s.types.register name (.shell kind) scope with
  | error e =>
      have hrun : Eval.registerShell name kind scope s =
          .error (.failed e) s := by
        simp only [Eval.registerShell, hregister]
      exact .of_eq (bind_error hrun) (bind_error hrun) (.refl s) (Nat.le_refl _)
        (fail e s hs)
  | ok result =>
      obtain ⟨type, types⟩ := result
      have hrun : Eval.registerShell name kind scope s =
          .ok type { s with types } := by
        simp only [Eval.registerShell, hregister]
      obtain ⟨-, -, e, rfl, -, rfl⟩ := TypeTable.register_eq_ok hregister
      refine .of_eq (bind_ok hrun) (bind_ok hrun) (.push hname) ?_
        (h type _ (hs.of_templates rfl (Nat.le_refl _)))
      rw [TypeTable.size_push]
      omega

end Resolving

end

end Eval

/-! ## Declarations -/

namespace Calls

variable {c d : Calls} {depth : Nat} {keep : ScopeId → Prop} {new : Nat}

def classBody (c : Calls) (node : Node) (classScope : ScopeId) (type : TypeId) :
    Eval TypeId := do
  Eval.updateScope classScope fun s => { s with owner := some type }
  let fields ←
    (node.children.filter (·.kind == .variableDefinition)).mapM
      (c.buildField classScope)
  Eval.completeType type fields []
  (node.children.filter (·.kind == .function)).forM fun child =>
    c.defineFunction child classScope (some type)
  pure type

/-- Plain type names of `depth` levels are resolved. -/
def ResolvesTypes (c d : Calls) (bound : Nat) (keep : ScopeId → Prop)
    (new depth : Nat) : Prop :=
  ∀ (node : Node) (scope : ScopeId), node.isPlainType depth = true →
    Eval.Resolving bound keep new (c.resolveType node scope)
      (d.resolveType node scope)

namespace ResolvesTypes

open Eval (Resolving)

variable {scope : ScopeId} {node : Node}

section Declarations

variable (h : c.ResolvesTypes d depth keep new depth)
include h

theorem buildParam {param : Node} (hparam : param.hasPlainType depth = true) :
    Resolving depth keep new (c.buildParam scope param)
      (d.buildParam scope param) := by
  unfold Calls.buildParam
  cases htype : param.findChild? .typeName with
  | none => exact .fail _
  | some type =>
      exact (h type scope (Node.hasPlainType_child rfl hparam htype)).bind
        fun _ => .pure _

theorem buildParams {params : List Node}
    (hparams : ∀ param ∈ params, param.hasPlainType depth = true) :
    Resolving depth keep new (c.buildParams scope params)
      (d.buildParams scope params) := by
  induction params with
  | nil => exact .pure _
  | cons param rest ih =>
      obtain ⟨hparam, hrest⟩ := List.forall_mem_cons.1 hparams
      unfold Calls.buildParams
      split
      · exact .pure _
      · exact (h.buildParam hparam).bind fun _ =>
          (ih hrest).bind fun _ => .pure _

omit h in
theorem implicitSelf (owner : Option TypeId) (params : Node) :
    Resolving depth keep new (Calls.implicitSelf owner params)
      (Calls.implicitSelf owner params) := by
  unfold Calls.implicitSelf
  cases owner with
  | none => exact .pure _
  | some type =>
      simp only
      split
      · exact .pure _
      · exact (Resolving.instantiateBuiltin .ref [.type type]).bind fun _ =>
          .pure _

theorem buildFunction (hnode : node.hasPlainHead depth = true)
    (owner : Option TypeId) :
    Resolving depth keep new (c.buildFunction node scope owner)
      (d.buildFunction node scope owner) := by
  unfold Calls.buildFunction
  simp only
  cases hparams : node.findChild? .parameters with
  | none => exact .fail _
  | some params =>
      refine (implicitSelf owner params).bind fun self => ?_
      refine (h.buildParams (Node.hasPlainHead_params hnode hparams)).bind
        fun declared => ?_
      cases htype : node.findChild? .typeName with
      | none =>
          refine (Resolving.pure _).bind fun ret => ?_
          exact (Resolving.read _).bind fun _ => (Resolving.read _).bind
            fun _ => .addFunction _
      | some type =>
          have hplain :=
            Node.hasPlainType_child rfl (Node.hasPlainHead_type hnode) htype
          refine (h type scope hplain).bind fun ret => ?_
          exact (Resolving.read _).bind fun _ => (Resolving.read _).bind
            fun _ => .addFunction _

theorem declareTemplate (hnode : node.isPlain depth = true) {params : Node}
    (hparams : node.findChild? .templateParameters = some params)
    (item : TemplateItem) :
    Resolving depth keep new (c.declareTemplate node params scope item)
      (d.declareTemplate node params scope item) := by
  have hhead := (Bool.and_eq_true_iff.1 hnode).1
  unfold Calls.declareTemplate
  refine (Resolving.mapM fun param hparam => ?_).bind fun params => ?_
  · have hplain := Node.hasPlainHead_templateParams hhead hparams param hparam
    unfold Calls.buildTemplateParam
    cases htype : param.findChild? .typeName with
    | none => exact .pure _
    | some type =>
        exact (h type scope (Node.hasPlainType_child rfl hplain htype)).bind
          fun _ => .pure _
  · exact .step (fun _ _ h => by cases h) fun s hs =>
      ⟨hs.addTemplate hnode, .of_tables⟩

theorem defineFunction (hscope : ¬ keep scope)
    (hnode : node.hasPlainHead depth = true)
    (hnothing : node.declaresNothing = true) (owner : Option TypeId) :
    Resolving depth keep new (c.defineFunction node scope owner)
      (d.defineFunction node scope owner) := by
  unfold Calls.defineFunction
  cases hparams : node.findChild? .templateParameters with
  | some params =>
      have hplain := Node.isPlain_of_declaresNothing hnode hnothing
      exact (h.declareTemplate hplain hparams _).bind fun _ =>
        .updateScope hscope _
  | none =>
      refine (Resolving.scopeFor node .function scope).bind
        fun functionScope => ?_
      refine (h.buildFunction hnode owner).bind fun id => ?_
      cases operatorSymbol? node.text with
      | some symbol => exact .updateScope hscope _
      | none => exact .updateScope hscope _

theorem buildField {child : Node} (hnode : node.isPlain depth = true)
    (hchild : child ∈ node.children.filter (·.kind == .variableDefinition)) :
    Resolving depth keep new (c.buildField scope child)
      (d.buildField scope child) := by
  obtain ⟨hmem, hkind⟩ := List.mem_filter.1 hchild
  unfold Calls.buildField
  obtain ⟨⟨type, init⟩, hparts⟩ : ∃ parts, definitionParts child = parts :=
    ⟨_, rfl⟩
  rw [hparts]
  cases type with
  | none => exact .fail _
  | some type =>
      have hplain :=
        Node.isPlain_field hnode hmem (beq_iff_eq.1 hkind) (by rw [hparts])
      exact (h type scope hplain).bind fun _ => (Resolving.read _).bind fun _ =>
        .pure _

theorem classBody {classScope : ScopeId} (hscope : ¬ keep classScope)
    (hnode : node.isPlain depth = true) (type : TypeId) :
    Resolving depth keep new (c.classBody node classScope type)
      (d.classBody node classScope type) := by
  refine (Resolving.updateScope hscope _).bind fun _ => ?_
  refine (Resolving.mapM fun child hchild => h.buildField hnode hchild).bind
    fun fields => ?_
  refine (Resolving.completeType type fields []).bind fun _ => ?_
  refine (Resolving.forM fun child hchild => ?_).bind fun _ => .pure type
  obtain ⟨hmem, hkind⟩ := List.mem_filter.1 hchild
  obtain ⟨hhead, hnothing⟩ :=
    Node.isPlain_method hnode hmem (beq_iff_eq.1 hkind)
  exact h.defineFunction hscope hhead hnothing _

theorem defineClass {classScope : ScopeId} (hscope : ¬ keep classScope)
    (hnode : node.isPlain depth = true) {name : String}
    (hname : '<' ∈ name.toList) (kind : StructKind)
    (origin : TemplateId × List TemplateArg) :
    Resolving depth keep (new + 1)
      (c.defineClass node scope classScope name kind (some origin))
      (d.defineClass node scope classScope name kind (some origin)) := by
  refine .registerShell hname kind classScope fun type => ?_
  refine Resolving.bind (.of_enlarges (fun _ _ h => by cases h) fun s _ =>
    ⟨rfl, .of_same ?_⟩) fun _ => h.classBody hscope hnode type
  exact s.types.setOrigin_extends type origin.1 origin.2

theorem instantiateClass (template : TemplateId) (args : List TemplateArg) :
    Resolving depth keep (new + 1) (c.instantiateClass template args)
      (d.instantiateClass template args) := by
  intro s hs
  cases hfound :
    s.types.findByName? (s.renderInstance (s.templates.get template) args) with
  | some known =>
      exact .of_eq (instantiateClass_known c hfound)
        (instantiateClass_known d hfound) (.refl s)
        (Nat.le_refl _) (Resolving.pure known s hs)
  | none =>
      cases htakes : (s.templates.get template).takes args with
      | false =>
          obtain ⟨e, hrefused⟩ := instantiateClass_refused hfound htakes
          exact .of_eq (hrefused c) (hrefused d) (.refl s) (Nat.le_refl _)
            (Resolving.fail e s hs)
      | true =>
          have hsize :=
            ScopeTable.size_openInstance s.scopes
              (s.templates.get template) args
            .classBody
          have hopen : s.Enlarges keep { s with
              scopes :=
                s.scopes.openInstance (s.templates.get template) args
                  .classBody } := by
            refine .of_scopes (by omega) fun id hid => ?_
            exact ScopeTable.get_openInstance_old (hs.keeps id hid)
          have hnew : ¬ keep ⟨s.scopes.size + 1⟩ := fun hkeep =>
            Nat.not_succ_le_self _ (Nat.le_of_succ_le (hs.keeps _ hkeep))
          have hname :
              '<' ∈ (s.renderInstance (s.templates.get template)
                args).toList := by
            simp [Engine.renderInstance]
          refine .of_eq (instantiateClass_new c hfound htakes)
            (instantiateClass_new d hfound htakes) hopen (Nat.le_refl _) ?_
          exact Resolving.withTree _
            (h.defineClass hnew (hs.templates template) hname _ _) _
            (hs.of_templates rfl hopen.size)

end Declarations

theorem resolveTemplateArg {bound : Nat}
    (h : c.ResolvesTypes d bound keep new depth)
    (hnode : node.isPlainType depth = true) :
    Resolving bound keep new (c.resolveTemplateArg scope node)
      (d.resolveTemplateArg scope node) := by
  have hkind := Node.kind_of_isPlainType hnode
  unfold Calls.resolveTemplateArg
  split
  case h_1 =>
    split
    · exact .pure _
    · exact .fail _
  case h_4 => exact absurd ‹_› hkind
  case h_5 => exact .fail _
  all_goals
    split
    · refine (Resolving.read _).bind fun found => ?_
      cases found with
      | some binding => exact .pure _
      | none => exact (h node scope hnode).map _
    · split
      · exact (h node scope hnode).map _
      · exact .fail _

theorem resolveTypeStep {bound : Nat}
    (h : c.ResolvesTypes d bound keep new depth)
    (hbody : c.ResolvesTypes d bound keep (new - 1) bound)
    (hnode : node.isPlainType (depth + 1) = true) :
    Resolving bound keep new (c.resolveTypeStep node scope)
      (d.resolveTypeStep node scope) := by
  unfold Calls.resolveTypeStep
  simp only
  split
  · refine (Resolving.read _).bind fun found => ?_
    split
    · exact .pure _
    · exact .fail _
    · refine (Resolving.read _).bind fun known => ?_
      cases known with
      | some type => exact .pure type
      | none => exact .fail _
  · refine (Resolving.mapM fun child hchild => ?_).bind fun args => ?_
    · exact h.resolveTemplateArg (Node.isPlainType_child hnode hchild)
    · cases TemplateKind.ofName? node.text with
      | some kind => exact .instantiateBuiltin kind args
      | none =>
          refine (Resolving.read _).bind fun found => ?_
          cases found with
          | some template =>
              exact (hbody.instantiateClass template args).mono (by omega)
          | none => exact .fail _

/-- The levels of a type name and the bodies of the instances inside one another
use up the fuel. -/
theorem ofFuel {bound fuel more : Nat} (hdepth : depth ≤ bound)
    (hnew : new * (bound + 1) + depth ≤ fuel + bound + 1) :
    (Calls.ofFuel fuel).ResolvesTypes (Calls.ofFuel (fuel + more)) bound keep
      new depth := by
  induction fuel generalizing depth new with
  | zero =>
      intro node scope hnode s hs
      have hzero : new = 0 := by
        cases depth with
        | zero => cases hnode
        | succ depth =>
            refine Nat.eq_zero_of_not_pos fun hpos => ?_
            have hone : 1 * (bound + 1) ≤ new * (bound + 1) :=
              Nat.mul_le_mul_right _ hpos
            omega
      subst hzero
      exact ⟨hs, .refl s, .inr ⟨s, rfl, Nat.le_refl _⟩⟩
  | succ fuel ih =>
      intro node scope hnode
      cases depth with
      | zero => cases hnode
      | succ depth =>
          have hrun : Calls.ofFuel (fuel + 1 + more) =
              Calls.ofFuel (fuel + more + 1) := by
            rw [Nat.add_right_comm]
          rw [hrun]
          refine resolveTypeStep (ih (by omega) (by omega))
            (ih (Nat.le_refl _) ?_) hnode
          cases new with
          | zero => omega
          | succ new =>
              rw [Nat.succ_mul] at hnew
              simp only [Nat.add_sub_cancel]
              omega

end ResolvesTypes

/-! ## Results -/

variable {node : Node} {scope : ScopeId} {s t : Engine}

theorem resolveType_resolves (hs : s.Plain depth keep)
    (hnode : node.isPlainType depth = true) (fuel more : Nat) {new : Nat}
    (hnew : new * (depth + 1) ≤ fuel) :
    Eval.Resolves depth keep new ((ofFuel fuel).resolveType node scope)
      ((ofFuel (fuel + more)).resolveType node scope) s :=
  ResolvesTypes.ofFuel (Nat.le_refl depth) (by omega) node scope hnode s hs

/-- What has been resolved is not resolved differently with more fuel. -/
theorem resolveType_stable (hs : s.Plain depth keep)
    (hnode : node.isPlainType depth = true) {fuel fuel' : Nat}
    (hfuel : fuel ≤ fuel')
    (h : ∀ t, (ofFuel fuel).resolveType node scope s ≠ .error .outOfFuel t) :
    (ofFuel fuel').resolveType node scope s =
      (ofFuel fuel).resolveType node scope s := by
  obtain ⟨more, rfl⟩ := Nat.exists_eq_add_of_le hfuel
  have hnew : 0 * (depth + 1) ≤ fuel := by omega
  rcases (resolveType_resolves hs hnode fuel more hnew).outcome with
    ⟨hsame, -⟩ | ⟨t, hrun, -⟩
  · exact hsame.symm
  · exact absurd hrun (h t)

/-- Whoever runs out of fuel has registered types in proportion to it. -/
theorem resolveType_progress (hs : s.Plain depth keep)
    (hnode : node.isPlainType depth = true) {fuel : Nat}
    (h : (ofFuel fuel).resolveType node scope s = .error .outOfFuel t) :
    s.types.size + fuel / (depth + 1) ≤ t.types.size := by
  have hnew : fuel / (depth + 1) * (depth + 1) ≤ fuel :=
    Nat.div_mul_le_self fuel (depth + 1)
  rcases (resolveType_resolves hs hnode fuel 0 hnew).outcome with ⟨-, hlasts⟩ |
    ⟨u, hrun, hsize⟩
  · exact absurd h (hlasts t)
  · rw [h] at hrun
    cases hrun
    exact hsize

end Calls

end ArenaScript
