import ArenaScript.Engine.Evaluator
import ArenaScript.Proofs.Evaluation.Catalogue

/-!
# Scopes that bind template parameters

An instance of a template is declared in a scope that binds the parameters to
the arguments.  The scope is bound when it is made and never again: whatever is
evaluated, a scope keeps its parent and the parameters bound in it, so in the
body of an instance the parameters always stand for the arguments.
-/

namespace ArenaScript

def TemplateParam.binding (param : TemplateParam) (arg : TemplateArg) :
    TemplateBinding :=
  { arg
    valueType :=
      match param.kind with
      | .value type => some type
      | .type => none }

namespace TemplateDef

def takes (d : TemplateDef) (args : List TemplateArg) : Bool :=
  args.length == d.params.length && (d.params.zip args).all fun (param, arg) =>
    param.admits arg

def bindings (d : TemplateDef) (args : List TemplateArg) :
    Bindings TemplateBinding :=
  (d.params.zip args).foldl
    (fun b pair => b.put pair.1.name (pair.1.binding pair.2)) .empty

end TemplateDef

namespace Scope

variable {s changed : Scope} {name : String}

def context (s : Scope) : Option ScopeId × Bindings TemplateBinding :=
  (s.parent, s.templateParams)

theorem registerType_eq_ok {type : TypeId}
    (h : s.registerType name type = .ok changed) :
    changed = { s with types := s.types.put name type } ∧
      ∀ other, s.types.get? name = some other → other = type := by
  unfold registerType at h
  split at h
  · rename_i existing hbound
    split at h
    · rename_i hsame
      cases h
      refine ⟨rfl, fun other hother => ?_⟩
      rw [hbound] at hother
      exact (Option.some.inj hother).symm.trans hsame
    · cases h
  · rename_i hfree
    cases h
    exact ⟨rfl, fun other hother => absurd (hfree.symm.trans hother) nofun⟩

theorem registerType_eq_error {type existing : TypeId}
    (h : s.registerType name type = .error existing) :
    s.types.get? name = some existing := by
  unfold registerType at h
  split at h
  · rename_i hbound
    split at h
    · cases h
    · cases h
      exact hbound
  · cases h

theorem registerTemplateType_eq_ok {template : TemplateId}
    (h : s.registerTemplateType name template = .ok changed) :
    changed = { s with
      templateTypes := s.templateTypes.put name template } := by
  unfold registerTemplateType at h
  split at h
  · split at h
    · cases h
      rfl
    · cases h
  · cases h
    rfl

end Scope

/-! ## Tables of scopes -/

namespace ScopeTable

variable {t u v : ScopeTable} {id : ScopeId}

theorem size_modify (t : ScopeTable) (id : ScopeId) (f : Scope → Scope) :
    (t.modify id f).size = t.size := by
  simp [modify, size]

theorem size_create (t : ScopeTable) (kind : ScopeKind)
    (parent : Option ScopeId) : (t.create kind parent).2.size = t.size + 1 := by
  simp [create, size]

theorem size_lt_create (t : ScopeTable) (kind : ScopeKind)
    (parent : Option ScopeId) : t.size < (t.create kind parent).2.size := by
  rw [size_create]
  exact Nat.lt_succ_self _

theorem size_scopeFor (t : ScopeTable) (key : NodeKey) (kind : ScopeKind)
    (parent : ScopeId) : t.size ≤ (t.scopeFor key kind parent).2.size := by
  unfold scopeFor
  split
  · exact Nat.le_refl _
  · simp [create, size]

theorem get_create_old {kind : ScopeKind} {parent : Option ScopeId}
    (h : id.index < t.size) : (t.create kind parent).2.get id = t.get id := by
  have hlt : id.index < t.scopes.size := h
  simp [get, create, hlt, Array.getElem?_push, Nat.ne_of_lt hlt]

theorem get_scopeFor_old {key : NodeKey} {kind : ScopeKind} {parent : ScopeId}
    (h : id.index < t.size) :
    (t.scopeFor key kind parent).2.get id = t.get id := by
  unfold scopeFor
  split
  · rfl
  · exact get_create_old h

theorem get_create_new (t : ScopeTable) (kind : ScopeKind)
    (parent : Option ScopeId) :
    (t.create kind parent).2.get ⟨t.size⟩ = { kind, parent } := by
  simp [get, create, size]

def bindAll (t : ScopeTable) (scope : ScopeId)
    (pairs : List (TemplateParam × TemplateArg)) : ScopeTable :=
  pairs.foldl
    (fun t pair =>
      t.modify scope (·.bindTemplateParam pair.1.name (pair.1.binding pair.2)))
        t

def bindTemplate (t : ScopeTable) (d : TemplateDef) (args : List TemplateArg) :
    ScopeTable :=
  (t.create .template (some d.scope)).2.bindAll ⟨t.size⟩ (d.params.zip args)

theorem size_bindAll (t : ScopeTable) (scope : ScopeId)
    (pairs : List (TemplateParam × TemplateArg)) :
    (t.bindAll scope pairs).size = t.size := by
  induction pairs generalizing t with
  | nil => rfl
  | cons pair rest ih =>
      unfold bindAll at ih ⊢
      rw [List.foldl_cons, ih, size_modify]

theorem size_bindTemplate (t : ScopeTable) (d : TemplateDef)
    (args : List TemplateArg) : (t.bindTemplate d args).size = t.size + 1 := by
  rw [bindTemplate, size_bindAll, size_create]

theorem get_bindAll {scope : ScopeId} (hscope : scope.index < t.size)
    (pairs : List (TemplateParam × TemplateArg)) :
    (t.bindAll scope pairs).get scope = { t.get scope with
      templateParams := pairs.foldl
        (fun b pair => b.put pair.1.name (pair.1.binding pair.2))
          (t.get scope).templateParams } := by
  induction pairs generalizing t with
  | nil => rfl
  | cons pair rest ih =>
      unfold bindAll at ih ⊢
      rw [List.foldl_cons, ih (by rwa [size_modify]), get_modify,
        if_pos ⟨rfl, hscope⟩]
      rfl

theorem get_bindAll_ne {scope : ScopeId} (hne : id ≠ scope)
    (pairs : List (TemplateParam × TemplateArg)) :
    (t.bindAll scope pairs).get id = t.get id := by
  induction pairs generalizing t with
  | nil => rfl
  | cons pair rest ih =>
      unfold bindAll at ih ⊢
      rw [List.foldl_cons, ih, get_modify, if_neg fun h => hne h.1]

theorem get_bindTemplate (t : ScopeTable) (d : TemplateDef)
    (args : List TemplateArg) :
    (t.bindTemplate d args).get ⟨t.size⟩ =
      { kind := .template, parent := some d.scope,
        templateParams := d.bindings args } := by
  have hnew : (⟨t.size⟩ : ScopeId).index <
      (t.create .template (some d.scope)).2.size := t.size_lt_create _ _
  rw [bindTemplate, get_bindAll hnew, get_create_new]
  rfl

theorem get_bindTemplate_old {d : TemplateDef} {args : List TemplateArg}
    (h : id.index < t.size) : (t.bindTemplate d args).get id = t.get id := by
  have hne : id ≠ ⟨t.size⟩ := by
    rintro rfl
    exact Nat.lt_irrefl _ h
  rw [bindTemplate, get_bindAll_ne hne, get_create_old h]

/-! ## What scopes keep -/

structure Keeps (t u : ScopeTable) : Prop where
  size : t.size ≤ u.size
  context : ∀ id : ScopeId, id.index < t.size →
    (u.get id).context = (t.get id).context

namespace Keeps

theorem refl (t : ScopeTable) : t.Keeps t := ⟨Nat.le_refl _, fun _ _ => rfl⟩

theorem trans (htu : t.Keeps u) (huv : u.Keeps v) : t.Keeps v where
  size := Nat.le_trans htu.size huv.size
  context id hid :=
    (huv.context id (Nat.lt_of_lt_of_le hid htu.size)).trans
      (htu.context id hid)

theorem create (t : ScopeTable) (kind : ScopeKind) (parent : Option ScopeId) :
    t.Keeps (t.create kind parent).2 where
  size := Nat.le_of_lt (t.size_lt_create kind parent)
  context id hid := by rw [get_create_old hid]

theorem scopeFor (t : ScopeTable) (key : NodeKey) (kind : ScopeKind)
    (parent : ScopeId) : t.Keeps (t.scopeFor key kind parent).2 := by
  unfold ScopeTable.scopeFor
  split
  · exact .refl t
  · have hcreate := create t kind (some parent)
    exact ⟨hcreate.size, hcreate.context⟩

theorem modify {f : Scope → Scope} (hf : ∀ s, (f s).context = s.context)
    (id : ScopeId) : t.Keeps (t.modify id f) where
  size := Nat.le_of_eq (size_modify t id f).symm
  context other _ := by
    rw [get_modify]
    split
    · rename_i heq
      rw [hf, heq.1]
    · rfl

theorem modify_new (h : t.Keeps u) {id : ScopeId} (hid : t.size ≤ id.index)
    (f : Scope → Scope) : t.Keeps (u.modify id f) where
  size := by
    rw [size_modify]
    exact h.size
  context other hother := by
    rw [get_modify, if_neg]
    · exact h.context other hother
    · rintro ⟨rfl, -⟩
      omega

theorem bindAll (h : t.Keeps u) {scope : ScopeId}
    (hscope : t.size ≤ scope.index)
    (pairs : List (TemplateParam × TemplateArg)) :
    t.Keeps (u.bindAll scope pairs) := by
  induction pairs generalizing u with
  | nil => exact h
  | cons pair rest ih => exact ih (h.modify_new hscope _)

theorem bindTemplate (t : ScopeTable) (d : TemplateDef)
    (args : List TemplateArg) : t.Keeps (t.bindTemplate d args) :=
  (create t .template (some d.scope)).bindAll (Nat.le_refl _) _

theorem registerType {scope changed : Scope} {name : String} {type : TypeId}
    (h : scope.registerType name type = .ok changed) :
    changed.context = scope.context := by
  rw [(Scope.registerType_eq_ok h).1]
  rfl

theorem registerTemplateType {scope changed : Scope} {name : String}
    {template : TemplateId}
    (h : scope.registerTemplateType name template = .ok changed) :
    changed.context = scope.context := by
  rw [Scope.registerTemplateType_eq_ok h]
  rfl

theorem replace {id : ScopeId} {changed : Scope}
    (h : changed.context = (t.get id).context) :
    t.Keeps (t.modify id fun _ => changed) where
  size := Nat.le_of_eq (size_modify t id _).symm
  context other _ := by
    rw [get_modify]
    split
    · rename_i heq
      rw [h, heq.1]
    · rfl

theorem findOrCreate {types types' : TypeTable} {kind : TemplateKind}
    {args : List TemplateArg} {result : TypeId × Bool}
    (h : types.findOrCreate t kind args = .ok (result, types', u)) :
    t.Keeps u := by
  rcases TypeTable.findOrCreate_scopes h with rfl | rfl
  · exact .refl _
  · exact create t .members none

end Keeps

/-! ## Bodies of instances -/

/-- In the scope the names stand for what they are bound to. -/
def Binds (t : ScopeTable) (scope : ScopeId) (b : Bindings TemplateBinding) :
    Prop :=
  ∀ name binding, b.get? name = some binding → t.findTemplateParam scope name =
    some binding

theorem ancestorsFrom_head (t : ScopeTable) (id : ScopeId) (rounds : Nat) :
    ∃ rest, t.ancestorsFrom id rounds = id :: rest := by
  cases rounds with
  | zero => exact ⟨[], rfl⟩
  | succ rounds =>
      rw [ancestorsFrom]
      split
      · exact ⟨_, rfl⟩
      · exact ⟨[], rfl⟩

theorem ancestorsFrom_parent {parent : ScopeId}
    (h : (t.get id).parent = some parent) (rounds : Nat) :
    t.ancestorsFrom id (rounds + 1) = id :: t.ancestorsFrom parent rounds := by
  rw [ancestorsFrom, h]

theorem binds_of_parent {scope inner : ScopeId}
    (hparent : (t.get inner).parent = some scope)
    (hempty : (t.get inner).templateParams = .empty)
    (hinner : 0 < inner.index) :
    t.Binds inner (t.get scope).templateParams := by
  intro name binding hbinding
  obtain ⟨rounds, hrounds⟩ :=
    Nat.exists_eq_succ_of_ne_zero (Nat.ne_of_gt hinner)
  obtain ⟨rest, hrest⟩ := t.ancestorsFrom_head scope rounds
  have hancestors : t.ancestors inner = inner :: scope :: rest := by
    rw [ancestors, hrounds, ancestorsFrom_parent hparent, hrest]
  rw [findTemplateParam, hancestors, List.findSome?_cons, hempty,
    Bindings.get?_empty, List.findSome?_cons, hbinding]

def openInstance (t : ScopeTable) (d : TemplateDef) (args : List TemplateArg)
    (kind : ScopeKind) : ScopeTable :=
  ((t.bindTemplate d args).create kind (some ⟨t.size⟩)).2

theorem size_openInstance (t : ScopeTable) (d : TemplateDef)
    (args : List TemplateArg) (kind : ScopeKind) :
    (t.openInstance d args kind).size = t.size + 2 := by
  rw [openInstance, size_create, size_bindTemplate]

theorem get_openInstance_old {d : TemplateDef} {args : List TemplateArg}
    {kind : ScopeKind} {id : ScopeId} (h : id.index < t.size) :
    (t.openInstance d args kind).get id = t.get id := by
  have hbound : id.index < (t.bindTemplate d args).size := by
    rw [size_bindTemplate]
    exact Nat.lt_succ_of_lt h
  rw [openInstance, get_create_old hbound, get_bindTemplate_old h]

theorem get_openInstance_outer (t : ScopeTable) (d : TemplateDef)
    (args : List TemplateArg) (kind : ScopeKind) :
    (t.openInstance d args kind).get ⟨t.size⟩ =
      { kind := .template, parent := some d.scope,
        templateParams := d.bindings args } := by
  have hold : (⟨t.size⟩ : ScopeId).index < (t.bindTemplate d args).size := by
    rw [size_bindTemplate]
    exact Nat.lt_succ_self _
  rw [openInstance, get_create_old hold, get_bindTemplate]

theorem get_openInstance_inner (t : ScopeTable) (d : TemplateDef)
    (args : List TemplateArg) (kind : ScopeKind) :
    (t.openInstance d args kind).get ⟨t.size + 1⟩ =
      { kind, parent := some ⟨t.size⟩ } := by
  rw [openInstance, ← size_bindTemplate t d args, get_create_new]

/-- In the body of an instance the parameters stand for the arguments, then and
later. -/
theorem binds_openInstance {d : TemplateDef} {args : List TemplateArg}
    {kind : ScopeKind} (h : (t.openInstance d args kind).Keeps u) :
    u.Binds ⟨t.size + 1⟩ (d.bindings args) := by
  have hsize := size_openInstance t d args kind
  have hscope := h.context ⟨t.size⟩ (by simp only; omega)
  have hinner := h.context ⟨t.size + 1⟩ (by simp only; omega)
  rw [get_openInstance_outer] at hscope
  rw [get_openInstance_inner] at hinner
  have hparams : (u.get ⟨t.size⟩).templateParams = d.bindings args :=
    congrArg Prod.snd hscope
  have hbinds :=
    binds_of_parent (congrArg Prod.fst hinner) (congrArg Prod.snd hinner)
    (Nat.succ_pos _)
  rwa [hparams] at hbinds

end ScopeTable

namespace Eval

variable {d : TemplateDef} {args : List TemplateArg} {s : Engine}

theorem forM_bindTemplateParam (scope : ScopeId)
    (pairs : List (TemplateParam × TemplateArg)) (s : Engine) :
    (pairs.forM fun pair =>
      updateScope scope
        (·.bindTemplateParam pair.1.name (pair.1.binding pair.2))) s =
      .ok () { s with scopes := s.scopes.bindAll scope pairs } := by
  induction pairs generalizing s with
  | nil => rfl
  | cons pair rest ih => exact ih _

theorem bindTemplateScope_ok (h : d.takes args = true) (s : Engine) :
    bindTemplateScope d args s =
      .ok ⟨s.scopes.size⟩ { s with
        scopes := s.scopes.bindTemplate d args } := by
  have hrun : bindTemplateScope d args = (do
      let scope ← createScope .template (some d.scope)
      (d.params.zip args).forM fun pair =>
        updateScope scope
          (·.bindTemplateParam pair.1.name (pair.1.binding pair.2))
      pure scope) := if_pos h
  have hcreate : createScope .template (some d.scope) s =
      .ok ⟨s.scopes.size⟩ { s with
        scopes := (s.scopes.create .template (some d.scope)).2 } := rfl
  rw [hrun]
  simp only [bind, EStateM.bind, hcreate, forM_bindTemplateParam]
  rfl

theorem bindTemplateScope_error (h : d.takes args = false) (s : Engine) :
    bindTemplateScope d args s =
      .error (.failed ((Failure.unknownType (s.renderInstance d args)).withHint
        (quoted d.name ++ " takes " ++ toString d.params.length ++
          " template argument(s)"))) s := by
  have hrun : bindTemplateScope d args = inspect fun s =>
      .error ((Failure.unknownType (s.renderInstance d args)).withHint
        (quoted d.name ++ " takes " ++ toString d.params.length ++
          " template argument(s)")) :=
    if_neg (ne_true_of_eq_false h)
  rw [hrun]
  rfl

end Eval

end ArenaScript
