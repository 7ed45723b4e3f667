import ArenaScript.Proofs.Evaluation.Completion
import ArenaScript.Proofs.Evaluation.Resolution

/-!
# Declarations that fail

A node counts as declared before anything else is done, and a type is registered
and bound before its members are known; neither is ever taken back.  So a
declaration that has failed is passed over when it is executed again, and a type
that has failed keeps its name: whoever declares the name again is refused.
Functions and templates are entered only when everything else has succeeded.
Where nothing is evaluated on the way, nothing else is left: no name but that of
the type is registered, and in the scope of the declaration nothing but this
name is bound.
-/

namespace ArenaScript

open Engine (Later Preserves)

/-! ## What a node declares -/

inductive Declaration where
  | function
  | template (params : Node) (kind : StructKind)
  | type (kind : StructKind)

def Declaration.isType : Declaration → Bool
  | .type _ => true
  | _ => false

namespace Node

def declaration? (node : Node) : Option Declaration :=
  match node.kind, node.findChild? .templateParameters with
  | .function, _ => some .function
  | .classDecl, none => some (.type .classKind)
  | .classDecl, some params => some (.template params .classKind)
  | .unionDecl, none => some (.type .unionKind)
  | .unionDecl, some params => some (.template params .unionKind)
  | .enumDecl, _ => some (.type .enumKind)
  | _, _ => none

def isInert (node : Node) (depth : Nat) : Bool :=
  node.isPlain depth &&
    node.children.all fun child => child.kind != .enumValue ||
      (child.child? 0).isNone

end Node

namespace Engine

def keyOf (s : Engine) (node : Node) : NodeKey := ⟨s.currentTree, node.id⟩

def markedFor (s : Engine) (node : Node) : Engine :=
  { s with declared := s.keyOf node :: s.declared }

def arrivedAt (s : Engine) (node : Node) : Engine :=
  { s with lastPos := if node.pos.isDummy then s.lastPos else node.pos }

end Engine

namespace Calls

def defineMembers (c : Calls) (node : Node) (own : ScopeId) (type : TypeId) :
    StructKind → Eval Unit
  | .enumKind => do
      Eval.updateScope own fun s => { s with owner := some type }
      let constants ← c.buildConstants 0
        (node.children.filter (·.kind == .enumValue))
      Eval.completeType type [] constants
  | _ => do
      let _ ← c.classBody node own type
      pure ()

def process (c : Calls) (node : Node) (scope : ScopeId) :
    Declaration → Eval Unit
  | .function => c.defineFunction node scope none
  | .template params kind => do
      let id ← c.declareTemplate node params scope (.record kind)
      Eval.registerTemplateName scope node.text id
  | .type kind => do
      let own ← Eval.scopeFor node .classBody scope
      let type ← Eval.registerShell node.text kind own
      Eval.registerTypeName scope node.text type
      c.defineMembers node own type kind

variable {c : Calls} {node : Node} {scope : ScopeId} {d : Declaration}
  {s t : Engine} {e : Stop}

theorem declareClass_type (c : Calls) (scope : ScopeId) (kind : StructKind)
    (hkind : kind ≠ .enumKind)
    (hparams : node.findChild? .templateParameters = none) :
    c.declareClass node scope kind =
      (do if ← Eval.markDeclared node then c.process node scope (.type
        kind)) := by
  have hmembers : ∀ own type, c.defineMembers node own type kind =
      (do let _ ← c.classBody node own type; pure ()) := by
    intro own type
    cases kind with
    | enumKind => exact absurd rfl hkind
    | _ => rfl
  simp only [declareClass, hparams, process, hmembers, defineClass, announce,
    classBody, bind_assoc]

theorem declare_eq (c : Calls) (scope : ScopeId)
    (hd : node.declaration? = some d) :
    c.declare node scope =
      (do if ← Eval.markDeclared node then c.process node scope d) := by
  unfold Node.declaration? at hd
  split at hd <;> cases hd
  case h_1 hkind => simp only [declare, hkind, process]
  case h_2 hkind hparams =>
    simp only [declare, hkind]
    exact declareClass_type c scope _ nofun hparams
  case h_3 hkind hparams =>
    simp only [declare, hkind, declareClass, hparams, process]
  case h_4 hkind hparams =>
    simp only [declare, hkind]
    exact declareClass_type c scope _ nofun hparams
  case h_5 hkind hparams =>
    simp only [declare, hkind, declareClass, hparams, process]
  case h_6 hkind =>
    simp only [declare, hkind]
    rfl

end Calls

/-! ## What is never taken back -/

def Scope.bindType (s : Scope) (name : String) (type : TypeId) : Scope :=
  { s with types := s.types.put name type }

namespace TypeTable

variable {t u : TypeTable} {name : String}

def Registers (t : TypeTable) (name : String) : Prop :=
  ∃ id, t.Has id ∧ t.name id = name

theorem findByName?_isSome : (t.findByName? name).isSome = true ↔
    t.Registers name := by
  cases hfind : t.findByName? name with
  | some id => exact ⟨fun _ => ⟨id, findByName?_eq_some hfind⟩, fun _ => rfl⟩
  | none =>
      refine ⟨nofun, fun ⟨id, hid, hname⟩ => ?_⟩
      exact absurd hname (findByName?_eq_none.1 hfind id hid)

theorem Extends.registers (h : t.Extends u) (hname : t.Registers name) :
    u.Registers name := by
  obtain ⟨id, hid, hname⟩ := hname
  exact ⟨id, h.has hid, (h.name hid).trans hname⟩

theorem registers_push {e : TypeEntry} :
    (t.push e).2.Registers name ↔ t.Registers name ∨ name = e.name := by
  constructor
  · rintro ⟨id, hid, rfl⟩
    rcases has_push.1 hid with hold | rfl
    · exact .inl ⟨id, hold, (name_push_old hold).symm⟩
    · exact .inr (name_push_new t e)
  · rintro (hold | rfl)
    · exact (Extends.push t e).registers hold
    · exact ⟨⟨t.size⟩, has_push.2 (.inr rfl), name_push_new t e⟩

theorem register_registers {body : Structural} {members : ScopeId} {id : TypeId}
    {other : String} (h : t.register name body members = .ok (id, u)) :
    u.Registers other ↔ t.Registers other ∨ other = name := by
  obtain ⟨-, -, e, rfl, -, rfl⟩ := register_eq_ok h
  exact registers_push

end TypeTable

namespace ScopeTable

variable {t u v : ScopeTable} {id : ScopeId}

def KeepsTypes (t u : ScopeTable) : Prop :=
  ∀ id name type, (t.get id).types.get? name = some type →
    (u.get id).types.get? name = some type

namespace KeepsTypes

theorem refl (t : ScopeTable) : t.KeepsTypes t := fun _ _ _ h => h

theorem trans (htu : t.KeepsTypes u) (huv : u.KeepsTypes v) : t.KeepsTypes v :=
  fun id name type h => huv id name type (htu id name type h)

theorem of_old (h : ∀ id : ScopeId, id.index < t.size → u.get id = t.get id) :
    t.KeepsTypes u := by
  intro id name type hbound
  by_cases hid : id.index < t.size
  · rwa [h id hid]
  · have hdefault : t.get id = { kind := .universe, parent := none } :=
      Array.getD_eq_getD_getElem?.trans (by
        rw [Array.getElem?_eq_none (Nat.le_of_not_lt hid)]; rfl)
    rw [hdefault] at hbound
    cases hbound

theorem modify (id : ScopeId) {f : Scope → Scope} (h : ∀ name type,
    (t.get id).types.get? name = some type → (f (t.get id)).types.get? name =
      some type) : t.KeepsTypes (t.modify id f) := by
  intro other name type hbound
  rw [get_modify]
  split
  · rename_i heq
    exact h name type (heq.1 ▸ hbound)
  · exact hbound

theorem registerType {scope : ScopeId} {name : String} {type : TypeId}
    {changed : Scope} (h : (t.get scope).registerType name type = .ok changed) :
    t.KeepsTypes (t.modify scope fun _ => changed) := by
  obtain ⟨rfl, hsame⟩ := Scope.registerType_eq_ok h
  refine modify scope fun other found hbound => ?_
  rw [Bindings.get?_put]
  split
  · rename_i heq
    rw [hsame found (heq ▸ hbound)]
  · exact hbound

theorem create (t : ScopeTable) (kind : ScopeKind) (parent : Option ScopeId) :
    t.KeepsTypes (t.create kind parent).2 :=
  of_old fun _ hid => get_create_old hid

end KeepsTypes

theorem modify_get (t : ScopeTable) (id : ScopeId) (f : Scope → Scope) :
    (t.modify id fun _ => f (t.get id)) = t.modify id f := by
  have hscopes : t.scopes.modify id.index (fun _ => f (t.get id)) =
      t.scopes.modify id.index f := by
    refine Array.ext (by rw [Array.size_modify, Array.size_modify])
      fun i hi _ => ?_
    rw [Array.size_modify] at hi
    rw [Array.getElem_modify, Array.getElem_modify]
    split
    · rename_i heq
      subst heq
      simp [get, hi]
    · rfl
  rw [modify, hscopes]
  rfl

theorem resolveTypeName_of_bound {name : String} {type : TypeId}
    (h : (t.get id).types.get? name = some type) :
    t.resolveTypeName id name = some type := by
  obtain ⟨rest, hrest⟩ := t.ancestorsFrom_head id id.index
  simp only [resolveTypeName, closure, ancestors, hrest, List.flatMap_cons,
    List.cons_append, List.findSome?_cons, h]

end ScopeTable

namespace Engine.Later

variable {s t : Engine}

theorem declared (h : s.Later t) : s.declared ⊆ t.declared := by
  induction h with
  | refl => exact List.Subset.refl _
  | move _ hmove ih =>
      refine List.Subset.trans ih ?_
      cases hmove with
      | markDeclared => exact List.subset_cons_self _ _
      | _ => exact List.Subset.refl _
  | place _ _ _ _ ih => exact ih
  | enter _ _ _ ih => exact ih

theorem keepsTypes (h : s.Later t) : s.scopes.KeepsTypes t.scopes := by
  have hmodify : ∀ {u : ScopeTable} (scope : ScopeId) {f : Scope → Scope},
      (∀ x, (f x).types = x.types) → u.KeepsTypes (u.modify scope f) :=
    fun scope f hf => .modify scope fun name type hbound => by rwa [hf]
  induction h with
  | refl => exact .refl _
  | place _ _ _ _ ih => exact ih
  | enter _ _ _ ih => exact ih.trans (.create _ _ _)
  | move _ hmove ih =>
      refine ih.trans ?_
      cases hmove with
      | instantiate h =>
          rcases TypeTable.findOrCreate_scopes h with rfl | rfl
          · exact .refl _
          · exact .create _ _ _
      | createScope => exact .create _ _ _
      | scopeFor => exact .of_old fun _ hid => ScopeTable.get_scopeFor_old hid
      | addImport scope =>
          refine hmodify scope fun x => ?_
          unfold Scope.addImport
          split <;> rfl
      | setOwner scope => exact hmodify scope fun _ => rfl
      | registerFunction scope => exact hmodify scope fun _ => rfl
      | registerOperator scope => exact hmodify scope fun _ => rfl
      | registerTemplateFunction scope => exact hmodify scope fun _ => rfl
      | bindTemplateScope =>
          exact .of_old fun _ hid => ScopeTable.get_bindTemplate_old hid
      | registerType h => exact .registerType h
      | registerTemplateType h =>
          rw [Scope.registerTemplateType_eq_ok h]
          exact .modify _ fun _ _ hbound => hbound
      | _ => exact .refl _

end Engine.Later

/-! ## Processing once -/

namespace Eval

variable {α : Type} {s t : Engine} {e : Stop}

theorem forM_eq_error {f : α → Eval Unit} {l : List α}
    (h : l.forM f s = .error e t) : ∃ a ∈ l, ∃ u, f a u = .error e t := by
  induction l generalizing s with
  | nil => cases h
  | cons a l ih =>
      rcases bind_eq_error h with hfirst | ⟨_, u, -, hrest⟩
      · exact ⟨a, List.mem_cons_self, s, hfirst⟩
      · obtain ⟨b, hb, hfailed⟩ := ih hrest
        exact ⟨b, List.mem_cons_of_mem a hb, hfailed⟩

theorem mapFailure_eq_error {f : Engine → Failure → Failure} {x : Eval α}
    (h : mapFailure f x s = .error e t) : ∃ e', x s = .error e' t := by
  unfold mapFailure at h
  split at h
  · cases h
  · rename_i hrun
    cases h
    exact ⟨_, hrun⟩
  · rename_i hrun
    cases h
    exact ⟨_, hrun⟩

end Eval

namespace Calls

variable {c : Calls} {node : Node} {scope : ScopeId} {d : Declaration}
  {s t : Engine} {e : Stop}

theorem declare_known (c : Calls) (scope : ScopeId)
    (hd : node.declaration? = some d) (h : s.keyOf node ∈ s.declared) :
    c.declare node scope s = .ok () s := by
  rw [declare_eq c scope hd, Eval.bind_ok (Eval.markDeclared_known h)]
  rfl

theorem declare_new (c : Calls) (scope : ScopeId)
    (hd : node.declaration? = some d) (h : s.keyOf node ∉ s.declared) :
    c.declare node scope s = c.process node scope d (s.markedFor node) := by
  rw [declare_eq c scope hd, Eval.bind_ok (Eval.markDeclared_new h)]
  rfl

theorem declare_eq_error (hd : node.declaration? = some d)
    (hrun : c.declare node scope s = .error e t) :
    s.keyOf node ∉ s.declared ∧ c.process node scope d (s.markedFor node) =
      .error e t := by
  have hfresh : s.keyOf node ∉ s.declared := fun hknown => by
    rw [declare_known c scope hd hknown] at hrun
    cases hrun
  exact ⟨hfresh, (declare_new c scope hd hfresh).symm.trans hrun⟩

/-! ### Statements -/

theorem execute_eq (hd : node.declaration? = some d) (fuel : Nat) (s : Engine) :
    (ofFuel (fuel + 1)).execute node s =
      Eval.mapFailure (fun s e => e.withLocation node.pos s.currentModulePath?)
        (do (ofFuel fuel).declare node s.currentScope; pure .normal)
          (s.arrivedAt node) := by
  have hkind : (ofFuel fuel).executeKind node = (do
      (ofFuel fuel).declare node (← Eval.currentScope)
      pure .normal) := by
    unfold Node.declaration? at hd
    split at hd <;> cases hd <;> simp only [executeKind, *]
  change (ofFuel fuel).executeStep node s = _
  unfold executeStep
  rw [hkind]
  unfold Engine.arrivedAt
  cases node.pos.isDummy <;> rfl

theorem execute_eq_error (hd : node.declaration? = some d) {fuel : Nat}
    (hrun : (ofFuel (fuel + 1)).execute node s = .error e t) :
    ∃ e', (ofFuel fuel).declare node s.currentScope (s.arrivedAt node) =
      .error e' t := by
  rw [execute_eq hd] at hrun
  obtain ⟨e', hrun⟩ := Eval.mapFailure_eq_error hrun
  rcases Eval.bind_eq_error hrun with hrun | ⟨_, u, -, hpure⟩
  · exact ⟨e', hrun⟩
  · cases hpure

theorem execute_known (hd : node.declaration? = some d) (fuel : Nat)
    (h : s.keyOf node ∈ s.declared) :
    (ofFuel (fuel + 1)).execute node s = .ok .normal (s.arrivedAt node) := by
  have hrun : (ofFuel fuel).declare node s.currentScope (s.arrivedAt node) =
      .ok () (s.arrivedAt node) := declare_known _ _ hd h
  rw [execute_eq hd]
  simp only [Eval.mapFailure, Eval.bind_ok hrun]
  rfl

theorem execute_fault (hd : node.declaration? = some d) (fuel : Nat)
    {e : Failure}
    (hrun : (ofFuel fuel).declare node s.currentScope (s.arrivedAt node) =
      .error (.failed e) t) :
    ((ofFuel (fuel + 1)).execute node).fault? s = some e.fault := by
  have hlocated : ∀ pos file, (e.withLocation pos file).fault = e.fault := by
    intro pos file
    unfold Failure.withLocation
    split <;> rfl
  unfold Eval.fault?
  rw [execute_eq hd]
  simp only [Eval.mapFailure, Eval.bind_error hrun, hlocated]

end Calls

/-! ## Types -/

namespace Engine

def ownScope (s : Engine) (node : Node) (scope : ScopeId) : ScopeId :=
  (s.scopes.scopeFor (s.keyOf node) .classBody scope).1

def withOwnScope (s : Engine) (node : Node) (scope : ScopeId) : Engine :=
  { s with scopes := (s.scopes.scopeFor (s.keyOf node) .classBody scope).2 }

def preparedFor (s : Engine) (node : Node) : Engine :=
  ((s.arrivedAt node).markedFor node).withOwnScope node s.currentScope

theorem size_preparedFor (s : Engine) (node : Node) :
    s.scopes.size ≤ (s.preparedFor node).scopes.size :=
  ScopeTable.size_scopeFor _ _ _ _

theorem get_preparedFor {s : Engine} {id : ScopeId}
    (hid : id.index < s.scopes.size) (node : Node) :
    (s.preparedFor node).scopes.get id = s.scopes.get id :=
  ScopeTable.get_scopeFor_old hid

def boundIn (s : Engine) (types : TypeTable) (scope : ScopeId) (name : String) :
    Engine :=
  { s with
    types, scopes := s.scopes.modify scope (·.bindType name ⟨s.types.size⟩) }

end Engine

namespace Calls

variable {c : Calls} {node : Node} {scope own : ScopeId} {kind : StructKind}
  {s t : Engine} {e : Stop}

inductive TypeFails (c : Calls) (node : Node) (kind : StructKind)
    (scope own : ScopeId) (s : Engine) : Stop → Engine → Prop
  | used (h : s.types.Registers node.text) :
      TypeFails c node kind scope own s (.failed (.redefinition node.text)) s
  | bound {types : TypeTable} {other : TypeId}
      (hregister : s.types.register node.text (.shell kind) own =
        .ok (⟨s.types.size⟩, types))
      (h : (s.scopes.get scope).types.get? node.text = some other) :
      TypeFails c node kind scope own s (.failed (.redefinition node.text))
        { s with types }
  | members {types : TypeTable} {e : Stop} {t : Engine}
      (hregister : s.types.register node.text (.shell kind) own =
        .ok (⟨s.types.size⟩, types))
      (h : c.defineMembers node own ⟨s.types.size⟩ kind
        (s.boundIn types scope node.text) = .error e t) :
      TypeFails c node kind scope own s e t

theorem process_type (c : Calls) (node : Node) (scope : ScopeId)
    (kind : StructKind) (s : Engine) :
    c.process node scope (.type kind) s = (do
      let type ← Eval.registerShell node.text kind (s.ownScope node scope)
      Eval.registerTypeName scope node.text type
      c.defineMembers node (s.ownScope node scope) type kind)
        (s.withOwnScope node scope) := rfl

/-- A name that is in use is refused at once. -/
theorem process_type_used (h : s.types.Registers node.text) :
    c.process node scope (.type kind) s =
      .error (.failed (.redefinition node.text))
        (s.withOwnScope node scope) := by
  obtain ⟨type, hfound⟩ :=
    Option.isSome_iff_exists.1 (TypeTable.findByName?_isSome.2 h)
  have hregister : Eval.registerShell node.text kind (s.ownScope node scope)
      (s.withOwnScope node scope) =
      .error (.failed (.redefinition node.text))
        (s.withOwnScope node scope) := by
    simp only [Eval.registerShell, TypeTable.register,
      Engine.withOwnScope, hfound]
  rw [process_type, Eval.bind_error hregister]

theorem process_type_fails
    (hrun : c.process node scope (.type kind) s = .error e t) :
    TypeFails c node kind scope (s.ownScope node scope)
      (s.withOwnScope node scope) e t := by
  by_cases hused : (s.withOwnScope node scope).types.Registers node.text
  · have hrefused : c.process node scope (.type kind) s = _ :=
      process_type_used hused
    rw [hrefused] at hrun
    cases hrun
    exact .used hused
  rw [process_type] at hrun
  generalize s.withOwnScope node scope = s, s.ownScope node scope =
    own at hrun hused ⊢
  have hfree : s.types.findByName? node.text = none :=
    Option.eq_none_iff_forall_ne_some.2 fun type hfound =>
      hused (TypeTable.findByName?_isSome.1 (Option.isSome_of_eq_some hfound))
  obtain ⟨types, hregister⟩ := TypeTable.register_new hfree (.shell kind) own
  have hshell : Eval.registerShell node.text kind own s =
      .ok ⟨s.types.size⟩ { s with types } := by
    simp only [Eval.registerShell, hregister]
  rw [Eval.bind_ok hshell] at hrun
  cases hbind : (s.scopes.get scope).registerType node.text ⟨s.types.size⟩ with
  | error other =>
      have hname : Eval.registerTypeName scope node.text ⟨s.types.size⟩
          { s with types } =
          .error (.failed (.redefinition node.text)) { s with types } := by
        simp only [Eval.registerTypeName, hbind]
      rw [Eval.bind_error hname] at hrun
      cases hrun
      exact .bound hregister (Scope.registerType_eq_error hbind)
  | ok changed =>
      have hname : Eval.registerTypeName scope node.text ⟨s.types.size⟩
          { s with types } = .ok () (s.boundIn types scope node.text) := by
        have hchanged : changed =
            (s.scopes.get scope).bindType node.text ⟨s.types.size⟩ :=
          (Scope.registerType_eq_ok hbind).1
        simp only [Eval.registerTypeName, hbind, Engine.boundIn, hchanged]
        rw [ScopeTable.modify_get s.scopes scope
          (·.bindType node.text ⟨s.types.size⟩)]
      rw [Eval.bind_ok hname] at hrun
      exact .members hregister hrun

theorem defineMembers_later (fuel : Nat) (node : Node) (own : ScopeId)
    (type : TypeId) (kind : StructKind) :
    Eval.Within (fun s t => s.Advances t ∧ s.Later t)
      ((ofFuel fuel).defineMembers node own type kind) := by
  have hR := Later.stable.toLocal
  have hpaired := (Within.ofFuel Later.stable fuel).paired hR
  have hclass : Eval.Within (fun s t => s.Advances t ∧ s.Later t)
      ((ofFuel fuel).classBody node own type) := by
    refine hR.bind (.of_related fun _ => Paired.setOwner (.within hR) own type)
      fun _ => ?_
    refine hR.bind
      (.of_related fun _ => Congruence.mapM _ (hpaired.buildField own) _)
      fun fields => ?_
    refine hR.bind (hR.completeType type fields []) fun _ => ?_
    refine hR.bind
      (.of_related fun _ => hpaired.classMethods trivial trivial type)
        fun _ => ?_
    exact hR.pure type
  cases kind with
  | enumKind =>
      refine hR.bind
        (.of_related fun _ => Paired.setOwner (.within hR) own type) fun _ => ?_
      refine hR.bind (.of_related fun _ => hpaired.buildConstants 0 _)
        fun constants => ?_
      exact hR.completeType type [] constants
  | _ => exact hR.bind hclass fun _ => hR.pure ()

/-- The type is complete before any method is defined, and until then it stays
the shell it is. -/
theorem defineMembers_error {fuel : Nat} {type : TypeId}
    (hrun : (ofFuel fuel).defineMembers node own type kind s = .error e t) :
    s.Preserves t ∨ ∃ method ∈ node.children, method.kind = .function ∧
      ∃ u, (ofFuel fuel).defineFunction method own (some type) u =
        .error e t := by
  have hR := Preserves.composable
  have htidy := Tidy.ofFuel fuel
  have howner :=
    (Eval.Tidy.of_kept fun _ => Paired.setOwner .tidy own type).preserves
  have hcomplete : ∀ {fields : List Field} {variants : List (String × Int64)}
      {u v : Engine}
      {e : Stop}, Eval.completeType type fields variants u = .error e v →
      v = u := by
    intro fields variants u v e h
    unfold Eval.completeType at h
    split at h
    · cases h
    · cases h
      rfl
  cases kind with
  | enumKind =>
      rcases Eval.bind_eq_error hrun with h | ⟨_, u, hown, hrun⟩
      · exact .inl (howner.of_error h)
      have hkept := howner.of_ok hown
      have hconstants := (Eval.Tidy.of_kept fun _ => htidy.buildConstants 0
        (node.children.filter (·.kind == .enumValue))).preserves
      rcases Eval.bind_eq_error hrun with h | ⟨constants, v, hbuilt, hrun⟩
      · exact .inl (hR.trans hkept (hconstants.of_error h))
      · rw [hcomplete hrun]
        exact .inl (hR.trans hkept (hconstants.of_ok hbuilt))
  | _ =>
      rcases Eval.bind_eq_error hrun with hrun | ⟨_, _, -, hpure⟩
      swap
      · cases hpure
      rcases Eval.bind_eq_error hrun with h | ⟨_, u, hown, hrun⟩
      · exact .inl (howner.of_error h)
      have hkept := howner.of_ok hown
      have hfields :=
        (Eval.Tidy.of_kept fun _ => Congruence.mapM _ (htidy.buildField own)
          (node.children.filter (·.kind == .variableDefinition))).preserves
      rcases Eval.bind_eq_error hrun with h | ⟨fields, v, hbuilt, hrun⟩
      · exact .inl (hR.trans hkept (hfields.of_error h))
      rcases Eval.bind_eq_error hrun with h | ⟨_, w, -, hrun⟩
      · rw [hcomplete h]
        exact .inl (hR.trans hkept (hfields.of_ok hbuilt))
      rcases Eval.bind_eq_error hrun with h | ⟨_, _, -, hpure⟩
      · obtain ⟨method, hmem, hfailed⟩ := Eval.forM_eq_error h
        obtain ⟨hchild, hkind⟩ := List.mem_filter.1 hmem
        exact .inr ⟨method, hchild, beq_iff_eq.1 hkind, hfailed⟩
      · cases hpure

/-! ### What is left for good -/

/-- A declaration that has failed is never tried again, and a type keeps its
name, whatever is evaluated afterwards. -/
structure Abandoned (fuel : Nat) (node : Node) (d : Declaration)
    (s t : Engine) : Prop where
  fresh : s.keyOf node ∉ s.declared
  /-- Executed again, the node does nothing. -/
  skipped : ∀ u, t.Later u → u.currentTree = s.currentTree → ∀ n,
    (ofFuel (n + 1)).execute node u = .ok .normal (u.arrivedAt node)
  /-- No other declaration of the type gets through. -/
  refused : d.isType = true → ∀ u, t.Later u → ∀ other kind,
    other.declaration? = some (.type kind) → other.text = node.text →
    u.keyOf other ∉ u.declared → ∀ n,
      ((ofFuel (n + 1)).execute other).fault? u = some (.redefinition node.text)
  /-- If the name was free, there is a type now, which has no members unless
  only a method is to blame. -/
  shell : d.isType = true → ¬ s.types.Registers node.text →
    t.types.name ⟨s.types.size⟩ = node.text ∧
      ((t.types.get ⟨s.types.size⟩).isComplete = true →
        ∃ method ∈ node.children, method.kind = .function ∧ ∃ own u e,
          (ofFuel fuel).defineFunction method own (some ⟨s.types.size⟩) u =
            .error e t)
  /-- In the scope of the declaration the name stands for this type. -/
  bound : d.isType = true → ¬ s.types.Registers node.text →
    s.currentScope.index < s.scopes.size →
    (s.scopes.get s.currentScope).types.get? node.text = none → ∀ u, t.Later u →
      u.scopes.resolveTypeName s.currentScope node.text = some ⟨s.types.size⟩

theorem process_later (fuel : Nat) (node : Node) (scope : ScopeId)
    (d : Declaration) :
    Eval.Within (fun s t => s.Advances t ∧ s.Later t)
      ((ofFuel fuel).process node scope d) := by
  have hR := Later.stable.toLocal
  have hpaired := (Within.ofFuel Later.stable fuel).paired hR
  cases d with
  | function =>
      exact .of_related fun _ => hpaired.defineFunction trivial trivial none
  | template params kind =>
      refine hR.bind
        (.of_related fun _ => hpaired.declareTemplate trivial params trivial _)
        fun id => ?_
      exact .of_related fun _ =>
        (Congruence.within hR).atomic (.registerTemplateName scope _ id)
  | type kind =>
      refine hR.bind (hR.scopeFor node .classBody scope) fun own => ?_
      refine hR.bind (hR.registerShell node.text kind own) fun type => ?_
      refine hR.bind (.of_related fun _ =>
        (Congruence.within hR).atomic (.registerTypeName scope node.text type))
          fun _ => ?_
      exact defineMembers_later fuel node own type kind

namespace TypeFails

variable {fuel : Nat}

theorem registers (h : TypeFails (ofFuel fuel) node kind scope own s e t) :
    t.types.Registers node.text := by
  cases h with
  | used h => exact h
  | bound hregister _ =>
      obtain ⟨hhas, hname, -⟩ := TypeTable.register_shell hregister
      exact ⟨_, hhas, hname⟩
  | members hregister hrun =>
      obtain ⟨hhas, hname, -⟩ := TypeTable.register_shell hregister
      have hlater :=
        ((defineMembers_later fuel node own _ kind).of_error hrun).2
      exact hlater.types.registers ⟨_, hhas, hname⟩

theorem shell (h : TypeFails (ofFuel fuel) node kind scope own s e t)
    (hfree : ¬ s.types.Registers node.text) :
    t.types.name ⟨s.types.size⟩ = node.text ∧
      ((t.types.get ⟨s.types.size⟩).isComplete = true →
        ∃ method ∈ node.children, method.kind = .function ∧ ∃ u,
          (ofFuel fuel).defineFunction method own (some ⟨s.types.size⟩) u =
            .error e t) := by
  cases h with
  | used h => exact absurd h hfree
  | bound hregister _ =>
      obtain ⟨-, hname, hopen⟩ := TypeTable.register_shell hregister
      exact ⟨hname, fun hcomplete => absurd (hcomplete.symm.trans hopen) nofun⟩
  | members hregister hrun =>
      obtain ⟨hhas, hname, hopen⟩ := TypeTable.register_shell hregister
      have hlater :=
        ((defineMembers_later fuel node own _ kind).of_error hrun).2
      refine ⟨(hlater.types.name hhas).trans hname, fun hcomplete => ?_⟩
      rcases defineMembers_error hrun with hkept | hmethod
      · have hshell := (hkept.types.isComplete hhas).trans hopen
        exact absurd (hcomplete.symm.trans hshell) nofun
      · exact hmethod

theorem bound_of_free (h : TypeFails (ofFuel fuel) node kind scope own s e t)
    (hscope : scope.index < s.scopes.size)
    (hfree : ¬ s.types.Registers node.text)
    (hunbound : (s.scopes.get scope).types.get? node.text = none) :
    (t.scopes.get scope).types.get? node.text = some ⟨s.types.size⟩ := by
  cases h with
  | used h => exact absurd h hfree
  | bound _ h => exact absurd (hunbound.symm.trans h) nofun
  | members hregister hrun =>
      have hlater :=
        ((defineMembers_later fuel node own _ kind).of_error hrun).2
      refine hlater.keepsTypes scope node.text _ ?_
      simp only [Engine.boundIn, ScopeTable.get_modify, hscope,
        and_self, if_true, Scope.bindType, Bindings.get?_put]

end TypeFails

theorem abandoned {fuel : Nat} {d : Declaration}
    (hd : node.declaration? = some d)
    (hrun : (ofFuel (fuel + 1)).execute node s = .error e t) :
    Abandoned fuel node d s t := by
  obtain ⟨e', hrun⟩ := execute_eq_error hd hrun
  obtain ⟨hfresh, hrun⟩ := declare_eq_error hd hrun
  have hlater := ((process_later fuel node s.currentScope d).of_error hrun).2
  have hmarked : s.keyOf node ∈ t.declared := hlater.declared List.mem_cons_self
  have hskipped : ∀ u, t.Later u → u.currentTree = s.currentTree → ∀ n,
      (ofFuel (n + 1)).execute node u = .ok .normal (u.arrivedAt node) := by
    intro u hu htree n
    have hkey : u.keyOf node = s.keyOf node := by
      simp only [Engine.keyOf, htree]
    exact execute_known hd n (hkey ▸ hu.declared hmarked)
  cases d with
  | type kind =>
      have hfails : TypeFails (ofFuel fuel) node kind s.currentScope
          (s.ownScope node s.currentScope) (s.preparedFor node) e' t :=
        process_type_fails hrun
      refine ⟨hfresh, hskipped, fun _ u hu other kind hother htext hnew n => ?_,
        fun _ hfree => ?_,
        fun _ hfree hscope hunbound u hu => ?_⟩
      · have hregisters : u.types.Registers other.text :=
          htext ▸ hu.types.registers hfails.registers
        have hrefused :=
          (declare_new (s := u.arrivedAt other) (ofFuel n) u.currentScope hother
            hnew).trans (process_type_used hregisters)
        rw [execute_fault hother n hrefused, htext]
        rfl
      · obtain ⟨hname, hcomplete⟩ := hfails.shell hfree
        refine ⟨hname, fun h => ?_⟩
        obtain ⟨method, hmem, hkind, u, hfailed⟩ := hcomplete h
        exact ⟨method, hmem, hkind, _, u, e', hfailed⟩
      · refine ScopeTable.resolveTypeName_of_bound (hu.keepsTypes _ _ _ ?_)
        refine hfails.bound_of_free ?_ hfree ?_
        · exact Nat.lt_of_lt_of_le hscope (s.size_preparedFor node)
        · rwa [Engine.get_preparedFor hscope]
  | _ => exact ⟨hfresh, hskipped, nofun, nofun, nofun⟩

/-! ## What else is left -/

variable {depth : Nat} {keep : ScopeId → Prop} {d : Declaration}

theorem buildConstants_resolving {new : Nat} {nodes : List Node} (c c' : Calls)
    (h : ∀ child ∈ nodes, child.child? 0 = none) (next : Int64) :
    Eval.Resolving depth keep new (c.buildConstants next nodes)
      (c'.buildConstants next nodes) := by
  induction nodes generalizing next with
  | nil => exact .pure []
  | cons child rest ih =>
      obtain ⟨hchild, hrest⟩ := List.forall_mem_cons.1 h
      unfold buildConstants
      rw [hchild]
      refine (Eval.Resolving.pure next).bind fun value => ?_
      exact (ih hrest (value + 1)).bind fun _ => .pure _

theorem resolvesTypes_self (fuel depth : Nat) (keep : ScopeId → Prop) :
    (ofFuel fuel).ResolvesTypes (ofFuel (fuel + 0)) depth keep 0 depth :=
  ResolvesTypes.ofFuel (Nat.le_refl depth) (by omega)

theorem defineMembers_enlarges {fuel : Nat} {type : TypeId}
    (hs : s.Plain depth keep) (hown : ¬ keep own)
    (hnode : node.isInert depth = true)
    (hrun : (ofFuel fuel).defineMembers node own type kind s = .error e t) :
    s.Enlarges keep t := by
  obtain ⟨hplain, hconstants⟩ := Bool.and_eq_true_iff.1 hnode
  have hresolving :
      Eval.Resolving depth keep 0
        ((ofFuel fuel).defineMembers node own type kind)
      ((ofFuel fuel).defineMembers node own type kind) := by
    cases kind with
    | enumKind =>
        refine (Eval.Resolving.updateScope hown _).bind fun _ => ?_
        refine (buildConstants_resolving _ _ (fun child hchild => ?_) 0).bind
          fun constants => ?_
        · obtain ⟨hmem, hkind⟩ := List.mem_filter.1 hchild
          have hall := List.all_eq_true.1 hconstants child hmem
          simpa [beq_iff_eq.1 hkind] using hall
        · exact .completeType type [] constants
    | _ =>
        have hbody :=
          (resolvesTypes_self fuel depth keep).classBody hown hplain type
        exact hbody.bind fun _ => .pure ()
  exact (hresolving s hs).failed hrun

theorem process_enlarges {fuel : Nat} (hs : s.Plain depth keep)
    (hd : node.declaration? = some d) (htype : d.isType = false)
    (hnode : node.isInert depth = true)
    (hrun : (ofFuel fuel).process node scope d s = .error e t) :
    s.Enlarges keep t := by
  have hplain := (Bool.and_eq_true_iff.1 hnode).1
  have hhead := (Bool.and_eq_true_iff.1 hplain).1
  have htypes := resolvesTypes_self fuel depth keep
  have htemplate : ∀ {params : Node} (item : TemplateItem),
      node.findChild? .templateParameters = some params →
      Eval.Resolves depth keep 0
        ((ofFuel fuel).declareTemplate node params scope item)
        ((ofFuel fuel).declareTemplate node params scope item) s :=
    fun item hparams => htypes.declareTemplate hplain hparams item s hs
  cases d with
  | type kind => cases htype
  | template params kind =>
      have hparams : node.findChild? .templateParameters = some params := by
        unfold Node.declaration? at hd
        split at hd <;> cases hd <;> assumption
      rcases Eval.bind_eq_error hrun with h | ⟨id, u, hdeclared, hname⟩
      · exact (htemplate _ hparams).failed h
      · unfold Eval.registerTemplateName at hname
        split at hname
        · cases hname
        · cases hname
          exact ((htemplate _ hparams).ok hdeclared).2.2
  | function =>
      unfold process defineFunction at hrun
      cases hparams : node.findChild? .templateParameters with
      | some params =>
          rw [hparams] at hrun
          rcases Eval.bind_eq_error hrun with h | ⟨id, u, -, hname⟩
          · exact (htemplate _ hparams).failed h
          · cases hname
      | none =>
          rw [hparams] at hrun
          rcases Eval.bind_eq_error hrun with h |
            ⟨functionScope, u, hopened, hrun⟩
          · cases h
          have hscope :
              Eval.Resolving depth keep 0 (Eval.scopeFor node .function scope)
              (Eval.scopeFor node .function scope) :=
            .scopeFor node .function scope
          obtain ⟨-, hu, hsu⟩ := (hscope s hs).ok hopened
          rcases Eval.bind_eq_error hrun with h | ⟨id, v, -, hname⟩
          · exact hsu.trans ((htypes.buildFunction hhead none u hu).failed h)
          · cases hsymbol : operatorSymbol? node.text <;>
              rw [hsymbol] at hname <;> cases hname

/-- The node is marked, and a type keeps its name, which the scope of the
declaration may bind.  Instances apart, no other name is registered, and nothing
else is entered in a scope. -/
structure Confined (node : Node) (d : Declaration) (s t : Engine) : Prop where
  rest : t = { s with
    types := t.types, scopes := t.scopes, functions := t.functions,
    templates := t.templates
    lastPos := t.lastPos, declared := s.keyOf node :: s.declared }
  names : ∀ name, '<' ∉ name.toList →
    (t.types.Registers name ↔ s.types.Registers name ∨ d.isType = true ∧
      name = node.text)
  scopes : ∀ id, id.index < s.scopes.size → t.scopes.get id = s.scopes.get id ∨
    d.isType = true ∧
    (id = s.ownScope node s.currentScope ∨ id = s.currentScope ∧
      t.scopes.get id = (s.scopes.get id).bindType node.text ⟨s.types.size⟩)

namespace Confined

variable {u : Engine}

theorem enlarge (h : Confined node d s t) (htu : t.Enlarges keep u)
    (hkeep : ∀ id, id.index < s.scopes.size →
      keep id ∨ d.isType = true ∧ id = s.ownScope node s.currentScope) :
    Confined node d s u where
  rest := by
    rw [htu.rest, h.rest]
  names name hname := by
    rw [← h.names name hname]
    constructor
    · rintro ⟨id, hid, rfl⟩
      rcases htu.instances id hid with hold | hnew
      · exact ⟨id, hold, (htu.types.name hold).symm⟩
      · exact absurd hnew hname
    · exact htu.types.registers
  scopes id hid := by
    rcases hkeep id hid with hkept | ⟨htype, hown⟩
    · rw [htu.scopes id hkept]
      exact h.scopes id hid
    · exact .inr ⟨htype, .inl hown⟩

theorem boundIn {types : TypeTable}
    (hregister : s.types.register node.text (.shell kind)
      (s.ownScope node s.currentScope) = .ok (⟨s.types.size⟩, types)) :
    Confined node (.type kind) s
      ((s.preparedFor node).boundIn types s.currentScope node.text) := by
  refine ⟨rfl, fun name _ => ?_, fun id hid => ?_⟩
  · refine (TypeTable.register_registers hregister).trans ?_
    simp only [Declaration.isType, true_and]
  · rw [← Engine.get_preparedFor hid node]
    simp only [Engine.boundIn, ScopeTable.get_modify]
    split
    · rename_i heq
      exact .inr ⟨rfl, .inr ⟨heq.1, heq.1 ▸ rfl⟩⟩
    · exact .inl rfl

end Confined

/-- The members are defined in the scope of their own. -/
theorem confined_type {fuel : Nat}
    (hs : ∀ id, (s.templates.get id).node.isPlain depth = true)
    (hnode : node.isInert depth = true)
    (hfails : TypeFails (ofFuel fuel) node kind s.currentScope
      (s.ownScope node s.currentScope) (s.preparedFor node) e t) :
        Confined node (.type kind) s t := by
  have hkept : ∀ id : ScopeId, id.index < s.scopes.size →
      (s.preparedFor node).scopes.get id = s.scopes.get id :=
    fun _ hid => Engine.get_preparedFor hid node
  cases hfails with
  | used h =>
      refine ⟨rfl, fun name _ => ⟨.inl, ?_⟩, fun id hid => .inl (hkept id hid)⟩
      rintro (hold | ⟨-, rfl⟩)
      · exact hold
      · exact h
  | bound hregister _ =>
      refine ⟨rfl, fun name _ => ?_, fun id hid => .inl (hkept id hid)⟩
      refine (TypeTable.register_registers hregister).trans ?_
      simp only [Declaration.isType, true_and]
      rfl
  | @members types e t hregister hrun =>
      have hplain :
          ((s.preparedFor node).boundIn types s.currentScope node.text).Plain
            depth
          fun id => id.index < s.scopes.size ∧
          id ≠ s.ownScope node s.currentScope := by
        refine ⟨hs, fun id hid => Nat.lt_of_lt_of_le hid.1 ?_⟩
        rw [Engine.boundIn, ScopeTable.size_modify]
        exact s.size_preparedFor node
      have hmembers :=
        defineMembers_enlarges hplain (fun h => h.2 rfl) hnode hrun
      refine (Confined.boundIn (s := s) hregister).enlarge hmembers
        fun id hid => ?_
      by_cases hown : id = s.ownScope node s.currentScope
      · exact .inr ⟨rfl, hown⟩
      · exact .inl ⟨hid, hown⟩

theorem confined {fuel : Nat} (hd : node.declaration? = some d)
    (hs : ∀ id, (s.templates.get id).node.isPlain depth = true)
    (hnode : node.isInert depth = true)
    (hrun : (ofFuel (fuel + 1)).execute node s = .error e t) :
    Confined node d s t := by
  obtain ⟨e', hrun⟩ := execute_eq_error hd hrun
  obtain ⟨-, hrun⟩ := declare_eq_error hd hrun
  cases htype : d.isType with
  | false =>
      have hmarked : Confined node d s ((s.arrivedAt node).markedFor node) := by
        refine ⟨rfl, fun name _ => ?_, fun _ _ => .inl rfl⟩
        simp [htype, Engine.markedFor, Engine.arrivedAt]
      have hplain : ((s.arrivedAt node).markedFor node).Plain depth
          (·.index < s.scopes.size) :=
        ⟨hs, fun _ hid => hid⟩
      exact hmarked.enlarge (process_enlarges hplain hd htype hnode hrun)
        fun _ hid => .inl hid
  | true =>
      cases d with
      | type kind => exact confined_type hs hnode (process_type_fails hrun)
      | _ => cases htype

/-- A declaration that fails leaves its mark, and a type that fails keeps its
name, for good; if nothing is evaluated on the way, that is all it leaves. -/
theorem declaration_failed {fuel : Nat} (hd : node.declaration? = some d)
    (hrun : (ofFuel (fuel + 1)).execute node s = .error e t) :
    Abandoned fuel node d s t ∧
      ∀ depth, (∀ id, (s.templates.get id).node.isPlain depth = true) →
        node.isInert depth = true → Confined node d s t :=
  ⟨abandoned hd hrun, fun _ hs hnode => confined hd hs hnode hrun⟩

end Calls

/-! ### A class with a field of an unknown type -/

namespace Torn

def classOf (type : String) (first : Nat) : Node :=
  ⟨.classDecl, "A", .dummy, first + 2,
    [⟨.variableDefinition, "x", .dummy,
      first + 1, [⟨.typeName, type, .dummy, first, []⟩]⟩]⟩

def torn : Node := classOf "Missing" 0

def mended : Node := classOf "Int32" 3

def tree : SyntaxTree := ⟨⟨1⟩, ⟨.moduleRoot, "", .dummy, 6, [torn, mended]⟩⟩

def request (node : Node) : Request := .evaluate tree node

def evaluate (node : Node) : Eval Unit :=
  (request node).attempt (Calls.ofFuel 20)

def fresh : Engine := .new { stackCapacity := 64 } ⟨.buffer, ""⟩ none []

theorem reachable : Reachable fresh := .new _ _ _ _ (by decide)

def failed : Engine := ((request torn).perform (Calls.ofFuel 20)).after fresh

end Torn

open Torn in
theorem declaration_failed_torn :
    Reachable fresh ∧ torn.declaration? = some (.type .classKind) ∧
    torn.isInert 3 = true ∧
      ∃ e t, (Calls.ofFuel 20).execute torn fresh = .error (.failed e) t ∧
        e.fault = .unknownType "Missing" ∧
        Calls.Abandoned 19 torn (.type .classKind) fresh t ∧
        Calls.Confined torn (.type .classKind) fresh t := by
  have hfault : ((Calls.ofFuel 20).execute torn).fault? fresh =
      some (.unknownType "Missing") := by
    decide +kernel
  obtain ⟨e, he, hrun⟩ := Eval.eq_error_of_fault? hfault
  have hd : torn.declaration? = some (.type .classKind) := rfl
  have hinert : torn.isInert 3 = true := by decide
  obtain ⟨habandoned, hconfined⟩ := Calls.declaration_failed hd hrun
  exact ⟨reachable, hd, hinert, e, _, hrun, he, habandoned,
    hconfined 3 (Engine.plain_of_all (by decide +kernel)) hinert⟩

open Torn in
/-- The name is taken, the node is passed over, and the mended class is
refused. -/
theorem failed_class_remains :
    Reachable fresh ∧ (evaluate torn).fault? fresh =
      some (.unknownType "Missing") ∧
      Reachable failed ∧
      (fresh.types.findByName? "A").isSome = false ∧
      (failed.types.findByName? "A").isSome = true ∧
      (fresh.scopes.get .universe).types.get? "A" = none ∧
      (failed.scopes.get .universe).types.get? "A" = some ⟨15⟩ ∧
      fresh.declared = [] ∧ failed.declared = [⟨⟨1⟩, 2⟩] ∧
      (evaluate torn).value? failed = some () ∧
      (evaluate mended).value? fresh = some () ∧
      (evaluate mended).fault? failed = some (.redefinition "A") := by
  have hreachable : Reachable failed :=
    .after 20 (request torn) reachable trivial
  exact ⟨reachable, by decide +kernel, hreachable, by decide +kernel,
    by decide +kernel,
    by decide +kernel, by decide +kernel, rfl, by decide +kernel, by
      decide +kernel,
    by decide +kernel, by decide +kernel⟩

end ArenaScript
