import ArenaScript.Proofs.Evaluation.Alike.Objects

/-!
# Declarations and type names run alike

A declared type is registered before its size is known, so its declaration is
quiet only as a whole: the types that were there before it stay what they are.
-/

namespace ArenaScript

open Handles (Known)
open Engine (Good Reached Lenient Steady Quiet Grows Step)

/-! ## Names and scopes -/

namespace Eval

variable {s t : Engine} {node : Node}

theorem modifyGet_apply {α : Type} (f : Engine → α × Engine) (s : Engine) :
    (modifyGet f : Eval α) s = .ok (f s).1 (f s).2 := rfl

theorem markDeclared_known
    (h : (⟨s.currentTree, node.id⟩ : NodeKey) ∈ s.declared) :
    markDeclared node s = .ok false s := by
  have hcontains : s.declared.contains ⟨s.currentTree, node.id⟩ = true :=
    List.contains_iff_mem.2 h
  unfold markDeclared
  rw [modifyGet_apply]
  simp only [hcontains, if_true]

theorem markDeclared_new
    (h : (⟨s.currentTree, node.id⟩ : NodeKey) ∉ s.declared) :
    markDeclared node s =
      .ok true { s with
        declared := ⟨s.currentTree, node.id⟩ :: s.declared } := by
  have hcontains : s.declared.contains ⟨s.currentTree, node.id⟩ ≠ true :=
    fun hmem => h (List.contains_iff_mem.1 hmem)
  unfold markDeclared
  rw [modifyGet_apply]
  simp only [if_neg hcontains]

theorem markDeclared_eq_ok (h : markDeclared node s = .ok true t) :
    (⟨s.currentTree, node.id⟩ : NodeKey) ∉ s.declared ∧
      t = { s with declared := ⟨s.currentTree, node.id⟩ :: s.declared } := by
  by_cases hmem : (⟨s.currentTree, node.id⟩ : NodeKey) ∈ s.declared
  · rw [markDeclared_known hmem] at h
    cases h
  · rw [markDeclared_new hmem] at h
    cases h
    exact ⟨hmem, rfl⟩

end Eval

namespace Sound

variable {I : Engine → Prop} [Steady I] {s : Engine}

theorem markDeclared (hs : s.Good I) (node : Node) :
    Sound I s (Eval.markDeclared node) := by
  refine modifyGet hs ?_ trivial
  change s.Step (if s.declared.contains ⟨s.currentTree, node.id⟩ then (false, s)
    else (true,
      { s with declared := ⟨s.currentTree, node.id⟩ :: s.declared })).2
  split
  · exact ⟨hs.closed, .refl s⟩
  · exact ⟨{ hs.closed with },
      .of_tables ⟨.refl _, rfl, rfl, fun hsorted => .markDeclared hsorted _,
        fun _ => .of_types rfl⟩ rfl rfl rfl⟩

theorem vacant_of_markDeclared {t u : Engine} {node : Node} {kind : ScopeKind}
    {parent scope : ScopeId} (hmark : Eval.markDeclared node s = .ok true t)
    (hscope : Eval.scopeFor node kind parent t = .ok scope u)
    (hsorted : s.catalogue.Sorted) : u.catalogue.Vacant scope := by
  obtain ⟨hkey, rfl⟩ := Eval.markDeclared_eq_ok hmark
  cases hscope
  exact hsorted.vacant_scopeFor hkey kind parent

theorem registerShell {t : Engine} (hs : s.Good I) (ht : t.Good I)
    (hst : s.Quiet t) (name : String) (kind : StructKind) {members : ScopeId}
    (hvacant : s.catalogue.Sorted → t.catalogue.Vacant members) :
    Agree I s.Since t (Eval.registerShell name kind members)
      (Eval.registerShell name kind members) := by
  cases hresult : t.types.register name (.shell kind) members with
  | ok result =>
      obtain ⟨id, types⟩ := result
      obtain ⟨hstep, hgrown, hid, -⟩ :=
        Step.register hst ht.closed hvacant hresult
      have hrun : Eval.registerShell name kind members t =
          .ok id { t with types } := by
        simp only [Eval.registerShell, hresult]
      have hinv : I { t with types } := Steady.quiet hs hstep.closed hstep.quiet
      exact .of_ok hrun hrun ⟨hstep.closed, hinv, hstep.quiet, hgrown.size⟩ hid
  | error e =>
      have hrun : Eval.registerShell name kind members t =
          .error (.failed e) t := by
        simp only [Eval.registerShell, hresult]
      exact .of_error _ hrun hrun ⟨ht.closed, ht.inv, hst, Nat.le_refl _⟩

omit [Steady I] in
theorem registerShell_new {name : String} {kind : StructKind}
    {members : ScopeId} {id : TypeId} {t : Engine}
    (h : Eval.registerShell name kind members s = .ok id t) :
    s.types.size ≤ id.index ∧ (t.types.get id).isComplete = false := by
  unfold Eval.registerShell TypeTable.register at h
  split at h
  · rename_i hresult
    split at hresult
    · cases hresult
    · cases hresult
      cases h
      refine ⟨Nat.le_refl _, ?_⟩
      exact congrArg TypeEntry.isComplete (TypeTable.get_push_new s.types _)
  · cases h

theorem registerTypeName (hs : s.Good I) (scope : ScopeId) (name : String)
    {type : TypeId} (htype : s.Knows type) :
    Sound I s (Eval.registerTypeName scope name type) := by
  cases hresult : (s.scopes.get scope).registerType name type with
  | ok changed =>
      have hchanged : changed = { s.scopes.get scope with
          types := (s.scopes.get scope).types.put name type } :=
        (Scope.registerType_eq_ok hresult).1
      have hscope := hs.closed.scopes scope
      have hstep : s.Step { s with
          scopes := s.scopes.modify scope fun _ => changed } := by
        rw [hchanged]
        exact .updateScope hs.closed
          ⟨Handles.known_put hscope.1 htype, hscope.2⟩ rfl rfl
      have hrun : Eval.registerTypeName scope name type s =
          .ok () { s with
            scopes := s.scopes.modify scope fun _ => changed } := by
        simp only [Eval.registerTypeName, hresult]
      exact .of_ok hrun hrun (hstep.reached hs) trivial
  | error other =>
      have hrun : Eval.registerTypeName scope name type s =
          .error (.failed (Failure.redefinition name)) s := by
        simp only [Eval.registerTypeName, hresult]
      exact .of_error _ hrun hrun (.refl hs)

theorem registerTemplateName (hs : s.Good I) (scope : ScopeId) (name : String)
    (id : TemplateId) :
    Sound I s (Eval.registerTemplateName scope name id) := by
  cases hresult : (s.scopes.get scope).registerTemplateType name id with
  | ok changed =>
      have hchanged : changed = { s.scopes.get scope with
          templateTypes := (s.scopes.get scope).templateTypes.put name id } :=
        Scope.registerTemplateType_eq_ok hresult
      have hstep : s.Step { s with
          scopes := s.scopes.modify scope fun _ => changed } := by
        rw [hchanged]
        exact .updateScope hs.closed (hs.closed.scopes scope) rfl rfl
      have hrun : Eval.registerTemplateName scope name id s =
          .ok () { s with
            scopes := s.scopes.modify scope fun _ => changed } := by
        simp only [Eval.registerTemplateName, hresult]
      exact .of_ok hrun hrun (hstep.reached hs) trivial
  | error other =>
      have hrun : Eval.registerTemplateName scope name id s =
          .error (.failed (Failure.redefinition name)) s := by
        simp only [Eval.registerTemplateName, hresult]
      exact .of_error _ hrun hrun (.refl hs)

theorem bindTemplateScope (hs : s.Good I) {d : TemplateDef} (hd : s.Knows d)
    {args : List TemplateArg} (hargs : s.Knows args) :
    Sound I s (Eval.bindTemplateScope d args) := by
  unfold Eval.bindTemplateScope
  refine .ite (fun _ => ?_) fun _ => .inspect hs Handles.known_error
  refine .bind (createScope hs _ _) fun scope t ht _ => ?_
  refine .bind (.forM ht.good fun pair hpair u hu => ?_) fun _ u hu _ =>
    .pure hu.good trivial
  obtain ⟨hparam, harg⟩ := List.of_mem_zip hpair
  have hscope := hu.closed.scopes scope
  refine updateScope hu.good scope
    ⟨hscope.1, Handles.known_put hscope.2 ⟨?_, ?_⟩⟩ (fun _ => rfl) fun _ => rfl
  · exact hu.knows (ht.knows (hargs _ harg))
  · have hkind : u.Knows pair.1 := hu.knows (ht.knows (hd.1 _ hparam))
    simp only [Engine.Knows, Known] at hkind ⊢
    cases h : pair.1.kind with
    | value type =>
        rw [h] at hkind
        exact fun a ha => Option.some.inj ha ▸ hkind
    | type =>
        intro a ha
        cases ha

theorem completeType {t : Engine} (hs : s.Good I) (ht : t.Good I)
    (hst : s.Quiet t) {type : TypeId} (htype : s.types.size ≤ type.index)
    (hhas : t.Knows type) (hopen : (t.types.get type).isComplete = false)
    {fields : List Field} (hfields : t.Knows fields)
    (variants : List (String × Int64)) :
    Agree I s.Since t (Eval.completeType type fields variants)
      (Eval.completeType type fields variants) := by
  cases hresult : t.types.complete type fields variants with
  | ok types =>
      obtain ⟨hstep, hsize⟩ :=
        Step.complete hst ht.closed htype hhas hopen hfields hresult
      have hrun : Eval.completeType type fields variants t =
          .ok () { t with types } := by
        simp only [Eval.completeType, hresult]
      have hinv : I { t with types } := Steady.quiet hs hstep.closed hstep.quiet
      exact .of_ok hrun hrun
        ⟨hstep.closed, hinv, hstep.quiet, Nat.le_of_eq hsize.symm⟩ trivial
  | error e =>
      have hrun : Eval.completeType type fields variants t =
          .error (.failed e) t := by
        simp only [Eval.completeType, hresult]
      exact .of_error _ hrun hrun ⟨ht.closed, ht.inv, hst, Nat.le_refl _⟩

theorem implicitSelf (hs : s.Good I) {owner : Option TypeId}
    (howner : s.Knows owner) (params : Node) :
    Sound I s (Calls.implicitSelf owner params) := by
  unfold Calls.implicitSelf
  cases owner with
  | none => exact .pure hs Handles.known_nil
  | some type =>
      refine .ite (fun _ => .pure hs Handles.known_nil) fun _ => ?_
      refine .bind (referenceTo hs (Handles.known_some.1 howner))
        fun ref t ht href => ?_
      exact .pure ht.good (Handles.known_cons.2 ⟨href, Handles.known_nil⟩)

theorem announce (hs : s.Good I) (node : Node) (scope : ScopeId) {type : TypeId}
    (htype : s.Knows type) {origin : Option (TemplateId × List TemplateArg)}
    (horigin : s.Knows origin) :
    Sound I s (Calls.announce node scope type origin) := by
  cases origin with
  | some origin =>
      exact modify hs
        (.setOrigin hs.closed type origin.1 (Handles.known_some.1 horigin).2)
  | none => exact registerTypeName hs scope node.text htype

end Sound

/-! ## Functions and templates -/

namespace Calls.Alike

variable {I : Engine → Prop} [Steady I] {c d : Calls} {s : Engine}

omit [Steady I] in
theorem buildParam (hc : c.Alike I d) (hs : s.Good I) (scope : ScopeId)
    (param : Node) :
    Agree I Quiet s (c.buildParam scope param) (d.buildParam scope param) := by
  unfold Calls.buildParam
  cases param.findChild? .typeName with
  | some node =>
      exact .bind (hc.resolveType node scope hs) fun type t ht htype =>
        .pure ht.good htype
  | none => exact .fail hs _

omit [Steady I] in
theorem buildParams (hc : c.Alike I d) (hs : s.Good I) (scope : ScopeId)
    (params : List Node) :
    Agree I Quiet s (c.buildParams scope params)
      (d.buildParams scope params) := by
  induction params generalizing s with
  | nil => exact .pure hs ⟨Handles.known_nil, trivial⟩
  | cons param rest ih =>
      unfold Calls.buildParams
      refine .ite (fun _ => .pure hs ⟨?_, trivial⟩) fun _ => ?_
      · exact Handles.known_cons.2
          ⟨hs.closed.knows_builtin rfl, Handles.known_nil⟩
      · refine .bind (hc.buildParam hs scope param) fun first t ht hfirst => ?_
        refine .bind (ih ht.good) fun others u hu hothers => ?_
        exact .pure hu.good
          ⟨Handles.known_cons.2 ⟨hu.knows hfirst, hothers.1⟩, trivial⟩

theorem buildFunction (hc : c.Alike I d) (hs : s.Good I) (node : Node)
    (scope : ScopeId) {owner : Option TypeId} (howner : s.Knows owner) :
    Agree I Quiet s (c.buildFunction node scope owner)
      (d.buildFunction node scope owner) := by
  unfold Calls.buildFunction
  cases node.findChild? .parameters with
  | none => exact .fail hs _
  | some paramsNode =>
      refine .bind (Sound.implicitSelf hs howner paramsNode)
        fun self t ht hself => ?_
      refine .bind (hc.buildParams ht.good scope paramsNode.children)
        fun declared u hu hparams => ?_
      have hadd : ∀ (ret : TypeId) (v : Engine), Reached I Quiet u v →
          v.Knows ret →
          Sound I v (do
            let returnsRef ← Eval.read fun s =>
              (s.types.get ret).referenceTarget?.isSome
            let tree ← Eval.read Engine.currentTree
            Eval.addFunction (Function.make
              ((operatorSymbol? node.text).getD node.text)
              (self ++ declared.1) ret
              { variadic := declared.2, returnsRef
                constructs :=
                  (operatorSymbol? node.text).getD node.text == "construct" }
              owner (.interpreted tree node scope))) := by
        intro ret v hv hret
        refine .bind_read
          (.bind_read (Sound.addFunction hv.good ⟨?_, hret, ?_, trivial⟩))
        · exact Handles.known_append.2
            ⟨hv.knows (hu.knows hself), hv.knows hparams.1⟩
        · exact hv.knows (hu.knows (ht.knows howner))
      cases node.findChild? .typeName with
      | some type => exact .bind (hc.resolveType type scope hu.good) hadd
      | none => exact .bind (.pure hu.good (hu.closed.knows_builtin rfl)) hadd

omit [Steady I] in
theorem buildTemplateParam (hc : c.Alike I d) (hs : s.Good I) (scope : ScopeId)
    (param : Node) :
    Agree I Quiet s (c.buildTemplateParam scope param)
      (d.buildTemplateParam scope param) := by
  unfold Calls.buildTemplateParam
  cases param.findChild? .typeName with
  | some node =>
      exact .bind (hc.resolveType node scope hs) fun type t ht htype =>
        .pure ht.good htype
  | none => exact .pure hs trivial

theorem declareTemplate (hc : c.Alike I d) (hs : s.Good I) (node params : Node)
    (scope : ScopeId) {item : TemplateItem} (hitem : s.Knows item) :
    Agree I Quiet s (c.declareTemplate node params scope item)
      (d.declareTemplate node params scope item) := by
  unfold Calls.declareTemplate
  refine .bind
    (.mapM hs fun param _ t ht => hc.buildTemplateParam ht.good scope param)
    fun params t ht hparams => ?_
  exact Sound.modifyGet ht.good
    (.addTemplate ht.closed ⟨hparams, ht.knows hitem⟩) trivial

theorem instantiateFunction (hc : c.Alike I d) (hs : s.Good I)
    (template : TemplateId) {args : List TemplateArg} (hargs : s.Knows args) :
    Agree I Quiet s (c.instantiateFunction template args)
      (d.instantiateFunction template args) := by
  unfold Calls.instantiateFunction
  refine .bind_read ?_
  cases s.templates.instance? template args with
  | some id => exact .pure hs trivial
  | none =>
      have hdef := hs.closed.templates template
      refine .bind_read
        (.bind (Sound.bindTemplateScope hs hdef hargs) fun scope t ht _ => ?_)
      refine .bind (Sound.createScope ht.good _ _)
        fun functionScope u hu _ => ?_
      refine .bind (.withTree _ hu.good fun hinner =>
        hc.buildFunction hinner _ functionScope (hu.knows (ht.knows ?_)))
          fun id v hv _ => ?_
      · have hitem := hdef.2
        cases hkind : (s.templates.get template).item with
        | function owner =>
            rw [hkind] at hitem
            exact hitem
        | record kind => exact Handles.known_none
      · refine .bind (Sound.modify hv.good ?_) fun _ w hw _ =>
          .pure hw.good trivial
        exact ⟨{ hv.closed with }, .of_catalogue rfl rfl rfl rfl rfl⟩

omit [Steady I] in
theorem buildFunction_ok {node : Node} {scope : ScopeId} {owner : Option TypeId}
    {t : Engine} {id : FunctionId}
    (h : c.buildFunction node scope owner s = .ok id t) :
    t.functions.size = id.index + 1 ∧ (t.functions.get id).owner = owner ∧
      (t.functions.get id).traits.synthesized = false := by
  unfold Calls.buildFunction at h
  cases hparams : node.findChild? .parameters with
  | none =>
      rw [hparams] at h
      cases h
  | some params =>
      rw [hparams] at h
      obtain ⟨self, u, -, h⟩ := Eval.bind_eq_ok h
      obtain ⟨declared, v, -, h⟩ := Eval.bind_eq_ok h
      have hadded : ∀ (f : Function) (w : Engine), f.owner = owner →
          f.traits.synthesized = false → Eval.addFunction f w = .ok id t →
            t.functions.size = id.index + 1 ∧
            (t.functions.get id).owner = owner ∧
              (t.functions.get id).traits.synthesized = false := by
        intro f w howner hdeclared hrun
        cases hrun
        have hnew := FunctionTable.get_add_new w.functions f
        exact ⟨FunctionTable.size_add _ f,
          (congrArg Function.owner hnew).trans howner,
          (congrArg (·.traits.synthesized) hnew).trans hdeclared⟩
      cases hret : node.findChild? .typeName with
      | some type =>
          rw [hret] at h
          obtain ⟨ret, w, -, h⟩ := Eval.bind_eq_ok h
          exact hadded _ w rfl rfl h
      | none =>
          rw [hret] at h
          exact hadded _ v rfl rfl h

theorem defineFunction {t : Engine} (hc : c.Alike I d) (hs : s.Good I)
    (ht : t.Good I) (hst : s.Quiet t) (node : Node) (scope : ScopeId)
    {owner : Option TypeId} (howner : t.Knows owner)
    (hnew : ∀ type, owner = some type → s.types.size ≤ type.index) :
    Agree I s.Since t (c.defineFunction node scope owner)
      (d.defineFunction node scope owner) := by
  unfold Calls.defineFunction
  cases node.findChild? .templateParameters with
  | some params =>
      refine .since (.bind (hc.declareTemplate ht node params scope howner)
        fun id u hu _ => ?_) hst
      exact Sound.updateScope hu.good scope (hu.closed.scopes scope)
        (fun _ => rfl) fun _ => rfl
  | none =>
      refine .bind (.since (Sound.scopeFor ht node .function scope) hst)
        fun functionScope u hu _ => ?_
      refine .bind_of (fun h => h)
        (.since (hc.buildFunction hu.good node functionScope
          (hu.knows howner)) hu.rel.quiet) fun id v hrun hv _ => ?_
      obtain ⟨hid, hfunction, hdeclared⟩ := buildFunction_ok hrun
      have hmember : ∀ type, (v.functions.get id).owner = some type →
          s.types.size ≤ type.index :=
        fun type h => hnew type (hfunction.symm.trans h)
      cases operatorSymbol? node.text with
      | some symbol =>
          exact Sound.register hs hv.good hv.rel.quiet scope true symbol hid
            hmember hdeclared
      | none =>
          exact Sound.register hs hv.good hv.rel.quiet scope false node.text hid
            hmember hdeclared

/-! ## Declared types -/

omit [Steady I] in
theorem buildField (hc : c.Alike I d) (hs : s.Good I) (scope : ScopeId)
    (node : Node) :
    Agree I Quiet s (c.buildField scope node) (d.buildField scope node) := by
  unfold Calls.buildField
  split
  · refine .bind (hc.resolveType _ scope hs) fun type t ht htype => ?_
    exact .bind_read (.pure ht.good htype)
  · exact .fail hs _

theorem defineClass {t : Engine} (hc : c.Alike I d) (hs : s.Good I)
    (ht : t.Good I) (hst : s.Quiet t) (node : Node) (scope : ScopeId)
    {classScope : ScopeId}
    (hvacant : s.catalogue.Sorted → t.catalogue.Vacant classScope)
    (name : String) (kind : StructKind)
    {origin : Option (TemplateId × List TemplateArg)}
    (horigin : t.Knows origin) :
    Agree I s.Since t (c.defineClass node scope classScope name kind origin)
      (d.defineClass node scope classScope name kind origin) := by
  unfold Calls.defineClass
  refine .bind_of (fun h => h) (Sound.registerShell hs ht hst name kind hvacant)
    fun type u hrun hu htype => ?_
  obtain ⟨hindex, hopen⟩ := Sound.registerShell_new hrun
  have hnew : s.types.size ≤ type.index :=
    Nat.le_trans hst.grows.types.size hindex
  refine .bind_of hu.rel.quiet.since
    (Sound.announce hu.good node scope htype (hu.knows horigin))
      fun _ v _ hv _ => ?_
  have huv := hv.rel
  refine .bind_of (hu.rel.quiet.trans huv).since
    (Sound.updateScope hv.good classScope (hv.closed.scopes classScope)
      (fun _ => rfl) fun _ => rfl) fun _ w _ hw _ => ?_
  have huw := huv.trans hw.rel
  refine .bind_of (hu.rel.quiet.trans huw).since
    (.mapM hw.good fun field _ x hx => hc.buildField hx.good classScope field)
    fun fields x _ hx hfields => ?_
  have hux := huw.trans hx.rel
  have hknown : x.Knows type := hx.knows (hw.knows (hv.knows htype))
  rw [← hux.grows.types.isComplete htype] at hopen
  refine .bind
    (Sound.completeType hs hx.good (hu.rel.quiet.trans hux) hnew hknown hopen
      hfields []) fun _ y hy _ => ?_
  have htype' : y.Knows type := hy.knows hknown
  refine .bind (.forM_since hy.good hy.rel.quiet fun child _ z hz => ?_)
    fun _ z hz _ => ?_
  · refine hc.defineFunction hs hz.good hz.rel.quiet child classScope
      (Handles.known_some.2 (hz.knows htype')) fun other hother => ?_
    cases hother
    exact hnew
  · exact .since (.pure hz.good (hz.knows htype')) hz.rel.quiet

theorem declareClass (hc : c.Alike I d) (hs : s.Good I) (node : Node)
    (scope : ScopeId) (kind : StructKind) :
    Agree I Quiet s (c.declareClass node scope kind)
      (d.declareClass node scope kind) := by
  unfold Calls.declareClass
  refine .of_since
    (.bind_of (fun h => ⟨h, h.grows.types.size⟩) (Sound.markDeclared hs node)
      fun fresh t hmark ht _ => ?_)
  refine .ite (fun hfresh => ?_) fun _ => .since (.pure ht.good trivial) ht.rel
  subst hfresh
  cases node.findChild? .templateParameters with
  | some params =>
      refine .since
        (.bind (hc.declareTemplate ht.good node params scope trivial)
          fun id u hu _ => ?_) ht.rel
      exact Sound.registerTemplateName hu.good scope node.text id
  | none =>
      refine .bind_of (fun h => h)
        (.since (Sound.scopeFor ht.good node .classBody scope) ht.rel)
        fun classScope u hscope hu _ => ?_
      refine .bind (hc.defineClass hs hu.good hu.rel.quiet node scope
        (Sound.vacant_of_markDeclared hmark hscope) node.text kind
          Handles.known_none)
        fun _ v hv _ => .since (.pure hv.good trivial) hv.rel.quiet

theorem instantiateClass (hc : c.Alike I d) (hs : s.Good I)
    (template : TemplateId) {args : List TemplateArg} (hargs : s.Knows args) :
    Agree I Quiet s (c.instantiateClass template args)
      (d.instantiateClass template args) := by
  unfold Calls.instantiateClass
  refine .bind_read (.bind_read (.bind_read ?_))
  cases hfound :
    s.types.findByName? (s.renderInstance (s.templates.get template) args) with
  | some type => exact .pure hs (TypeTable.findByName?_eq_some hfound).1
  | none =>
      refine .bind
        (Sound.bindTemplateScope hs (hs.closed.templates template) hargs)
        fun scope t ht _ => ?_
      refine .of_since (.bind_of (fun h => ⟨h, h.grows.types.size⟩)
        (Sound.createScope ht.good .classBody (some scope))
          fun classScope u hrun hu _ => ?_)
      refine .withTree_since _ hu.rel fun hquiet => ?_
      refine hc.defineClass (ht.good.withTree _) (hu.good.withTree _)
        hquiet _ scope
        (fun hsorted => ?_) _ _
          (Handles.known_some.2 ⟨trivial, hu.knows (ht.knows hargs)⟩)
      cases hrun
      exact hsorted.vacant_create .classBody (some scope)

omit [Steady I] in
theorem evaluateInteger (hc : c.Alike I d) (hs : s.Good I) (node : Node)
    (target : String) :
    Agree I Quiet s (c.evaluateInteger node target)
      (d.evaluateInteger node target) := by
  unfold Calls.evaluateInteger
  refine .bind (hc.evaluate node hs) fun value t ht hvalue => ?_
  refine .bind (Sound.stripRef ht.good hvalue) fun value u hu _ => ?_
  exact .inspect hu.good fun _ _ => trivial

omit [Steady I] in
theorem buildConstants (hc : c.Alike I d) (hs : s.Good I) (next : Int64)
    (nodes : List Node) :
    Agree I Quiet s (c.buildConstants next nodes)
      (d.buildConstants next nodes) := by
  induction nodes generalizing s next with
  | nil => exact .pure hs Handles.known_nil
  | cons node rest ih =>
      unfold Calls.buildConstants
      have hrest : ∀ (value : Int64) (t : Engine), Reached I Quiet s t →
          t.Knows value →
          Agree I Quiet t
            (do let others ← c.buildConstants (value + 1) rest
                pure ((node.text, value) :: others))
            (do let others ← d.buildConstants (value + 1) rest
                pure ((node.text, value) :: others)) := by
        intro value t ht _
        refine .bind (ih ht.good (value + 1)) fun others u hu hothers => ?_
        exact .pure hu.good (Handles.known_cons.2 ⟨⟨trivial, trivial⟩, hothers⟩)
      cases node.child? 0 with
      | some expression =>
          exact .bind (hc.evaluateInteger hs expression "Int32") hrest
      | none => exact .bind (.pure hs trivial) hrest

theorem declareEnum (hc : c.Alike I d) (hs : s.Good I) (node : Node)
    (scope : ScopeId) :
    Agree I Quiet s (c.declareEnum node scope) (d.declareEnum node scope) := by
  unfold Calls.declareEnum
  refine .of_since
    (.bind_of (fun h => ⟨h, h.grows.types.size⟩) (Sound.markDeclared hs node)
      fun fresh t hmark ht _ => ?_)
  refine .ite (fun hfresh => ?_) fun _ => .since (.pure ht.good trivial) ht.rel
  subst hfresh
  refine .bind_of (fun h => h)
    (.since (Sound.scopeFor ht.good node .classBody scope) ht.rel)
    fun enumScope u hscope hu _ => ?_
  refine .bind_of (fun h => h)
    (Sound.registerShell hs hu.good hu.rel.quiet node.text .enumKind
      (Sound.vacant_of_markDeclared hmark hscope))
        fun type v hrun hv htype => ?_
  obtain ⟨hindex, hopen⟩ := Sound.registerShell_new hrun
  have hnew : s.types.size ≤ type.index :=
    Nat.le_trans hu.rel.quiet.grows.types.size hindex
  refine .bind_of hv.rel.quiet.since
    (Sound.registerTypeName hv.good scope node.text htype) fun _ w _ hw _ => ?_
  have hvw := hw.rel
  refine .bind_of (hv.rel.quiet.trans hvw).since
    (Sound.updateScope hw.good enumScope (hw.closed.scopes enumScope)
      (fun _ => rfl) fun _ => rfl) fun _ x _ hx _ => ?_
  have hvx := hvw.trans hx.rel
  refine .bind_of (hv.rel.quiet.trans hvx).since (hc.buildConstants hx.good 0 _)
    fun constants y _ hy _ => ?_
  have hvy := hvx.trans hy.rel
  rw [← hvy.grows.types.isComplete htype] at hopen
  exact Sound.completeType hs hy.good (hv.rel.quiet.trans hvy) hnew
    (hy.knows (hx.knows (hw.knows htype))) hopen Handles.known_nil constants

theorem declare (hc : c.Alike I d) (hs : s.Good I) (node : Node)
    (scope : ScopeId) :
    Agree I Quiet s (c.declare node scope) (d.declare node scope) := by
  unfold Calls.declare
  cases node.kind with
  | function =>
      refine .bind (Sound.markDeclared hs node) fun fresh t ht _ => ?_
      refine .ite (fun _ => ?_) fun _ => .pure ht.good trivial
      exact .of_since
        (hc.defineFunction ht.good ht.good (.refl t) node scope
          Handles.known_none nofun)
  | classDecl => exact hc.declareClass hs node scope .classKind
  | unionDecl => exact hc.declareClass hs node scope .unionKind
  | enumDecl => exact hc.declareEnum hs node scope
  | _ => exact .fail hs _

/-! ## Type names -/

omit [Steady I] in
theorem resolveTemplateArg (hc : c.Alike I d) (hs : s.Good I) (scope : ScopeId)
    (node : Node) :
    Agree I Quiet s (c.resolveTemplateArg scope node)
      (d.resolveTemplateArg scope node) := by
  have htype : Agree I Quiet s (TemplateArg.type <$> c.resolveType node scope)
      (TemplateArg.type <$> d.resolveType node scope) :=
    .map (hc.resolveType node scope hs) fun _ _ _ h => h
  unfold Calls.resolveTemplateArg
  split
  case h_1 =>
    cases Number.decimal? node.text with
    | some n => exact .pure hs trivial
    | none => exact .fail hs _
  case h_4 => exact .map (hc.evaluateInteger hs node _) fun _ _ _ _ => trivial
  case h_5 => exact .fail hs _
  all_goals
    refine .ite (fun _ => .bind_read ?_) fun _ => .ite (fun _ => htype) fun _ =>
      .fail hs _
    cases hfound : s.scopes.findTemplateParam scope node.text with
    | some binding =>
        exact .pure hs
          (hs.closed.knows_findTemplateParam scope node.text binding hfound).1
    | none => exact htype

theorem resolveTypeStep (hc : c.Alike I d) (hs : s.Good I) (node : Node)
    (scope : ScopeId) :
    Agree I Quiet s (c.resolveTypeStep node scope)
      (d.resolveTypeStep node scope) := by
  unfold Calls.resolveTypeStep
  refine .ite (fun _ => .bind_read ?_) fun _ => ?_
  · split
    · rename_i type _ hfound
      exact .pure hs
        (hs.closed.knows_findTemplateParam scope node.text _ hfound).1
    · exact .fail hs _
    · refine .bind_read ?_
      cases hfound : s.scopes.resolveTypeName scope node.text with
      | some type =>
          exact .pure hs
            (hs.closed.knows_resolveTypeName scope node.text type hfound)
      | none => exact .fail hs _
  · refine .bind
      (.mapM hs fun arg _ t ht => hc.resolveTemplateArg ht.good scope arg)
      fun args t ht hargs => ?_
    cases TemplateKind.ofName? node.text with
    | some kind => exact Sound.instantiateBuiltin ht.good kind hargs
    | none =>
        refine .bind_read ?_
        cases t.scopes.findTemplateType scope node.text with
        | some template => exact hc.instantiateClass ht.good template hargs
        | none => exact .fail ht.good _

end Calls.Alike

end ArenaScript
