import ArenaScript.Proofs.Evaluation.Congruence

/-!
# Calls of related evaluators

The operations of the evaluator are described for a given way of performing the
recursive ones.  If two ways of performing the latter are related, so are the
two resulting ways of performing each operation: operators, construction,
declarations, natives and invocations.  An evaluator whose recursive operations
stay within a local relation is related to itself.
-/

namespace ArenaScript

open Eval (Within Local)

namespace Calls

/-! ## Types and their members -/

def classMembers (c : Calls) (node : Node) (scope classScope : ScopeId)
    (origin : Option (TemplateId × List TemplateArg)) (type : TypeId) :
    Eval (List Field × List (String × Int64)) := do
  announce node scope type origin
  Eval.updateScope classScope fun s => { s with owner := some type }
  let fields ←
    (node.children.filter (·.kind == .variableDefinition)).mapM
      (c.buildField classScope)
  pure (fields, [])

def classMethods (c : Calls) (node : Node) (classScope : ScopeId)
    (type : TypeId) : Eval Unit :=
  (node.children.filter (·.kind == .function)).forM fun child =>
    c.defineFunction child classScope (some type)

def enumMembers (c : Calls) (node : Node) (scope enumScope : ScopeId)
    (type : TypeId) : Eval (List Field × List (String × Int64)) := do
  Eval.registerTypeName scope node.text type
  Eval.updateScope enumScope fun s => { s with owner := some type }
  let constants ← c.buildConstants 0
    (node.children.filter (·.kind == .enumValue))
  pure ([], constants)

/-- The type of a class is complete before its methods are declared. -/
theorem defineClass_eq (c : Calls) (node : Node) (scope classScope : ScopeId)
    (name : String) (kind : StructKind)
    (origin : Option (TemplateId × List TemplateArg)) :
    c.defineClass node scope classScope name kind origin = (do
      let type ← Eval.declareType name kind classScope
        (c.classMembers node scope classScope origin)
      c.classMethods node classScope type
      pure type) := by
  simp only [defineClass, Eval.declareType, classMembers, classMethods,
    bind_assoc, pure_bind]

theorem declareEnum_eq (c : Calls) (node : Node) (scope : ScopeId) :
    c.declareEnum node scope = (do
      if ← Eval.markDeclared node then
        let enumScope ← Eval.scopeFor node .classBody scope
        let _ ← Eval.declareType node.text .enumKind enumScope
          (c.enumMembers node scope enumScope)
        pure ()) := by
  simp only [declareEnum, Eval.declareType, enumMembers, bind_assoc, pure_bind,
    bind_pure_unit]

/-- The recursive operations on values and types are related. -/
structure Paired (K : Congruence) (c c' : Calls) : Prop where
  evaluate : ∀ {w} node, K.Rel w (c.evaluate node) (c'.evaluate node)
  invoke : ∀ {w} id args, K.Rel w (c.invoke id args) (c'.invoke id args)
  resolveType : ∀ {w} node scope,
    K.Rel w (c.resolveType node scope) (c'.resolveType node scope)
  copyConstruct : ∀ {w} dst src,
    K.Rel w (c.copyConstruct dst src) (c'.copyConstruct dst src)
  defaultConstruct : ∀ {w} place,
    K.Rel w (c.defaultConstruct place) (c'.defaultConstruct place)
  destroy : ∀ {w} value, K.Rel w (c.destroy value) (c'.destroy value)

structure Matched (K : Congruence) (c c' : Calls) : Prop
    extends Paired K c c' where
  execute : ∀ {w node}, K.Code w node →
    K.Rel w (c.execute node) (c'.execute node)
  rounds : c'.rounds = c.rounds

structure Plain (R : Engine → Engine → Prop) (c : Calls) : Prop where
  evaluate : ∀ node, Eval.Within R (c.evaluate node)
  invoke : ∀ id args, Eval.Within R (c.invoke id args)
  resolveType : ∀ node scope, Eval.Within R (c.resolveType node scope)
  copyConstruct : ∀ dst src, Eval.Within R (c.copyConstruct dst src)
  defaultConstruct : ∀ place, Eval.Within R (c.defaultConstruct place)
  destroy : ∀ value, Eval.Within R (c.destroy value)

structure Within (R : Engine → Engine → Prop) (c : Calls) : Prop
    extends Plain R c where
  execute : ∀ node, Eval.Within R (c.execute node)
  loadModule : ∀ request importer s, s.atRoot = true →
    R s ((c.loadModule request importer).after s)

theorem Plain.paired {R : Engine → Engine → Prop} {c : Calls} (hR : Local R)
    (hc : c.Plain R) : c.Paired (.within hR) c :=
  ⟨hc.evaluate, hc.invoke, hc.resolveType, hc.copyConstruct,
    hc.defaultConstruct, hc.destroy⟩

theorem Within.matched {R : Engine → Engine → Prop} {c : Calls} (hR : Local R)
    (hc : c.Within R) : c.Matched (.within hR) c where
  toPaired := hc.paired hR
  execute _ := hc.execute _
  rounds := rfl

namespace Paired

variable {K : Congruence} {w : K.World} {c c' : Calls}

/-! ## Operators -/

theorem tryOperator (hc : c.Paired K c') (symbol : String) (args : List Value) :
    K.Rel w (c.tryOperator symbol args) (c'.tryOperator symbol args) := by
  cases args with
  | nil => exact K.pure none
  | cons receiver others =>
      unfold Calls.tryOperator
      refine K.bind (K.ensureInitialized _) fun _ => ?_
      refine K.bind (K.read _) fun found => ?_
      cases found with
      | none => exact K.pure none
      | some id =>
          refine K.bind (hc.invoke id _) fun result => ?_
          cases result with
          | none => exact K.map some (K.read _)
          | some value => exact K.pure _

theorem noOperator (K : Congruence) {w : K.World} {α : Type} (symbol : String)
    (args : List Value) : K.Keeps w (Calls.noOperator symbol args : Eval α) :=
  K.refuse fun _ => rfl

theorem binaryOperator (hc : c.Paired K c') (symbol : String) (l r : Value) :
    K.Rel w (c.binaryOperator symbol l r) (c'.binaryOperator symbol l r) := by
  unfold Calls.binaryOperator
  refine K.bind (hc.tryOperator symbol _) fun result => ?_
  cases result with
  | some value => exact K.pure value
  | none =>
      refine K.bind (K.stripRef l) fun dl => ?_
      refine K.bind (K.stripRef r) fun dr => ?_
      split
      · refine K.bind (hc.tryOperator symbol _) fun again => ?_
        cases again with
        | some value => exact K.pure value
        | none => exact noOperator K symbol _
      · exact noOperator K symbol _

theorem dereference (K : Congruence) {w : K.World} (v d : Value) :
    K.Keeps w (Calls.dereference v d) := by
  unfold Calls.dereference
  refine K.bind (K.read _) fun target => ?_
  cases target with
  | some target =>
      refine K.bind (K.inspect fun s => s.arena.ordinary_readWord _)
        fun addr => ?_
      exact K.pure _
  | none =>
      simp only
      split
      · exact K.pure d
      · exact K.refuse fun _ => rfl

theorem unaryOperator (hc : c.Paired K c') (symbol : String) (v : Value) :
    K.Rel w (c.unaryOperator symbol v) (c'.unaryOperator symbol v) := by
  unfold Calls.unaryOperator
  refine K.bind (hc.tryOperator symbol _) fun result => ?_
  cases result with
  | some value => exact K.pure value
  | none =>
      refine K.bind (K.stripRef v) fun d => ?_
      extract_lets rest
      have hrest : ∀ again, K.Keeps w (rest again) := by
        intro again
        cases again with
        | some value => exact K.pure value
        | none =>
            simp only [rest]
            split
            · exact K.bind (K.addressTo _) fun type => K.allocAddress type _
            · split
              · exact dereference K v d
              · exact noOperator K symbol _
      split
      · exact K.bind (hc.tryOperator symbol _) hrest
      · exact K.bind (K.pure none) hrest

theorem assign (hc : c.Paired K c') (dst src : Value) :
    K.Rel w (c.assign dst src) (c'.assign dst src) :=
  K.bind (hc.binaryOperator "=" dst src) fun _ => K.pure ()

/-! ## Construction and destruction -/

theorem constructorFor (K : Congruence) {w : K.World} (type : TypeId)
    (args : List Value) : K.Keeps w (Calls.constructorFor type args) :=
  K.bind (K.ensureInitialized type) fun _ => K.read _

theorem initField (hc : c.Paired K c') {classScope : ScopeId}
    (hscope : K.InUse w classScope) (place : Value) (field : Field) :
    K.Rel w (c.initField classScope place field)
      (c'.initField classScope place field) := by
  unfold Calls.initField
  cases field.initializer with
  | none => exact hc.defaultConstruct _
  | some init =>
      refine K.initializer hscope hc.destroy ?_
      refine K.bind (K.withTree init.tree (hc.evaluate init.node))
        fun value => ?_
      exact hc.copyConstruct _ value

theorem initFields (hc : c.Paired K c') (place : Value) :
    K.Rel w (c.initFields place) (c'.initFields place) := by
  unfold Calls.initFields
  refine K.withScope (.members place.type) fun _ classScope _ hscope => ?_
  refine K.bind (K.read _) fun fields => ?_
  exact K.forM (hc.initField hscope place) fields

theorem runConstructor (hc : c.Paired K c') (id : FunctionId) (dst : Value)
    (args : List Value) :
    K.Rel w (c.runConstructor id dst args) (c'.runConstructor id dst args) := by
  unfold Calls.runConstructor
  refine K.bind (K.read _) fun synthesized => ?_
  split
  · refine K.bind (hc.initFields dst) fun _ => ?_
    exact K.bind (hc.invoke id _) fun _ => K.pure ()
  · exact K.bind (hc.invoke id _) fun _ => K.pure ()

theorem copyConstructStep (hc : c.Paired K c') (dst src : Value) :
    K.Rel w (c.copyConstructStep dst src) (c'.copyConstructStep dst src) := by
  unfold Calls.copyConstructStep
  split
  · exact K.pure ()
  · refine K.bind (constructorFor K dst.type _) fun found => ?_
    cases found with
    | some id => exact hc.runConstructor id dst _
    | none => exact K.refuse fun _ => rfl

theorem constructNew (hc : c.Paired K c') (type : TypeId) (args : List Value) :
    K.Rel w (c.constructNew type args) (c'.constructNew type args) := by
  unfold Calls.constructNew
  split
  · refine K.bind (K.allocate type) fun place => ?_
    exact K.bind (hc.defaultConstruct place) fun _ => K.pure place
  · refine K.bind (constructorFor K type args) fun found => ?_
    cases found with
    | some id =>
        refine K.bind (K.allocate type) fun place => ?_
        exact K.bind (hc.runConstructor id place args) fun _ => K.pure place
    | none => exact K.refuse fun _ => rfl

theorem defaultConstructStep (hc : c.Paired K c') (place : Value) :
    K.Rel w (c.defaultConstructStep place) (c'.defaultConstructStep place) := by
  unfold Calls.defaultConstructStep
  refine K.bind (K.read _) fun aggregate => ?_
  split
  · refine K.bind (K.read _) fun elements => ?_
    cases elements with
    | some elements => exact K.forM hc.defaultConstruct elements
    | none =>
        refine K.bind (hc.initFields place) fun _ => ?_
        refine K.bind (constructorFor K place.type []) fun found => ?_
        cases found with
        | some id => exact K.bind (hc.invoke id _) fun _ => K.pure ()
        | none => exact K.pure ()
  · exact K.pure ()

theorem destroyStep (hc : c.Paired K c') (value : Value) :
    K.Rel w (c.destroyStep value) (c'.destroyStep value) := by
  unfold Calls.destroyStep
  refine K.bind (K.read _) fun aggregate => ?_
  split
  · refine K.bind (K.read _) fun elements => ?_
    cases elements with
    | some elements => exact K.forM hc.destroy elements.reverse
    | none =>
        refine K.bind (K.read _) fun found => ?_
        have hfields : K.Rel w
            (Eval.read (fun s => s.classFields value.type) >>= fun fields =>
              fields.reverse.forM fun field =>
                c.destroy (value.view field.type field.offset))
            (Eval.read (fun s => s.classFields value.type) >>= fun fields =>
              fields.reverse.forM fun field =>
                c'.destroy (value.view field.type field.offset)) :=
          K.bind (K.read _) fun fields =>
            K.forM (fun field => hc.destroy _) fields.reverse
        cases found with
        | some id => exact K.bind (hc.invoke id _) fun _ => hfields
        | none => exact hfields
  · exact K.pure ()

theorem memberwise {f g : Value → Value → Eval Unit}
    (h : ∀ dst src, K.Rel w (f dst src) (g dst src)) (dst src : Value) :
    K.Rel w (Calls.memberwise f dst src) (Calls.memberwise g dst src) := by
  unfold Calls.memberwise
  refine K.bind (K.read _) fun parts => ?_
  cases parts with
  | some pairs => exact K.forM (fun pair => h pair.1 pair.2) pairs
  | none => exact K.bind (K.read _) fun size => K.atomic (.copy _ _ size)

/-! ## Declarations -/

theorem buildParam (hc : c.Paired K c') (scope : ScopeId) (param : Node) :
    K.Rel w (c.buildParam scope param) (c'.buildParam scope param) := by
  unfold Calls.buildParam
  cases param.findChild? .typeName with
  | some node => exact K.bind (hc.resolveType node scope) fun type => K.pure _
  | none => exact K.fail rfl

theorem buildParams (hc : c.Paired K c') (scope : ScopeId)
    (params : List Node) :
    K.Rel w (c.buildParams scope params) (c'.buildParams scope params) := by
  induction params with
  | nil => exact K.pure _
  | cons param rest ih =>
      unfold Calls.buildParams
      split
      · exact K.pure _
      · refine K.bind (hc.buildParam scope param) fun first => ?_
        exact K.bind ih fun others => K.pure _

theorem implicitSelf (K : Congruence) {w : K.World} (owner : Option TypeId)
    (params : Node) : K.Keeps w (Calls.implicitSelf owner params) := by
  unfold Calls.implicitSelf
  cases owner with
  | none => exact K.pure []
  | some type =>
      simp only
      split
      · exact K.pure []
      · exact K.bind (K.referenceTo type) fun ref => K.pure _

theorem buildFunction (hc : c.Paired K c') {node : Node}
    (hnode : K.Code (K.inCall w) node) {scope : ScopeId}
    (hscope : K.InUse w scope) (owner : Option TypeId) :
    K.Rel w (c.buildFunction node scope owner)
      (c'.buildFunction node scope owner) := by
  unfold Calls.buildFunction
  simp only
  cases node.findChild? .parameters with
  | none => exact K.fail rfl
  | some paramsNode =>
      refine K.bind (implicitSelf K owner paramsNode) fun self => ?_
      refine K.bind (hc.buildParams scope paramsNode.children)
        fun declared => ?_
      cases node.findChild? .typeName with
      | none =>
          refine K.bind (K.pure _) fun ret => ?_
          refine K.bind (K.read _) fun returnsRef => ?_
          exact K.addFunction hnode hscope fun _ => rfl
      | some type =>
          refine K.bind (hc.resolveType type scope) fun ret => ?_
          refine K.bind (K.read _) fun returnsRef => ?_
          exact K.addFunction hnode hscope fun _ => rfl

theorem buildTemplateParam (hc : c.Paired K c') (scope : ScopeId)
    (param : Node) :
    K.Rel w (c.buildTemplateParam scope param)
      (c'.buildTemplateParam scope param) := by
  unfold Calls.buildTemplateParam
  cases param.findChild? .typeName with
  | some node => exact K.bind (hc.resolveType node scope) fun type => K.pure _
  | none => exact K.pure _

theorem declareTemplate (hc : c.Paired K c') {node : Node}
    (hnode : K.Code (K.inCall w) node) (params : Node) {scope : ScopeId}
    (hscope : K.InUse w scope) (item : TemplateItem) :
    K.Rel w (c.declareTemplate node params scope item)
      (c'.declareTemplate node params scope item) := by
  unfold Calls.declareTemplate
  refine K.bind (K.mapM (hc.buildTemplateParam scope) _) fun params => ?_
  exact K.addTemplate (d := fun home =>
    { name := node.text, params, tree := home, node, scope, item }) hnode hscope
      fun _ => ⟨rfl, rfl, rfl⟩

theorem instantiateFunction (hc : c.Paired K c') (template : TemplateId)
    (args : List TemplateArg) :
    K.Rel w (c.instantiateFunction template args)
      (c'.instantiateFunction template args) := by
  unfold Calls.instantiateFunction
  refine K.bind (K.read _) fun known => ?_
  cases known with
  | some id => exact K.pure id
  | none =>
      refine K.template template fun _ d hd hscope => ?_
      refine K.withScope (.template args hscope) fun _ scope hv hscope => ?_
      refine K.withScope (.create _ hscope)
        fun _ functionScope hu hfunction => ?_
      refine K.bind
        (K.withTree d.tree (hc.buildFunction (hu.called (hv.called hd))
          (K.inUse_inTree d.tree hfunction) _)) fun id => ?_
      refine K.bind (K.modify (fun _ => .addInstance template args id)
        (fun _ => .of_tables rfl rfl rfl rfl) fun _ hs => { hs with }) fun _ =>
          K.pure id

theorem defineFunction (hc : c.Paired K c') {node : Node}
    (hnode : K.Code (K.inCall w) node) {scope : ScopeId}
    (hscope : K.InUse w scope) (owner : Option TypeId) :
    K.Rel w (c.defineFunction node scope owner)
      (c'.defineFunction node scope owner) := by
  unfold Calls.defineFunction
  cases node.findChild? .templateParameters with
  | some params =>
      refine K.bind (hc.declareTemplate hnode params hscope _) fun id => ?_
      exact K.updateScope
        (fun _ => .registerTemplateFunction scope node.text id)
        fun _ => ⟨rfl, rfl⟩
  | none =>
      refine K.withScope (.node node .function hscope)
        fun _ functionScope hv hfunction => ?_
      refine K.bind (hc.buildFunction (hv.callable hnode) hfunction owner)
        fun id => ?_
      cases operatorSymbol? node.text with
      | some symbol =>
          exact K.updateScope (fun _ => .registerOperator scope symbol id)
            fun _ => ⟨rfl, rfl⟩
      | none =>
          exact K.updateScope (fun _ => .registerFunction scope node.text id)
            fun _ => ⟨rfl, rfl⟩

theorem buildField (hc : c.Paired K c') (scope : ScopeId) (node : Node) :
    K.Rel w (c.buildField scope node) (c'.buildField scope node) := by
  unfold Calls.buildField
  split
  · refine K.bind (hc.resolveType _ scope) fun type => ?_
    exact K.bind (K.read _) fun tree => K.pure _
  · exact K.fail rfl

theorem announce (K : Congruence) {w : K.World} (node : Node) (scope : ScopeId)
    (type : TypeId) (origin : Option (TemplateId × List TemplateArg)) :
    K.Keeps w (Calls.announce node scope type origin) := by
  cases origin with
  | some origin =>
      refine K.modify (fun _ => .setOrigin type origin.1 origin.2) (fun s => ?_)
        fun _ hs => hs.setOrigin type origin.1 origin.2
      exact .of_types (.setOrigin s.types type origin.1 origin.2)
        (s.types.setOrigin_noNewShell type origin.1 origin.2)
  | none => exact K.atomic (.registerTypeName scope node.text type)

theorem setOwner (K : Congruence) {w : K.World} (scope : ScopeId)
    (type : TypeId) :
    K.Keeps w (Eval.updateScope scope fun x => { x with owner := some type }) :=
  K.updateScope (fun _ => .setOwner scope type) fun _ => ⟨rfl, rfl⟩

theorem classMembers (hc : c.Paired K c') (node : Node)
    (scope classScope : ScopeId)
    (origin : Option (TemplateId × List TemplateArg)) (type : TypeId) :
    K.Rel w (c.classMembers node scope classScope origin type)
      (c'.classMembers node scope classScope origin type) := by
  refine K.bind (announce K node scope type origin) fun _ => ?_
  refine K.bind (setOwner K classScope type) fun _ => ?_
  exact K.bind (K.mapM (hc.buildField classScope) _) fun fields =>
    K.pure (fields, [])

theorem classMethods (hc : c.Paired K c') {node : Node}
    (hnode : K.Code (K.inCall w) node) {classScope : ScopeId}
    (hscope : K.InUse w classScope) (type : TypeId) :
    K.Rel w (c.classMethods node classScope type)
      (c'.classMethods node classScope type) := by
  refine K.forM_mem fun child hchild => ?_
  exact hc.defineFunction
    (K.code_child hnode (List.mem_filter.1 hchild).1) hscope _

theorem defineClass (hc : c.Paired K c') {node : Node}
    (hnode : K.Code (K.inCall w) node) (scope : ScopeId) {classScope : ScopeId}
    (hscope : K.InUse w classScope) (name : String) (kind : StructKind)
    (origin : Option (TemplateId × List TemplateArg)) :
    K.Rel w (c.defineClass node scope classScope name kind origin)
      (c'.defineClass node scope classScope name kind origin) := by
  rw [defineClass_eq, defineClass_eq]
  refine K.bind
    (K.shell name kind hscope (hc.classMembers node scope classScope origin))
    fun type => ?_
  exact K.bind (hc.classMethods hnode hscope type) fun _ => K.pure type

theorem declareClass (hc : c.Paired K c') {node : Node}
    (hnode : K.Code (K.inCall w) node) {scope : ScopeId}
    (hscope : K.InUse w scope) (kind : StructKind) :
    K.Rel w (c.declareClass node scope kind)
      (c'.declareClass node scope kind) := by
  unfold Calls.declareClass
  refine K.bind (K.atomic (.markDeclared node)) fun fresh => ?_
  split
  · cases node.findChild? .templateParameters with
    | some params =>
        refine K.bind (hc.declareTemplate hnode params hscope _) fun id => ?_
        exact K.atomic (.registerTemplateName scope node.text id)
    | none =>
        refine K.withScope (.node node .classBody hscope)
          fun _ classScope hv hclass => ?_
        refine K.bind ?_ fun _ => K.pure ()
        exact hc.defineClass (hv.callable hnode) scope hclass node.text
          kind none
  · exact K.pure ()

theorem instantiateClass (hc : c.Paired K c') (template : TemplateId)
    (args : List TemplateArg) :
    K.Rel w (c.instantiateClass template args)
      (c'.instantiateClass template args) := by
  unfold Calls.instantiateClass
  refine K.template template fun _ d hd hscope => ?_
  refine K.bind (K.read _) fun name => ?_
  refine K.bind (K.read _) fun known => ?_
  cases known with
  | some type => exact K.pure type
  | none =>
      refine K.withScope (.template args hscope) fun _ scope hv hscope => ?_
      refine K.withScope (.create _ hscope) fun _ classScope hu hclass => ?_
      exact K.withTree d.tree (hc.defineClass (hu.called (hv.called hd)) scope
        (K.inUse_inTree d.tree hclass) name _ _)

theorem evaluateInteger (hc : c.Paired K c') (node : Node) (target : String) :
    K.Rel w (c.evaluateInteger node target)
      (c'.evaluateInteger node target) := by
  unfold Calls.evaluateInteger
  refine K.bind (hc.evaluate node) fun value => ?_
  refine K.bind (K.stripRef value) fun value => K.inspect fun s => ?_
  exact .ite ((s.ordinary_readScalar value).map _) (Ordinary.error_iff.2 rfl)

theorem buildConstants (hc : c.Paired K c') (next : Int64) (nodes : List Node) :
    K.Rel w (c.buildConstants next nodes) (c'.buildConstants next nodes) := by
  induction nodes generalizing next with
  | nil => exact K.pure []
  | cons node rest ih =>
      unfold Calls.buildConstants
      cases node.child? 0 with
      | some expression =>
          refine K.bind (hc.evaluateInteger expression _) fun value => ?_
          exact K.bind (ih (value + 1)) fun others => K.pure _
      | none =>
          refine K.bind (K.pure next) fun value => ?_
          exact K.bind (ih (value + 1)) fun others => K.pure _

theorem declareEnum (hc : c.Paired K c') (node : Node) {scope : ScopeId}
    (hscope : K.InUse w scope) :
    K.Rel w (c.declareEnum node scope) (c'.declareEnum node scope) := by
  rw [declareEnum_eq, declareEnum_eq]
  refine K.bind (K.atomic (.markDeclared node)) fun fresh => ?_
  split
  · refine K.withScope (.node node .classBody hscope)
      fun _ enumScope _ henum => ?_
    refine K.bind (K.shell node.text .enumKind henum fun type => ?_) fun _ =>
      K.pure ()
    refine K.bind (K.atomic (.registerTypeName scope node.text type))
      fun _ => ?_
    refine K.bind (setOwner K enumScope type) fun _ => ?_
    exact K.bind (hc.buildConstants 0 _) fun constants => K.pure ([], constants)
  · exact K.pure ()

theorem declare (hc : c.Paired K c') {node : Node}
    (hnode : K.Code (K.inCall w) node) {scope : ScopeId}
    (hscope : K.InUse w scope) :
    K.Rel w (c.declare node scope) (c'.declare node scope) := by
  unfold Calls.declare
  split
  · refine K.bind (K.atomic (.markDeclared node)) fun fresh => ?_
    split
    · exact hc.defineFunction hnode hscope none
    · exact K.pure ()
  · exact hc.declareClass hnode hscope .classKind
  · exact hc.declareClass hnode hscope .unionKind
  · exact hc.declareEnum node hscope
  · exact K.fail rfl

/-! ## Type names -/

theorem resolveTemplateArg (hc : c.Paired K c') (scope : ScopeId)
    (node : Node) :
    K.Rel w (c.resolveTemplateArg scope node)
      (c'.resolveTemplateArg scope node) := by
  unfold Calls.resolveTemplateArg
  split
  case h_1 =>
    split
    · exact K.pure _
    · exact K.fail rfl
  case h_4 => exact K.map _ (hc.evaluateInteger node _)
  case h_5 => exact K.fail rfl
  all_goals
    split
    · refine K.bind (K.read _) fun found => ?_
      cases found with
      | some binding => exact K.pure _
      | none => exact K.map _ (hc.resolveType node scope)
    · split
      · exact K.map _ (hc.resolveType node scope)
      · exact K.fail rfl

theorem resolveTypeStep (hc : c.Paired K c') (node : Node) (scope : ScopeId) :
    K.Rel w (c.resolveTypeStep node scope) (c'.resolveTypeStep node scope) := by
  unfold Calls.resolveTypeStep
  simp only
  split
  · refine K.bind (K.read _) fun found => ?_
    split
    · exact K.pure _
    · exact K.fail rfl
    · refine K.bind (K.read _) fun known => ?_
      cases known with
      | some type => exact K.pure type
      | none => exact K.fail rfl
  · refine K.bind (K.mapM (hc.resolveTemplateArg scope) _) fun args => ?_
    cases TemplateKind.ofName? node.text with
    | some kind => exact K.atomic (.instantiateBuiltin kind args)
    | none =>
        refine K.bind (K.read _) fun found => ?_
        cases found with
        | some template => exact hc.instantiateClass template args
        | none => exact K.fail rfl

/-! ## Natives -/

theorem runNative (hc : c.Paired K c') (native : Native) (args : List Value) :
    K.Rel w (c.runNative native args) (c'.runNative native args) := by
  cases native with
  | print newline =>
      refine K.bind (K.inspect fun s => s.ordinary_formatAll args)
        fun text => ?_
      refine K.bind (K.modify (fun _ => .print text newline) ?_ fun _ hs =>
        { hs with }) fun _ => K.pure none
      exact fun _ => .of_tables rfl rfl rfl rfl
  | copyBytes size =>
      exact K.bind (K.atomic (.copy _ _ size)) fun _ => K.pure none
  | assignBytes size =>
      exact K.bind (K.atomic (.copy _ _ size)) fun _ => K.pure _
  | copyMembers =>
      exact K.bind (memberwise hc.copyConstruct _ _) fun _ => K.pure none
  | assignMembers => exact K.bind (memberwise hc.assign _ _) fun _ => K.pure _
  | compareConstants comparison =>
      refine K.bind (K.inspect fun s => s.ordinary_constantOrder _ _)
        fun order => ?_
      exact K.map some (K.allocBool _)
  | convert source target =>
      refine K.bind (K.inspect fun s => s.arena.ordinary_readScalar _ source)
        fun scalar => ?_
      exact K.bind (K.atomic (.write _ _)) fun _ => K.pure none
  | arith op kind type =>
      refine K.bind (K.inspect fun s => s.ordinary_arithAt op kind _ _)
        fun scalar => ?_
      exact K.map some (K.allocScalar type scalar)
  | arithAssign op kind =>
      refine K.bind (K.inspect fun s => s.ordinary_arithAt op kind _ _)
        fun scalar => ?_
      exact K.bind (K.atomic (.write _ _)) fun _ => K.pure _
  | compare comparison kind =>
      refine K.bind (K.inspect fun s => s.ordinary_orderAt kind _ _)
        fun order => ?_
      exact K.map some (K.allocBool _)
  | negate kind type =>
      refine K.bind (K.inspect fun s => s.arena.ordinary_readScalar _ kind)
        fun scalar => ?_
      exact K.map some (K.allocScalar type _)
  | complement kind type =>
      refine K.bind (K.inspect fun s => s.arena.ordinary_readScalar _ kind)
        fun scalar => ?_
      exact K.map some (K.allocScalar type _)
  | not =>
      refine K.bind (K.inspect fun s => s.ordinary_readBool _) fun v => ?_
      exact K.map some (K.allocBool _)
  | connect connective =>
      refine K.bind (K.inspect fun s => s.ordinary_readBool _) fun v => ?_
      exact K.bind (K.inspect fun s => s.ordinary_readBool _) fun w =>
        K.map some (K.allocBool _)
  | concat =>
      refine K.bind (K.inspect fun s => s.ordinary_readStr _) fun v => ?_
      exact K.bind (K.inspect fun s => s.ordinary_readStr _) fun w =>
        K.map some (K.allocStr _)
  | compareStrings comparison =>
      refine K.bind (K.inspect fun s => s.ordinary_stringOrder _ _)
        fun order => ?_
      exact K.map some (K.allocBool _)
  | stringSize =>
      refine K.bind (K.inspect fun s => s.ordinary_readStr _) fun text => ?_
      exact K.map some (K.allocScalar _ _)
  | arrayData address => exact K.map some (K.allocAddress address _)
  | arraySize len => exact K.map some (K.allocScalar _ _)
  | arrayIndex elem len size =>
      refine K.bind (K.inspect fun s => s.ordinary_readInt _) fun index => ?_
      exact K.bind (K.inspect fun _ => ordinary_elementAddress _ _ len size)
        fun addr => K.pure _
  | copyReference => exact K.bind (K.atomic (.copy _ _ 8)) fun _ => K.pure none
  | bindReference =>
      exact K.bind (K.atomic (.writeWord _ _)) fun _ => K.pure none
  | follow target =>
      refine K.bind (K.inspect fun s => s.arena.ordinary_readWord _)
        fun addr => ?_
      exact K.pure _
  | assignThrough target =>
      refine K.bind (K.inspect fun s => s.arena.ordinary_readWord _)
        fun addr => ?_
      exact K.bind (hc.assign _ _) fun _ => K.pure _
  | shiftAddress type size backwards =>
      refine K.bind (K.inspect fun s => s.ordinary_shifted _ _ size backwards)
        fun addr => ?_
      exact K.map some (K.allocAddress type addr)
  | addressIndex target size =>
      refine K.bind (K.inspect fun s => s.ordinary_shifted _ _ size false)
        fun addr => ?_
      exact K.pure _
  | compareAddresses comparison =>
      refine K.bind (K.inspect fun s => s.ordinary_addressOrder _ _)
        fun order => ?_
      exact K.map some (K.allocBool _)

/-! ## Invocations -/

theorem bindArgument (hc : c.Paired K c') (param : Param) (arg : Value) :
    K.Rel w (c.bindArgument param arg) (c'.bindArgument param arg) := by
  unfold Calls.bindArgument
  refine K.bind (K.atomic (.reserve _ _)) fun slot => ?_
  refine K.bind (K.read _) fun place => ?_
  refine K.bind (hc.copyConstruct place arg) fun _ => ?_
  exact K.atomic (.bindLocal param.name slot)

/-! ## Choosing what to call -/

theorem accepts (K : Congruence) {w : K.World} (args : List Value)
    (callee : Callee) : K.Keeps w (Calls.accepts args callee) := by
  cases callee with
  | function id => exact K.read _
  | constructor type =>
      simp only [Calls.accepts]
      split
      · exact K.pure true
      · exact K.map _ (constructorFor K type args)

theorem firstAccepting (K : Congruence) {w : K.World} (args : List Value)
    (callees : List Callee) :
    K.Keeps w (Calls.firstAccepting args callees) := by
  induction callees with
  | nil => exact K.pure none
  | cons callee rest ih =>
      refine K.bind (accepts K args callee) fun accepted => ?_
      split
      · exact K.pure _
      · exact ih

theorem selectCallee (K : Congruence) {w : K.World} (candidates : List Callee)
    (args : List Value) : K.Keeps w (Calls.selectCallee candidates args) := by
  unfold Calls.selectCallee
  refine K.bind (firstAccepting K args candidates) fun found => ?_
  cases found with
  | some found => exact K.bind (firstAccepting K args found.2) fun _ => K.pure _
  | none => exact K.pure none

theorem invokeCallee (hc : c.Paired K c') (callee : Callee)
    (args : List Value) :
    K.Rel w (c.invokeCallee callee args) (c'.invokeCallee callee args) := by
  cases callee with
  | function id => exact hc.invoke id args
  | constructor type => exact K.map some (hc.constructNew type args)

theorem tryTemplates (hc : c.Paired K c') (site : CallSite)
    (explicit : List TemplateArg) (args : List Value)
    (templates : List TemplateId) :
    K.Rel w (c.tryTemplates site explicit args templates)
      (c'.tryTemplates site explicit args templates) := by
  induction templates with
  | nil => exact K.pure none
  | cons template rest ih =>
      refine K.bind (K.read _) fun deduced => ?_
      cases deduced with
      | none => exact ih
      | some targs =>
          refine K.bind (hc.instantiateFunction template targs) fun id => ?_
          refine K.bind (K.read _) fun fits => ?_
          split
          · exact K.map some (hc.invoke id args)
          · exact ih

theorem callMethod (hc : c.Paired K c') (receiver : Value) (name : String)
    (args : List Value) :
    K.Rel w (c.callMethod receiver name args)
      (c'.callMethod receiver name args) := by
  unfold Calls.callMethod
  refine K.bind (K.ensureInitialized _) fun _ => ?_
  refine K.bind (K.read _) fun members => ?_
  refine K.bind (K.read _) fun found => ?_
  cases found with
  | some id => exact hc.invoke id _
  | none =>
      refine K.bind (hc.tryTemplates _ [] _ _) fun result => ?_
      cases result with
      | some result => exact K.pure result
      | none => exact K.refuse fun _ => rfl

end Paired

namespace Matched

variable {K : Congruence} {w : K.World} {c c' : Calls}

/-! ## Declared functions -/

theorem executeAll (hc : c.Matched K c') {nodes : List Node}
    (hnodes : ∀ node ∈ nodes, K.Code w node) :
    K.Rel w (c.executeAll nodes) (c'.executeAll nodes) := by
  induction nodes with
  | nil => exact K.pure Flow.normal
  | cons node rest ih =>
      obtain ⟨hnode, hrest⟩ := List.forall_mem_cons.1 hnodes
      refine K.bind (hc.execute hnode) fun flow => ?_
      cases flow with
      | normal => exact ih hrest
      | returned => exact K.pure _
      | broken levels => exact K.pure _
      | continued => exact K.pure _

theorem executeChildren (hc : c.Matched K c') {node : Node}
    (hnode : K.Code w node) :
    K.Rel w (c.executeAll node.children) (c'.executeAll node.children) :=
  hc.executeAll fun _ => K.code_child hnode

theorem runBody (hc : c.Matched K c') {node : Node} (hnode : K.Code w node)
    (params : List Param) (args : List Value) :
    K.Rel w (c.runBody node params args) (c'.runBody node params args) := by
  unfold Calls.runBody
  refine K.bind (K.forM (fun pair => ?_) _) fun _ => ?_
  · exact hc.bindArgument pair.1 pair.2
  · cases hbody : node.findChild? .block with
    | some body =>
        have hcode := K.findChild? hnode hbody
        exact K.bind (hc.executeChildren hcode) fun _ => K.pure ()
    | none => exact K.fail rfl

theorem invokeInterpreted (hc : c.Matched K c') (id : FunctionId) (f : Function)
    {home : TreeId} {node : Node}
    (hnode : K.Code (K.inCall (K.inTree w home)) node) {scope : ScopeId}
    (hscope : K.InUse w scope) (args : List Value) :
    K.Rel w (c.invokeInterpreted id f home node scope args)
      (c'.invokeInterpreted id f home node scope args) :=
  K.call id f home hscope hc.destroy (hc.runBody hnode f.fixedParams args)

theorem invokeStep (hc : c.Matched K c') (id : FunctionId) (args : List Value) :
    K.Rel w (c.invokeStep id args) (c'.invokeStep id args) := by
  unfold Calls.invokeStep
  refine K.function id fun _ f hf => ?_
  split
  · exact K.refuse fun _ => rfl
  · split
    · refine K.bind (K.inspect fun s => s.ordinary_adaptArgs _ args)
        fun adapted => ?_
      exact hc.runNative _ adapted
    · rename_i home node scope hbody
      obtain ⟨hnode, hscope⟩ := hf home node scope hbody
      exact hc.invokeInterpreted id f hnode hscope args

end Matched

end Calls

end ArenaScript
