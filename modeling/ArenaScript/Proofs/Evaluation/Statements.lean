import ArenaScript.Proofs.Evaluation.Expressions

/-!
# Statements of related evaluators

A statement that is code has only code in it, so that blocks, branches and loops
of related evaluators are related.  Imports are left open: what they do depends
on the modules that have been loaded.
-/

namespace ArenaScript

namespace Calls.Paired

variable {K : Congruence} {w : K.World} {c c' : Calls}

/-! ## Conditions, jumps and variables -/

theorem required_bind (K : Congruence) {w : K.World} {α : Type} {node : Node}
    {index : Nat} {f g : Node → Eval α}
    (h : ∀ child ∈ node.children, K.Rel w (f child) (g child)) :
    K.Rel w (required node index >>= f) (required node index >>= g) := by
  unfold required
  split
  · rename_i child hchild
    rw [pure_bind, pure_bind]
    exact h child (List.mem_of_getElem? hchild)
  · change K.Keeps w (Eval.fail _ : Eval α)
    exact K.fail rfl

theorem condition (hc : c.Paired K c') (node : Node) :
    K.Rel w (c.condition node) (c'.condition node) := by
  unfold Calls.condition
  refine K.bind (hc.evaluate node) fun value => ?_
  exact K.bind (K.stripRef value) fun _ => K.inspect fun s =>
    s.ordinary_readBool _

theorem repeatUntil {iteration iteration' : Eval (Option Flow)}
    (h : K.Rel w iteration iteration') (rounds : Nat) :
    K.Rel w (Calls.repeatUntil iteration rounds)
      (Calls.repeatUntil iteration' rounds) := by
  induction rounds with
  | zero => exact K.exhausted
  | succ rounds ih =>
      refine K.bind h fun exit => ?_
      cases exit with
      | some flow => exact K.pure flow
      | none => exact ih

theorem executeReturn (hc : c.Paired K c') (node : Node) :
    K.Rel w (c.executeReturn node) (c'.executeReturn node) := by
  unfold Calls.executeReturn
  cases node.child? 0 with
  | none => exact K.pure _
  | some expression =>
      refine K.bind (hc.evaluate expression) fun value => ?_
      refine K.bind (K.read _) fun slot => ?_
      cases slot with
      | some slot =>
          exact K.bind (hc.copyConstruct slot value) fun _ => K.pure _
      | none =>
          simp only
          split
          · exact K.pure _
          · exact K.refuse fun _ => rfl

theorem executeBreak (K : Congruence) {w : K.World} (node : Node) :
    K.Keeps w (Calls.executeBreak node) := by
  unfold Calls.executeBreak
  split
  · exact K.pure _
  · split
    · exact K.pure _
    · exact K.fail rfl

theorem topSlot (K : Congruence) {w : K.World} (slot : Slot) :
    K.Keeps w (Calls.topSlot slot) := by
  refine K.inspect fun s => ?_
  split
  · exact .ok _
  · exact Ordinary.error_iff.2 rfl

theorem defineDefault (hc : c.Paired K c') (type : TypeId) :
    K.Rel w (c.defineDefault type) (c'.defineDefault type) := by
  unfold Calls.defineDefault
  refine K.bind (K.atomic (.reserve type false)) fun slot => ?_
  refine K.bind (topSlot K slot) fun place => ?_
  exact K.bind (hc.defaultConstruct place) fun _ => K.pure slot

theorem defineFrom (hc : c.Paired K c') (name : String)
    (declared : Option TypeId) (init : Node) :
    K.Rel w (c.defineFrom name declared init)
      (c'.defineFrom name declared init) := by
  unfold Calls.defineFrom
  refine K.bind (K.read _) fun before => ?_
  refine K.bind (hc.evaluate init) fun value => ?_
  refine K.bind (K.read _) fun type => ?_
  split
  · exact K.fail rfl
  · refine K.bind (K.read _) fun fresh => ?_
    split
    · exact K.atomic (.reserve type true)
    · refine K.bind (K.atomic (.reserve type false)) fun slot => ?_
      refine K.bind (topSlot K slot) fun place => ?_
      exact K.bind (hc.copyConstruct place value) fun _ => K.pure slot

theorem executeDefinition (hc : c.Paired K c') (node : Node) :
    K.Rel w (c.executeDefinition node) (c'.executeDefinition node) := by
  unfold Calls.executeDefinition
  extract_lets bindSlot
  have hbind : ∀ slot, K.Keeps w (bindSlot slot) := by
    intro slot
    refine K.bind (K.read _) fun top => ?_
    cases top with
    | some _ => exact K.atomic (.bindLocal node.text slot)
    | none => exact K.fail rfl
  split
  rename_i typeNode init _
  extract_lets define define'
  have hdefine : ∀ declared, K.Rel w (define declared) (define' declared) := by
    intro declared
    simp only [define, define']
    split
    · exact K.bind (hc.defineDefault _) hbind
    · exact K.bind (hc.defineFrom _ _ _) hbind
    · exact K.bind (K.fail rfl) hbind
  cases typeNode with
  | some typeNode =>
      refine K.bind (K.read _) fun scope => ?_
      exact K.bind (K.map some (hc.resolveType typeNode scope)) hdefine
  | none => exact K.bind (K.pure none) hdefine

theorem executeImport (hload : ∀ request importer,
      K.Rel w (c.loadModule request importer) (c'.loadModule request importer))
    (hlate : ∀ request,
      K.Keeps w (Eval.fail (Failure.nestedImport request) : Eval ModuleId))
    (node : Node) : K.Rel w (c.executeImport node) (c'.executeImport node) := by
  unfold Calls.executeImport
  extract_lets request link
  have hlink : ∀ id, K.Keeps w (link id) := by
    intro id
    refine K.withScope (.module id) fun _ scope _ hscope => ?_
    refine K.bind (K.read _) fun current => ?_
    exact K.bind (K.link current hscope) fun _ => K.pure _
  refine K.bind (K.read _) fun importer => ?_
  refine K.bind (K.inspect fun s => s.ordinary_findModulePath request importer)
    fun path => ?_
  refine K.bind (K.read _) fun atRoot => ?_
  refine K.bind (K.read _) fun found => ?_
  cases found with
  | some id => exact K.bind (K.pure id) hlink
  | none =>
      simp only
      split
      · exact K.bind (hload request importer) hlink
      · exact K.bind (hlate request) hlink

end Calls.Paired

namespace Calls.Matched

variable {K : Congruence} {w : K.World} {c c' : Calls} {node : Node}

/-! ## Blocks, branches and loops -/

theorem executeBlock (hc : c.Matched K c') (hnode : K.Code w node) :
    K.Rel w (c.executeBlock node) (c'.executeBlock node) := by
  unfold Calls.executeBlock
  refine K.withScope .current fun _ outer hv houter => ?_
  refine K.withScope (.node node _ houter) fun _ scope hu hscope => ?_
  have hcode := hu.code (hv.code hnode)
  refine K.block hscope hcode hc.destroy (hc.executeAll fun child hchild => ?_)
  exact K.code_outer (K.code_nested hcode hchild)

theorem executeBranch (hc : c.Matched K c') (hnode : K.Code w node) :
    K.Rel w (c.executeBranch node) (c'.executeBranch node) := by
  unfold Calls.executeBranch
  split
  · exact hc.executeBlock hnode
  · exact hc.execute hnode

theorem executeIf (hc : c.Matched K c') (hnode : K.Code w node) :
    K.Rel w (c.executeIf node) (c'.executeIf node) := by
  unfold Calls.executeIf
  refine Paired.required_bind K fun cond _ => ?_
  refine Paired.required_bind K fun accepted haccepted => ?_
  refine K.bind (hc.condition cond) fun holds => ?_
  split
  · exact hc.executeBranch (K.code_child hnode haccepted)
  · split
    · rename_i hotherwise
      exact hc.executeBranch (K.child? hnode hotherwise)
    · exact K.pure _

theorem iterationBody (hc : c.Matched K c') (cond : Node) {body : Node}
    (hbody : K.Code w body) (step : Option Node) :
    K.Rel w
      (do
        if ← c.condition cond then
          let exit := loopExit (← c.executeBranch body)
          match exit, step with
          | none, some step =>
              let _ ← c.evaluate step
              pure none
          | exit, _ => pure exit
        else pure (some .normal))
      (do
        if ← c'.condition cond then
          let exit := loopExit (← c'.executeBranch body)
          match exit, step with
          | none, some step =>
              let _ ← c'.evaluate step
              pure none
          | exit, _ => pure exit
        else pure (some .normal)) := by
  refine K.bind (hc.condition cond) fun holds => ?_
  split
  · refine K.bind (hc.executeBranch hbody) fun flow => ?_
    cases loopExit flow with
    | some exit => exact K.pure _
    | none =>
        cases step with
        | some step => exact K.bind (hc.evaluate step) fun _ => K.pure _
        | none => exact K.pure _
  · exact K.pure _

theorem iteration (hc : c.Matched K c') {scope : ScopeId}
    (hscope : K.InUse w scope) (cond : Node) {body : Node}
    (hbody : K.Code (K.inBlock w) body) (step : Option Node) :
    K.Rel w (c.iteration scope cond body step)
      (c'.iteration scope cond body step) :=
  K.block hscope (K.code_outer hbody) hc.destroy
    (hc.iterationBody cond hbody step)

theorem executeWhile (hc : c.Matched K c') (hnode : K.Code w node) :
    K.Rel w (c.executeWhile node) (c'.executeWhile node) := by
  unfold Calls.executeWhile
  refine Paired.required_bind K fun cond _ => ?_
  refine Paired.required_bind K fun body hbody => ?_
  refine K.withScope .current fun _ outer hv houter => ?_
  refine K.withScope (.node node _ houter) fun _ scope hu hscope => ?_
  rw [hc.rounds]
  have hinner := K.code_outer (K.code_nested (hu.code (hv.code hnode)) hbody)
  exact Paired.repeatUntil (hc.iteration hscope cond hinner none) c.rounds

theorem executeFor (hc : c.Matched K c') (hnode : K.Code w node) :
    K.Rel w (c.executeFor node) (c'.executeFor node) := by
  unfold Calls.executeFor
  refine Paired.required_bind K fun init hinit => ?_
  refine Paired.required_bind K fun cond _ => ?_
  refine Paired.required_bind K fun step _ => ?_
  refine Paired.required_bind K fun body hbody => ?_
  refine K.withScope .current fun _ outer hv houter => ?_
  refine K.withScope (.node node _ houter) fun _ scope hu hscope => ?_
  have hcode := hu.code (hv.code hnode)
  refine K.block hscope hcode hc.destroy ?_
  refine K.bind (hc.execute (K.code_outer (K.code_nested hcode hinit)))
    fun _ => ?_
  rw [hc.rounds]
  have hinner := K.code_nested hcode hbody
  exact Paired.repeatUntil
    (hc.iteration (K.inUse_inBlock hscope) cond hinner (some step)) c.rounds

/-! ## All statements -/

theorem executeKind (hc : c.Matched K c') (hnode : K.Code w node)
    (himport : node.kind = .importModule →
      K.Rel w (c.executeImport node) (c'.executeImport node)) :
    K.Rel w (c.executeKind node) (c'.executeKind node) := by
  have hdeclare : K.Rel w
      (Eval.currentScope >>= fun scope => do
        c.declare node scope; pure Flow.normal)
      (Eval.currentScope >>= fun scope => do
        c'.declare node scope; pure Flow.normal) := by
    refine K.withScope .current fun _ scope hv hscope => ?_
    exact K.bind (hc.declare (hv.callable (K.code_callable hnode)) hscope)
      fun _ => K.pure _
  unfold Calls.executeKind
  split
  · exact hdeclare
  · exact hdeclare
  · exact hdeclare
  · exact hdeclare
  · rename_i hkind
    exact himport hkind
  · exact K.bind (hc.executeDefinition node) fun _ => K.pure _
  · exact hc.executeBlock hnode
  · exact hc.executeIf hnode
  · exact hc.executeWhile hnode
  · exact hc.executeFor hnode
  · exact hc.executeReturn node
  · exact Paired.executeBreak K node
  · exact K.pure _
  · refine K.bind (K.forM (fun child => ?_) _) fun _ => K.pure _
    exact K.bind (hc.evaluate child) fun _ => K.pure ()
  · split
    · exact K.bind (hc.evaluate node) fun _ => K.pure _
    · exact K.fail rfl

theorem executeStep (hK : K.MapsFailures) (hc : c.Matched K c')
    (hnode : K.Code w node) (himport : node.kind = .importModule →
      K.Rel w (c.executeImport node) (c'.executeImport node)) :
    K.Rel w (c.executeStep node) (c'.executeStep node) := by
  have hkind : K.Rel w
      (Eval.mapFailure (fun s e => e.withLocation node.pos s.currentModulePath?)
        (c.executeKind node))
      (Eval.mapFailure (fun s e => e.withLocation node.pos s.currentModulePath?)
        (c'.executeKind node)) :=
    hK (fun _ e => e.isNestedImport_withLocation _ _)
      (hc.executeKind hnode himport)
  unfold Calls.executeStep
  split
  · exact K.bind (K.setPos node.pos) fun _ => hkind
  · exact hkind

end Calls.Matched

/-! ## The next level -/

def Calls.above (c : Calls) (execute : Node → Eval Flow) (rounds : Nat) :
    Calls where
  evaluate := c.evaluateStep
  execute := execute
  invoke := c.invokeStep
  resolveType := c.resolveTypeStep
  copyConstruct := c.copyConstructStep
  defaultConstruct := c.defaultConstructStep
  destroy := c.destroyStep
  loadModule := c.loadModuleStep
  rounds := rounds

theorem Calls.ofFuel_succ (fuel : Nat) :
    ofFuel (fuel + 1) = (ofFuel fuel).above (ofFuel fuel).executeStep fuel :=
  rfl

theorem Calls.Paired.above {K : Congruence} {c c' : Calls} (hc : c.Paired K c')
    (hinvoke : ∀ {w} id args,
      K.Rel w (c.invokeStep id args) (c'.invokeStep id args))
    (execute execute' : Node → Eval Flow) (rounds rounds' : Nat) :
    (c.above execute rounds).Paired K (c'.above execute' rounds') where
  evaluate := hc.evaluateStep
  invoke := hinvoke
  resolveType := hc.resolveTypeStep
  copyConstruct := hc.copyConstructStep
  defaultConstruct := hc.defaultConstructStep
  destroy := hc.destroyStep

theorem Calls.Matched.exhausted (K : Congruence) :
    Calls.exhausted.Matched K Calls.exhausted where
  evaluate _ := K.exhausted
  invoke _ _ := K.exhausted
  resolveType _ _ := K.exhausted
  copyConstruct _ _ := K.exhausted
  defaultConstruct _ := K.exhausted
  destroy _ := K.exhausted
  execute _ := K.exhausted
  rounds := rfl

end ArenaScript
