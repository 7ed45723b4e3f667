import ArenaScript.Proofs.Evaluation.Alike.Expressions

/-!
# Statements, modules and the evaluator run alike

A variable is bound to a slot whose bytes have all been claimed since its
definition began, whether the slot is fresh or was found by looking back.  From
that and the rest of the statements it follows, by induction on the fuel, that
the watched evaluator and the evaluator run alike.
-/

namespace ArenaScript

open Handles (Known)
open Engine (Good Reached Lenient Steady Quiet Grows Claimed)

namespace Engine

variable {s t u : Engine}

theorem Claimed.since {slot : Slot} (hst : s.Quiet t) (h : t.Claimed u slot) :
    s.Claimed u slot :=
  ⟨h.known, Nat.le_trans hst.mark h.start, h.finish⟩

theorem fresh_finish (ht : t.Closed) {value : Value} (hvalue : t.Knows value)
    {type : TypeId} {mark : Nat}
    (hfresh : t.isFreshTemporary value type mark = true)
    (hroom : t.types.sizeOf type ≤ t.arena.mark) :
    value.type = type ∧ mark ≤ value.addr ∧
      value.addr + t.types.sizeOf type = t.arena.mark := by
  simp only [isFreshTemporary, Bool.and_eq_true, beq_iff_eq,
    decide_eq_true_eq] at hfresh
  obtain ⟨⟨htype, hstart⟩, hfinish⟩ := hfresh
  have hmark := ht.mark_lt
  have haddr : value.addr < Word.modulus := hvalue.2
  refine ⟨htype, hstart, ?_⟩
  rw [Word.add, Word.wrap] at hfinish
  split at hfinish
  · exact hfinish
  · rw [Nat.mod_eq_sub_mod (by omega), Nat.mod_eq_of_lt (by omega)] at hfinish
    omega

theorem Claimed.back (ht : t.Closed) {value : Value} (hvalue : t.Knows value)
    {type : TypeId} (htype : t.Knows type)
    (hfresh : t.isFreshTemporary value type s.arena.mark = true) {slot : Slot}
    (h : Eval.reserve type true t = .ok slot u) : s.Claimed u slot := by
  obtain ⟨arena, hreserve, rfl⟩ := reserve_eq_ok h
  obtain ⟨hroom, rfl, rfl⟩ := Arena.reserve_back_eq_ok hreserve
  obtain ⟨-, hstart, hend⟩ := fresh_finish ht hvalue hfresh (by omega)
  refine ⟨htype, ?_, ?_⟩
  · simp only
    omega
  · simp only
    omega

end Engine

namespace Calls.Alike

variable {I : Engine → Prop} {c d : Calls} {s : Engine}

/-! ## Blocks, branches and conditions -/

theorem required (hs : s.Good I) (node : Node) (index : Nat) :
    Sound I s (ArenaScript.required node index) := by
  unfold ArenaScript.required
  split
  · exact .pure hs trivial
  · exact .fail hs _

theorem condition (hc : c.Alike I d) (hs : s.Good I) (node : Node) :
    Agree I Quiet s (c.condition node) (d.condition node) := by
  unfold Calls.condition
  refine .bind (hc.evaluate node hs) fun value t ht hvalue => ?_
  refine .bind (Sound.stripRef ht.good hvalue) fun value u hu _ => ?_
  exact .inspect hu.good fun _ _ => trivial

variable [Steady I]

theorem executeBlock (hc : c.Alike I d) (hs : s.Good I) (node : Node) :
    Agree I Quiet s (c.executeBlock node) (d.executeBlock node) := by
  unfold Calls.executeBlock
  refine .bind_read
    (.bind (Sound.scopeFor hs node .block _) fun scope t ht _ => ?_)
  refine hc.inFrame ht.good scope rfl ?_ fun hpushed =>
    hc.executeAll hpushed node.children
  exact hc.disciplined.executeAll Engine.Disciplined.stable.toLocal
    node.children

theorem executeBranch (hc : c.Alike I d) (hs : s.Good I) (node : Node) :
    Agree I Grows s (c.executeBranch node) (d.executeBranch node) :=
  .ite (fun _ => .loosen (hc.executeBlock hs node)) fun _ => hc.execute node hs

theorem executeIf (hc : c.Alike I d) (hs : s.Good I) (node : Node) :
    Agree I Grows s (c.executeIf node) (d.executeIf node) := by
  unfold Calls.executeIf
  refine .bind_quiet (required hs node 0) fun cond t ht _ => ?_
  refine .bind_quiet (required ht.good node 1) fun accepted u hu _ => ?_
  refine .bind_quiet (hc.condition hu.good cond) fun holds v hv _ => ?_
  refine .ite (fun _ => hc.executeBranch hv.good accepted) fun _ => ?_
  split
  · exact hc.executeBranch hv.good _
  · exact .pure hv.good trivial

/-! ## Loops -/

omit [Steady I] in
theorem repeatUntil {f g : Eval (Option Flow)}
    (hfg : ∀ {t : Engine}, t.Good I → Agree I Quiet t f g) (hs : s.Good I)
    (rounds : Nat) :
    Agree I Quiet s (Calls.repeatUntil f rounds)
      (Calls.repeatUntil g rounds) := by
  induction rounds generalizing s with
  | zero => exact .exhausted hs
  | succ rounds ih =>
      unfold Calls.repeatUntil
      refine .bind (hfg hs) fun exit t ht _ => ?_
      cases exit with
      | some flow => exact .pure ht.good trivial
      | none => exact ih ht.good

theorem iteration (hc : c.Alike I d) (hs : s.Good I) (scope : ScopeId)
    (cond body : Node) (step : Option Node) :
    Agree I Quiet s (c.iteration scope cond body step)
      (d.iteration scope cond body step) := by
  unfold Calls.iteration
  refine hc.inFrame hs scope rfl
    (hc.disciplined.iterationBody Engine.Disciplined.stable.toLocal cond body
      step) fun hpushed => ?_
  refine .bind_quiet (hc.condition hpushed cond) fun holds t ht _ => ?_
  refine .ite (fun _ => ?_) fun _ => .pure ht.good fun _ _ => trivial
  refine .bind (hc.executeBranch ht.good body) fun flow u hu _ => ?_
  cases loopExit flow with
  | some exit => exact .pure hu.good fun _ _ => trivial
  | none =>
      cases step with
      | none => exact .pure hu.good fun _ _ => trivial
      | some step =>
          refine .bind_quiet (hc.evaluate step hu.good) fun _ v hv _ => ?_
          exact .pure hv.good fun _ _ => trivial

theorem executeWhile (hc : c.Alike I d) (hs : s.Good I) (node : Node) :
    Agree I Quiet s (c.executeWhile node) (d.executeWhile node) := by
  unfold Calls.executeWhile
  rw [hc.rounds]
  refine .bind (required hs node 0) fun cond t ht _ => ?_
  refine .bind (required ht.good node 1) fun body u hu _ => .bind_read ?_
  refine .bind (Sound.scopeFor hu.good node .loop _) fun scope v hv _ => ?_
  exact repeatUntil (fun hw => hc.iteration hw scope cond body none)
    hv.good d.rounds

theorem executeFor (hc : c.Alike I d) (hs : s.Good I) (node : Node) :
    Agree I Quiet s (c.executeFor node) (d.executeFor node) := by
  unfold Calls.executeFor
  rw [hc.rounds]
  refine .bind (required hs node 0) fun init t ht _ => ?_
  refine .bind (required ht.good node 1) fun cond u hu _ => ?_
  refine .bind (required hu.good node 2) fun step v hv _ => ?_
  refine .bind (required hv.good node 3) fun body w hw _ => .bind_read ?_
  refine .bind (Sound.scopeFor hw.good node .loop _) fun scope x hx _ => ?_
  have hlocal := Engine.Disciplined.stable.toLocal
  have hdisciplined : Eval.Within Engine.Disciplined (do
      let _ ← d.execute init
      Calls.repeatUntil (d.iteration scope cond body (some step)) d.rounds) :=
    hlocal.bind (hc.disciplined.execute init) fun _ =>
      Calls.Plain.repeatUntil hlocal
      (hc.disciplined.iteration hlocal scope cond body (some step)) d.rounds
  refine hc.inFrame hx.good scope rfl hdisciplined fun hpushed => ?_
  refine .bind (hc.execute init hpushed) fun _ y hy _ => .loosen ?_
  exact repeatUntil (fun hz => hc.iteration hz scope cond body (some step))
    hy.good d.rounds

/-! ## Jumps and variables -/

omit [Steady I] in
theorem executeReturn (hc : c.Alike I d) (hs : s.Good I) (node : Node) :
    Agree I Quiet s (c.executeReturn node) (d.executeReturn node) := by
  unfold Calls.executeReturn
  cases node.child? 0 with
  | none => exact .pure hs trivial
  | some expression =>
      refine .bind (hc.evaluate expression hs) fun value t ht hvalue =>
        .bind_read ?_
      cases hslot : t.currentCall?.bind CallRecord.returnSlot with
      | some slot =>
          have hknown := ht.closed.knows_returnSlot slot hslot
          refine .bind (hc.copyConstruct ht.good hknown hvalue)
            fun _ u hu _ => ?_
          exact .pure hu.good trivial
      | none =>
          exact .ite (fun _ => .pure ht.good trivial) fun _ =>
            .inspect ht.good Handles.known_error

omit [Steady I] in
theorem executeBreak (hs : s.Good I) (node : Node) :
    Sound I s (Calls.executeBreak node) := by
  unfold Calls.executeBreak
  refine .ite (fun _ => .pure hs trivial) fun _ => ?_
  split
  · exact .pure hs trivial
  · exact .fail hs _

omit [Steady I] in
theorem topSlot (hs : s.Good I) {slot : Slot} (hslot : s.Knows slot) :
    Sound I s (Calls.topSlot slot) := by
  refine .inspect hs ?_
  split
  · exact Handles.known_ok.2 (Frame.known_resolve hslot)
  · exact Handles.known_error

theorem defineDefault (hc : c.Alike I d) (hs : s.Good I) {type : TypeId}
    (htype : s.Knows type) {k : Slot → Eval Unit}
    (hk : ∀ slot t, t.Good I → s.Quiet t → s.Claimed t slot →
      Agree I Grows t (k slot) (k slot)) :
    Agree I Grows s (c.defineDefault type >>= k)
      (d.defineDefault type >>= k) := by
  simp only [Calls.defineDefault, bind_assoc, pure_bind]
  refine .bind_of Lenient.of_quiet (Sound.reserve hs htype false)
    fun slot t hrun ht hslot => ?_
  refine .bind_quiet (topSlot ht.good hslot) fun place u hu hplace => ?_
  refine .bind_quiet (hc.defaultConstruct hu.good hplace) fun _ v hv _ => ?_
  have hquiet := hu.rel.trans hv.rel
  exact hk slot v hv.good (ht.rel.trans hquiet)
    ((Claimed.fresh hs.closed htype hrun).quiet hquiet)

theorem defineFrom (hc : c.Alike I d) (hs : s.Good I) (name : String)
    {declared : Option TypeId} (hdeclared : s.Knows declared) (init : Node)
    {k : Slot → Eval Unit}
    (hk : ∀ slot t, t.Good I → s.Quiet t → s.Claimed t slot →
      Agree I Grows t (k slot) (k slot)) :
    Agree I Grows s (c.defineFrom name declared init >>= k)
      (d.defineFrom name declared init >>= k) := by
  simp only [Calls.defineFrom, bind_assoc]
  refine .bind_read (.bind_quiet (hc.evaluate init hs) fun value t ht hvalue =>
    .bind_read ?_)
  have htype : t.Knows (declared.getD (t.types.decay value.type)) :=
    Handles.known_getD (ht.knows hdeclared) (ht.closed.knows_decay hvalue.1)
  by_cases hvoid : declared.getD (t.types.decay value.type) = .void
  · simp only [if_pos hvoid]
    exact .congr (.fail ht.good _) rfl rfl
  · simp only [if_neg hvoid, bind_assoc]
    refine .bind_read ?_
    by_cases hfresh :
      t.isFreshTemporary value (declared.getD (t.types.decay value.type))
        s.arena.mark = true
    · simp only [if_pos hfresh]
      refine .bind_of Lenient.of_quiet (Sound.reserve ht.good htype true)
        fun slot u hrun hu hslot => ?_
      exact hk slot u hu.good (ht.rel.trans hu.rel)
        (Claimed.back ht.closed hvalue htype hfresh hrun)
    · simp only [if_neg hfresh, bind_assoc, pure_bind]
      refine .bind_of Lenient.of_quiet (Sound.reserve ht.good htype false)
        fun slot u hrun hu hslot => ?_
      refine .bind_quiet (topSlot hu.good hslot) fun place v hv hplace => ?_
      refine .bind_quiet
        (hc.copyConstruct hv.good hplace (hv.knows (hu.knows hvalue)))
        fun _ w hw _ => ?_
      have hquiet := hv.rel.trans hw.rel
      exact hk slot w hw.good (ht.rel.trans (hu.rel.trans hquiet))
        ((Claimed.since ht.rel (Claimed.fresh ht.closed htype hrun)).quiet
          hquiet)

theorem executeDefinition (hc : c.Alike I d) (hs : s.Good I) (node : Node) :
    Agree I Grows s (c.executeDefinition node) (d.executeDefinition node) := by
  unfold Calls.executeDefinition
  extract_lets bindSlot
  have hbind : ∀ {t : Engine} (slot : Slot) (u : Engine), t.Good I → u.Good I →
      t.Quiet u →
      t.Claimed u slot → Agree I Grows u (bindSlot slot) (bindSlot slot) := by
    intro t slot u ht hu htu hslot
    refine .bind_read ?_
    cases u.arena.top? with
    | some _ => exact .bindLocal ht hu htu node.text hslot
    | none => exact .fail hu _
  split
  rename_i typeNode init _
  extract_lets define define'
  have hdefine : ∀ (declared : Option TypeId) (t : Engine),
      Reached I Quiet s t →
      t.Knows declared →
      Agree I Grows t (define declared) (define' declared) := by
    intro declared t ht hdeclared
    simp only [define, define']
    split
    · have htype := Handles.known_some.1 hdeclared
      exact hc.defineDefault ht.good htype fun slot u => hbind slot u ht.good
    · exact hc.defineFrom ht.good node.text hdeclared _ fun slot u =>
        hbind slot u ht.good
    · exact .congr (.fail ht.good _) rfl rfl
  cases typeNode with
  | some typeNode =>
      refine .bind_read (.bind_quiet ?_ hdefine)
      exact .map (hc.resolveType typeNode _ hs) fun _ _ _ h =>
        Handles.known_some.2 h
  | none => exact .bind_quiet (.pure hs Handles.known_none) hdefine

/-! ## All statements -/

theorem executeImport (hc : c.Alike I d) (hs : s.Good I) (node : Node) :
    Agree I Grows s (c.executeImport node) (d.executeImport node) := by
  unfold Calls.executeImport
  extract_lets request link
  have hlink : ∀ (id : ModuleId) (t : Engine), Reached I Grows s t →
      t.Knows id →
      Agree I Grows t (link id) (link id) := by
    intro id t ht _
    refine .bind_read
      (.bind_read (.bind_quiet (Sound.addImport ht.good _ _)
        fun _ u hu _ => ?_))
    exact .pure hu.good trivial
  refine .bind_read (.bind_inspect hs fun path _ => .bind_read (.bind_read ?_))
  cases s.modules.find? path with
  | some id => exact .bind (.pure hs trivial) hlink
  | none =>
      by_cases hroot : s.arena.top?.all (·.kind.isRoot) = true
      · simp only [if_pos hroot]
        exact .bind (hc.loadModule request _ hs) hlink
      · simp only [if_neg hroot]
        exact .congr (.fail hs _) rfl rfl

theorem executeKind (hc : c.Alike I d) (hs : s.Good I) (node : Node) :
    Agree I Grows s (c.executeKind node) (d.executeKind node) := by
  have hdeclare : Agree I Grows s
      (do
        c.declare node (← Eval.currentScope)
        pure Flow.normal)
      (do
        d.declare node (← Eval.currentScope)
        pure Flow.normal) := by
    refine .bind_read (.bind_quiet (hc.declare hs node _) fun _ t ht _ => ?_)
    exact .pure ht.good trivial
  unfold Calls.executeKind
  split
  · exact hdeclare
  · exact hdeclare
  · exact hdeclare
  · exact hdeclare
  · exact hc.executeImport hs node
  · exact .bind (hc.executeDefinition hs node) fun _ t ht _ =>
      .pure ht.good trivial
  · exact .loosen (hc.executeBlock hs node)
  · exact hc.executeIf hs node
  · exact .loosen (hc.executeWhile hs node)
  · exact .loosen (hc.executeFor hs node)
  · exact .loosen (hc.executeReturn hs node)
  · exact .loosen (executeBreak hs node)
  · exact .pure hs trivial
  · refine .bind_quiet (.forM hs fun child _ t ht => ?_) fun _ t ht _ =>
      .pure ht.good trivial
    exact .bind (hc.evaluate child ht.good) fun _ u hu _ =>
      .pure hu.good trivial
  · refine .ite (fun _ => ?_) fun _ => .fail hs _
    exact .bind_quiet (hc.evaluate node hs) fun _ t ht _ =>
      .pure ht.good trivial

theorem executeStep (hc : c.Alike I d) (hs : s.Good I) (node : Node) :
    Agree I Grows s (c.executeStep node) (d.executeStep node) := by
  unfold Calls.executeStep
  have hpos : s.Step { s with lastPos := node.pos } :=
    ⟨{ hs.closed with }, .of_catalogue rfl rfl rfl rfl rfl⟩
  refine .ite (fun _ => ?_) fun _ => .mapFailure _ (hc.executeKind hs node)
  refine .bind_quiet (Sound.modify hs hpos) fun _ t ht _ => ?_
  exact .mapFailure _ (hc.executeKind ht.good node)

/-! ## Modules -/

theorem adoptTree (hs : s.Good I) (root : Node) :
    Sound I s (Eval.adoptTree root) :=
  Sound.modifyGet hs ⟨{ hs.closed with }, .of_catalogue rfl rfl rfl rfl rfl⟩
    trivial

theorem parseModule (hs : s.Good I) (path : String) :
    Sound I s (Eval.parseModule path) :=
  .bind_inspect hs fun _ _ => adoptTree hs _

theorem addModule (hs : s.Good I) (path : String) (tree : TreeId) :
    Sound I s (Eval.addModule path tree) := by
  unfold Eval.addModule
  refine .bind (Sound.createScope hs .moduleScope _) fun scope t ht _ => ?_
  have hstep : t.Step { t with
      modules := (t.modules.add { path, tree, scope }).2 } :=
    ⟨{ ht.closed with }, .of_catalogue rfl rfl rfl rfl rfl⟩
  exact .bind (Sound.modifyGet ht.good hstep trivial) fun _ u hu _ =>
    .pure hu.good ⟨trivial, trivial⟩

theorem preload (hc : c.Alike I d) (hs : s.Good I) (path : String)
    (scope : ScopeId) (root node : Node) :
    Agree I Grows s (c.preload path scope root node)
      (d.preload path scope root node) := by
  unfold Calls.preload
  refine .bind (.mapFailure _ (hc.loadModule node.text (some path) hs))
    fun dep t ht _ => ?_
  refine .ite (fun _ => .bind_read ?_) fun _ => .pure ht.good trivial
  exact .loosen (Sound.addImport ht.good _ _)

theorem evaluateModule (hc : c.Alike I d) (hs : s.Good I) (path : String)
    (tree : SyntaxTree) :
    Agree I Grows s (c.evaluateModule path tree)
      (d.evaluateModule path tree) := by
  unfold Calls.evaluateModule
  refine .bind_read ?_
  cases s.modules.find? path with
  | some id => exact .pure hs trivial
  | none =>
      refine .bind_quiet (addModule hs path tree.id) fun entry t ht _ => ?_
      refine .bind
        (.forM ht.good fun node _ u hu => hc.preload hu.good path _ _ node)
        fun _ u hu _ => ?_
      refine .bind (.pushFrame hu.good _ .moduleFrame) fun _ v hv _ => ?_
      refine .bind
        (.withTree tree.id hv.good fun hinner => hc.executeAll hinner _)
        fun _ w hw _ => ?_
      exact .pure hw.good trivial

theorem loadModuleStep (hc : c.Alike I d) (hs : s.Good I) (request : String)
    (importer : Option String) :
    Agree I Grows s (c.loadModuleStep request importer)
      (d.loadModuleStep request importer) := by
  unfold Calls.loadModuleStep
  refine .bind_inspect hs fun path _ => .bind_read ?_
  cases s.modules.find? path with
  | some id => exact .pure hs trivial
  | none =>
      refine .bind_quiet (parseModule hs path) fun tree t ht _ => ?_
      exact hc.evaluateModule ht.good path tree

/-! ## The evaluator -/

omit [Steady I] in
theorem exhausted : Calls.exhausted.Alike I Calls.exhausted where
  evaluate _ hs := .exhausted hs
  execute _ hs := .exhausted hs
  invoke _ _ hs _ := .exhausted hs
  resolveType _ _ hs := .exhausted hs
  copyConstruct hs _ _ := .exhausted hs
  defaultConstruct hs _ := .exhausted hs
  destroy hs _ := .exhausted hs
  loadModule _ _ hs := .exhausted hs
  rounds := rfl
  disciplined := Calls.Within.exhausted Engine.Disciplined.stable.toLocal

/-- Whoever watches an evaluation and acts on no good engine makes no
difference. -/
theorem watched {watch : Eval Unit}
    (hwatch : ∀ t : Engine, t.Good I → watch t = .ok () t) (fuel : Nat) :
    (Calls.watched watch fuel).Alike I (Calls.ofFuel fuel) := by
  induction fuel with
  | zero => exact exhausted
  | succ fuel ih =>
      exact
        { evaluate := fun node hs => .watched hwatch hs (ih.evaluateStep
          hs node)
          execute := fun node hs => .watched hwatch hs (ih.executeStep hs node)
          invoke := fun id _ hs hargs =>
            .watched hwatch hs (ih.invokeStep hs id hargs)
          resolveType := fun node scope hs =>
            .watched hwatch hs (ih.resolveTypeStep hs node scope)
          copyConstruct := fun hs hdst hsrc =>
            .watched hwatch hs (ih.copyConstructStep hs hdst hsrc)
          defaultConstruct := fun hs hplace =>
            .watched hwatch hs (ih.defaultConstructStep hs hplace)
          destroy :=
            fun hs hvalue => .watched hwatch hs (ih.destroyStep hs hvalue)
          loadModule := fun request importer hs =>
            .watched hwatch hs (ih.loadModuleStep hs request importer)
          rounds := rfl
          disciplined :=
            Calls.Within.ofFuel Engine.Disciplined.stable (fuel + 1) }

end Calls.Alike

end ArenaScript
