import ArenaScript.Proofs.Evaluation.Reachable

/-!
# Recursion without calls

The limit on calls counts frames that carry a call record, and the limit on the
arena counts bytes.  The frame in which a field is initialized has no call
record, and an object without fields, or with empty ones only, has no bytes.
A class of size zero one of whose initializers constructs an object of
that class therefore meets neither limit: its frames pile up without end.
-/

namespace ArenaScript

/-! ## Computations that stop -/

namespace Eval

variable {α β : Type} {Q : Stop → Prop} {s t : Engine}

def Stops (Q : Stop → Prop) (x : Eval α) (s : Engine) : Prop :=
  ∃ e t, x s = .error e t ∧ Q e

theorem Stops.bind {x : Eval α} (f : α → Eval β) (h : Stops Q x s) :
    Stops Q (x >>= f) s := by
  obtain ⟨e, t, hrun, he⟩ := h
  exact ⟨e, t, bind_error hrun, he⟩

theorem Stops.bind_ok {x : Eval α} {f : α → Eval β} {a : α} (hx : x s = .ok a t)
    (h : Stops Q (f a) t) : Stops Q (x >>= f) s := by
  obtain ⟨e, u, hrun, he⟩ := h
  exact ⟨e, u, (Eval.bind_ok hx).trans hrun, he⟩

theorem Stops.map {x : Eval α} (f : α → β) (h : Stops Q x s) :
    Stops Q (f <$> x) s := by
  obtain ⟨e, t, hrun, he⟩ := h
  exact ⟨e, t, by simp only [Functor.map, EStateM.map, hrun], he⟩

theorem Stops.bind_read {g : Engine → α} {f : α → Eval β}
    (h : Stops Q (f (g s)) s) : Stops Q (read g >>= f) s := h

theorem Stops.bind_inspect {g : Engine → Except Failure α}
    {f : α → Eval β} {a : α} (hg : g s = .ok a) (h : Stops Q (f a) s) :
    Stops Q (inspect g >>= f) s :=
  .bind_ok (by simp only [inspect, hg]) h

theorem Stops.onStop {x : Eval α} (g : Engine → Engine) (h : Stops Q x s) :
    Stops Q (Eval.onStop g x) s := by
  obtain ⟨e, t, hrun, he⟩ := h
  exact ⟨e, g t, onStop_error g hrun, he⟩

theorem Stops.withTree {x : Eval α} {tree : TreeId}
    (h : Stops Q x { s with currentTree := tree }) :
    Stops Q (Eval.withTree tree x) s := by
  obtain ⟨e, t, hrun, he⟩ := h
  exact ⟨e, { t with currentTree := s.currentTree },
    by simp only [Eval.withTree, hrun], he⟩

theorem Stops.withFrame {x : Eval α} {c : Calls} {scope : ScopeId}
    {kind : FrameKind} {call : Option CallRecord}
    (h : Stops Q x (s.pushed scope kind call)) :
    Stops Q (c.withFrame scope kind call x) s :=
  .bind_ok rfl (.bind_ok rfl (.bind _ (h.onStop _)))

theorem Stops.watched {x : Eval α} {watch : Eval Unit}
    (hbefore : watch s = .ok () s)
    (hafter : ∀ t, watch t = .ok () t ∨ Stops Q watch t) (h : Stops Q x s) :
    Stops Q (Eval.watched watch x) s := by
  obtain ⟨e, t, hrun, he⟩ := h
  refine .bind_ok hbefore ?_
  rcases hafter t with hok | ⟨e', u, herror, he'⟩
  · refine ⟨e, t, ?_, he⟩
    simp [tryFinally, MonadFinally.tryFinally', Functor.map, EStateM.map,
      hrun, hok]
  · refine ⟨e', u, ?_, he'⟩
    simp [tryFinally, MonadFinally.tryFinally', Functor.map, EStateM.map,
      hrun, herror]

end Eval

/-! ## Classes that construct themselves -/

def Node.isCallOf (node : Node) (name : String) : Bool :=
  node.kind == .expression &&
    match node.children with
    | [callee, call] =>
        callee.kind == .identifier && callee.text == name &&
          call.kind == .call &&
        call.children.isEmpty
    | _ => false

theorem Node.shape_of_isCallOf {node : Node} {name : String}
    (h : node.isCallOf name = true) :
    node.kind = .expression ∧ ∃ callee call, node.children = [callee, call] ∧
      callee.kind = .identifier ∧ callee.text = name ∧ call.kind = .call ∧
      call.children = [] := by
  unfold isCallOf at h
  obtain ⟨hkind, hchildren⟩ := (Bool.and_eq_true _ _).mp h
  refine ⟨beq_iff_eq.1 hkind, ?_⟩
  split at hchildren
  · rename_i callee call hlist
    simp only [Bool.and_eq_true, beq_iff_eq, List.isEmpty_iff] at hchildren
    obtain ⟨⟨⟨hcallee, hname⟩, hcall⟩, hargs⟩ := hchildren
    exact ⟨callee, call, hlist, hcallee, hname, hcall, hargs⟩
  · cases hchildren

def Frame.isSecluded (f : Frame) : Bool :=
  (f.kind == .function || f.kind.isRoot) && f.call.isNone

namespace Engine

theorem mem_visibleScopes {s : Engine} {id : ScopeId} :
    id ∈ s.visibleScopes ↔ ∃ f ∈ s.arena.frames,
      id ∈ s.scopes.closure f.scope := by
  simp only [visibleScopes, List.mem_eraseDups, List.mem_flatMap, List.mem_map]
  constructor
  · rintro ⟨_, ⟨f, hf, rfl⟩, hid⟩
    exact ⟨f, hf, hid⟩
  · rintro ⟨f, hf, hid⟩
    exact ⟨f.scope, ⟨f, hf, rfl⟩, hid⟩

theorem eraseDups_eq_singleton {α : Type} [BEq α] [LawfulBEq α] {a : α}
    {l : List α} (ha : a ∈ l) (hall : ∀ b ∈ l, b = a) : l.eraseDups = [a] := by
  cases l with
  | nil => cases ha
  | cons first rest =>
      obtain ⟨rfl, hrest⟩ := List.forall_mem_cons.1 hall
      have hnone : rest.filter (fun b => !b == first) = [] := by
        refine List.filter_eq_nil_iff.2 fun b hb => ?_
        simp [hrest b hb]
      rw [List.eraseDups_cons, hnone, List.eraseDups_nil]

/-- The class `type` has no bytes, its first field is initialized by a call of
its own name, and the name means nothing else, neither here nor in the class. -/
structure SelfMade (s : Engine) (name : String) (type : TypeId) : Prop where
  aggregate : (s.types.get type).aggregate = true
  notArray : (s.types.get type).array?.isNone = true
  empty : s.types.sizeOf type = 0
  initializer : ((s.classFields type).head?.bind Field.initializer).any
    (·.node.isCallOf name) = true
  room : s.arena.mark ≤ s.arena.capacity
  unbound : ∀ f ∈ s.arena.frames, f.local? name = none
  secluded : s.arena.top?.any Frame.isSecluded = true
  unambiguous : ∀ id ∈ s.scopes.closure
    (s.types.get type).members ++ s.visibleScopes,
    (s.scopes.get id).findFunction name = [] ∧
    ∀ t ∈ (s.scopes.get id).types.get? name, t = type
  visible : ∃ id ∈ s.visibleScopes, (s.scopes.get id).types.get? name =
    some type

namespace SelfMade

variable {s : Engine} {name : String} {type : TypeId}

theorem top (hs : s.SelfMade name type) : ∃ f rest, s.arena.frames = f :: rest ∧
    reachableFrames s.arena.frames = [f] ∧ f.call = none := by
  have hsecluded := hs.secluded
  unfold Arena.top? at hsecluded
  cases hframes : s.arena.frames with
  | nil =>
      rw [hframes] at hsecluded
      cases hsecluded
  | cons f rest =>
      rw [hframes] at hsecluded
      obtain ⟨hkind, hcall⟩ := (Bool.and_eq_true _ _).mp hsecluded
      refine ⟨f, rest, rfl, ?_, Option.isNone_iff_eq_none.1 hcall⟩
      rw [reachableFrames, if_pos hkind]

theorem localIn_eq_none (hs : s.SelfMade name type) {frames : List Frame}
    (hframes : frames ⊆ s.arena.frames) : localIn frames name = none := by
  refine List.findSome?_eq_none_iff.2 fun f hf => ?_
  rw [hs.unbound f (hframes hf)]
  rfl

theorem lookupVariable (hs : s.SelfMade name type) :
    s.lookupVariable name = .ok none := by
  obtain ⟨f, rest, hframes, hreachable, hcall⟩ := hs.top
  have hlocal : localIn [f] name = none :=
    hs.localIn_eq_none (by simp [hframes])
  have hglobal :=
    hs.localIn_eq_none (Closed.globalFrames_subset s s.currentScope)
  have hfield : s.fieldThroughSelf f name = .ok none := by
    unfold fieldThroughSelf
    rw [hcall]
    rfl
  unfold Engine.lookupVariable
  simp only [hreachable, hlocal, List.getLast?_singleton, hfield]
  exact congrArg Except.ok hglobal

theorem functionCandidates (hs : s.SelfMade name type) :
    s.functionCandidates name = [.constructor type] := by
  obtain ⟨home, hhome, hname⟩ := hs.visible
  refine eraseDups_eq_singleton
    (List.mem_flatMap.2 ⟨home, hhome, by simp [hname]⟩) ?_
  intro callee hcallee
  obtain ⟨id, hid, hmem⟩ := List.mem_flatMap.1 hcallee
  obtain ⟨hfunction, htype⟩ := hs.unambiguous id (List.mem_append_right _ hid)
  simp only [hfunction, List.map_nil, List.nil_append,
    Option.mem_toList] at hmem
  obtain ⟨t, ht, rfl⟩ := Option.map_eq_some_iff.1 hmem
  rw [htype t ht]

theorem of_frames (hs : s.SelfMade name type) {t : Engine}
    (htypes : t.types = s.types) (hscopes : t.scopes = s.scopes)
    (hroom : t.arena.mark ≤ t.arena.capacity)
    (hunbound : ∀ f ∈ t.arena.frames, f.local? name = none)
    (hsecluded : t.arena.top?.any Frame.isSecluded = true)
    (hold : ∀ f ∈ t.arena.frames, f.scope = (s.types.get type).members ∨
      ∃ g ∈ s.arena.frames, f.scope = g.scope)
    (hkept : ∀ g ∈ s.arena.frames, ∃ f ∈ t.arena.frames, f.scope = g.scope) :
    t.SelfMade name type where
  aggregate := htypes ▸ hs.aggregate
  notArray := htypes ▸ hs.notArray
  empty := htypes ▸ hs.empty
  initializer := by
    have hinitializer := hs.initializer
    unfold classFields at hinitializer ⊢
    rwa [htypes]
  room := hroom
  unbound := hunbound
  secluded := hsecluded
  unambiguous := by
    intro id hid
    rw [htypes, hscopes] at hid
    rw [hscopes]
    refine hs.unambiguous id (List.mem_append.2 ?_)
    rcases List.mem_append.1 hid with hid | hid
    · exact .inl hid
    · obtain ⟨f, hf, hid⟩ := mem_visibleScopes.1 hid
      rw [hscopes] at hid
      rcases hold f hf with hscope | ⟨g, hg, hscope⟩
      · exact .inl (hscope ▸ hid)
      · exact .inr (mem_visibleScopes.2 ⟨g, hg, hscope ▸ hid⟩)
  visible := by
    obtain ⟨id, hid, hname⟩ := hs.visible
    obtain ⟨g, hg, hclosure⟩ := mem_visibleScopes.1 hid
    obtain ⟨f, hf, hscope⟩ := hkept g hg
    refine ⟨id, mem_visibleScopes.2 ⟨f, hf, ?_⟩, ?_⟩
    · rwa [hscopes, hscope]
    · rwa [hscopes]

theorem allocate (hs : s.SelfMade name type) : ∃ t,
    Eval.allocate type s = .ok ⟨type, s.arena.mark⟩ t ∧ t.SelfMade name type ∧
      t.arena.depth = s.arena.depth := by
  obtain ⟨f, rest, hframes, -, -⟩ := hs.top
  have hrun : Arena.allocate s.types type none s.arena =
      .ok ⟨type, s.arena.mark⟩ (s.arena.claim s.types type []) := by
    rw [Arena.allocate_eq, if_pos (by rw [hs.empty]; exact hs.room), hs.empty]
    rfl
  have hclaimed : (s.arena.claim s.types type []).frames =
      { f with destructibles := ⟨type, s.arena.mark⟩ :: f.destructibles } ::
        rest := by
    rw [Arena.claim_frames, if_pos hs.aggregate, hframes]
    rfl
  refine ⟨{ s with arena := s.arena.claim s.types type [] },
    by simp only [Eval.allocate, Eval.onArena, hrun],
    hs.of_frames rfl rfl ?_ ?_ ?_ ?_ ?_, ?_⟩
  · rw [Arena.claim_mark, Arena.claim_capacity]
    exact hs.room
  · have hunbound := hs.unbound
    rw [hframes] at hunbound
    rw [hclaimed]
    exact List.forall_mem_cons.2 (List.forall_mem_cons.1 hunbound)
  · have hsecluded := hs.secluded
    unfold Arena.top? at hsecluded ⊢
    rw [hframes] at hsecluded
    rw [hclaimed]
    exact hsecluded
  · rw [hclaimed, hframes]
    exact List.forall_mem_cons.2 ⟨.inr ⟨f, List.mem_cons_self, rfl⟩,
      fun g hg => .inr ⟨g, List.mem_cons_of_mem _ hg, rfl⟩⟩
  · rw [hclaimed, hframes]
    exact List.forall_mem_cons.2 ⟨⟨_, List.mem_cons_self, rfl⟩,
      fun g hg => ⟨g, List.mem_cons_of_mem _ hg, rfl⟩⟩
  · simp only [Arena.depth, hclaimed, hframes, List.length_cons]

theorem pushed (hs : s.SelfMade name type) (tree : TreeId) :
    ({ s.pushed (s.types.get type).members .function none with
      currentTree := tree } : Engine).SelfMade name type := by
  refine hs.of_frames rfl rfl hs.room ?_ rfl ?_ ?_
  · exact List.forall_mem_cons.2 ⟨Bindings.get?_empty name, hs.unbound⟩
  · exact List.forall_mem_cons.2 ⟨.inl rfl, fun g hg => .inr ⟨g, hg, rfl⟩⟩
  · exact fun g hg => ⟨g, List.mem_cons_of_mem _ hg, rfl⟩

theorem firstField (hs : s.SelfMade name type) : ∃ field rest init,
    s.classFields type = field :: rest ∧ field.initializer = some init ∧
      init.node.isCallOf name = true := by
  have hinitializer := hs.initializer
  cases hfields : s.classFields type with
  | nil =>
      rw [hfields] at hinitializer
      cases hinitializer
  | cons field rest =>
      rw [hfields] at hinitializer
      cases hinit : field.initializer with
      | none =>
          simp [hinit] at hinitializer
      | some init =>
          simp only [List.head?_cons, Option.bind_some, hinit,
            Option.any_some] at hinitializer
          exact ⟨field, rest, init, rfl, hinit, hinitializer⟩

end SelfMade

end Engine

/-! ## One level -/

namespace Calls

open Eval (Stops)

variable {c : Calls} {Q : Stop → Prop} {s : Engine} {name : String}
  {type : TypeId} {node : Node}

theorem reduceCall_nil (c : Calls) {callee call : Node}
    (hcallee : callee.kind = .identifier) (hargs : call.children = []) :
    ∃ f : Option Value → Eval Operand,
      c.reduceCall (.pending callee) call =
        c.callNamed callee.text [] [] >>= f := by
  have hnamed : c.callOperand (.pending callee) [] =
      c.callNamed callee.text [] [] := by
    simp [callOperand, hcallee]
  unfold reduceCall
  rw [hargs, List.mapM_nil, pure_bind, hnamed]
  exact ⟨_, rfl⟩

theorem evaluateStep_isCallOf (c : Calls) (hnode : node.isCallOf name = true) :
    ∃ f : Option Value → Eval Value, c.evaluateStep node =
      c.callNamed name [] [] >>= f := by
  obtain ⟨hkind, callee, call, hlist, hcallee, rfl, hcall, hargs⟩ :=
    Node.shape_of_isCallOf hnode
  have hitems : Reduction.items Operand.pending node.children =
      .ok [.operand (.pending callee), .operator (.make call .trailing)] := by
    simp [hlist, Reduction.items, Reduction.itemsFrom, Reduction.classify,
      hcallee, hcall, NodeKind.isOperator, Except.map]
  have hstep :
      c.reduceStep (.trailing (.pending callee) (.make call .trailing)) =
      c.reduceCall (.pending callee) call := by
    simp [reduceStep, reduceTrailing, Operator.make, hcall]
  obtain ⟨f, hf⟩ := c.reduceCall_nil hcallee hargs
  have hreduce : Reduction.reduce c.reduceStep
      [.operand (.pending callee), .operator (.make call .trailing)] =
        (do let a ← c.callNamed callee.text [] [] >>= f; pure (.value a)) := by
    rw [← hf, ← hstep]
    rfl
  simp only [evaluateStep, hkind, beq_self_eq_true, if_true, reduceExpression,
    hitems, hreduce, bind_assoc]
  exact ⟨_, rfl⟩

theorem callNamed_stops (hs : s.SelfMade name type)
    (h : ∀ t place, t.SelfMade name type → t.arena.depth = s.arena.depth →
      place.type = type →
      Stops Q (c.defaultConstruct place) t) :
    Stops Q (c.callNamed name [] []) s := by
  obtain ⟨t, hallocate, ht, hdepth⟩ := hs.allocate
  have hconstruct : Stops Q (c.constructNew type []) s :=
    .bind_ok hallocate (.bind _ (h t _ ht hdepth rfl))
  refine .bind_inspect hs.lookupVariable (.bind_read ?_)
  simp only [hs.functionCandidates]
  exact .bind_ok (a := some (.constructor type)) (t := s) rfl
    (hconstruct.bind _)

theorem evaluateStep_stops (hs : s.SelfMade name type)
    (hnode : node.isCallOf name = true)
    (h : ∀ t place, t.SelfMade name type → t.arena.depth = s.arena.depth →
      place.type = type →
      Stops Q (c.defaultConstruct place) t) :
    Stops Q (c.evaluateStep node) s := by
  obtain ⟨f, hf⟩ := c.evaluateStep_isCallOf hnode
  rw [hf]
  exact (callNamed_stops hs h).bind f

theorem defaultConstructStep_stops (hs : s.SelfMade name type) {place : Value}
    (hplace : place.type = type)
    (h : ∀ t node, t.SelfMade name type → t.arena.depth = s.arena.depth + 1 →
      node.isCallOf name = true → Stops Q (c.evaluate node) t) :
    Stops Q (c.defaultConstructStep place) s := by
  subst hplace
  obtain ⟨field, rest, init, hfields, hinit, hcall⟩ := hs.firstField
  have hframe :
      Stops Q (c.initField (s.types.get place.type).members place field) s := by
    unfold initField
    rw [hinit]
    exact .withFrame
      (.bind _ (.withTree (h _ init.node (hs.pushed init.tree) rfl hcall)))
  have hfieldsStop : Stops Q (c.initFields place) s := by
    refine .bind_read (.bind_read ?_)
    simp only [hfields]
    exact hframe.bind _
  refine .bind_read ?_
  simp only [hs.aggregate, if_true]
  refine .bind_ok (a := none) (t := s) ?_ (hfieldsStop.bind _)
  simp only [elementsOf, Eval.read, Option.isNone_iff_eq_none.1 hs.notArray,
    Option.map_none]

/-! ## All levels -/

/-- With any fuel the levels go on until there is none left. -/
theorem ofFuel_stops (name : String) (type : TypeId) (fuel : Nat) :
    (∀ (s : Engine) (node : Node), s.SelfMade name type →
      node.isCallOf name = true →
      Stops (· = .outOfFuel) ((ofFuel fuel).evaluate node) s) ∧
    ∀ (s : Engine) (place : Value), s.SelfMade name type → place.type = type →
      Stops (· = .outOfFuel) ((ofFuel fuel).defaultConstruct place) s := by
  induction fuel with
  | zero =>
      exact ⟨fun s _ _ _ => ⟨_, s, rfl, rfl⟩, fun s _ _ _ => ⟨_, s, rfl, rfl⟩⟩
  | succ fuel ih =>
      refine ⟨fun s node hs hnode => ?_, fun s place hs hplace => ?_⟩
      · exact evaluateStep_stops hs hnode fun t place ht _ => ih.2 t place ht
      · exact defaultConstructStep_stops hs hplace fun t node ht _ =>
          ih.1 t node ht

def guardDepth (bound : Nat) : Eval Unit := fun s =>
  if bound < s.arena.depth then .error (.failed (.callDepthExceeded bound)) s
    else .ok () s

theorem guardDepth_cases (bound : Nat) (s : Engine) :
    guardDepth bound s = .ok () s ∧ s.arena.depth ≤ bound ∨
      Stops (· ≠ .outOfFuel) (guardDepth bound) s := by
  by_cases hdeep : bound < s.arena.depth
  · exact .inr ⟨_, s, if_pos hdeep, Stop.noConfusion⟩
  · exact .inl ⟨if_neg hdeep, Nat.not_lt.1 hdeep⟩

theorem watched_stops (name : String) (type : TypeId) (bound fuel : Nat) :
    (∀ (s : Engine) (node : Node), s.SelfMade name type →
      node.isCallOf name = true →
      2 * (bound + 1 - s.arena.depth) < fuel →
        Stops (· ≠ .outOfFuel)
          ((watched (guardDepth bound) fuel).evaluate node) s) ∧
    ∀ (s : Engine) (place : Value), s.SelfMade name type → place.type = type →
      2 * (bound + 1 - s.arena.depth) ≤ fuel → 0 < fuel →
        Stops (· ≠ .outOfFuel)
          ((watched (guardDepth bound) fuel).defaultConstruct place) s := by
  have hafter : ∀ t, guardDepth bound t = .ok () t ∨
      Stops (· ≠ .outOfFuel) (guardDepth bound) t :=
    fun t => (guardDepth_cases bound t).imp_left And.left
  induction fuel with
  | zero => exact ⟨fun _ _ _ _ h => by omega, fun _ _ _ _ _ h => by omega⟩
  | succ fuel ih =>
      refine ⟨fun s node hs hnode hfuel => ?_,
        fun s place hs hplace hfuel _ => ?_⟩
      · rcases guardDepth_cases bound s with ⟨hbefore, hdepth⟩ | hstop
        · refine .watched hbefore hafter (evaluateStep_stops hs hnode ?_)
          exact fun t place ht hsame hplace =>
            ih.2 t place ht hplace (by omega) (by omega)
        · exact hstop.bind _
      · rcases guardDepth_cases bound s with ⟨hbefore, hdepth⟩ | hstop
        · refine .watched hbefore hafter
            (defaultConstructStep_stops hs hplace ?_)
          exact fun t node ht hnext hnode => ih.1 t node ht hnode (by omega)
        · exact hstop.bind _

end Calls

/-! ## Main statement -/

theorem Request.evaluate_stops {c : Calls} {Q : Stop → Prop} {s : Engine}
    {tree : SyntaxTree} {node : Node} (hkind : node.kind = .expression)
    (h : Eval.Stops Q (c.evaluate node) { s with currentTree := tree.id }) :
    Eval.Stops Q ((evaluate tree node).perform c) s := by
  refine .map _ (.bind_read (.onStop _ (.withTree ?_)))
  rw [hkind]
  exact h.map some

/-- Whatever the limits are, they never stop a class that constructs itself, and
no number bounds the frames that are live at one time. -/
theorem Engine.SelfMade.outgrows_limits {s : Engine} {name : String}
    {type : TypeId} (hs : s.SelfMade name type) (tree : SyntaxTree)
    {node : Node} (hnode : node.isCallOf name = true) :
    (∀ fuel, ∃ t, (Request.evaluate tree node).perform (Calls.ofFuel fuel) s =
      .error .outOfFuel t) ∧
    ∀ bound, ∃ fuel, Calls.Meets (fun t => bound < t.arena.depth) fuel
      (Request.evaluate tree node).perform s := by
  have hstart :
      ({ s with currentTree := tree.id } : Engine).SelfMade name type :=
    { hs with }
  have hkind := (Node.shape_of_isCallOf hnode).1
  have hplain : ∀ fuel, ∃ t,
      (Request.evaluate tree node).perform (Calls.ofFuel fuel) s =
      .error .outOfFuel t := by
    intro fuel
    obtain ⟨e, t, hrun, rfl⟩ := Request.evaluate_stops hkind
      ((Calls.ofFuel_stops name type fuel).1 _ node hstart hnode)
    exact ⟨t, hrun⟩
  -- If all engines had few frames, nobody who waits for more could make a
  -- difference.
  refine ⟨hplain, fun bound => ⟨2 * (bound + 1) + 1, fun hthroughout => ?_⟩⟩
  have hsame := hthroughout (Calls.guardDepth bound) fun t ht => if_neg ht
  obtain ⟨e, t, hwatched, he⟩ := Request.evaluate_stops hkind
    ((Calls.watched_stops name type bound (2 * (bound + 1) + 1)).1 _ node hstart
      hnode (by omega))
  obtain ⟨u, hrun⟩ := hplain (2 * (bound + 1) + 1)
  rw [hsame, hrun] at hwatched
  cases hwatched
  exact he rfl

namespace Runaway

def leaf (kind : NodeKind) (text : String) : Node := ⟨kind, text, .dummy, 0, []⟩

/-- `A()`. -/
def creation : Node :=
  ⟨.expression, "", .dummy, 0, [leaf .identifier "A", leaf .call ""]⟩

def emptyClass : Node := leaf .classDecl "E"

/-- `class A { e : E = A() }`. -/
def selfMadeClass : Node :=
  ⟨.classDecl, "A", .dummy, 0,
    [⟨.variableDefinition, "e", .dummy, 0, [leaf .typeName "E", creation]⟩]⟩

def engine : Engine :=
  ((Request.item selfMadeClass).perform (Calls.ofFuel 20)).after
    (((Request.item emptyClass).perform (Calls.ofFuel 20)).after
      (.new { stackCapacity := 64, maxCallDepth := 0 } ⟨.buffer, ""⟩ none []))

def request : Request := .evaluate ⟨⟨3⟩, creation⟩ creation

end Runaway

open Runaway in
/-- Although no call is allowed, the frames of a reachable engine outgrow every
bound. -/
theorem Engine.SelfMade.outgrows_limits_engine :
    Reachable engine ∧ engine.maxCallDepth = 0 ∧ engine.SelfMade "A" ⟨16⟩ ∧
      creation.isCallOf "A" = true ∧
      (∀ fuel, ∃ t, request.perform (Calls.ofFuel fuel) engine =
        .error .outOfFuel t) ∧
      ∀ bound, ∃ fuel,
        Calls.Meets (fun t => bound < t.arena.depth) fuel request.perform
          engine := by
  have hengine : Reachable engine :=
    .after 20 (.item selfMadeClass)
      (.after 20 (.item emptyClass) (.new _ _ _ _ (by decide)) trivial) trivial
  have hcall : creation.isCallOf "A" = true := by decide
  have hself : engine.SelfMade "A" ⟨16⟩ :=
    { aggregate := by decide +kernel
      notArray := by decide +kernel
      empty := by decide +kernel
      initializer := by decide +kernel
      room := by decide +kernel
      unbound := by decide +kernel
      secluded := by decide +kernel
      unambiguous := by decide +kernel
      visible := by decide +kernel }
  exact ⟨hengine, by decide +kernel, hself, hcall,
    outgrows_limits hself _ hcall⟩

end ArenaScript
