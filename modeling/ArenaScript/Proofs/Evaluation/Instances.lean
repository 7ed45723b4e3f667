import Mathlib.Data.List.Basic
import ArenaScript.Proofs.Evaluation.Reachable
import ArenaScript.Proofs.Types.Identity
import ArenaScript.Proofs.Types.Legible

/-!
# Instances of class templates

An instance of a class template is a type, and types are found by their names.
The name of an instance consists of the name of the template and those of the
arguments, so the instance is the same for the same template and arguments, at
whatever time it is asked for, but also for another template of the same name.
-/

namespace ArenaScript

namespace Engine

variable {s t u : Engine}

/-- The engines that `s` may become, whatever is evaluated. -/
inductive Later (s : Engine) : Engine → Prop
  | refl : Later s s
  | move {t u : Engine} (h : Later s t) (hmove : t.Move u) : Later s u
  | place {t : Engine} (h : Later s t) (arena : Arena) (tree : TreeId)
      (depth : Nat) :
      Later s { t with arena, currentTree := tree, callDepth := depth }
  | enter {t : Engine} (h : Later s t) (path : String) (tree : TreeId) :
      Later s ((Eval.addModule path tree).after t)

namespace Later

theorem trans (hst : s.Later t) (htu : t.Later u) : s.Later u := by
  induction htu with
  | refl => exact hst
  | move _ hmove ih => exact ih.move hmove
  | place _ arena tree depth ih => exact ih.place arena tree depth
  | enter _ path tree ih => exact ih.enter path tree

theorem composable : Eval.Composable Later := ⟨fun _ => .refl, trans⟩

theorem arena (s : Engine) (a : Arena) : s.Later { s with arena := a } :=
  .place .refl a s.currentTree s.callDepth

/-- Whatever is evaluated, the engine becomes a later one. -/
theorem stable : Eval.Stable fun s t => s.Advances t ∧ s.Later t where
  refl s := ⟨Advances.composable.refl s, .refl⟩
  trans hst htu := ⟨hst.1.trans htu.1, hst.2.trans htu.2⟩
  move h := ⟨Advances.stable.move h, .move .refl h⟩
  root h := h.1.disciplined.atRoot
  tree id hx s := by
    refine ⟨Advances.withTree id (fun s => (hx s).1) s, ?_⟩
    rw [Eval.after_withTree]
    have hstart : s.Later { s with currentTree := id } :=
      .place .refl s.arena id s.callDepth
    have hinner := hstart.trans (hx _).2
    exact .place hinner _ s.currentTree _
  call hx s := by
    refine ⟨Advances.deeper (fun s => (hx s).1) s, ?_⟩
    rw [Calls.after_deeper]
    have hstart : s.Later { s with callDepth := s.callDepth + 1 } :=
      .place .refl s.arena s.currentTree _
    have hinner := hstart.trans (hx _).2
    exact .place hinner _ _ _
  frame {_ x c} scope kind record hkind hdestroy hx s := by
    refine ⟨Advances.withFrame scope record hkind (fun v s => (hdestroy v s).1)
      (fun s => (hx s).1) s, ?_⟩
    exact (composable.threading arena).withFrame (d := c) (y := x)
      (fun v s => (hdestroy v s).2)
      (.updateArena arena (·.pushFrame scope kind record)) (fun s => (hx s).2) s
  enter {s} path tree hs :=
    ⟨Advances.stable.enter path tree hs, .enter .refl path tree⟩
  start {s t u} path scope tree hs hst htu := by
    refine ⟨Advances.stable.start path scope tree hs hst.1 htu.1, ?_⟩
    have hbegin : s.Later (t.beginModule scope tree) :=
      .place ((Later.enter .refl path tree).trans hst.2) _ tree t.callDepth
    exact .place (hbegin.trans htu.2) _ t.currentTree _

/-! ## What a later engine keeps -/

theorem types_of_move (h : s.Move t) : s.types.Extends t.types ∧
    (s.types.DistinctNames → t.types.DistinctNames) := by
  have hsame : ∀ {u : TypeTable}, s.types.Extends u ∧ u.size = s.types.size →
      s.types.Extends u ∧ (s.types.DistinctNames → u.DistinctNames) :=
    fun hu => ⟨hu.1, fun hs => hs.of_same hu.1 hu.2⟩
  have hpush : ∀ (e : TypeEntry), s.types.findByName? e.name = none →
      s.types.Extends (s.types.push e).2 ∧
        (s.types.DistinctNames → (s.types.push e).2.DistinctNames) :=
    fun e hnew => ⟨.push _ e, fun hs => hs.push hnew⟩
  cases h with
  | instantiate h =>
      rcases TypeTable.findOrCreate_cases h with ⟨-, rfl, -, -⟩ |
        ⟨-, hnew, -, e, hname, -, rfl⟩
      · exact hsame ⟨.refl _, rfl⟩
      · exact hpush e (by rw [hname]; exact hnew)
  | registerShell h =>
      obtain ⟨-, hnew, e, hname, -, rfl⟩ := TypeTable.register_eq_ok h
      exact hpush e (by rw [hname]; exact hnew)
  | completeType h => exact hsame (TypeTable.complete_extends h)
  | setOrigin type template args =>
      exact hsame (s.types.setOrigin_extends type template args)
  | markInitialized type => exact hsame (s.types.markInitialized_extends type)
  | _ => exact hsame ⟨.refl _, rfl⟩

theorem types (h : s.Later t) : s.types.Extends t.types := by
  induction h with
  | refl => exact .refl _
  | move _ hmove ih => exact ih.trans (types_of_move hmove).1
  | place _ _ _ _ ih => exact ih
  | enter _ _ _ ih => exact ih

theorem distinct (h : s.Later t) (hs : s.types.DistinctNames) :
    t.types.DistinctNames := by
  induction h with
  | refl => exact hs
  | move _ hmove ih => exact (types_of_move hmove).2 ih
  | place _ _ _ _ ih => exact ih
  | enter _ _ _ ih => exact ih

theorem templates (h : s.Later t) :
    s.templates.defs.toList <+: t.templates.defs.toList := by
  induction h with
  | refl => exact List.prefix_rfl
  | move _ hmove ih =>
      refine ih.trans ?_
      cases hmove with
      | addTemplate d => exact ⟨[d], by simp [TemplateTable.add]⟩
      | _ => exact List.prefix_rfl
  | place _ _ _ _ ih => exact ih
  | enter _ _ _ ih => exact ih

theorem template (h : s.Later t) {id : TemplateId}
    (hid : id.index < s.templates.defs.size) :
    t.templates.get id = s.templates.get id := by
  obtain ⟨added, hadded⟩ := h.templates
  have hget : t.templates.defs[id.index]? = s.templates.defs[id.index]? := by
    rw [← Array.getElem?_toList, ← Array.getElem?_toList, ← hadded,
      List.getElem?_append_left]
    simpa using hid
  simp only [TemplateTable.get, Array.getD_eq_getD_getElem?, hget]

theorem renderInstance (h : s.Later t) (d : TemplateDef)
    {args : List TemplateArg} (hargs : s.types.HasArgs args) :
    t.renderInstance d args = s.renderInstance d args := by
  simp only [Engine.renderInstance, h.types.renderArgs hargs]

end Later

end Engine

/-! ## Requests -/

namespace Calls.Within

open Engine (Advances Later)

variable {c : Calls}

theorem later {α : Type} {x : Eval α}
    (hx : Eval.Within (fun s t => s.Advances t ∧ s.Later t) x) :
    Eval.Within Later x :=
  fun s => (hx s).2

theorem shutdown_later (hc : c.Within fun s t => s.Advances t ∧ s.Later t) :
    Eval.Within Later c.shutdown :=
  (Later.composable.threading Later.arena).popFramesTo (d := c)
    (fun v => later (hc.destroy v)) 0

theorem run_later (hc : c.Within fun s t => s.Advances t ∧ s.Later t)
    (tree : SyntaxTree) (node : Node) :
    Eval.Within Later (c.run tree node) := by
  have hR := Later.stable.toLocal
  unfold Calls.run
  refine Later.composable.bind (Later.composable.read _) fun depth => ?_
  refine Later.composable.onStop (later (hR.tree tree.id ?_)) fun s =>
    Later.arena s _
  split
  · exact (hc.evaluate node).map some
  · exact hR.bind (hc.execute node) fun _ => hR.pure none

theorem runItem_later (hc : c.Within fun s t => s.Advances t ∧ s.Later t)
    (node : Node) : Eval.Within Later (c.runItem node) := by
  unfold Calls.runItem
  refine Later.composable.bind (fun s => .move .refl .adoptTree) fun tree => ?_
  cases tree.root.children with
  | nil => exact Later.composable.pure none
  | cons node rest => exact hc.run_later tree node

theorem tryRun_later (hc : c.Within fun s t => s.Advances t ∧ s.Later t)
    (settings : Settings) {s : Engine} (hs : s.atRoot = true) :
    s.Later ((Program.tryRun c settings).after s) := by
  have hR := Later.composable
  have hS := Later.stable.toLocal
  have hexit : ∀ code : Int32,
      Eval.Within Later (do c.shutdown; pure code) := fun code =>
    hR.bind hc.shutdown_later fun _ => hR.pure code
  unfold Program.tryRun
  have hfound := hS.inspect (fun s => s.findModulePath settings.entry none)
  refine hR.bind_at (hfound s).2 fun path t ht => ?_
  have hparsed := Plain.parseModule hS path
  refine hR.bind_at (hparsed t).2 fun tree u hu => ?_
  have hroot : u.atRoot = true := by
    rw [hS.root (hparsed.of_ok hu), hS.root (hfound.of_ok ht), hs]
  refine hR.bind_at (hc.evaluateModule_at Later.stable path tree hroot).2
    fun id v _ => ?_
  refine hR.bind (hR.inspect _) (fun entry => ?_) v
  refine hR.bind (later (hc.invoke entry [])) fun result => ?_
  cases result with
  | some value => exact hR.bind (hR.inspect _) hexit
  | none => exact hexit 0

theorem runProgram_later (hc : c.Within fun s t => s.Advances t ∧ s.Later t)
    (settings : Settings) {s : Engine} (hs : s.atRoot = true) :
    s.Later ((Program.run c settings).after s) := by
  have h := hc.tryRun_later settings hs
  cases hrun : Program.tryRun c settings s with
  | ok code t =>
      rw [Eval.after_ok hrun] at h
      simpa only [Eval.after, Program.run, hrun] using h
  | error e t =>
      rw [Eval.after_error hrun] at h
      cases e with
      | failed e =>
          simp only [Eval.after, Program.run, hrun]
          exact h.trans (Later.arena t _)
      | outOfFuel => simpa only [Eval.after, Program.run, hrun] using h

theorem perform_later (hc : c.Within fun s t => s.Advances t ∧ s.Later t)
    (request : Request) {s : Engine} (hs : s.atRoot = true) :
    s.Later ((request.perform c).after s) := by
  cases request with
  | evaluate tree node => exact (hc.run_later tree node).map _ s
  | item node => exact (hc.runItem_later node).map _ s
  | call id args => exact (later (hc.invoke id args)).map _ s
  | load request importer =>
      simp only [Request.perform, Eval.after_map]
      exact (hc.loadModule request importer s hs).2
  | enter path tree =>
      simp only [Request.perform, Eval.after_map]
      exact (hc.evaluateModule_at Later.stable path tree hs).2
  | program settings =>
      simp only [Request.perform, Eval.after_map]
      exact hc.runProgram_later settings hs
  | shutdown => exact hc.shutdown_later s

end Calls.Within

theorem Reachable.distinct {s : Engine} (hs : Reachable s) :
    s.types.DistinctNames := by
  induction hs with
  | new limits sink source searchPaths h =>
      exact (TypeTable.builtin_wellNamed .empty).distinct
  | after fuel request hs hrequest ih =>
      exact ((Calls.Within.ofFuel Engine.Later.stable fuel).perform_later
        request hs.rooted.1.atRoot).distinct ih

/-! ## Instances -/

def TemplateDef.structKind (d : TemplateDef) : StructKind :=
  match d.item with
  | .record kind => kind
  | .function _ => .classKind

namespace Calls

open Engine (Later)

variable {c : Calls}

theorem registerShell_named {name : String} {kind : StructKind}
    {members : ScopeId} {type : TypeId} {s t : Engine}
    (h : Eval.registerShell name kind members s = .ok type t) :
    t.types.Has type ∧ t.types.name type = name := by
  unfold Eval.registerShell at h
  split at h
  · rename_i id types hregister
    cases h
    obtain ⟨rfl, -, e, rfl, -, rfl⟩ := TypeTable.register_eq_ok hregister
    exact ⟨TypeTable.has_push.2 (.inr rfl), TypeTable.name_push_new _ e⟩
  · cases h

theorem defineClass_named (hc : c.Within fun s t => s.Advances t ∧ s.Later t)
    {node : Node} {scope classScope : ScopeId} {name : String}
    {kind : StructKind} {origin : Option (TemplateId × List TemplateArg)}
    {type : TypeId} {s t : Engine}
    (h : c.defineClass node scope classScope name kind origin s = .ok type t) :
    t.types.Has type ∧ t.types.name type = name := by
  have hR := Later.stable.toLocal
  unfold defineClass at h
  obtain ⟨shell, s₁, hshell, h⟩ := Eval.bind_eq_ok h
  obtain ⟨_, s₂, hannounce, h⟩ := Eval.bind_eq_ok h
  obtain ⟨_, s₃, howner, h⟩ := Eval.bind_eq_ok h
  obtain ⟨fields, s₄, hfields, h⟩ := Eval.bind_eq_ok h
  obtain ⟨_, s₅, hcomplete, h⟩ := Eval.bind_eq_ok h
  obtain ⟨_, s₆, hmethods, h⟩ := Eval.bind_eq_ok h
  cases h
  have hlater : s₁.Later t := by
    have hcalls := hc.paired hR
    have step : ∀ {α : Type} {x y : Eval α} {a : α} {u v : Engine},
        (∀ tree, (Congruence.within hR).Rel tree x y) → x u = .ok a v →
        u.Later v :=
      fun hx hrun => (Eval.Within.of_ok (.of_related hx) hrun).2
    refine (step (fun _ => Paired.announce _ node scope type origin)
      hannounce).trans ?_
    refine (step (fun _ => Paired.setOwner _ classScope type) howner).trans ?_
    refine (step (fun _ => Congruence.mapM _ (hcalls.buildField classScope) _)
      hfields).trans ?_
    refine ((hR.completeType type fields []).of_ok hcomplete).2.trans ?_
    exact step (fun _ => Congruence.forM _ (fun child =>
      hcalls.defineFunction trivial trivial (some type)) _) hmethods
  obtain ⟨hhas, hname⟩ := registerShell_named hshell
  exact ⟨hlater.types.has hhas, (hlater.types.name hhas).trans hname⟩

theorem instantiateClass_known (c : Calls) {template : TemplateId}
    {args : List TemplateArg} {type : TypeId} {s : Engine}
    (h : s.types.findByName?
      (s.renderInstance (s.templates.get template) args) = some type) :
    c.instantiateClass template args s = .ok type s := by
  unfold instantiateClass
  rw [Eval.bind_read, Eval.bind_read, Eval.bind_read, h]
  rfl

section

variable {template : TemplateId} {args : List TemplateArg} {s : Engine}

/-- An instance that is not known is declared in scopes of its own. -/
theorem instantiateClass_new (c : Calls) (hnew : s.types.findByName?
      (s.renderInstance (s.templates.get template) args) = none)
    (htakes : (s.templates.get template).takes args = true) :
    c.instantiateClass template args s =
      Eval.withTree (s.templates.get template).tree
        (c.defineClass (s.templates.get template).node ⟨s.scopes.size⟩
          ⟨s.scopes.size + 1⟩ (s.renderInstance (s.templates.get template) args)
          (s.templates.get template).structKind (some (template, args)))
        { s with
          scopes :=
            s.scopes.openInstance (s.templates.get template) args
              .classBody } := by
  unfold instantiateClass
  rw [Eval.bind_read, Eval.bind_read, Eval.bind_read, hnew]
  simp only
  rw [Eval.bind_ok (Eval.bindTemplateScope_ok htakes s)]
  have hcreate : Eval.createScope .classBody (some ⟨s.scopes.size⟩)
      { s with
        scopes := s.scopes.bindTemplate (s.templates.get template) args } =
      .ok ⟨s.scopes.size + 1⟩
        { s with
          scopes :=
            s.scopes.openInstance (s.templates.get template) args
              .classBody } := by
    rw [← ScopeTable.size_bindTemplate s.scopes (s.templates.get template) args]
    rfl
  rw [Eval.bind_ok hcreate]
  rfl

theorem instantiateClass_refused (hnew : s.types.findByName?
      (s.renderInstance (s.templates.get template) args) = none)
    (hrefused : (s.templates.get template).takes args = false) :
    ∃ e, ∀ c : Calls, c.instantiateClass template args s =
      .error (.failed e) s := by
  generalize hd : s.templates.get template = d at hnew hrefused
  refine ⟨(Failure.unknownType (s.renderInstance d args)).withHint
    (quoted d.name ++ " takes " ++ toString d.params.length ++
      " template argument(s)"),
    fun c => ?_⟩
  unfold instantiateClass
  rw [Eval.bind_read, hd, Eval.bind_read, Eval.bind_read, hnew]
  simp only
  rw [Eval.bind_error (Eval.bindTemplateScope_error hrefused s)]

end

theorem instantiateClass_named
    (hc : c.Within fun s t => s.Advances t ∧ s.Later t) {template : TemplateId}
    {args : List TemplateArg} {type : TypeId} {s t : Engine}
    (h : c.instantiateClass template args s = .ok type t) :
    t.types.Has type ∧
    t.types.name type = s.renderInstance (s.templates.get template) args := by
  cases hfound :
    s.types.findByName? (s.renderInstance (s.templates.get template) args) with
  | some known =>
      rw [instantiateClass_known c hfound] at h
      cases h
      exact TypeTable.findByName?_eq_some hfound
  | none =>
      unfold instantiateClass at h
      rw [Eval.bind_read, Eval.bind_read, Eval.bind_read, hfound] at h
      obtain ⟨scope, s₁, -, h⟩ := Eval.bind_eq_ok h
      obtain ⟨classScope, s₂, -, h⟩ := Eval.bind_eq_ok h
      obtain ⟨u, hdefine, rfl⟩ := Eval.withTree_eq_ok h
      have hnamed := defineClass_named hc hdefine
      exact hnamed

end Calls

namespace Engine

variable {r s t u v : Engine} {template template' : TemplateId}
  {args args' : List TemplateArg} {type type' : TypeId}

/-- From `s` the instance of the template for the arguments is `type`, and the
engine becomes `t`. -/
structure Instantiates (s : Engine) (template : TemplateId)
    (args : List TemplateArg) (type : TypeId) (t : Engine) : Prop where
  hasTemplate : template.index < s.templates.defs.size
  hasArgs : s.types.HasArgs args
  run : ∃ fuel, (Calls.ofFuel fuel).instantiateClass template args s =
    .ok type t

namespace Instantiates

theorem later (h : s.Instantiates template args type t) : s.Later t := by
  obtain ⟨fuel, hrun⟩ := h.run
  have hc := Calls.Within.ofFuel Later.stable fuel
  have hcalls := hc.paired Later.stable.toLocal
  exact (Eval.Within.of_ok
    (.of_related fun _ => hcalls.instantiateClass template args) hrun).2

theorem named (h : s.Instantiates template args type t) : t.types.Has type ∧
    t.types.name type = s.renderInstance (s.templates.get template) args := by
  obtain ⟨fuel, hrun⟩ := h.run
  exact Calls.instantiateClass_named (.ofFuel Later.stable fuel) hrun

end Instantiates

/-- The name of an instance can be taken apart if the name of the template has
no bracket. -/
theorem renderInstance_inj (hs : s.types.DistinctNames) (hl : s.types.Legible)
    {d d' : TemplateDef} (hd : '<' ∉ d.name.toList) (hd' : '<' ∉ d'.name.toList)
    (hargs : s.types.HasArgs args) (hargs' : s.types.HasArgs args')
    (h : s.renderInstance d args = s.renderInstance d' args') :
    d.name = d'.name ∧ args = args' := by
  have hlist := congrArg String.toList h
  simp only [renderInstance, String.toList_append, List.append_assoc] at hlist
  obtain ⟨hname, htail⟩ := append_bracket_inj hd hd' hlist
  have htext : s.types.renderArgs args = s.types.renderArgs args' :=
    String.toList_inj.1 (List.append_cancel_right htail)
  exact ⟨String.toList_inj.1 hname,
    TypeTable.renderArgs_inj hs hl hargs hargs' htext⟩

structure SharedByName (s : Engine) (template : TemplateId)
    (args : List TemplateArg) (type : TypeId) (u : Engine)
    (template' : TemplateId) (args' : List TemplateArg) (type' : TypeId)
    (v : Engine) : Prop where
  /-- Instances are one type if they have one name. -/
  iff_name : type = type' ↔ s.renderInstance (s.templates.get template) args =
    u.renderInstance (u.templates.get template') args'
  same : template = template' → args = args' → type = type'
  /-- An instance that is shared is not declared again, whatever the second
  template says. -/
  unchanged : type = type' → v = u
  /-- If names can be read back, only templates of one name share instances, and
  only those for the same arguments. -/
  iff_template : v.types.Legible →
    '<' ∉ (s.templates.get template).name.toList →
    '<' ∉ (u.templates.get template').name.toList →
      (type = type' ↔ (s.templates.get template).name =
        (u.templates.get template').name ∧
        args = args')

/-- Instances are found by their names, and this settles which of them are one
type, whenever the second one is asked for. -/
theorem instances_by_name (hr : Reachable r) (hs : r.Later s)
    (h : s.Instantiates template args type t) (hu : t.Later u)
    (h' : u.Instantiates template' args' type' v) :
    s.SharedByName template args type u template' args' type' v := by
  obtain ⟨hhas, hname⟩ := h.named
  obtain ⟨hhas', hname'⟩ := h'.named
  have hsu : s.Later u := h.later.trans hu
  have huv : u.Later v := h'.later
  have hdistinct : u.types.DistinctNames := (hs.trans hsu).distinct hr.distinct
  have hhasu : u.types.Has type := hu.types.has hhas
  have hnameu : u.types.name type =
      s.renderInstance (s.templates.get template) args :=
    (hu.types.name hhas).trans hname
  have hnamev : v.types.name type =
      s.renderInstance (s.templates.get template) args :=
    (huv.types.name hhasu).trans hnameu
  -- Both types are there in `v`, where no two types have one name.
  have hiff : type = type' ↔ s.renderInstance (s.templates.get template) args =
      u.renderInstance (u.templates.get template') args' := by
    rw [← hnamev, ← hname']
    constructor
    · rintro rfl
      rfl
    · exact huv.distinct hdistinct type type' (huv.types.has hhasu) hhas'
  refine ⟨hiff, fun htemplate hargs => ?_, fun htype => ?_, fun hl hd hd' => ?_⟩
  · subst htemplate hargs
    rw [hiff, hsu.renderInstance _ h.hasArgs, hsu.template h.hasTemplate]
  · obtain ⟨fuel, hrun⟩ := h'.run
    have hfound := TypeTable.findByName?_name hdistinct hhasu
    rw [hnameu, hiff.1 htype] at hfound
    rw [Calls.instantiateClass_known _ hfound] at hrun
    cases hrun
    rfl
  · have hrender : s.renderInstance (s.templates.get template) args =
        v.renderInstance (s.templates.get template) args :=
      ((hsu.trans huv).renderInstance _ h.hasArgs).symm
    have hrender' : u.renderInstance (u.templates.get template') args' =
        v.renderInstance (u.templates.get template') args' :=
      (huv.renderInstance _ h'.hasArgs).symm
    rw [hiff, hrender, hrender']
    constructor
    · exact renderInstance_inj (huv.distinct hdistinct) hl hd hd'
        ((hsu.trans huv).types.hasArgs h.hasArgs) (huv.types.hasArgs h'.hasArgs)
    · rintro ⟨hnames, rfl⟩
      simp only [renderInstance, hnames]

/-! ### Two templates of one name -/

namespace Boxes

def leaf (kind : NodeKind) (text : String) : Node := ⟨kind, text, .dummy, 0, []⟩

/-- A block with a class template `Box<T>` whose fields are of type `T`. -/
def box (fields : List String) : Node :=
  ⟨.block, "", .dummy, 0,
    [⟨.classDecl, "Box", .dummy, 0,
      ⟨.templateParameters, "", .dummy, 0, [leaf .templateParameter "T"]⟩ ::
        fields.map fun field =>
          ⟨.variableDefinition, field, .dummy, 0, [leaf .typeName "T"]⟩⟩]⟩

def engine : Engine :=
  ((Request.item (box ["a", "b"])).perform (Calls.ofFuel 20)).after
    (((Request.item (box ["a"])).perform (Calls.ofFuel 20)).after
      (.new { stackCapacity := 64 } ⟨.buffer, ""⟩ none []))

theorem reachable : Reachable engine :=
  .after 20 (.item (box ["a", "b"]))
    (.after 20 (.item (box ["a"])) (.new _ _ _ _ (by decide)) trivial) trivial

def instantiate (template : Nat) (arg : TypeId) : Eval TypeId :=
  (Calls.ofFuel 20).instantiateClass ⟨template⟩ [.type arg]

def instantiated : Engine := (instantiate 0 .int32).after engine

theorem instantiates {s : Engine} {template : Nat} {arg type : TypeId}
    (htemplate : template < s.templates.defs.size) (harg : s.types.Has arg)
    (hrun : (instantiate template arg).value? s = some type) :
    s.Instantiates ⟨template⟩ [.type arg] type
      ((instantiate template arg).after s) where
  hasTemplate := htemplate
  hasArgs := Registry.hasArgs_single harg
  run := ⟨20, Eval.eq_ok_of_value? hrun⟩

theorem instantiates_first :
    engine.Instantiates ⟨0⟩ [.type .int32] ⟨15⟩ instantiated :=
  instantiates (by decide +kernel) (by decide +kernel) (by decide +kernel)

end Boxes

open Boxes in
theorem instances_by_name_boxes :
    Reachable engine ∧
    engine.Instantiates ⟨0⟩ [.type .int32] ⟨15⟩ instantiated ∧
      instantiated.Instantiates ⟨1⟩ [.type .int64] ⟨16⟩
        ((instantiate 1 .int64).after instantiated) ∧
      engine.SharedByName ⟨0⟩ [.type .int32] ⟨15⟩ instantiated ⟨1⟩
        [.type .int64] ⟨16⟩ ((instantiate 1 .int64).after instantiated) := by
  have hsecond : instantiated.Instantiates ⟨1⟩ [.type .int64] ⟨16⟩ _ :=
    instantiates (by decide +kernel) (by decide +kernel) (by decide +kernel)
  exact ⟨reachable, instantiates_first, hsecond,
    instances_by_name reachable .refl instantiates_first .refl hsecond⟩

open Boxes in
/-- The instance of the second template is that of the first, without the field
`b`. -/
theorem instance_shared :
    Reachable engine ∧
    engine.Instantiates ⟨0⟩ [.type .int32] ⟨15⟩ instantiated ∧
      instantiated.Instantiates ⟨1⟩ [.type .int32] ⟨15⟩
        ((instantiate 1 .int32).after instantiated) ∧
      (⟨0⟩ : TemplateId) ≠ ⟨1⟩ ∧
      (instantiated.templates.get ⟨1⟩).node.children.length = 3 ∧
      (((instantiate 1 .int32).after instantiated).classFields ⟨15⟩).map
        Field.name = ["a"] :=
  ⟨reachable, instantiates_first,
    instantiates (by decide +kernel) (by decide +kernel) (by decide +kernel),
    by decide, by decide +kernel, by decide +kernel⟩

end Engine

end ArenaScript
