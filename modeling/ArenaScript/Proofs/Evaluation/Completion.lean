import ArenaScript.Proofs.Evaluation.Instances
import ArenaScript.Proofs.Types.Extents

/-!
# Declarations that succeed are complete

A class or an enumeration is registered before its members are known, so that
they may refer back to it.  Whoever succeeds leaves no such shell behind: as
long as no evaluation has failed every type is complete, and an instance of
a class template has the fields of its body, each of the type that its
declaration stands for where the parameters stand for the arguments.  A failure
leaves the shell under the name of the instance, and from then on it is found
there.
-/

namespace ArenaScript

open Eval (Within Composable)

/-! ## Evaluations that leave nothing half-done -/

namespace Engine

structure Preserves (s t : Engine) : Prop where
  types : s.types.Grown t.types
  scopes : s.scopes.Keeps t.scopes

namespace Preserves

theorem composable : Composable Preserves where
  refl _ := ⟨.refl _, .refl _⟩
  trans hst htu := ⟨hst.types.trans htu.types, hst.scopes.trans htu.scopes⟩

theorem of_same {s t : Engine} (htypes : t.types = s.types)
    (hscopes : t.scopes = s.scopes) : s.Preserves t :=
  ⟨htypes ▸ .refl _, hscopes ▸ .refl _⟩

theorem arena (s : Engine) (a : Arena) : s.Preserves { s with arena := a } :=
  .of_same rfl rfl

end Preserves

end Engine

open Engine (Preserves)

namespace Eval

variable {α β : Type} {x : Eval α}

/-- Old types and scopes are preserved in any case, and what succeeds leaves no
new shell. -/
structure Tidy (x : Eval α) : Prop where
  preserves : Within Preserves x
  fills : ∀ s a t, x s = .ok a t → s.types.NoNewShell t.types

namespace Tidy

theorem of_same (htypes : ∀ s, (x.after s).types = s.types)
    (hscopes : ∀ s, (x.after s).scopes = s.scopes) : Tidy x where
  preserves s := .of_same (htypes s) (hscopes s)
  fills s a t hrun := by
    have hsame := htypes s
    rw [after_ok hrun] at hsame
    rw [hsame]
    exact .refl _

theorem pure (a : α) : Tidy (Pure.pure a) :=
  .of_same (fun _ => rfl) fun _ => rfl

theorem read (f : Engine → α) : Tidy (Eval.read f) :=
  .of_same (fun _ => rfl) fun _ => rfl

theorem fail (e : Failure) : Tidy (Eval.fail e : Eval α) :=
  .of_same (fun _ => rfl) fun _ => rfl

theorem inspect (f : Engine → Except Failure α) : Tidy (Eval.inspect f) := by
  have hsame : ∀ s, (Eval.inspect f).after s = s := by
    intro s
    simp only [after, Eval.inspect]
    cases f s <;> rfl
  exact .of_same (fun s => by rw [hsame]) fun s => by rw [hsame]

theorem updateArena (f : Arena → Arena) : Tidy (Eval.updateArena f) :=
  .of_same (fun _ => rfl) fun _ => rfl

theorem bind {f : α → Eval β} (hx : Tidy x) (hf : ∀ a, Tidy (f a)) :
    Tidy (x >>= f) where
  preserves := Preserves.composable.bind hx.preserves fun a => (hf a).preserves
  fills s b u hrun := by
    obtain ⟨a, t, hfirst, hrest⟩ := bind_eq_ok hrun
    exact (hx.fills s a t hfirst).trans ((hf a).fills t b u hrest)

theorem map (f : α → β) (hx : Tidy x) : Tidy (f <$> x) := by
  rw [map_eq_pure_bind]
  exact hx.bind fun a => pure (f a)

theorem forM {f : α → Eval Unit} (hf : ∀ a, Tidy (f a)) (l : List α) :
    Tidy (l.forM f) := by
  induction l with
  | nil => exact pure ()
  | cons a l ih => exact bind (hf a) fun _ => ih

theorem atomic (hx : Atomic x) : Tidy x where
  preserves s := by
    rcases hx.alters_after s with hsame | ⟨-, htame⟩
    · rw [hsame]
      exact Preserves.composable.refl s
    · exact ⟨htame.types, htame.scopes⟩
  fills s a t hrun := by
    have halters := hx.alters_after s
    rw [after_ok hrun] at halters
    rcases halters with rfl | ⟨-, htame⟩
    · exact .refl _
    · exact htame.shells

theorem mapFailure (f : Engine → Failure → Failure) (hx : Tidy x) :
    Tidy (Eval.mapFailure f x) where
  preserves s := by
    rw [after_mapFailure]
    exact hx.preserves s
  fills s a t hrun := by
    refine hx.fills s a t ?_
    unfold Eval.mapFailure at hrun
    split at hrun
    · rename_i hx
      rwa [hx]
    · cases hrun
    · cases hrun

theorem onStop {g : Engine → Engine} (hx : Tidy x)
    (hg : ∀ s : Engine, s.Preserves (g s)) : Tidy (Eval.onStop g x) where
  preserves := Preserves.composable.onStop hx.preserves hg
  fills s a t hrun := hx.fills s a t (onStop_eq_ok hrun)

theorem withTree (id : TreeId) (hx : Tidy x) : Tidy (Eval.withTree id x) where
  preserves s := by
    rw [after_withTree]
    have hinner := hx.preserves { s with currentTree := id }
    exact ⟨hinner.types, hinner.scopes⟩
  fills s a t hrun := by
    obtain ⟨u, hinner, rfl⟩ := withTree_eq_ok hrun
    have hfilled := hx.fills _ _ _ hinner
    exact hfilled

theorem deeper (hx : Tidy x) : Tidy (Calls.deeper x) where
  preserves s := by
    rw [Calls.after_deeper]
    have hinner := hx.preserves { s with callDepth := s.callDepth + 1 }
    exact ⟨hinner.types, hinner.scopes⟩
  fills s a t hrun := by
    unfold Calls.deeper at hrun
    split at hrun
    · rename_i hinner
      cases hrun
      have hfilled := hx.fills _ _ _ hinner
      exact hfilled
    · cases hrun

theorem threading : Threading fun x _ => Tidy x where
  read := read
  updateArena f _ := updateArena f
  onStop _ hx := onStop hx fun s => Preserves.arena s _
  bind := bind

end Tidy

end Eval

/-! ## Declared types -/

namespace Eval

inductive TypeDeclared (name : String) (kind : StructKind) (scope : ScopeId)
    (x : TypeId → Eval (List Field × List (String × Int64))) (s : Engine) :
    EStateM.Result Stop Engine TypeId → Prop
  /-- The name is in use. -/
  | refused {e : Failure}
      (hregister : s.types.register name (.shell kind) scope = .error e) :
      TypeDeclared name kind scope x s (.error (.failed e) s)
  | interrupted {type : TypeId} {types : TypeTable} {e : Stop} {t : Engine}
      (hregister : s.types.register name (.shell kind) scope =
        .ok (type, types)) (hmembers : x type { s with types } = .error e t) :
      TypeDeclared name kind scope x s (.error e t)
  | unsized {type : TypeId} {types : TypeTable} {fields : List Field}
      {variants : List (String × Int64)} {e : Failure} {t : Engine}
      (hregister : s.types.register name (.shell kind) scope =
        .ok (type, types))
      (hmembers : x type { s with types } = .ok (fields, variants) t)
      (hcomplete : t.types.complete type fields variants = .error e) :
      TypeDeclared name kind scope x s (.error (.failed e) t)
  | done {type : TypeId} {types types' : TypeTable} {fields : List Field}
      {variants : List (String × Int64)} {t : Engine}
      (hregister : s.types.register name (.shell kind) scope =
        .ok (type, types))
      (hmembers : x type { s with types } = .ok (fields, variants) t)
      (hcomplete : t.types.complete type fields variants = .ok types') :
      TypeDeclared name kind scope x s (.ok type { t with types := types' })

theorem declareType_declared (name : String) (kind : StructKind)
    (scope : ScopeId) (x : TypeId → Eval (List Field × List (String × Int64)))
    (s : Engine) :
    TypeDeclared name kind scope x s (declareType name kind scope x s) := by
  unfold declareType
  cases hregister : s.types.register name (.shell kind) scope with
  | error e =>
      have hrun : registerShell name kind scope s = .error (.failed e) s := by
        simp only [registerShell, hregister]
      rw [bind_error hrun]
      exact .refused hregister
  | ok result =>
      obtain ⟨type, types⟩ := result
      have hrun : registerShell name kind scope s =
          .ok type { s with types } := by
        simp only [registerShell, hregister]
      rw [bind_ok hrun]
      cases hmembers : x type { s with types } with
      | error e t =>
          rw [bind_error hmembers]
          exact .interrupted hregister hmembers
      | ok members t =>
          obtain ⟨fields, variants⟩ := members
          rw [bind_ok hmembers]
          cases hcomplete : t.types.complete type fields variants with
          | error e =>
              have hstop : completeType type fields variants t =
                  .error (.failed e) t := by
                simp only [completeType, hcomplete]
              rw [bind_error hstop]
              exact .unsized hregister hmembers hcomplete
          | ok types' =>
              have hdone : completeType type fields variants t =
                  .ok () { t with types := types' } := by
                simp only [completeType, hcomplete]
              rw [bind_ok hdone]
              exact .done hregister hmembers hcomplete

theorem register_preserves {name : String} {body : Structural}
    {members : ScopeId} {type : TypeId} {types : TypeTable} {s : Engine}
    (h : s.types.register name body members = .ok (type, types)) :
    s.Preserves { s with types } := by
  obtain ⟨-, -, e, -, -, rfl⟩ := TypeTable.register_eq_ok h
  exact ⟨.push s.types e, .refl _⟩

theorem Tidy.declareType
    {x : TypeId → Eval (List Field × List (String × Int64))}
    (hx : ∀ type, Tidy (x type)) (name : String) (kind : StructKind)
    (scope : ScopeId) : Tidy (Eval.declareType name kind scope x) where
  preserves s := by
    have hR := Preserves.composable
    have hdeclared := declareType_declared name kind scope x s
    unfold after
    generalize Eval.declareType name kind scope x s = result at hdeclared
    cases hdeclared with
    | refused hregister => exact hR.refl s
    | interrupted hregister hmembers =>
        exact hR.trans (register_preserves hregister)
          ((hx _).preserves.of_error hmembers)
    | unsized hregister hmembers hcomplete =>
        exact hR.trans (register_preserves hregister)
          ((hx _).preserves.of_ok hmembers)
    | done hregister hmembers hcomplete =>
        have hold :=
          hR.trans (register_preserves hregister)
            ((hx _).preserves.of_ok hmembers)
        obtain ⟨rfl, -⟩ := TypeTable.register_eq_ok hregister
        exact ⟨hold.types.complete (Nat.le_refl _) hcomplete, hold.scopes⟩
  fills s type t hrun := by
    have hdeclared := declareType_declared name kind scope x s
    rw [hrun] at hdeclared
    cases hdeclared with
    | done hregister hmembers hcomplete =>
        obtain ⟨hfilled, hdone⟩ := TypeTable.complete_noNewShell hcomplete
        intro other hother
        by_cases heq : other = type
        · rwa [heq]
        · have hregistered := TypeTable.register_noNewShell hregister heq hother
          exact hfilled other ((hx type).fills _ _ _ hmembers other hregistered)

end Eval

/-! ## The evaluator -/

open Eval (Tidy)

def Congruence.tidy : Congruence := Uniform.congruence {
  World := Unit
  inTree _ _ := ()
  Rel _ x _ := Tidy x
  Code _ _ := True
  code_child _ _ := trivial
  atomic hx := .atomic hx
  bind hx hf := hx.bind hf
  withTree id hx := hx.withTree id
  deeper hx := hx.deeper
  withFrame {_ _ x _ c _} _ _ _ _ hdestroy hx :=
    Eval.Tidy.threading.withFrame (d := c) (y := x) hdestroy (.updateArena _) hx
  shell name kind scope hx := .declareType hx name kind scope
  function _ h := .bind (.read _) fun f => h () f fun _ _ _ _ => trivial
  template _ h := .bind (.read _) fun d => h () d trivial
  addFunction _ _ := .bind (.read _) fun _ => .of_same (fun _ => rfl)
    fun _ => rfl
  addTemplate _ _ := .of_same (fun _ => rfl) fun _ => rfl }

theorem Congruence.tidy_mapsFailures : Congruence.tidy.MapsFailures :=
  fun _ hx => hx.mapFailure _

theorem Eval.Tidy.of_kept {α : Type} {x : Eval α}
    (h : ∀ w, Congruence.tidy.Keeps w x) : Tidy x :=
  h ()

structure Calls.Tidy (c : Calls) : Prop extends c.Matched .tidy c where
  loadModule : ∀ request importer, Eval.Tidy (c.loadModule request importer)

namespace Calls.Tidy

variable {c : Calls}

theorem link (scope other : ScopeId) :
    Eval.Tidy (Eval.updateScope scope (·.addImport other)) :=
  .of_kept fun _ => Congruence.tidy.link scope trivial

theorem executeImport (hc : c.Tidy) (node : Node) :
    Eval.Tidy (c.executeImport node) :=
  .of_kept fun _ =>
    Paired.executeImport hc.loadModule (fun _ => Tidy.fail _) node

theorem preload (hc : c.Tidy) (path : String) (scope : ScopeId)
    (root node : Node) : Eval.Tidy (c.preload path scope root node) := by
  unfold Calls.preload
  refine .bind ((hc.loadModule node.text (some path)).mapFailure _)
    fun dep => ?_
  split
  · exact .bind (.read _) fun depScope => Tidy.link scope depScope
  · exact .pure ()

theorem addModule (path : String) (tree : TreeId) :
    Eval.Tidy (Eval.addModule path tree) := by
  unfold Eval.addModule
  refine .bind (.atomic (.createScope _ _)) fun scope => ?_
  exact .bind (.of_same (fun _ => rfl) fun _ => rfl) fun id => .pure _

theorem evaluateModule (hc : c.Tidy) (path : String) (tree : SyntaxTree) :
    Eval.Tidy (c.evaluateModule path tree) := by
  unfold Calls.evaluateModule
  refine .bind (.read _) fun found => ?_
  cases found with
  | some id => exact .pure id
  | none =>
      refine .bind (addModule path tree.id) fun entered => ?_
      refine .bind (.forM (hc.preload path entered.2 tree.root) _) fun _ => ?_
      refine .bind (.updateArena _) fun _ => ?_
      refine .bind (.withTree tree.id (.of_kept fun _ => ?_)) fun _ =>
        .pure entered.1
      exact hc.executeAll fun _ _ => trivial

theorem parseModule (path : String) : Eval.Tidy (Eval.parseModule path) :=
  .bind (.inspect _) fun _ => .of_same (fun _ => rfl) fun _ => rfl

theorem loadModuleStep (hc : c.Tidy) (request : String)
    (importer : Option String) :
    Eval.Tidy (c.loadModuleStep request importer) := by
  unfold Calls.loadModuleStep
  refine .bind (.inspect _) fun path => .bind (.read _) fun found => ?_
  cases found with
  | some id => exact .pure id
  | none =>
      exact .bind (parseModule path) fun tree => hc.evaluateModule path tree

theorem ofFuel (fuel : Nat) : (Calls.ofFuel fuel).Tidy := by
  induction fuel with
  | zero =>
      exact ⟨.exhausted .tidy, fun _ _ => .of_kept fun _ =>
        Congruence.tidy.exhausted⟩
  | succ fuel ih =>
      rw [ofFuel_succ]
      exact
        { ih.toPaired.above ih.invokeStep _ _ fuel fuel with
          rounds := rfl
          execute := fun _ =>
            ih.executeStep Congruence.tidy_mapsFailures trivial fun _ =>
              ih.executeImport _
          loadModule := ih.loadModuleStep }

/-! ### Requests -/

theorem shutdown (hc : c.Tidy) : Eval.Tidy c.shutdown :=
  Eval.Tidy.threading.popFramesTo (d := c)
    (fun v => .of_kept fun _ => hc.destroy v) 0

theorem run (hc : c.Tidy) (tree : SyntaxTree) (node : Node) :
    Eval.Tidy (c.run tree node) := by
  unfold Calls.run
  refine .bind (.read _) fun depth => ?_
  refine .onStop (.withTree tree.id ?_) fun s => .arena s _
  split
  · exact .map some (.of_kept fun _ => hc.evaluate node)
  · exact .bind (.of_kept fun _ => hc.execute trivial) fun _ => .pure none

theorem runItem (hc : c.Tidy) (node : Node) : Eval.Tidy (c.runItem node) := by
  unfold Calls.runItem
  refine .bind (.of_same (fun _ => rfl) fun _ => rfl) fun tree => ?_
  cases tree.root.children with
  | nil => exact .pure none
  | cons node rest => exact hc.run tree node

theorem tryRun (hc : c.Tidy) (settings : Settings) :
    Eval.Tidy (Program.tryRun c settings) := by
  have hexit : ∀ code : Int32,
      Eval.Tidy (do c.shutdown; pure code) := fun code =>
    .bind hc.shutdown fun _ => .pure code
  unfold Program.tryRun
  refine .bind (.inspect _) fun path => .bind (parseModule path) fun tree => ?_
  refine .bind (hc.evaluateModule path tree) fun id =>
    .bind (.inspect _) fun entry => ?_
  refine .bind (.of_kept fun _ => hc.invoke entry []) fun result => ?_
  cases result with
  | some value => exact .bind (.inspect _) hexit
  | none => exact hexit 0

end Calls.Tidy

namespace Request

def attempt : Request → Calls → Eval Unit
  | .program settings, c => (fun _ => ()) <$> Program.tryRun c settings
  | request, c => request.perform c

theorem attempt_tidy {c : Calls} (hc : c.Tidy) (request : Request) :
    Tidy (request.attempt c) := by
  cases request with
  | evaluate tree node => exact .map _ (hc.run tree node)
  | item node => exact .map _ (hc.runItem node)
  | call id args => exact .map _ (.of_kept fun _ => hc.invoke id args)
  | load request importer => exact .map _ (hc.loadModule request importer)
  | enter path tree => exact .map _ (hc.evaluateModule path tree)
  | program settings => exact .map _ (hc.tryRun settings)
  | shutdown => exact hc.shutdown

theorem perform_of_attempt {c : Calls} {request : Request} {s t : Engine}
    (h : request.attempt c s = .ok () t) : request.perform c s = .ok () t := by
  cases request with
  | program settings =>
      simp only [attempt, Functor.map, EStateM.map] at h
      split at h
      · rename_i hrun
        cases h
        simp only [perform, Functor.map, EStateM.map, Program.run, hrun]
      · cases h
  | _ => exact h

theorem perform_preserves {c : Calls} (hc : c.Tidy) (request : Request) :
    Within Preserves (request.perform c) := by
  intro s
  have hattempt := (attempt_tidy hc request).preserves s
  cases request with
  | program settings =>
      simp only [attempt, perform, Eval.after_map] at hattempt ⊢
      cases hrun : Program.tryRun c settings s with
      | ok code t =>
          rw [Eval.after_ok hrun] at hattempt
          simpa only [Eval.after, Program.run, hrun] using hattempt
      | error e t =>
          rw [Eval.after_error hrun] at hattempt
          cases e with
          | failed e =>
              simp only [Eval.after, Program.run, hrun]
              exact Preserves.composable.trans hattempt (.arena t _)
          | outOfFuel =>
              simpa only [Eval.after, Program.run, hrun] using hattempt
  | _ => exact hattempt

end Request

/-! ## Engines without shells -/

namespace TypeTable

variable {t u : TypeTable}

/-- No type is without its members. -/
def Whole (t : TypeTable) : Prop := ∀ id, (t.get id).isComplete

theorem NoNewShell.whole (h : t.NoNewShell u) (ht : t.Whole) : u.Whole :=
  fun id => h id (ht id)

theorem whole_empty : (⟨#[]⟩ : TypeTable).Whole := by
  intro id
  have hnone : ¬ (⟨#[]⟩ : TypeTable).Has id := Nat.not_lt_zero _
  rw [get_of_not_has hnone]
  rfl

theorem builtin_whole (scopes : ScopeTable) : (builtin scopes).1.Whole := by
  have hfold : ∀ (entries : List (String × Shape × Nat)) (t : TypeTable)
      (scopes : ScopeTable),
      (∀ entry ∈ entries, ∀ body, entry.2.1 ≠ .structural body) → t.Whole →
        (entries.foldl addEntry (t, scopes)).1.Whole := by
    intro entries
    induction entries with
    | nil => exact fun _ _ _ ht => ht
    | cons entry rest ih =>
        intro t scopes hplain ht
        obtain ⟨hentry, hrest⟩ := List.forall_mem_cons.1 hplain
        refine ih _ _ hrest (NoNewShell.whole (.push t ?_) ht)
        unfold TypeEntry.isComplete
        split
        · rename_i body hbody
          exact absurd hbody (hentry body)
        · rfl
  rw [builtin_eq]
  refine hfold _ _ _ ?_ whole_empty
  intro entry hentry body
  simp only [builtins, List.mem_append, List.mem_map] at hentry
  rcases hentry with ⟨k, -, rfl⟩ | ⟨k, -, rfl⟩ <;> simp

end TypeTable

inductive Unbroken : Engine → Prop
  | new (limits : Limits) (sink : Sink) (source : Option ModuleSource)
      (searchPaths : List String) (h : limits.stackCapacity < Word.modulus) :
      Unbroken (.new limits sink source searchPaths)
  | after {s t : Engine} (fuel : Nat) (request : Request) (hs : Unbroken s)
      (hrequest : s.Knows request)
      (hrun : request.attempt (Calls.ofFuel fuel) s = .ok () t) :
      Unbroken t

namespace Unbroken

variable {s : Engine}

theorem reachable (hs : Unbroken s) : Reachable s := by
  induction hs with
  | new limits sink source searchPaths h =>
      exact .new limits sink source searchPaths h
  | after fuel request _ hrequest hrun ih =>
      have hnext := ih.after fuel request hrequest
      rwa [Eval.after_ok (Request.perform_of_attempt hrun)] at hnext

/-- Shells are left by failures only. -/
theorem whole (hs : Unbroken s) : s.types.Whole := by
  induction hs with
  | new limits sink source searchPaths h => exact TypeTable.builtin_whole .empty
  | after fuel request _ _ hrun ih =>
      have htidy := Request.attempt_tidy (.ofFuel fuel) request
      exact (htidy.fills _ _ _ hrun).whole ih

end Unbroken

end ArenaScript
