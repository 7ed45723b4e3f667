import ArenaScript.Proofs.Evaluation.Reachable
import ArenaScript.Proofs.Modules.Silence

/-!
# Modules and their frames

A module is entered in the table first, with a scope that nothing else has, and
gets its frame after its imports have been loaded.  So no module ever has two
frames, and as long as every request succeeds, or fails without entering a
module, each module of the table has its frame.  A request that fails later on
leaves modules in the table that have no frame, and these count as loaded.
-/

namespace ArenaScript

open Engine (Advances Silent)
open Eval (Ends Graded)

namespace Engine

variable {s t u : Engine} {b : Bool} {front back : List ModuleEntry}

/-! ## Entering modules -/

structure Adds (s t : Engine) (added : List ModuleEntry) : Prop where
  entries : t.entries = s.entries ++ added
  lower : ∀ e ∈ added, s.scopes.size ≤ e.scope.index
  upper : ∀ e ∈ added, e.scope.index < t.scopes.size
  distinct : (added.map ModuleEntry.scope).Nodup

theorem Adds.none (h : t.entries = s.entries) : s.Adds t [] := by
  constructor <;> simp [h]

theorem Adds.fresh (h : s.Adds t front) {old : List ModuleEntry}
    (hold : ∀ e ∈ old, e.scope.index < s.scopes.size) :
    ∀ p ∈ old.map ModuleEntry.scope, ∀ q ∈ front.map ModuleEntry.scope,
      p ≠ q := by
  intro p hp q hq heq
  obtain ⟨e, he, rfl⟩ := List.mem_map.1 hp
  obtain ⟨f, hf, rfl⟩ := List.mem_map.1 hq
  have hupper := hold e he
  have hlower := h.lower f hf
  rw [heq] at hupper
  omega

theorem Adds.trans (hst : s.Adds t front) (htu : t.Adds u back)
    (hs : s.scopes.size ≤ t.scopes.size) (ht : t.scopes.size ≤ u.scopes.size) :
    s.Adds u (front ++ back) where
  entries := by rw [htu.entries, hst.entries, List.append_assoc]
  lower e he := by
    rcases List.mem_append.1 he with he | he
    · exact hst.lower e he
    · exact Nat.le_trans hs (htu.lower e he)
  upper e he := by
    rcases List.mem_append.1 he with he | he
    · exact Nat.lt_of_lt_of_le (hst.upper e he) ht
    · exact htu.upper e he
  distinct := by
    rw [List.map_append, List.nodup_append]
    exact ⟨hst.distinct, htu.distinct, htu.fresh hst.upper⟩

theorem Adds.entered (h : s.Adds t front) :
    t.entered = s.entered + front.length := by
  have hlength := congrArg List.length h.entries
  rw [List.length_append] at hlength
  exact hlength

theorem Adds.addModule (s : Engine) (path : String) (tree : TreeId) :
    s.Adds ((Eval.addModule path tree).after s) [s.entryFor path tree] := by
  have hsize : ((Eval.addModule path tree).after s).scopes.size =
      s.scopes.size + 1 :=
    ScopeTable.size_create _ _ _
  refine ⟨entries_addModule s path tree, ?_, ?_, by simp⟩
  · simp [entryFor]
  · simp [entryFor, hsize]

def framesOf (s : Engine) (scope : ScopeId) : Nat := s.moduleScopes.count scope

structure Installs (s : Engine) (b : Bool) (t : Engine)
    (added : List ModuleEntry) : Prop where
  grown : s.Extends t
  adds : s.Adds t added
  quiet : added = [] → t.moduleScopes = s.moduleScopes
  atMost : ∀ scope,
    t.framesOf scope ≤ (added.map ModuleEntry.scope).count scope +
      s.framesOf scope
  complete : b = true → ∀ scope,
    t.framesOf scope = (added.map ModuleEntry.scope).count scope +
      s.framesOf scope

namespace Installs

theorem silent (b : Bool) (h : s.Silent t) : s.Installs b t [] where
  grown := h.grown
  adds := .none h.entries
  quiet _ := h.moduleScopes
  atMost scope := by simp [framesOf, h.moduleScopes]
  complete _ scope := by simp [framesOf, h.moduleScopes]

theorem trans (hst : s.Installs true t front) (htu : t.Installs b u back) :
    s.Installs b u (front ++ back) where
  grown := hst.grown.trans htu.grown
  adds := hst.adds.trans htu.adds hst.grown.scopes htu.grown.scopes
  quiet hnone := by
    obtain ⟨hfront, hback⟩ := List.append_eq_nil_iff.1 hnone
    rw [htu.quiet hback, hst.quiet hfront]
  atMost scope := by
    have hfirst := hst.complete rfl scope
    have hsecond := htu.atMost scope
    rw [List.map_append, List.count_append]
    omega
  complete hb scope := by
    have hfirst := hst.complete rfl scope
    have hsecond := htu.complete hb scope
    rw [List.map_append, List.count_append]
    omega

theorem graded : Graded fun s b t => ∃ added, s.Installs b t added where
  silent b h := ⟨[], silent b h⟩
  trans := fun ⟨_, hst⟩ ⟨_, htu⟩ => ⟨_, hst.trans htu⟩

section Entering

variable {path : String} {tree : TreeId}

theorem interrupted
    (h : ((Eval.addModule path tree).after s).Installs false t back) :
    ∃ added, s.Installs false t added := by
  have hgrown := Extends.addModule s path tree
  refine ⟨_, hgrown.trans h.grown,
    (Adds.addModule s path tree).trans h.adds hgrown.scopes
    h.grown.scopes, fun hnone => (by cases hnone), fun scope => ?_, fun hb => by
      cases hb⟩
  have hrest := h.atMost scope
  have hsame : ((Eval.addModule path tree).after s).framesOf scope =
      s.framesOf scope := rfl
  rw [List.map_append, List.count_append]
  omega

theorem started
    (hst : ((Eval.addModule path tree).after s).Installs true t front)
    (htu : (t.beginModule ⟨s.scopes.size⟩ tree).Installs b u back)
    (current : TreeId) :
    ∃ added, s.Installs b { u with currentTree := current } added := by
  have hgrown := (Extends.addModule s path tree).trans hst.grown
  have hadds :=
    (Adds.addModule s path tree).trans hst.adds
      (Extends.addModule s path tree).scopes
    hst.grown.scopes
  -- The frame makes up for the module itself, which has been in the table
  -- without one.
  have hbegin : s.Extends (t.beginModule ⟨s.scopes.size⟩ tree) :=
    { hgrown with }
  have hrest : t.Adds { u with currentTree := current } back :=
    { htu.adds with }
  have hcount : ∀ scope, (t.beginModule ⟨s.scopes.size⟩ tree).framesOf scope =
      (([s.entryFor path tree] ++ front).map ModuleEntry.scope).count scope +
        s.framesOf scope := by
    intro scope
    have hpreloads := hst.complete rfl scope
    have hsame : ((Eval.addModule path tree).after s).framesOf scope =
        s.framesOf scope := rfl
    have hframes : (t.beginModule ⟨s.scopes.size⟩ tree).moduleScopes =
        [s.entryFor path tree].map ModuleEntry.scope ++ t.moduleScopes := rfl
    rw [framesOf, hframes, List.map_append, List.count_append,
      List.count_append, ← framesOf]
    omega
  refine ⟨_, { hbegin.trans htu.grown with },
    hadds.trans hrest hgrown.scopes htu.grown.scopes, fun hnone =>
      (by cases hnone),
    fun scope => ?_, fun hb scope => ?_⟩
  · have hcode := htu.atMost scope
    have hstart := hcount scope
    have hsame : Engine.framesOf { u with currentTree := current } scope =
        u.framesOf scope := rfl
    rw [List.map_append, List.count_append]
    omega
  · have hcode := htu.complete hb scope
    have hstart := hcount scope
    have hsame : Engine.framesOf { u with currentTree := current } scope =
        u.framesOf scope := rfl
    rw [List.map_append, List.count_append]
    omega

end Entering

end Installs

end Engine

/-! ## Evaluations -/

abbrev Eval.Orderly {α : Type} (x : Eval α) (s : Engine) : Prop :=
  Ends (fun s b t => ∃ added, s.Installs b t added) x s

namespace Calls.Discreet

open Engine (Installs)
open Eval (Orderly)

variable {c : Calls} {s : Engine}

theorem executeAll_orderly (hexecute : ∀ node s, Orderly (c.execute node) s)
    (nodes : List Node) (s : Engine) : Orderly (c.executeAll nodes) s := by
  have hQ := Installs.graded
  induction nodes generalizing s with
  | nil => exact .of_silent hQ (Silent.composable.refl s)
  | cons node rest ih =>
      refine .bind hQ (hexecute node s) fun flow t _ => ?_
      cases flow with
      | normal => exact ih t
      | _ => exact .of_silent hQ (Silent.composable.refl t)

theorem preloads_orderly (hc : c.Discreet)
    (hload : ∀ request importer s, s.atRoot = true →
      Orderly (c.loadModule request importer) s)
    (path : String) (scope : ScopeId) (root : Node) (nodes : List Node)
    (hs : s.atRoot = true) :
    Orderly (nodes.forM (c.preload path scope root)) s := by
  have hQ := Installs.graded
  have hR := Silent.isLocal
  induction nodes generalizing s with
  | nil => exact .of_silent hQ (hR.refl s)
  | cons node rest ih =>
      refine .bind hQ ?_ fun _ t ht => ih ?_
      · refine .bind hQ (.mapFailure _ (hload node.text (some path) s hs))
          fun dep t _ => ?_
        split
        · refine .of_silent hQ (hR.bind (hR.read _) (fun depScope => ?_) t)
          exact hR.modify fun _ => .addImport scope depScope
        · exact .of_silent hQ (hR.refl t)
      · have hroot :=
          hc.advances.preload_at Advances.stable.toLocal path scope root node hs
        rw [Eval.after_ok ht] at hroot
        rw [hroot.disciplined.atRoot, hs]

theorem evaluateModule_orderly (hc : c.Discreet)
    (hexecute : ∀ node s, Orderly (c.execute node) s)
    (hload : ∀ request importer s, s.atRoot = true →
      Orderly (c.loadModule request importer) s) (path : String)
        (tree : SyntaxTree) (hs : s.atRoot = true) :
    Orderly (c.evaluateModule path tree) s := by
  unfold Orderly Ends
  cases hfound : s.modules.find? path with
  | some id =>
      rw [Within.evaluateModule_known c tree hfound]
      exact ⟨[], .silent true (Silent.composable.refl s)⟩
  | none =>
      rw [Within.evaluateModule_new c tree hfound]
      have hroot : ((Eval.addModule path tree.id).after s).atRoot = true :=
        (Advances.stable.root (Advances.stable.enter path tree.id hs)).trans hs
      have hpreloads := hc.preloads_orderly hload path ⟨s.scopes.size⟩ tree.root
        (tree.root.descendants.filter (·.kind == .importModule)) hroot
      unfold Orderly Ends at hpreloads
      cases hrun : (tree.root.descendants.filter (·.kind == .importModule)).forM
          (c.preload path ⟨s.scopes.size⟩ tree.root)
            ((Eval.addModule path tree.id).after s) with
      | error e t =>
          rw [hrun] at hpreloads
          obtain ⟨added, hadded⟩ := hpreloads
          rw [Eval.bind_error hrun]
          exact hadded.interrupted
      | ok _ t =>
          rw [hrun] at hpreloads
          obtain ⟨added, hadded⟩ := hpreloads
          have hcode := executeAll_orderly hexecute tree.root.children
            (t.beginModule ⟨s.scopes.size⟩ tree.id)
          unfold Orderly Ends at hcode
          rw [Eval.bind_ok hrun, Within.moduleCode_eq]
          cases hbody : c.executeAll tree.root.children
              (t.beginModule ⟨s.scopes.size⟩ tree.id) with
          | ok flow u =>
              rw [hbody] at hcode
              obtain ⟨others, hothers⟩ := hcode
              exact hadded.started hothers t.currentTree
          | error e u =>
              rw [hbody] at hcode
              obtain ⟨others, hothers⟩ := hcode
              exact hadded.started hothers t.currentTree

theorem loadModuleStep_orderly (hc : c.Discreet)
    (hexecute : ∀ node s, Orderly (c.execute node) s)
    (hload : ∀ request importer s, s.atRoot = true →
      Orderly (c.loadModule request importer) s) (request : String)
        (importer : Option String) (hs : s.atRoot = true) :
    Orderly (c.loadModuleStep request importer) s := by
  have hQ := Installs.graded
  have hR := Silent.isLocal
  unfold Calls.loadModuleStep
  refine .bind_silent hQ (hR.inspect _) fun path t ht => ?_
  refine .bind_silent hQ (hR.read _) fun found u hu => ?_
  split
  · exact .of_silent hQ (hR.refl u)
  · refine .bind_silent hQ (Plain.parseModule hR path) fun tree v hv => ?_
    refine hc.evaluateModule_orderly hexecute hload path tree ?_
    rw [hR.root hv, hR.root hu, hR.root ht, hs]

end Calls.Discreet

namespace Calls

open Engine (Installs)
open Eval (Orderly)

/-- By induction on the fuel, for statements and for loading at once. -/
theorem ofFuel_orderly (fuel : Nat) :
    (∀ node s, Orderly ((Calls.ofFuel fuel).execute node) s) ∧
      ∀ request importer s, s.atRoot = true →
        Orderly ((Calls.ofFuel fuel).loadModule request importer) s := by
  have hQ := Installs.graded
  induction fuel with
  | zero =>
      refine ⟨fun node s => ?_, fun request importer s _ => ?_⟩
      · exact .of_silent hQ (Silent.composable.refl s)
      · exact .of_silent hQ (Silent.composable.refl s)
  | succ fuel ih =>
      have hc := Discreet.ofFuel fuel
      refine ⟨fun node s => ?_, fun request importer s hs => ?_⟩
      · refine hc.executeStep_ends hQ (fun child _ t _ => ih.1 child t) ?_
        exact fun _ t _ path _ _ hroot =>
          ih.2 node.text t.currentModulePath? t hroot
      · exact hc.loadModuleStep_orderly ih.1 ih.2 request importer hs

end Calls

/-! ## Requests -/

namespace Engine

variable {s t : Engine} {b : Bool} {added : List ModuleEntry}

theorem Kept.depth (h : s.Kept t) : t.arena.depth = s.arena.depth := by
  have hframes := h.arena.frames
  unfold Arena.depth
  generalize s.arena.frames = fs at *
  generalize t.arena.frames = gs at *
  cases hframes with
  | empty => rfl
  | top rest hf => rfl

theorem moduleScopes_unwindTo (s : Engine) (depth : Nat) :
    (s.unwindTo depth).moduleScopes.Sublist s.moduleScopes := by
  have hframes : (s.arena.unwindTo depth).frames.Sublist s.arena.frames := by
    refine Arena.unwindTo_induction
      (P := fun a => a.frames.Sublist s.arena.frames) ?_
      (List.Sublist.refl _) depth
    intro a ha
    unfold Arena.popFrame
    split
    · exact ha
    · rename_i top rest hframes
      rw [hframes] at ha
      exact (List.sublist_cons_self top rest).trans ha
  exact (hframes.filter _).map _

theorem moduleScopes_unwindTo_depth (s : Engine) :
    (s.unwindTo s.arena.depth).moduleScopes = s.moduleScopes := by
  simp [Engine.moduleScopes, Engine.unwindTo, Arena.unwindTo, Arena.depth,
    Arena.unwind_length]

theorem Installs.unwindTo (h : s.Installs false t added) (hst : s.Advances t) :
    s.Installs false (t.unwindTo s.arena.depth) added where
  grown := { h.grown with }
  adds := { h.adds with }
  quiet hnone := by
    subst hnone
    have hkept := hst.disciplined.kept h.adds.entered
    rw [← hkept.depth, moduleScopes_unwindTo_depth, hkept.moduleScopes]
  atMost scope := by
    have hdropped := (moduleScopes_unwindTo t s.arena.depth).count_le scope
    exact Nat.le_trans hdropped (h.atMost scope)
  complete hb := by cases hb

theorem Installs.withTree {id : TreeId}
    (h : ({ s with currentTree := id } : Engine).Installs b t added) :
    s.Installs b { t with currentTree := s.currentTree } added :=
  ⟨{ h.grown with }, { h.adds with }, h.quiet, h.atMost, h.complete⟩

end Engine

namespace Calls

open Engine (Installs)
open Eval (Orderly)

variable {s : Engine}

theorem withTree_orderly {α : Type} {x : Eval α} {id : TreeId}
    (h : Orderly x { s with currentTree := id }) :
    Orderly (Eval.withTree id x) s := by
  unfold Orderly Ends at *
  cases hrun : x { s with currentTree := id } with
  | ok a t =>
      rw [hrun] at h
      obtain ⟨added, hadded⟩ := h
      simp only [Eval.withTree, hrun]
      exact ⟨added, hadded.withTree⟩
  | error e t =>
      rw [hrun] at h
      obtain ⟨added, hadded⟩ := h
      simp only [Eval.withTree, hrun]
      exact ⟨added, hadded.withTree⟩

theorem run_orderly (fuel : Nat) (tree : SyntaxTree) (node : Node)
    (s : Engine) : Orderly ((Calls.ofFuel fuel).run tree node) s := by
  have hQ := Installs.graded
  have hc := Discreet.ofFuel fuel
  have hnode := hc.advances.runNode_advances tree node s
  have horderly : Orderly (Eval.withTree tree.id do
      if node.kind.isOperand then some <$> (Calls.ofFuel fuel).evaluate node
      else
        let _ ← (Calls.ofFuel fuel).execute node
        pure none) s := by
    refine withTree_orderly ?_
    split
    · exact .of_silent hQ ((hc.plain.evaluate node).map some _)
    · refine .bind hQ ((ofFuel_orderly fuel).1 node _) fun _ t _ => ?_
      exact .of_silent hQ (Silent.composable.refl t)
  unfold Calls.run
  refine .bind hQ (.of_silent hQ (Silent.composable.refl s))
    fun depth t hdepth => ?_
  cases hdepth
  unfold Orderly Ends Eval.onStop at *
  unfold Eval.after at hnode
  split at horderly
  · rename_i hrun
    simpa only [hrun] using horderly
  · rename_i hrun
    obtain ⟨added, hadded⟩ := horderly
    simp only [hrun] at hnode ⊢
    exact ⟨added, hadded.unwindTo hnode⟩

end Calls

namespace Request

def keepsModules : Request → Bool
  | .program _ | .shutdown => false
  | _ => true

open Engine (Installs)
open Eval (Orderly)

theorem perform_orderly {request : Request}
    (hkeeps : request.keepsModules = true) (fuel : Nat) {s : Engine}
    (hs : s.Rooted) : Orderly (request.perform (Calls.ofFuel fuel)) s := by
  have hQ := Installs.graded
  have hc := Calls.Discreet.ofFuel fuel
  cases request with
  | evaluate tree node => exact .map _ (Calls.run_orderly fuel tree node s)
  | item node =>
      refine .map _ ?_
      unfold Calls.runItem
      have hadopt :
          Eval.Within Silent
            (Eval.adoptTree ⟨.moduleRoot, "", .dummy, 0, [node]⟩) :=
        Silent.isLocal.modifyGet fun _ => .adoptTree
      refine .bind_silent hQ hadopt fun tree t _ => ?_
      cases tree.root.children with
      | nil => exact .of_silent hQ (Silent.composable.refl t)
      | cons node rest => exact Calls.run_orderly fuel tree node t
  | call id args => exact .map _ (.of_silent hQ (hc.plain.invoke id args s))
  | load request importer =>
      exact .map _ ((Calls.ofFuel_orderly fuel).2 request importer s hs.atRoot)
  | enter path tree =>
      exact .map _ (hc.evaluateModule_orderly (Calls.ofFuel_orderly fuel).1
        (Calls.ofFuel_orderly fuel).2 path tree hs.atRoot)
  | program settings => cases hkeeps
  | shutdown => cases hkeeps

end Request

/-! ## Main statement -/

namespace Engine

variable {s t : Engine} {b : Bool} {added : List ModuleEntry}

structure Tidy (s : Engine) : Prop where
  scopes : ∀ e ∈ s.entries, e.scope.index < s.scopes.size
  distinct : (s.entries.map ModuleEntry.scope).Nodup
  frames : ∀ scope,
    s.framesOf scope ≤ (s.entries.map ModuleEntry.scope).count scope

theorem Tidy.new (limits : Limits) (sink : Sink) (source : Option ModuleSource)
    (searchPaths : List String) :
    (Engine.new limits sink source searchPaths).Tidy :=
  ⟨fun _ he => (List.not_mem_nil he).elim, List.nodup_nil,
    fun _ => Nat.le_refl 0⟩

theorem Tidy.installs (hs : s.Tidy) (h : s.Installs b t added) : t.Tidy where
  scopes e he := by
    rw [h.adds.entries, List.mem_append] at he
    rcases he with he | he
    · exact Nat.lt_of_lt_of_le (hs.scopes e he) h.grown.scopes
    · exact h.adds.upper e he
  distinct := by
    rw [h.adds.entries, List.map_append, List.nodup_append]
    exact ⟨hs.distinct, h.adds.distinct, h.adds.fresh hs.scopes⟩
  frames scope := by
    have hnew := h.atMost scope
    have hold := hs.frames scope
    rw [h.adds.entries, List.map_append, List.count_append]
    omega

def Installed (s : Engine) : Prop := ∀ e ∈ s.entries, s.framesOf e.scope = 1

theorem Tidy.framesOf_le_one (hs : s.Tidy) {e : ModuleEntry}
    (he : e ∈ s.entries) : s.framesOf e.scope ≤ 1 := by
  have hone : (s.entries.map ModuleEntry.scope).count e.scope = 1 := by
    rw [hs.distinct.count, if_pos (List.mem_map_of_mem he)]
  exact hone ▸ hs.frames e.scope

theorem Installed.installs (hinstalled : s.Installed) (hs : s.Tidy)
    (h : s.Installs true t added) : t.Installed := by
  have hfresh := h.adds.fresh hs.scopes
  intro e he
  rw [h.complete rfl]
  rw [h.adds.entries, List.mem_append] at he
  rcases he with he | he
  · have hold : e.scope ∉ added.map ModuleEntry.scope :=
      fun hmem => hfresh _ (List.mem_map_of_mem he) _ hmem rfl
    rw [List.count_eq_zero_of_not_mem hold, hinstalled e he]
  · have hnew : e.scope ∉ s.entries.map ModuleEntry.scope :=
      fun hmem => hfresh _ hmem _ (List.mem_map_of_mem he) rfl
    have hnone := hs.frames e.scope
    rw [List.count_eq_zero_of_not_mem hnew] at hnone
    have hone : (added.map ModuleEntry.scope).count e.scope = 1 := by
      rw [h.adds.distinct.count, if_pos (List.mem_map_of_mem he)]
    omega

theorem Installed.quiet (hinstalled : s.Installed) (h : s.Installs b t added)
    (hsame : t.entries = s.entries) : t.Installed := by
  have hnone : added = [] := by
    have hadds := h.adds.entries
    rw [hsame] at hadds
    exact List.self_eq_append_right.1 hadds
  intro e he
  rw [framesOf, h.quiet hnone]
  exact hinstalled e (hsame ▸ he)

end Engine

/-- Engines after a series of requests.  It has been harmless so far if every
request has succeeded or has left the table of modules as it was. -/
inductive Hosted : Bool → Engine → Prop
  | new (limits : Limits) (sink : Sink) (source : Option ModuleSource)
      (searchPaths : List String) :
      Hosted true (.new limits sink source searchPaths)
  | harmless {intact : Bool} {s : Engine} (fuel : Nat) (request : Request)
      (hs : Hosted intact s) (hkeeps : request.keepsModules = true)
      (h : (∃ t, request.perform (Calls.ofFuel fuel) s = .ok () t) ∨
        ((request.perform (Calls.ofFuel fuel)).after s).entries = s.entries) :
      Hosted intact ((request.perform (Calls.ofFuel fuel)).after s)
  | after {intact : Bool} {s : Engine} (fuel : Nat) (request : Request)
      (hs : Hosted intact s) (hkeeps : request.keepsModules = true) :
      Hosted false ((request.perform (Calls.ofFuel fuel)).after s)

namespace Hosted

open Engine (Installs)

variable {intact : Bool} {s : Engine}

theorem rooted (hs : Hosted intact s) : s.Rooted := by
  have hperform : ∀ (fuel : Nat) (request : Request) {s : Engine}, s.Rooted →
      ((request.perform (Calls.ofFuel fuel)).after s).Rooted :=
    fun fuel request s hs =>
      ((Calls.Within.ofFuel Advances.stable fuel).perform_settles request
        s hs).1
  induction hs with
  | new limits sink source searchPaths =>
      exact Engine.Rooted.new limits sink source searchPaths
  | harmless fuel request _ _ _ ih => exact hperform fuel request ih
  | after fuel request _ _ ih => exact hperform fuel request ih

theorem installs (hs : Hosted intact s) (fuel : Nat) {request : Request}
    (hkeeps : request.keepsModules = true) :
    ∃ b added,
      s.Installs b ((request.perform (Calls.ofFuel fuel)).after s) added ∧
      ((∃ t, request.perform (Calls.ofFuel fuel) s = .ok () t) → b = true) := by
  have horderly := Request.perform_orderly hkeeps fuel hs.rooted
  unfold Eval.Orderly Ends at horderly
  split at horderly
  · rename_i t hrun
    obtain ⟨added, hadded⟩ := horderly
    rw [Eval.after_ok hrun]
    exact ⟨true, added, hadded, fun _ => rfl⟩
  · rename_i e t hrun
    obtain ⟨added, hadded⟩ := horderly
    rw [Eval.after_error hrun]
    refine ⟨false, added, hadded, fun ⟨u, hu⟩ => ?_⟩
    rw [hu] at hrun
    cases hrun

theorem tidy (hs : Hosted intact s) : s.Tidy := by
  induction hs with
  | new limits sink source searchPaths =>
      exact .new limits sink source searchPaths
  | harmless fuel request hs hkeeps _ ih =>
      obtain ⟨b, added, hinstalls, -⟩ := hs.installs fuel hkeeps
      exact ih.installs hinstalls
  | after fuel request hs hkeeps ih =>
      obtain ⟨b, added, hinstalls, -⟩ := hs.installs fuel hkeeps
      exact ih.installs hinstalls

/-- No module ever has two frames.  After harmless requests each one has its
frame. -/
theorem module_frames (hs : Hosted intact s) :
    (∀ e ∈ s.entries, s.framesOf e.scope ≤ 1) ∧
    (intact = true → s.Installed) := by
  refine ⟨fun e he => hs.tidy.framesOf_le_one he, ?_⟩
  induction hs with
  | new limits sink source searchPaths =>
      intro _ e he
      cases he
  | harmless fuel request hs hkeeps h ih =>
      intro hintact
      obtain ⟨b, added, hinstalls, hok⟩ := hs.installs fuel hkeeps
      rcases h with hsucceeds | hsame
      · obtain rfl := hok hsucceeds
        exact (ih hintact).installs hs.tidy hinstalls
      · exact (ih hintact).quiet hinstalls hsame
  | after fuel request hs hkeeps ih =>
      intro hintact
      cases hintact

/-! ### A module and its import -/

namespace Pair

def importOf (request : String) : Node :=
  ⟨.importModule, request, .dummy, 0, []⟩

def file (items : List Node) : Node := ⟨.moduleRoot, "", .dummy, 0, items⟩

/-- Module `a` imports module `b`, which may be broken. -/
def source (broken : Bool) : ModuleSource :=
  .inMemory ([("/a.vx", file [importOf "b"])] ++ if broken then [] else
    [("/b.vx", file [])]) (if broken then [("/b.vx", "bad")] else [])

def engine (broken : Bool) : Engine :=
  .new { stackCapacity := 64 } ⟨.buffer, ""⟩ (some (source broken)) []

def request : Request := .load "a" none

def asked (broken : Bool) : Engine :=
  (request.perform (Calls.ofFuel 4)).after (engine broken)

def succeeds {α : Type} : EStateM.Result Stop Engine α → Bool
  | .ok _ _ => true
  | .error _ _ => false

theorem succeeds_iff {α : Type} {r : EStateM.Result Stop Engine α}
    (h : succeeds r = true) : ∃ a t, r = .ok a t := by
  cases r with
  | ok a t => exact ⟨a, t, rfl⟩
  | error e t => cases h

end Pair

open Pair in
theorem module_frames_pair :
    Hosted true (asked false) ∧ (asked false).entries.map ModuleEntry.path =
      ["/a.vx", "/b.vx"] ∧
      (asked false).Installed := by
  have hloaded : Hosted true (asked false) := by
    have hnew : Hosted true (engine false) := .new _ _ _ _
    refine .harmless 4 request hnew rfl (.inl ?_)
    obtain ⟨_, t, ht⟩ :=
      succeeds_iff (r := request.perform (Calls.ofFuel 4) (engine false))
      (by decide +kernel)
    exact ⟨t, ht⟩
  exact ⟨hloaded, by decide +kernel, (module_frames hloaded).2 rfl⟩

open Pair in
/-- After a load that has failed the same load succeeds, and the module has no
frame. -/
theorem module_frames_broken :
    Hosted true (engine true) ∧ Hosted false (asked true) ∧
      (request.perform (Calls.ofFuel 4)).fault? (engine true) =
        some (.parseFailure "/b.vx" "bad") ∧
      succeeds (request.perform (Calls.ofFuel 4) (asked true)) = true ∧
      (asked true).entries.map ModuleEntry.path = ["/a.vx"] ∧
      (asked true).entries.map (fun e => (asked true).framesOf e.scope) =
        [0] := by
  have hnew : Hosted true (engine true) := .new _ _ _ _
  have hasked : Hosted false (asked true) := .after 4 request hnew rfl
  exact ⟨hnew, hasked, by decide +kernel, by decide +kernel, by decide +kernel,
    by decide +kernel⟩

end Hosted

end ArenaScript
