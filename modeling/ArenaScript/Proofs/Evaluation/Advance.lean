import ArenaScript.Proofs.Evaluation.Frames

/-!
# What an evaluation leaves behind

An evaluation may enter modules, but it never takes one out of the table, and
the number of active calls and the executing tree are afterwards what they were
before, whether the evaluation succeeds or not.  If all frames were root frames
to begin with, they are root frames in the end: those that were there, and those
of the modules that have started.
-/

namespace ArenaScript

namespace Eval

variable {R : Engine → Engine → Prop} {α : Type}

theorem Composable.onStop (hR : Composable R) {x : Eval α} {g : Engine → Engine}
    (hx : Within R x) (hg : ∀ s, R s (g s)) : Within R (Eval.onStop g x) := by
  intro s
  have hs := hx s
  cases hrun : x s with
  | ok a t =>
      rw [after_ok hrun] at hs
      rwa [after_ok (onStop_ok g hrun)]
  | error e t =>
      rw [after_error hrun] at hs
      rw [after_error (onStop_error g hrun)]
      exact hR.trans hs (hg t)

theorem Within.updateArena
    (harena : ∀ (s : Engine) (a : Arena), R s { s with arena := a })
    (f : Arena → Arena) : Within R (Eval.updateArena f) :=
  fun s => harena s (f s.arena)

/-- A relation that does not look at the arena does not notice frames. -/
theorem Composable.threading (hR : Composable R)
    (harena : ∀ (s : Engine) (a : Arena), R s { s with arena := a }) :
    Threading fun x _ => Within R x where
  read f := hR.read f
  updateArena f _ := .updateArena harena f
  onStop _ hx := hR.onStop hx fun s => harena s _
  bind hx hf := hR.bind hx hf

end Eval

/-! ## Tables that only grow -/

namespace Engine

def entries (s : Engine) : List ModuleEntry := s.modules.modules.toList

def entryFor (s : Engine) (path : String) (tree : TreeId) : ModuleEntry :=
  ⟨path, tree, ⟨s.scopes.size⟩⟩

theorem entries_addModule (s : Engine) (path : String) (tree : TreeId) :
    ((Eval.addModule path tree).after s).entries =
      s.entries ++ [s.entryFor path tree] :=
  Array.toList_push

/-- What stays as it is or only grows. -/
structure Extends (s t : Engine) : Prop where
  source : t.source = s.source
  searchPaths : t.searchPaths = s.searchPaths
  maxCallDepth : t.maxCallDepth = s.maxCallDepth
  nextTree : s.nextTree ≤ t.nextTree
  scopes : s.scopes.size ≤ t.scopes.size
  entries : s.entries <+: t.entries

namespace Extends

variable {s t u : Engine}

theorem refl (s : Engine) : s.Extends s :=
  ⟨rfl, rfl, rfl, Nat.le_refl _, Nat.le_refl _, List.prefix_rfl⟩

theorem trans (hst : s.Extends t) (htu : t.Extends u) : s.Extends u where
  source := htu.source.trans hst.source
  searchPaths := htu.searchPaths.trans hst.searchPaths
  maxCallDepth := htu.maxCallDepth.trans hst.maxCallDepth
  nextTree := Nat.le_trans hst.nextTree htu.nextTree
  scopes := Nat.le_trans hst.scopes htu.scopes
  entries := hst.entries.trans htu.entries

theorem composable : Eval.Composable Extends := ⟨refl, trans⟩

theorem of_scopes (s : Engine) {scopes : ScopeTable}
    (h : s.scopes.size ≤ scopes.size) : s.Extends { s with scopes } :=
  ⟨rfl, rfl, rfl, Nat.le_refl _, h, List.prefix_rfl⟩

theorem of_modify (s : Engine) (id : ScopeId) (f : Scope → Scope) :
    s.Extends { s with scopes := s.scopes.modify id f } :=
  of_scopes s (Nat.le_of_eq (ScopeTable.size_modify _ id f).symm)

theorem move (h : s.Move t) : s.Extends t := by
  cases h with
  | instantiate h =>
      exact ⟨rfl, rfl, rfl, Nat.le_refl _,
        (ScopeTable.Keeps.findOrCreate h).size,
        List.prefix_rfl⟩
  | createScope kind parent =>
      exact of_scopes s (by rw [ScopeTable.size_create]; omega)
  | scopeFor key kind parent =>
      exact of_scopes s (ScopeTable.size_scopeFor _ key kind parent)
  | addImport => exact of_modify s _ _
  | setOwner => exact of_modify s _ _
  | registerFunction => exact of_modify s _ _
  | registerOperator => exact of_modify s _ _
  | registerTemplateFunction => exact of_modify s _ _
  | bindTemplateScope d args =>
      exact of_scopes s (ScopeTable.Keeps.bindTemplate _ d args).size
  | registerType => exact of_modify s _ _
  | registerTemplateType => exact of_modify s _ _
  | adoptTree =>
      exact ⟨rfl, rfl, rfl, Nat.le_succ _, Nat.le_refl _, List.prefix_rfl⟩
  | _ => exact ⟨rfl, rfl, rfl, Nat.le_refl _, Nat.le_refl _, List.prefix_rfl⟩

theorem addModule (s : Engine) (path : String) (tree : TreeId) :
    s.Extends ((Eval.addModule path tree).after s) where
  source := rfl
  searchPaths := rfl
  maxCallDepth := rfl
  nextTree := Nat.le_refl _
  scopes := Nat.le_of_lt (s.scopes.size_lt_create .moduleScope _)
  entries := by
    rw [entries_addModule]
    exact List.prefix_append _ _

end Extends

/-! ## Root frames -/

/-- Only the universe and modules have frames; no call is active. -/
def Rooted (s : Engine) : Prop :=
  ∀ f ∈ s.arena.frames, f.kind.isRoot = true ∧ f.call = none

namespace Rooted

variable {s t : Engine}

theorem atRoot (h : s.Rooted) : s.atRoot = true := by
  unfold Engine.atRoot Arena.top?
  cases hframes : s.arena.frames with
  | nil => rfl
  | cons top rest => simp [(h top (by simp [hframes])).1]

theorem of_subset (h : s.Rooted) (hframes : t.arena.frames ⊆ s.arena.frames) :
    t.Rooted :=
  fun f hf => h f (hframes hf)

theorem kept (h : s.Rooted) (hkept : s.Kept t) : t.Rooted := by
  have hframes := hkept.arena.frames
  unfold Rooted at h ⊢
  revert h
  generalize s.arena.frames = fs at *
  generalize t.arena.frames = gs at *
  intro h
  cases hframes with
  | empty => exact h
  | top rest hf =>
      rw [List.forall_mem_cons] at h ⊢
      rw [hf.kind, hf.call]
      exact h

theorem disarmed (h : s.Rooted) : s.disarmed.Rooted := by
  unfold Rooted Engine.disarmed at *
  simp only [Arena.modifyTop_frames]
  cases hframes : s.arena.frames with
  | nil => simp
  | cons top rest =>
      rw [hframes, List.forall_mem_cons] at h
      simpa using h

theorem popFrame (h : s.Rooted) :
    ({ s with arena := s.arena.popFrame } : Engine).Rooted := by
  refine h.of_subset fun f hf => ?_
  change f ∈ s.arena.popFrame.frames at hf
  unfold Arena.popFrame at hf
  split at hf
  · exact hf
  · rename_i top rest hframes
    rw [hframes]
    exact List.mem_cons_of_mem top hf

end Rooted

/-! ## Evaluations -/

structure Advances (s t : Engine) : Prop where
  grown : s.Extends t
  disciplined : s.Disciplined t
  callDepth : t.callDepth = s.callDepth
  currentTree : t.currentTree = s.currentTree
  rooted : s.Rooted → t.Rooted

namespace Advances

variable {s t u : Engine} {α : Type}

theorem of_kept (hgrown : s.Extends t) (hkept : s.Kept t)
    (hentered : t.entered = s.entered) : s.Advances t :=
  ⟨hgrown, .of_kept hkept hentered, hkept.callDepth, hkept.currentTree,
    fun hs => hs.kept hkept⟩

theorem of_restored (hgrown : s.Extends t) (h : s.Restored t) : s.Advances t :=
  of_kept hgrown h.kept h.entered

theorem trans (hst : s.Advances t) (htu : t.Advances u) : s.Advances u where
  grown := hst.grown.trans htu.grown
  disciplined := hst.disciplined.trans htu.disciplined
  callDepth := htu.callDepth.trans hst.callDepth
  currentTree := htu.currentTree.trans hst.currentTree
  rooted hs := htu.rooted (hst.rooted hs)

theorem composable : Eval.Composable Advances where
  refl s := of_kept (.refl s) (.refl s) rfl
  trans := trans

theorem withTree {x : Eval α} (tree : TreeId) (hx : Eval.Within Advances x) :
    Eval.Within Advances (Eval.withTree tree x) := by
  intro s
  have h := hx { s with currentTree := tree }
  have hdisciplined := Disciplined.withTree tree (fun s => (hx s).disciplined) s
  rw [Eval.after_withTree] at hdisciplined ⊢
  exact ⟨{ h.grown with }, hdisciplined, h.callDepth, rfl, h.rooted⟩

theorem deeper {x : Eval α} (hx : Eval.Within Advances x) :
    Eval.Within Advances (Calls.deeper x) := by
  intro s
  have h := hx { s with callDepth := s.callDepth + 1 }
  have hdisciplined := Disciplined.deeper (fun s => (hx s).disciplined) s
  rw [Calls.after_deeper] at hdisciplined ⊢
  exact ⟨{ h.grown with }, hdisciplined, by simp [h.callDepth], h.currentTree,
    h.rooted⟩

theorem withFrame {x : Eval α} {c : Calls} (scope : ScopeId) {kind : FrameKind}
    (call : Option CallRecord) (hkind : kind.isRoot = false)
    (hdestroy : ∀ v, Eval.Within Advances (c.destroy v))
    (hx : Eval.Within Advances x) :
    Eval.Within Advances (c.withFrame scope kind call x) := by
  intro s
  have harena : ∀ (s : Engine) (a : Arena),
      s.Extends { s with arena := a } := fun _ _ =>
    ⟨rfl, rfl, rfl, Nat.le_refl _, Nat.le_refl _, List.prefix_rfl⟩
  have hgrown :=
    (Extends.composable.threading harena).withFrame (d := c) (y := x)
    (fun v s => (hdestroy v s).grown)
      (.updateArena harena (·.pushFrame scope kind call))
    (fun s => (hx s).grown) s
  exact of_restored hgrown (Calls.withFrame_restored scope call hkind
    (fun v s => (hdestroy v s).disciplined) (hx _).disciplined)

theorem stable : Eval.Stable Advances where
  toComposable := composable
  move h := of_kept (.move h) (.move h) h.entered
  root h := h.disciplined.atRoot
  tree := withTree
  call := deeper
  frame scope _ call hkind hdestroy hx := withFrame scope call hkind hdestroy hx
  enter {s} path tree hs :=
    ⟨.addModule s path tree, Disciplined.stable.enter path tree hs, rfl, rfl,
      fun h => h⟩
  start {s t u} path scope tree hs hst htu := by
    have hdisciplined :=
      Disciplined.stable.start path scope tree hs hst.disciplined
      htu.disciplined
    have hbegun : s.Extends (t.beginModule scope tree) :=
      { (Extends.addModule s path tree).trans hst.grown with }
    refine ⟨{ hbegun.trans htu.grown with }, hdisciplined,
      htu.callDepth.trans hst.callDepth, hst.currentTree, fun hrooted => ?_⟩
    have ht : t.Rooted := hst.rooted hrooted
    have hbegin : (t.beginModule scope tree).Rooted := by
      intro f hf
      rcases List.mem_cons.1 hf with rfl | hf
      · exact ⟨rfl, rfl⟩
      · exact ht f hf
    exact htu.rooted hbegin

end Advances

end Engine

end ArenaScript
