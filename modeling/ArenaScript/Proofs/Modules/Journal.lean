import Mathlib.Data.List.Chain
import Mathlib.Data.List.Perm.Subperm
import Mathlib.Logic.Relation
import ArenaScript.Program
import ArenaScript.Proofs.Modules.Paths
import ArenaScript.Proofs.Modules.Silence

/-!
# Journals of loading

While modules are loaded, a journal records when a module is entered in the
table, when its top-level code starts and when that code has finished.  Keeping
a journal changes nothing else.  In a proper journal a module starts when all
that it imports has been entered, and loads are nested; so what it imports has
finished by then, or is being loaded around it, and then the imports form a
cycle.
-/

namespace ArenaScript

namespace Engine

/-- The tree of the module at `path`, as far as it can be parsed. -/
def moduleRoot? (s : Engine) (path : String) : Option Node :=
  s.source.bind fun source =>
    match source.parse path with
    | .ok root => some (root.number 0).1
    | .error _ => none

theorem moduleRoot?_congr {s t : Engine} (h : t.source = s.source) :
    t.moduleRoot? = s.moduleRoot? := by
  funext path
  rw [moduleRoot?, moduleRoot?, h]

/-- The module at `importer` has an import, at whatever depth, that leads to
`path`. -/
def Imports (s : Engine) (importer path : String) : Prop :=
  ∃ root, s.moduleRoot? importer = some root ∧ ∃ node ∈ root.descendants,
    node.kind = .importModule ∧
    s.findModulePath node.text (some importer) = .ok path

end Engine

theorem parseModule_cases (s : Engine) (path : String) :
    (∃ root, s.moduleRoot? path = some root ∧ Eval.parseModule path s =
      .ok ⟨⟨s.nextTree⟩, root⟩ { s with nextTree := s.nextTree + 1 }) ∨
    ∃ e, e.isPlain = true ∧ Eval.parseModule path s = .error (.failed e) s := by
  rcases Option.eq_none_or_eq_some s.source with hsource | ⟨source, hsource⟩
  · exact .inr
      ⟨.moduleNotFound path, rfl,
        Eval.bind_error (by simp only [Eval.inspect, hsource])⟩
  · cases hparse : source.parse path with
    | error message =>
        refine .inr ⟨.parseFailure path message, rfl, Eval.bind_error ?_⟩
        simp only [Eval.inspect, hsource, hparse]
    | ok root =>
        refine .inl ⟨(root.number 0).1, ?_, Eval.bind_ok ?_⟩
        · simp [Engine.moduleRoot?, hsource, hparse]
        · simp only [Eval.inspect, hsource, hparse]

inductive Event where
  | entered (path : String)
  | started (path : String) (tree : SyntaxTree) (s : Engine)
  | finished (path : String)

/-- The latest event comes first. -/
abbrev Journal := List Event

namespace Journal

open Relation (TransGen ReflTransGen)

def enteredPath? : Event → Option String
  | .entered path => some path
  | _ => none

def startedPath? : Event → Option String
  | .started path _ _ => some path
  | _ => none

def finishedPath? : Event → Option String
  | .finished path => some path
  | _ => none

def startedScope? : Event → Option ScopeId
  | .started _ _ s => some s.currentScope
  | _ => none

def entered (log : Journal) : List String := log.filterMap enteredPath?

def started (log : Journal) : List String := log.filterMap startedPath?

def finished (log : Journal) : List String := log.filterMap finishedPath?

def scopes (log : Journal) : List ScopeId := log.filterMap startedScope?

/-- The modules whose loading is in progress, innermost first. -/
def active : Journal → List String
  | [] => []
  | .entered path :: log => path :: active log
  | .started .. :: log => active log
  | .finished _ :: log => (active log).tail

/-- Whatever the module at `path` imports has been entered. -/
def Supplied (env : Engine) (path : String) (root : Node) (log : Journal) :
    Prop :=
  ∀ node ∈ root.descendants, node.kind = .importModule →
    ∃ dep, env.findModulePath node.text (some path) = .ok dep ∧
      dep ∈ log.entered

/-! ## Proper journals -/

/-- How journals grow.  A module is entered on behalf of the innermost one in
progress, and it starts when all its imports have been entered. -/
inductive Proper (env : Engine) : Journal → Prop
  | nil : Proper env []
  | enter {log : Journal} {path : String} (h : Proper env log)
      (hmodule : env.HasModule path) (hnew : path ∉ log.entered)
      (himport : ∀ outer ∈ log.active.head?, env.Imports outer path) :
      Proper env (.entered path :: log)
  | start {log : Journal} {path : String} {tree : SyntaxTree} {s : Engine}
      (h : Proper env log) (htop : log.active.head? = some path)
      (hnew : path ∉ log.started)
      (hroot : env.moduleRoot? path = some tree.root)
      (himports : Supplied env path tree.root log) :
      Proper env (.started path tree s :: log)
  | finish {log : Journal} {path : String} (h : Proper env log)
      (htop : log.active.head? = some path) (hstarted : path ∈ log.started) :
      Proper env (.finished path :: log)

namespace Proper

variable {env : Engine} {log : Journal}

theorem of_cons {event : Event} (h : Proper env (event :: log)) :
    Proper env log := by
  cases h <;> assumption

theorem of_append {later earlier : Journal}
    (h : Proper env (later ++ earlier)) : Proper env earlier := by
  induction later with
  | nil => exact h
  | cons event later ih => exact ih h.of_cons

theorem active_sublist_entered (h : Proper env log) :
    log.active.Sublist log.entered := by
  induction h with
  | nil => exact List.Sublist.refl _
  | enter _ _ _ _ ih => exact ih.cons_cons _
  | start _ _ _ _ _ ih => exact ih
  | finish _ _ _ ih => exact (List.tail_sublist _).trans ih

theorem started_subset_entered (h : Proper env log) :
    log.started ⊆ log.entered := by
  induction h with
  | nil => exact List.Subset.refl _
  | enter _ _ _ _ ih => exact fun _ hp => List.mem_cons_of_mem _ (ih hp)
  | start h htop _ _ _ ih =>
      intro p hp
      rcases List.mem_cons.1 hp with rfl | hp
      · exact h.active_sublist_entered.subset (List.mem_of_mem_head? htop)
      · exact ih hp
  | finish _ _ _ ih => exact ih

theorem finished_subset_started (h : Proper env log) :
    log.finished ⊆ log.started := by
  induction h with
  | nil => exact List.Subset.refl _
  | enter _ _ _ _ ih => exact ih
  | start _ _ _ _ _ ih => exact fun _ hp => List.mem_cons_of_mem _ (ih hp)
  | finish _ _ hstarted ih =>
      intro p hp
      rcases List.mem_cons.1 hp with rfl | hp
      · exact hstarted
      · exact ih hp

theorem entered_nodup (h : Proper env log) : log.entered.Nodup := by
  induction h with
  | nil => exact List.nodup_nil
  | enter _ _ hnew _ ih => exact List.nodup_cons.2 ⟨hnew, ih⟩
  | start _ _ _ _ _ ih => exact ih
  | finish _ _ _ ih => exact ih

theorem started_nodup (h : Proper env log) : log.started.Nodup := by
  induction h with
  | nil => exact List.nodup_nil
  | enter _ _ _ _ ih => exact ih
  | start _ _ hnew _ _ ih => exact List.nodup_cons.2 ⟨hnew, ih⟩
  | finish _ _ _ ih => exact ih

theorem hasModule (h : Proper env log) {path : String}
    (hpath : path ∈ log.entered) : env.HasModule path := by
  induction h with
  | nil => cases hpath
  | enter _ hmodule _ _ ih =>
      rcases List.mem_cons.1 hpath with rfl | hpath
      · exact hmodule
      · exact ih hpath
  | start _ _ _ _ _ ih => exact ih hpath
  | finish _ _ _ ih => exact ih hpath

theorem active_or_finished (h : Proper env log) {path : String}
    (hpath : path ∈ log.entered) : path ∈ log.active ∨ path ∈ log.finished := by
  induction h with
  | nil => cases hpath
  | enter _ _ _ _ ih =>
      rcases List.mem_cons.1 hpath with rfl | hpath
      · exact .inl List.mem_cons_self
      · exact (ih hpath).imp (List.mem_cons_of_mem _) id
  | start _ _ _ _ _ ih => exact ih hpath
  | @finish log inner _ htop _ ih =>
      -- Of the modules in progress only the innermost one, which finishes, is
      -- given up.
      rcases ih hpath with hactive | hfinished
      · cases hlist : log.active with
        | nil =>
            rw [hlist] at hactive
            cases hactive
        | cons top outer =>
            rw [hlist] at hactive htop
            cases htop
            rcases List.mem_cons.1 hactive with rfl | houter
            · exact .inr List.mem_cons_self
            · refine .inl ?_
              simpa [active, hlist] using houter
      · exact .inr (List.mem_cons_of_mem _ hfinished)

/-- Each module in progress is imported by the next one further out. -/
theorem active_chain (h : Proper env log) :
    log.active.IsChain fun inner outer => env.Imports outer inner := by
  induction h with
  | nil => exact .nil
  | enter _ _ _ himport ih => exact List.isChain_cons.2 ⟨himport, ih⟩
  | start _ _ _ _ _ ih => exact ih
  | finish _ _ _ ih => exact ih.tail

theorem reaches_top (h : Proper env log) {top path : String}
    (htop : log.active.head? = some top) (hpath : path ∈ log.active) :
    ReflTransGen env.Imports path top := by
  have hchain := h.active_chain
  cases hlist : log.active with
  | nil =>
      rw [hlist] at hpath
      cases hpath
  | cons first outer =>
      rw [hlist] at htop hpath hchain
      cases htop
      exact hchain.induction (ReflTransGen env.Imports · top) _
        (fun _ _ himport hreaches => .head himport hreaches)
          (fun _ => .refl) path hpath

/-- What a module imports has finished when it starts, unless it is in progress;
then the imports form a cycle. -/
theorem finished_or_cycle {path dep : String} (h : Proper env log)
    (htop : log.active.head? = some path) (himport : env.Imports path dep)
    (hdep : dep ∈ log.entered) :
    dep ∈ log.finished ∨ dep ∈ log.active ∧ TransGen env.Imports path path := by
  rcases h.active_or_finished hdep with hactive | hfinished
  · -- `dep` is somewhere around `path`, so a chain of imports leads back.
    exact .inr ⟨hactive, .head' himport (h.reaches_top htop hactive)⟩
  · exact .inl hfinished

/-- At any time at most as many loads are in progress as there are modules. -/
theorem active_length_le (h : Proper env log) {existing : List String}
    (hexisting : ∀ path, env.HasModule path → path ∈ existing) :
    log.entered.length ≤ existing.length ∧
    log.active.length ≤ existing.length := by
  have hsubset : log.entered ⊆ existing :=
    fun path hpath => hexisting path (h.hasModule hpath)
  have hentered := (h.entered_nodup.subperm hsubset).length_le
  exact ⟨hentered, Nat.le_trans h.active_sublist_entered.length_le hentered⟩

theorem exists_started {path : String} (h : path ∈ log.started) :
    ∃ later tree u earlier, log = later ++ .started path tree u :: earlier := by
  obtain ⟨event, hevent, hpath⟩ := List.mem_filterMap.1 h
  obtain ⟨later, earlier, rfl⟩ := List.append_of_mem hevent
  cases event with
  | started _ tree u =>
      cases hpath
      exact ⟨later, tree, u, earlier, rfl⟩
  | _ => cases hpath

theorem ready {later earlier : Journal} {path : String} {tree : SyntaxTree}
    {u : Engine} (h : Proper env (later ++ .started path tree u :: earlier)) :
    env.moduleRoot? path = some tree.root ∧
      ∀ node ∈ tree.root.descendants, node.kind = .importModule →
        ∃ dep, env.findModulePath node.text (some path) = .ok dep ∧
          (dep ∈ earlier.finished ∨ dep ∈ earlier.active ∧
            TransGen env.Imports path path) := by
  cases h.of_append with
  | start hearlier htop hnew hroot himports =>
      refine ⟨hroot, fun node hnode hkind => ?_⟩
      obtain ⟨dep, hdep, hentered⟩ := himports node hnode hkind
      have himport : env.Imports path dep :=
        ⟨tree.root, hroot, node, hnode, hkind, hdep⟩
      exact ⟨dep, hdep, hearlier.finished_or_cycle htop himport hentered⟩

end Proper

end Journal

/-! ## Keeping a journal -/

abbrev Logged := EStateM Stop (Engine × Journal)

namespace Logged

variable {α β : Type}

def lift (x : Eval α) : Logged α := fun st =>
  match x st.1 with
  | .ok a t => .ok a (t, st.2)
  | .error e t => .error e (t, st.2)

def note (event : Engine → Event) : Logged Unit :=
  fun st => .ok () (st.1, event st.1 :: st.2)

def mapFailure (f : Failure → Failure) (x : Logged α) : Logged α := fun st =>
  match x st with
  | .error (.failed e) st => .error (.failed (f e)) st
  | result => result

section Loading

variable (load : String → Option String → Logged ModuleId)

def preload (path : String) (scope : ScopeId) (root node : Node) :
    Logged Unit := do
  let dep ← mapFailure (·.withLocation node.pos (some path))
    (load node.text (some path))
  if root.children.any (·.id == node.id) then
    let depScope ← lift (Eval.read fun s => (s.modules.get dep).scope)
    lift (Eval.updateScope scope (·.addImport depScope))

def evaluateModule (c : Calls) (path : String) (tree : SyntaxTree) :
    Logged ModuleId := do
  match ← lift (Eval.read fun s => s.modules.find? path) with
  | some id => pure id
  | none =>
      let (id, scope) ← lift (Eval.addModule path tree.id)
      note fun _ => .entered path
      (tree.root.descendants.filter (·.kind == .importModule)).forM
        (preload load path scope tree.root)
      lift (Eval.updateArena (·.pushFrame scope .moduleFrame none))
      note (.started path tree)
      let _ ← lift (Eval.withTree tree.id (c.executeAll tree.root.children))
      note fun _ => .finished path
      pure id

def loadStep (c : Calls) (request : String) (importer : Option String) :
    Logged ModuleId := do
  let path ← lift (Eval.inspect fun s => s.findModulePath request importer)
  match ← lift (Eval.read fun s => s.modules.find? path) with
  | some id => pure id
  | none => evaluateModule load c path (← lift (Eval.parseModule path))

end Loading

def load : Nat → String → Option String → Logged ModuleId
  | 0, _, _ => lift Eval.exhausted
  | n + 1, request, importer =>
      loadStep (load n) (Calls.ofFuel n) request importer

def forget : EStateM.Result Stop (Engine × Journal) α →
    EStateM.Result Stop Engine α
  | .ok a st => .ok a st.1
  | .error e st => .error e st.1

/-- Without its journal `x` does what `y` does. -/
def Erases (x : Logged α) (y : Eval α) : Prop := ∀ st, forget (x st) = y st.1

namespace Erases

theorem lift (y : Eval α) : Erases (Logged.lift y) y := by
  intro st
  unfold Logged.lift forget
  cases y st.1 <;> rfl

theorem pure (a : α) : Erases (Pure.pure a) (Pure.pure a) := fun _ => rfl

theorem bind {x : Logged α} {y : Eval α} {f : α → Logged β} {g : α → Eval β}
    (hxy : Erases x y) (hfg : ∀ a, Erases (f a) (g a)) :
    Erases (x >>= f) (y >>= g) := by
  intro st
  have hst := hxy st
  simp only [Bind.bind, EStateM.bind]
  cases hrun : x st with
  | ok a st' =>
      rw [hrun] at hst
      simp only [← hst, forget]
      exact hfg a st'
  | error e st' =>
      rw [hrun] at hst
      simp only [← hst, forget]

theorem note_bind (event : Engine → Event) {x : Logged α} {y : Eval α}
    (hxy : Erases x y) :
    Erases (do note event; x) y := fun st => hxy (st.1, event st.1 :: st.2)

theorem mapFailure {x : Logged α} {y : Eval α} (f : Failure → Failure)
    (hxy : Erases x y) :
    Erases (Logged.mapFailure f x) (Eval.mapFailure (fun _ => f) y) := by
  intro st
  have hst := hxy st
  unfold Logged.mapFailure Eval.mapFailure
  rw [← hst]
  cases x st with
  | ok a st' => rfl
  | error e st' => cases e <;> rfl

theorem forM {f : α → Logged Unit} {g : α → Eval Unit}
    (hfg : ∀ a, Erases (f a) (g a)) (l : List α) :
    Erases (l.forM f) (l.forM g) := by
  induction l with
  | nil => exact pure ()
  | cons a l ih => exact bind (hfg a) fun _ => ih

section Loading

variable {load : String → Option String → Logged ModuleId} {c : Calls}

theorem preload (hload : ∀ request importer, Erases (load request importer)
    (c.loadModule request importer)) (path : String) (scope : ScopeId)
      (root node : Node) :
    Erases (Logged.preload load path scope root node)
      (c.preload path scope root node) := by
  refine bind (mapFailure _ (hload node.text (some path))) fun dep => ?_
  split
  · exact bind (lift _) fun _ => lift _
  · exact pure ()

theorem evaluateModule
    (hload : ∀ request importer,
      Erases (load request importer) (c.loadModule request importer))
        (path : String) (tree : SyntaxTree) :
    Erases (Logged.evaluateModule load c path tree)
      (c.evaluateModule path tree) := by
  refine bind (lift _) fun found => ?_
  cases found with
  | some id => exact pure id
  | none =>
      refine bind (lift _) fun entry => note_bind _ ?_
      refine bind (forM (preload hload path entry.2 tree.root) _) fun _ => ?_
      refine bind (lift _) fun _ => note_bind _ ?_
      exact bind (lift _) fun _ => note_bind _ (pure entry.1)

theorem loadStep (hload : ∀ request importer, Erases (load request importer)
    (c.loadModule request importer)) (request : String)
      (importer : Option String) :
    Erases (Logged.loadStep load c request importer)
      (c.loadModuleStep request importer) := by
  refine bind (lift _) fun path => bind (lift _) fun found => ?_
  cases found with
  | some id => exact pure id
  | none => exact bind (lift _) fun tree => evaluateModule hload path tree

end Loading

theorem load (fuel : Nat) (request : String) (importer : Option String) :
    Erases (Logged.load fuel request importer)
      ((Calls.ofFuel fuel).loadModule request importer) := by
  induction fuel generalizing request importer with
  | zero => exact lift _
  | succ fuel ih => exact loadStep ih request importer

end Erases

end Logged

end ArenaScript
