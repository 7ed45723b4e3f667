import Mathlib.Data.List.Nodup
import ArenaScript.Proofs.Evaluation.Reachable
import ArenaScript.Proofs.Modules.Journal

/-!
# Modules load once and in order

The journal of every load is proper, and it agrees with the engine: it lists the
modules of the table, and their frames lie on the stack in the order in which
their code has started.  The table grows with every load in progress, so that
loading ends if the code of the modules does.
-/

namespace ArenaScript

open Engine (Advances Silent)
open Relation (TransGen)

/-! ## Journals that agree with the engine -/

structure Faithful (env s : Engine) (log : Journal) : Prop where
  grown : env.Extends s
  rooted : s.Rooted
  proper : log.Proper env
  paths : s.entries.map ModuleEntry.path = log.entered.reverse
  trees : (s.entries.map ModuleEntry.tree).Nodup
  trees_lt : ∀ e ∈ s.entries, e.tree.index < s.nextTree
  frames : s.moduleScopes = log.scopes
  linked : ∀ {path tree u}, .started path tree u ∈ log →
    ∃ e ∈ s.entries, e.path = path ∧ e.scope = u.currentScope

namespace Faithful

variable {env s t : Engine} {log : Journal} {path : String} {tree : SyntaxTree}

theorem silent (h : Faithful env s log) (hst : s.Silent t) :
    Faithful env t log where
  grown := h.grown.trans hst.grown
  rooted := hst.rooted h.rooted
  proper := h.proper
  paths := by rw [hst.entries, h.paths]
  trees := by rw [hst.entries]; exact h.trees
  trees_lt e he := by
    rw [hst.entries] at he
    exact Nat.lt_of_lt_of_le (h.trees_lt e he) hst.grown.nextTree
  frames := by rw [hst.moduleScopes, h.frames]
  linked hstarted := by rw [hst.entries]; exact h.linked hstarted

theorem find?_eq_none_iff (h : Faithful env s log)
    (hpath : env.HasModule path) :
    s.modules.find? path = none ↔ path ∉ log.entered := by
  have hnormal : ∀ e ∈ s.entries, Path.Normal e.path := by
    intro e he
    have hentered : e.path ∈ s.entries.map ModuleEntry.path :=
      List.mem_map_of_mem he
    rw [h.paths, List.mem_reverse] at hentered
    exact (h.proper.hasModule hentered).normal
  have hpaths : s.modules.modules.toList.map ModuleEntry.path =
      log.entered.reverse := h.paths
  rw [Engine.find?_eq_none_iff hpath.normal hnormal, hpaths, List.mem_reverse]

theorem new (limits : Limits) (sink : Sink) (source : Option ModuleSource)
    (searchPaths : List String) :
    Faithful (.new limits sink source searchPaths)
      (.new limits sink source searchPaths) [] where
  grown := .refl _
  rooted := .new limits sink source searchPaths
  proper := .nil
  paths := rfl
  trees := List.nodup_nil
  trees_lt _ he := (List.not_mem_nil he).elim
  frames := rfl
  linked h := (List.not_mem_nil h).elim

theorem enter (h : Faithful env s log) (hmodule : env.HasModule path)
    (hnew : path ∉ log.entered)
    (himport : ∀ outer ∈ log.active.head?, env.Imports outer path)
    (htree : ∀ e ∈ s.entries, e.tree.index < tree.id.index)
    (hlt : tree.id.index < s.nextTree) :
    Faithful env ((Eval.addModule path tree.id).after s)
      (.entered path :: log) where
  grown := h.grown.trans (.addModule s path tree.id)
  rooted := h.rooted
  proper := .enter h.proper hmodule hnew himport
  paths := by
    rw [Engine.entries_addModule, List.map_append, h.paths]
    exact List.reverse_cons.symm
  trees := by
    rw [Engine.entries_addModule, List.map_append, List.nodup_append]
    refine ⟨h.trees, by simp, ?_⟩
    intro first hfirst second hsecond heq
    obtain ⟨e, he, rfl⟩ := List.mem_map.1 hfirst
    obtain rfl := List.mem_singleton.1 hsecond
    have hold := htree e he
    rw [heq] at hold
    exact Nat.lt_irrefl _ hold
  trees_lt e he := by
    rw [Engine.entries_addModule, List.mem_append] at he
    rcases he with he | he
    · exact h.trees_lt e he
    · obtain rfl := List.mem_singleton.1 he
      exact hlt
  frames := h.frames
  linked hstarted := by
    rcases List.mem_cons.1 hstarted with heq | hstarted
    · cases heq
    · obtain ⟨e, he, hpath⟩ := h.linked hstarted
      rw [Engine.entries_addModule]
      exact ⟨e, List.mem_append_left _ he, hpath⟩

theorem start (h : Faithful env s log) {e : ModuleEntry} (he : e ∈ s.entries)
    (hpath : e.path = path) (htop : log.active.head? = some path)
    (hnew : path ∉ log.started) (hroot : env.moduleRoot? path = some tree.root)
    (himports : Journal.Supplied env path tree.root log) :
    Faithful env (s.pushed e.scope .moduleFrame none)
      (.started path tree (s.pushed e.scope .moduleFrame none) :: log) := by
  have hframes : (s.pushed e.scope .moduleFrame none).moduleScopes =
      e.scope :: log.scopes := by
    rw [← h.frames]
    rfl
  exact
    { grown := { h.grown with }
      rooted := fun f hf => by
        rcases List.mem_cons.1 hf with rfl | hf
        · exact ⟨rfl, rfl⟩
        · exact h.rooted f hf
      proper := .start h.proper htop hnew hroot himports
      paths := h.paths
      trees := h.trees
      trees_lt := h.trees_lt
      frames := hframes
      linked := fun hstarted => by
        rcases List.mem_cons.1 hstarted with heq | hstarted
        · cases heq
          exact ⟨e, he, hpath, rfl⟩
        · exact h.linked hstarted }

theorem finish (h : Faithful env s log) (htop : log.active.head? = some path)
    (hstarted : path ∈ log.started) :
    Faithful env s (.finished path :: log) where
  grown := h.grown
  rooted := h.rooted
  proper := .finish h.proper htop hstarted
  paths := h.paths
  trees := h.trees
  trees_lt := h.trees_lt
  frames := h.frames
  linked hstarted := by
    rcases List.mem_cons.1 hstarted with heq | hstarted
    · cases heq
    · exact h.linked hstarted

theorem forTree? (h : Faithful env s log) {e : ModuleEntry}
    (he : e ∈ s.entries) : s.modules.forTree? e.tree = some e := by
  have hmem : e ∈ s.modules.modules.toList.reverse := List.mem_reverse.2 he
  have hsome : (s.modules.forTree? e.tree).isSome := by
    rw [ModuleTable.forTree?, List.find?_isSome]
    exact ⟨e, hmem, beq_self_eq_true _⟩
  obtain ⟨found, hfound⟩ := Option.isSome_iff_exists.1 hsome
  have hentry : found ∈ s.entries :=
    List.mem_reverse.1 (List.mem_of_find?_eq_some hfound)
  have htree : found.tree = e.tree := by simpa using List.find?_some hfound
  rw [hfound, List.inj_on_of_nodup_map h.trees hentry he htree]

theorem code_silent (h : Faithful env s log) {e : ModuleEntry}
    (he : e ∈ s.entries) (hpath : e.path = path) (htree : e.tree = tree.id)
    (himports : Journal.Supplied env path tree.root log) (fuel : Nat) :
    s.Silent ((Eval.withTree tree.id
      ((Calls.ofFuel fuel).executeAll tree.root.children)).after s) := by
  have hcurrent :
      ({ s with currentTree := tree.id } : Engine).currentModulePath? =
        some path := by
    unfold Engine.currentModulePath?
    rw [← htree, h.forTree? he, ← hpath]
    rfl
  rw [Eval.after_withTree]
  refine Silent.of_tree
    (Calls.executeAll_silent fuel fun child hchild n hn himport dep hdep => ?_)
  obtain ⟨dep', hdep', hentered⟩ :=
    himports n (Node.mem_descendants_of_child hchild hn) himport
  have hsame : s.findModulePath n.text (some path) = .ok dep' := by
    rw [h.grown.findModulePath, hdep']
  rw [hcurrent] at hdep
  obtain rfl : dep = dep' := Except.ok.inj (hdep.symm.trans hsame)
  intro hnone
  exact (h.find?_eq_none_iff (h.proper.hasModule hentered)).1 hnone hentered

end Faithful

/-! ## Loading -/

namespace Logged

variable {α β : Type} {st : Engine × Journal} {ok : α → Engine → Journal → Prop}
  {err : Stop → Engine → Journal → Prop}

def Post (x : Logged α) (st : Engine × Journal)
    (ok : α → Engine → Journal → Prop) (err : Stop → Engine → Journal → Prop) :
    Prop :=
  match x st with
  | .ok a st => ok a st.1 st.2
  | .error e st => err e st.1 st.2

theorem Post.bind {x : Logged α} {f : α → Logged β}
    {last : β → Engine → Journal → Prop} (hx : Post x st ok err)
    (hf : ∀ a t log, ok a t log → Post (f a) (t, log) last err) :
    Post (x >>= f) st last err := by
  unfold Post at hx ⊢
  simp only [Bind.bind, EStateM.bind]
  split at hx
  · rename_i a st' hrun
    simp only [hrun]
    exact hf a st'.1 st'.2 hx
  · rename_i hrun
    simpa only [hrun] using hx

theorem Post.mono {x : Logged α} {ok' : α → Engine → Journal → Prop}
    {err' : Stop → Engine → Journal → Prop} (hx : Post x st ok err)
    (hok : ∀ a t log, ok a t log → ok' a t log)
    (herr : ∀ e t log, err e t log → err' e t log) : Post x st ok' err' := by
  unfold Post at *
  split at hx
  · exact hok _ _ _ hx
  · exact herr _ _ _ hx

theorem Post.bind_lift {y : Eval α} {f : α → Logged β} {s : Engine}
    {log : Journal} {last : β → Engine → Journal → Prop}
    (hok : ∀ a t, y s = .ok a t → Post (f a) (t, log) last err)
    (herr : ∀ e t, y s = .error e t → err e t log) :
    Post (Logged.lift y >>= f) (s, log) last err := by
  unfold Post Logged.lift at *
  simp only [Bind.bind, EStateM.bind]
  cases hrun : y s with
  | ok a t => exact hok a t hrun
  | error e t => exact herr e t hrun

theorem Post.bind_read {f : Engine → α} {k : α → Logged β} {s : Engine}
    {log : Journal} {last : β → Engine → Journal → Prop}
    (hk : Post (k (f s)) (s, log) last err) :
    Post (Logged.lift (Eval.read f) >>= k) (s, log) last err := hk

theorem Post.bind_inspect {f : Engine → Except Failure α} {k : α → Logged β}
    {s : Engine} {log : Journal} {last : β → Engine → Journal → Prop}
    (hok : ∀ a, f s = .ok a → Post (k a) (s, log) last err)
    (herr : ∀ e, f s = .error e → err (.failed e) s log) :
    Post (Logged.lift (Eval.inspect f) >>= k) (s, log) last err := by
  refine .bind_lift (fun a t hrun => ?_) fun e t hrun => ?_ <;>
    unfold Eval.inspect at hrun <;>
    split at hrun <;> cases hrun
  · exact hok _ ‹_›
  · exact herr _ ‹_›

theorem Post.bind_note {event : Engine → Event} {x : Logged α} {s : Engine}
    {log : Journal} (hx : Post x (s, event s :: log) ok err) :
    Post (do note event; x) (s, log) ok err := hx

theorem Post.mapFailure {x : Logged α} {f : Failure → Failure}
    (hx : Post x st ok err)
    (herr : ∀ e t log, err (.failed e) t log → err (.failed (f e)) t log) :
    Post (Logged.mapFailure f x) st ok err := by
  unfold Post Logged.mapFailure at *
  cases hrun : x st with
  | ok a st' => simpa only [hrun] using hx
  | error e st' =>
      rw [hrun] at hx
      cases e with
      | failed e => exact herr e st'.1 st'.2 hx
      | outOfFuel => exact hx

end Logged

def Event.path : Event → String
  | .entered path => path
  | .started path _ _ => path
  | .finished path => path

/-- From `s` to `t` only modules that are entered on the way have events.  A
success (if `b`) ends all the loads it begins. -/
structure Continues (s : Engine) (log : Journal) (b : Bool) (t : Engine)
    (log' : Journal) : Prop where
  grown : s.Extends t
  later : ∃ later, log' = later ++ log ∧ ∀ event ∈ later,
    event.path ∉ log.entered
  active : b = true → log'.active = log.active

namespace Continues

variable {s t u : Engine} {log log' log'' : Journal} {b : Bool} {path : String}

theorem of_extends (h : s.Extends t) (log : Journal) (b : Bool) :
    Continues s log b t log :=
  ⟨h, ⟨[], rfl, fun _ he => (List.not_mem_nil he).elim⟩, fun _ => rfl⟩

theorem entered_subset (h : Continues s log b t log') :
    log.entered ⊆ log'.entered := by
  obtain ⟨later, rfl, -⟩ := h.later
  intro path hpath
  rw [Journal.entered, List.filterMap_append]
  exact List.mem_append_right _ hpath

theorem entered_length_le (h : Continues s log b t log') :
    log.entered.length ≤ log'.entered.length := by
  obtain ⟨later, rfl, -⟩ := h.later
  simp [Journal.entered]

theorem trans (hst : Continues s log true t log')
    (htu : Continues t log' b u log'') : Continues s log b u log'' where
  grown := hst.grown.trans htu.grown
  later := by
    obtain ⟨later, hlater, hfresh⟩ := hst.later
    obtain ⟨latest, rfl, hfresh'⟩ := htu.later
    refine ⟨latest ++ later, by rw [hlater, List.append_assoc],
      fun event he hentered => ?_⟩
    rcases List.mem_append.1 he with he | he
    · exact hfresh' event he (hst.entered_subset hentered)
    · exact hfresh event he hentered
  active hb := (htu.active hb).trans (hst.active rfl)

theorem extend (h : Continues s log b t log') (htu : t.Extends u) :
    Continues s log b u log' :=
  ⟨h.grown.trans htu, h.later, h.active⟩

theorem note (h : Continues s log b t log') (event : Event)
    (hpath : event.path = path) (hnew : path ∉ log.entered) :
    Continues s log false t (event :: log') where
  grown := h.grown
  later := by
    obtain ⟨later, rfl, hfresh⟩ := h.later
    refine ⟨event :: later, rfl, fun other hother => ?_⟩
    rcases List.mem_cons.1 hother with rfl | hother
    · rwa [hpath]
    · exact hfresh other hother
  active hb := by cases hb

theorem enter (hnew : path ∉ log.entered) (hs : s.Extends t)
    (h : Continues t (.entered path :: log) b u log') :
    Continues s log false u log' where
  grown := hs.trans h.grown
  later := by
    obtain ⟨later, rfl, hfresh⟩ := h.later
    refine ⟨later ++ [.entered path], by simp, fun event he => ?_⟩
    rcases List.mem_append.1 he with he | he
    · exact fun hentered => hfresh event he (List.mem_cons_of_mem path hentered)
    · obtain rfl := List.mem_singleton.1 he
      exact hnew
  active hb := by cases hb

theorem not_started (h : Continues s (.entered path :: log) b t log')
    (hnew : path ∉ log.started) : path ∉ log'.started := by
  obtain ⟨later, rfl, hfresh⟩ := h.later
  intro hstarted
  rw [Journal.started, List.filterMap_append, List.mem_append] at hstarted
  rcases hstarted with hstarted | hstarted
  · obtain ⟨event, hevent, hpath⟩ := List.mem_filterMap.1 hstarted
    refine hfresh event hevent ?_
    cases event with
    | started _ tree u =>
        cases hpath
        exact List.mem_cons_self
    | _ => cases hpath
  · exact hnew hstarted

end Continues

section Loading

variable {env s : Engine} {log : Journal}

/-- Running out of fuel, if there was more than enough to enter every module, is
the fault of code that has started and that had the rest of the fuel. -/
def Starved (env : Engine) (n : Nat) (log log' : Journal) : Prop :=
  ∀ (existing : List String) (spare : Nat),
    (∀ path, env.HasModule path → path ∈ existing) →
    existing.length + spare < n + log.entered.length →
      ∃ path tree u earlier fuel v, log' = .started path tree u :: earlier ∧
        spare ≤ fuel ∧
        Eval.withTree tree.id
          ((Calls.ofFuel fuel).executeAll tree.root.children) u =
          .error .outOfFuel v

structure Aborted (env : Engine) (n : Nat) (s : Engine) (log : Journal)
    (e : Stop) (t : Engine) (log' : Journal) : Prop where
  faithful : Faithful env t log'
  continues : Continues s log false t log'
  starved : e = .outOfFuel → Starved env n log log'

theorem Aborted.failed {n : Nat} {e : Failure} (hs : Faithful env s log) :
    Aborted env n s log (.failed e) s log :=
  ⟨hs, .of_extends (.refl s) log false, fun he => by cases he⟩

theorem Aborted.trans {n : Nat} {t u : Engine} {log' log'' : Journal} {e : Stop}
    (hst : Continues s log true t log') (h : Aborted env n t log' e u log'') :
    Aborted env n s log e u log'' where
  faithful := h.faithful
  continues := hst.trans h.continues
  starved he existing spare hexisting hfuel := by
    have hlength := hst.entered_length_le
    exact h.starved he existing spare hexisting (by omega)

theorem Aborted.enter {n : Nat} {t u : Engine} {path : String} {log' : Journal}
    {e : Stop} (hnew : path ∉ log.entered) (hs : s.Extends t)
    (h : Aborted env n t (.entered path :: log) e u log') :
    Aborted env (n + 1) s log e u log' where
  faithful := h.faithful
  continues := h.continues.enter hnew hs
  starved he existing spare hexisting hfuel := by
    have hlength : (Journal.entered (.entered path :: log)).length =
        log.entered.length + 1 := rfl
    exact h.starved he existing spare hexisting (by omega)

def Loads (env : Engine) (n : Nat) : Prop :=
  ∀ (request : String) (importer : Option String) (s : Engine) (log : Journal),
    Faithful env s log →
    (∀ path, env.findModulePath request importer = .ok path →
      ∀ outer ∈ log.active.head?, env.Imports outer path) →
    Logged.Post (Logged.load n request importer) (s, log)
      (fun _ t log' => Faithful env t log' ∧ Continues s log true t log' ∧
        ∃ path, env.findModulePath request importer = .ok path ∧
          path ∈ log'.entered) (Aborted env n s log)

theorem preloads_post {n : Nat} (hload : Loads env n) {path : String}
    {root : Node} (hroot : env.moduleRoot? path = some root) (scope : ScopeId)
    {nodes : List Node}
    (hnodes : ∀ node ∈ nodes, node ∈ root.descendants ∧
      node.kind = .importModule) (hs : Faithful env s log)
        (htop : log.active.head? = some path) :
    Logged.Post (nodes.forM (Logged.preload (Logged.load n) path scope root))
      (s, log)
      (fun _ t log' => Faithful env t log' ∧ Continues s log true t log' ∧
        ∀ node ∈ nodes, ∃ dep, env.findModulePath node.text (some path) =
          .ok dep ∧
          dep ∈ log'.entered)
      (Aborted env n s log) := by
  have hR := Silent.isLocal
  induction nodes generalizing s log with
  | nil => exact ⟨hs, .of_extends (.refl s) log true, fun _ h =>
      (List.not_mem_nil h).elim⟩
  | cons node rest ih =>
      obtain ⟨⟨hmem, hkind⟩, hrest⟩ := List.forall_mem_cons.1 hnodes
      have himport : ∀ dep, env.findModulePath node.text (some path) = .ok dep →
          ∀ outer ∈ log.active.head?, env.Imports outer dep := by
        intro dep hdep outer houter
        rw [htop] at houter
        cases houter
        exact ⟨root, hroot, node, hmem, hkind, hdep⟩
      have hnode :
          Logged.Post (Logged.preload (Logged.load n) path scope root node)
            (s, log)
          (fun _ t log' => Faithful env t log' ∧ Continues s log true t log' ∧
            ∃ dep, env.findModulePath node.text (some path) = .ok dep ∧
              dep ∈ log'.entered) (Aborted env n s log) := by
        refine .bind
          (.mapFailure (hload node.text (some path) s log hs himport) ?_)
          fun dep t log' ⟨ht, hst, hdep⟩ => ?_
        · exact fun e t log' h =>
            ⟨h.faithful, h.continues, fun he => by cases he⟩
        · split
          · have hlink : t.Silent ((do
                let depScope ← Eval.read fun s => (s.modules.get dep).scope
                Eval.updateScope scope (·.addImport depScope) : Eval Unit).after
                  t) :=
              hR.bind (hR.read _)
                (fun depScope => hR.modify fun _ => .addImport scope depScope) t
            exact ⟨ht.silent hlink,
              hst.trans (.of_extends hlink.grown log' true), hdep⟩
          · exact ⟨ht, hst, hdep⟩
      refine .bind hnode fun _ t log' ⟨ht, hst, dep, hdep, hentered⟩ => ?_
      refine .mono (ih hrest ht ((hst.active rfl).symm ▸ htop)) ?_
        fun e u log'' h => h.trans hst
      intro _ u log'' ⟨hu, htu, hall⟩
      refine ⟨hu, hst.trans htu, List.forall_mem_cons.2 ⟨⟨dep, hdep, ?_⟩, hall⟩⟩
      exact htu.entered_subset hentered

theorem code_post {path : String} {tree : SyntaxTree} {entry : ModuleEntry}
    (hs : Faithful env s log) (hentry : entry ∈ s.entries)
    (hpath : entry.path = path) (htree : entry.tree = tree.id)
    (htop : log.active.head? = some path) (hnew : path ∉ log.started)
    (hroot : env.moduleRoot? path = some tree.root)
    (himports : Journal.Supplied env path tree.root log) (n : Nat)
    (id : ModuleId) :
    Logged.Post (do
        Logged.lift (Eval.updateArena
          (·.pushFrame entry.scope .moduleFrame none))
        Logged.note (.started path tree)
        let _ ← Logged.lift (Eval.withTree tree.id
          ((Calls.ofFuel n).executeAll tree.root.children))
        Logged.note fun _ => .finished path
        pure id) (s, log)
      (fun _ t log' => Faithful env t log' ∧ s.Extends t ∧
        ∃ u, log' = [.finished path, .started path tree u] ++ log)
      (fun e t log' => Faithful env t log' ∧ s.Extends t ∧
        ∃ u, log' = .started path tree u :: log ∧ (e = .outOfFuel →
          Eval.withTree tree.id
            ((Calls.ofFuel n).executeAll tree.root.children) u =
            .error .outOfFuel t)) := by
  have hstart : Faithful env (s.pushed entry.scope .moduleFrame none)
      (.started path tree (s.pushed entry.scope .moduleFrame none) :: log) :=
    hs.start hentry hpath htop hnew hroot himports
  have hsilent := hstart.code_silent hentry hpath htree himports n
  have hgrown : s.Extends (s.pushed entry.scope .moduleFrame none) :=
    { Engine.Extends.refl s with }
  refine .bind_lift (fun _ t hrun => ?_) fun e t hrun => by cases hrun
  obtain rfl : t = s.pushed entry.scope .moduleFrame none := by
    cases hrun
    rfl
  refine .bind_note (.bind_lift (fun _ u hrun => ?_) fun e u hrun => ?_)
  · rw [Eval.after_ok hrun] at hsilent
    have hfinish := (hstart.silent hsilent).finish htop List.mem_cons_self
    exact .bind_note ⟨hfinish, hgrown.trans hsilent.grown, _, rfl⟩
  · rw [Eval.after_error hrun] at hsilent
    refine ⟨hstart.silent hsilent, hgrown.trans hsilent.grown, _, rfl, ?_⟩
    rintro rfl
    exact hrun

/-- A module is entered, then its imports are loaded, and then its code runs. -/
theorem evaluateModule_post {n : Nat} (hload : Loads env n) {path : String}
    {tree : SyntaxTree} (hs : Faithful env s log) (hmodule : env.HasModule path)
    (hnew : path ∉ log.entered) (hroot : env.moduleRoot? path = some tree.root)
    (himport : ∀ outer ∈ log.active.head?, env.Imports outer path)
    (htree : ∀ e ∈ s.entries, e.tree.index < tree.id.index)
    (hlt : tree.id.index < s.nextTree) :
    Logged.Post (Logged.evaluateModule (Logged.load n) (Calls.ofFuel n) path
      tree) (s, log)
      (fun _ t log' => Faithful env t log' ∧ Continues s log true t log' ∧
        path ∈ log'.entered) (Aborted env (n + 1) s log) := by
  have hfind : s.modules.find? path = none :=
    (hs.find?_eq_none_iff hmodule).2 hnew
  have hentered := hs.enter hmodule hnew himport htree hlt
  have hextends := Engine.Extends.addModule s path tree.id
  unfold Logged.evaluateModule
  refine .bind_read ?_
  rw [hfind]
  refine .bind_lift (fun entry t hrun => ?_) fun e t hrun => by cases hrun
  obtain ⟨rfl, rfl⟩ : entry = (⟨s.modules.modules.size⟩, ⟨s.scopes.size⟩) ∧
      t = (Eval.addModule path tree.id).after s := by
    cases hrun
    exact ⟨rfl, rfl⟩
  refine .bind_note ?_
  have hnodes : ∀ node ∈ tree.root.descendants.filter (·.kind == .importModule),
      node ∈ tree.root.descendants ∧ node.kind = .importModule := by
    intro node hnode
    simpa using List.mem_filter.1 hnode
  refine .bind
    (.mono (preloads_post hload hroot ⟨s.scopes.size⟩ hnodes hentered rfl)
      (fun _ _ _ h => h) fun e u log' h => h.enter hnew hextends) ?_
  rintro _ t loaded ⟨ht, hst, hall⟩
  have htop : loaded.active.head? = some path := by
    rw [hst.active rfl]
    rfl
  have hentry : s.entryFor path tree.id ∈ t.entries := by
    refine hst.grown.entries.subset ?_
    rw [Engine.entries_addModule]
    exact List.mem_append_right _ List.mem_cons_self
  have hnotstarted : path ∉ loaded.started :=
    hst.not_started fun h => hnew (hs.proper.started_subset_entered h)
  have hloaded : Continues s log false t loaded := hst.enter hnew hextends
  refine .mono
    (code_post ht hentry rfl rfl htop hnotstarted hroot (fun node hnode hkind =>
      hall node (List.mem_filter.2 ⟨hnode, by simpa using hkind⟩)) n _) ?_ ?_
  · rintro _ u _ ⟨hu, htu, v, rfl⟩
    have hended :=
      ((hloaded.extend htu).note (.started path tree v) rfl hnew).note
      (.finished path) rfl hnew
    refine ⟨hu, ⟨hended.grown, hended.later, fun _ => ?_⟩,
      hst.entered_subset List.mem_cons_self⟩
    change loaded.active.tail = log.active
    rw [hst.active rfl]
    rfl
  · rintro e u _ ⟨hu, htu, v, rfl, hcode⟩
    refine ⟨hu, (hloaded.extend htu).note _ rfl hnew, ?_⟩
    rintro he existing spare hexisting hfuel
    -- This module is one of those in the table, which leaves the code at least
    -- `spare` of the fuel.
    have hlength := (hentered.proper.active_length_le hexisting).1
    have hone : (Journal.entered (.entered path :: log)).length =
        log.entered.length + 1 := rfl
    exact ⟨path, tree, v, loaded, n, u, rfl, by omega, hcode he⟩

theorem entry_post {n : Nat} (hload : Loads env n) {request : String}
    {importer : Option String} {path : String}
    (hpath : env.findModulePath request importer = .ok path)
    (hs : Faithful env s log) (hnew : path ∉ log.entered)
    (himport : ∀ outer ∈ log.active.head?, env.Imports outer path) :
    Logged.Post (do
        let tree ← Logged.lift (Eval.parseModule path)
        Logged.evaluateModule (Logged.load n) (Calls.ofFuel n) path tree)
          (s, log)
      (fun _ t log' => Faithful env t log' ∧ Continues s log true t log' ∧
        path ∈ log'.entered)
      (Aborted env (n + 1) s log) := by
  have hmodule := Engine.findModulePath_hasModule hpath
  rcases parseModule_cases s path with ⟨root, hroot, hparse⟩ | ⟨e, -, hparse⟩
  · refine .bind_lift (fun tree t hrun => ?_) fun e t hrun => ?_
    · rw [hparse] at hrun
      cases hrun
      have hadopted : s.Silent { s with nextTree := s.nextTree + 1 } :=
        Silent.isLocal.move .adoptTree
      have hroot : env.moduleRoot? path = some root := by
        unfold Engine.moduleRoot? at hroot ⊢
        rwa [hs.grown.source] at hroot
      refine .mono
        (evaluateModule_post hload (hs.silent hadopted) hmodule hnew
          hroot himport
          (fun e he => hs.trees_lt e he) (Nat.lt_succ_self _)) ?_ ?_
      · exact fun _ t log' ⟨ht, hst, hentered⟩ =>
          ⟨ht, (Continues.of_extends hadopted.grown log true).trans hst,
            hentered⟩
      · exact fun e t log' h => h.trans (.of_extends hadopted.grown log true)
    · rw [hparse] at hrun
      cases hrun
  · refine .bind_lift (fun tree t hrun => ?_) fun e t hrun => ?_
    · rw [hparse] at hrun
      cases hrun
    · rw [hparse] at hrun
      cases hrun
      exact .failed hs

theorem Loads.step {n : Nat} (hload : Loads env n) : Loads env (n + 1) := by
  intro request importer s log hs himport
  refine .bind_inspect (fun path hpath => .bind_read ?_) fun e _ => .failed hs
  rw [hs.grown.findModulePath] at hpath
  have hknown := hs.find?_eq_none_iff (Engine.findModulePath_hasModule hpath)
  cases hfound : s.modules.find? path with
  | some id =>
      have hentered : path ∈ log.entered := by
        by_contra hnew
        rw [hknown.2 hnew] at hfound
        cases hfound
      exact ⟨hs, .of_extends (.refl s) log true, path, hpath, hentered⟩
  | none =>
      refine .mono
        (entry_post hload hpath hs (hknown.1 hfound) (himport path hpath)) ?_
        fun _ _ _ h => h
      exact fun _ t log' ⟨ht, hst, hentered⟩ => ⟨ht, hst, path, hpath, hentered⟩

theorem Loads.ofFuel (env : Engine) (fuel : Nat) : Loads env fuel := by
  induction fuel with
  | zero =>
      intro request importer s log hs himport
      refine ⟨hs, .of_extends (.refl s) log false,
        fun _ existing spare hexisting hfuel => ?_⟩
      have hlength := (hs.proper.active_length_le hexisting).1
      omega
  | succ fuel ih => exact ih.step

end Loading

/-! ## What journals show -/

namespace Journal

structure Ordered (env t : Engine) (log : Journal) : Prop where
  /-- No module is missing from the journal. -/
  complete : t.entries.map ModuleEntry.path = log.entered.reverse
  existing : ∀ path ∈ log.entered, env.HasModule path
  once : log.started.Nodup
  /-- When a module starts, each module that it imports has finished or is in
  progress around it. -/
  ready : ∀ later path tree u (earlier : Journal),
    log = later ++ .started path tree u :: earlier →
    env.moduleRoot? path = some tree.root ∧
      ∀ node ∈ tree.root.descendants, node.kind = .importModule →
        ∃ dep, env.findModulePath node.text (some path) = .ok dep ∧
          (dep ∈ earlier.finished ∨ dep ∈ earlier.active ∧
            TransGen env.Imports path path)
  /-- There are never more loads in progress than there are modules. -/
  bounded : ∀ later earlier : Journal, log = later ++ earlier →
    ∀ modules : List String, (∀ path, env.HasModule path → path ∈ modules) →
      earlier.active.length ≤ modules.length

/-- After a success each module has a frame, and these lie on one another as the
modules have started. -/
structure Stacked (env t : Engine) (log : Journal) : Prop where
  frames : t.moduleScopes = log.scopes
  linked : ∀ e ∈ t.entries, ∃ tree u, .started e.path tree u ∈ log ∧
    u.currentScope = e.scope
  below : ∀ e ∈ t.entries, ∀ f ∈ t.entries, env.Imports e.path f.path →
    ¬ TransGen env.Imports e.path e.path →
    [e.scope, f.scope].Sublist t.moduleScopes

end Journal

namespace Faithful

variable {env t : Engine} {log : Journal}

theorem ordered (h : Faithful env t log) : Journal.Ordered env t log where
  complete := h.paths
  existing _ hpath := h.proper.hasModule hpath
  once := h.proper.started_nodup
  ready _ _ _ _ _ hlog := (hlog ▸ h.proper).ready
  bounded _ _ hlog _ hmodules :=
    ((hlog ▸ h.proper).of_append.active_length_le hmodules).2

theorem currentScope_of_started (h : Faithful env t log) {e : ModuleEntry}
    (he : e ∈ t.entries) {tree : SyntaxTree} {u : Engine}
    (hstarted : .started e.path tree u ∈ log) : u.currentScope = e.scope := by
  obtain ⟨f, hf, hpath, hscope⟩ := h.linked hstarted
  have hnodup : (t.entries.map ModuleEntry.path).Nodup := by
    rw [h.paths, List.nodup_reverse]
    exact h.proper.entered_nodup
  rw [← hscope, List.inj_on_of_nodup_map hnodup hf he hpath]

theorem exists_started (h : Faithful env t log) (hactive : log.active = [])
    {e : ModuleEntry} (he : e ∈ t.entries) :
    ∃ later tree u earlier,
      log = later ++ .started e.path tree u :: earlier := by
  have hentered : e.path ∈ log.entered := by
    rw [← List.mem_reverse, ← h.paths]
    exact List.mem_map_of_mem he
  rcases h.proper.active_or_finished hentered with hmem | hfinished
  · rw [hactive] at hmem
    cases hmem
  · exact Journal.Proper.exists_started
      (h.proper.finished_subset_started hfinished)

theorem stacked (h : Faithful env t log) (hactive : log.active = []) :
    Journal.Stacked env t log where
  frames := h.frames
  linked e he := by
    obtain ⟨later, tree, u, earlier, hlog⟩ := h.exists_started hactive he
    have hstarted : .started e.path tree u ∈ log := by simp [hlog]
    exact ⟨tree, u, hstarted, h.currentScope_of_started he hstarted⟩
  below e he f hf himport hacyclic := by
    obtain ⟨later, tree, u, earlier, hlog⟩ := h.exists_started hactive he
    have hproper :
        Journal.Proper env (later ++ .started e.path tree u :: earlier) :=
      hlog ▸ h.proper
    obtain ⟨hroot, hready⟩ := hproper.ready
    obtain ⟨root, hroot', node, hnode, hkind, hfind⟩ := himport
    obtain rfl : root = tree.root := Option.some.inj (hroot'.symm.trans hroot)
    obtain ⟨dep, hdep, hfinished | ⟨-, hcycle⟩⟩ := hready node hnode hkind
    · -- What has finished has started earlier still.
      obtain rfl : dep = f.path := Except.ok.inj (hdep.symm.trans hfind)
      have hearlier := hproper.of_append.of_cons
      obtain ⟨between, tree', u', earliest, rfl⟩ :=
        Journal.Proper.exists_started (hearlier.finished_subset_started
          hfinished)
      have he' : .started e.path tree u ∈ log := by simp [hlog]
      have hf' : .started f.path tree' u' ∈ log := by simp [hlog]
      rw [← h.currentScope_of_started he he',
        ← h.currentScope_of_started hf hf', h.frames, hlog]
      simp [Journal.scopes, Journal.startedScope?]
    · exact absurd hcycle hacyclic

end Faithful

/-! ## Requests and programs -/

def Program.finish (c : Calls) (settings : Settings) (id : ModuleId) :
    Eval Int32 := do
  let entry ← Eval.inspect fun s =>
    entryPoint s (s.modules.get id).scope settings.entryFunction
  let code ←
    match ← c.invoke entry [] with
    | some value => Eval.inspect fun s => exitCode s value
    | none => pure 0
  c.shutdown
  pure code

theorem Program.finish_entries (fuel : Nat) (settings : Settings)
    (id : ModuleId) :
    Eval.Within (fun s t => t.entries = s.entries)
      (finish (Calls.ofFuel fuel) settings id) := by
  have hc := Calls.Discreet.ofFuel fuel
  have hR : Eval.Composable fun s t => t.entries = s.entries :=
    ⟨fun _ => rfl, fun hst htu => htu.trans hst⟩
  have hshutdown : Eval.Within (fun s t => t.entries = s.entries)
      (Calls.ofFuel fuel).shutdown :=
    (hR.threading fun _ _ => rfl).popFramesTo (d := .ofFuel fuel)
      (fun v s => (hc.plain.destroy v s).entries) 0
  have hexit := fun code : Int32 => hR.bind hshutdown fun _ => hR.pure code
  refine hR.bind (hR.inspect _) fun entry => ?_
  refine hR.bind (fun s => (hc.plain.invoke entry [] s).entries)
    fun result => ?_
  cases result with
  | some value => exact hR.bind (hR.inspect _) hexit
  | none => exact hexit 0

inductive Loader where
  | load (request : String) (importer : Option String)
  | program (settings : Settings)

namespace Loader

def perform (c : Calls) : Loader → Eval ModuleId
  | .load request importer => c.loadModule request importer
  | .program settings => do
      let path ← Eval.inspect fun s => s.findModulePath settings.entry none
      let tree ← Eval.parseModule path
      c.evaluateModule path tree

def journal (fuel : Nat) : Loader → Logged ModuleId
  | .load request importer => Logged.load fuel request importer
  | .program settings => do
      let path ← Logged.lift
        (Eval.inspect fun s => s.findModulePath settings.entry none)
      let tree ← Logged.lift (Eval.parseModule path)
      Logged.evaluateModule (Logged.load fuel) (Calls.ofFuel fuel) path tree

theorem journal_erases (loader : Loader) (fuel : Nat) :
    Logged.Erases (loader.journal fuel)
      (loader.perform (Calls.ofFuel fuel)) := by
  cases loader with
  | load request importer => exact .load fuel request importer
  | program settings =>
      refine .bind (.lift _) fun path => .bind (.lift _) fun tree => ?_
      exact .evaluateModule (.load fuel) path tree

theorem journal_post (loader : Loader) (fuel : Nat) {env : Engine}
    (henv : Faithful env env []) :
    Logged.Post (loader.journal fuel) (env, [])
      (fun _ t log => Faithful env t log ∧ Continues env [] true t log)
      (Aborted env fuel env []) := by
  cases loader with
  | load request importer =>
      refine .mono (Loads.ofFuel env fuel request importer env [] henv ?_) ?_
        fun _ _ _ h => h
      · exact fun _ _ outer houter => by cases houter
      · exact fun _ t log ⟨ht, hcontinues, _⟩ => ⟨ht, hcontinues⟩
  | program settings =>
      refine .bind_inspect (fun path hpath => ?_) fun e _ => .failed henv
      refine .mono
        (entry_post (Loads.ofFuel env fuel) hpath henv List.not_mem_nil ?_) ?_
          ?_
      · exact fun outer houter => by cases houter
      · exact fun _ t log ⟨ht, hcontinues, _⟩ => ⟨ht, hcontinues⟩
      · exact fun e t log h =>
          ⟨h.faithful, h.continues, fun he modules spare hmodules hfuel =>
            h.starved he modules spare hmodules (by omega)⟩

/-- Whatever a host loads first, and however it ends: each module starts at most
once, when the modules that it imports have finished unless these are in
progress around it; after a success the frames lie in that order; and without
fuel it is left only by the code of a module. -/
theorem loads_in_order (limits : Limits) (sink : Sink)
    (source : Option ModuleSource) (searchPaths : List String) (loader : Loader)
    (fuel : Nat) :
    let env := Engine.new limits sink source searchPaths
    Logged.forget (loader.journal fuel (env, [])) =
      loader.perform (Calls.ofFuel fuel) env ∧
    Logged.Post (loader.journal fuel) (env, [])
      (fun _ t log => Journal.Ordered env t log ∧ Journal.Stacked env t log)
      (fun e t log => Journal.Ordered env t log ∧
        (e = .outOfFuel → Starved env fuel [] log)) ∧
    ∀ settings : Settings,
      Program.tryRun (Calls.ofFuel fuel) settings = (do
        let id ← (program settings).perform (Calls.ofFuel fuel)
        Program.finish (Calls.ofFuel fuel) settings id) ∧
      ∀ id t, ((Program.finish (Calls.ofFuel fuel) settings id).after
        t).entries = t.entries := by
  intro env
  have henv : Faithful env env [] := .new limits sink source searchPaths
  refine ⟨loader.journal_erases fuel (env, []), ?_, fun settings => ⟨?_, ?_⟩⟩
  · refine .mono (loader.journal_post fuel henv) ?_ fun e t log h =>
      ⟨h.faithful.ordered, h.starved⟩
    exact fun _ t log ⟨ht, hcontinues⟩ =>
      ⟨ht.ordered, ht.stacked (hcontinues.active rfl)⟩
  · rw [perform, bind_assoc]
    simp only [bind_assoc]
    rfl
  · exact Program.finish_entries fuel settings

end Loader

end ArenaScript
