import ArenaScript.Proofs.Modules.Preloading

/-!
# The tree that code stands in

A tree is numbered when it comes to an engine.  The trees that a host brings
along make up a forest; any other tree is that of a module, parsed when the
module was loaded.  Code stands in a tree if it is a node of it, and once it
does, it does for good.  All code that an engine holds stands in the tree it is
kept with, and so does what functions and templates are made of while code runs.
-/

namespace ArenaScript

abbrev Forest := TreeId → Option Node

namespace Forest

def bare : Forest := fun tree => if tree = ⟨0⟩ then some default else none

def plant (trees : Forest) (tree : TreeId) (root : Node) : Forest :=
  Function.update trees tree (some root)

end Forest

namespace Engine

variable {trees : Forest} {s t : Engine} {tree home : TreeId} {node root : Node}
  {path : String}

/-- The root of a tree: the host has brought it, or it was parsed for the module
that was first entered with it. -/
def rootOf? (s : Engine) (trees : Forest) (tree : TreeId) : Option Node :=
  (trees tree).or
    ((s.entries.find? (·.tree == tree)).bind fun e => s.moduleRoot? e.path)

def Stands (s : Engine) (trees : Forest) (tree : TreeId) (node : Node) : Prop :=
  ∃ root, s.rootOf? trees tree = some root ∧ node ∈ root :: root.descendants

/-- All code that the engine holds stands in the tree it is kept with; all trees
have been numbered. -/
structure Planted (trees : Forest) (s : Engine) : Prop where
  code : ∀ home node, s.Holds home node → s.Stands trees home node
  brought : ∀ tree root, trees tree = some root → tree.index < s.nextTree
  entered : ∀ e ∈ s.entries, e.tree.index < s.nextTree

theorem rootOf?_brought (h : trees tree = some root) :
    s.rootOf? trees tree = some root := by
  rw [rootOf?, h, Option.some_or]

namespace Stands

theorem extend (h : s.Stands trees tree node) (hst : s.Extends t) :
    t.Stands trees tree node := by
  obtain ⟨root, hroot, hnode⟩ := h
  refine ⟨root, ?_, hnode⟩
  unfold rootOf? at hroot ⊢
  cases htree : trees tree with
  | some other => rwa [htree] at hroot
  | none =>
      rw [htree, Option.none_or, Option.bind_eq_some_iff] at hroot
      obtain ⟨e, he, hparsed⟩ := hroot
      obtain ⟨later, hlater⟩ := hst.entries
      have hold : t.entries.find? (·.tree == tree) = some e := by
        rw [← hlater, List.find?_append, he, Option.some_or]
      rw [Option.none_or, hold, Option.bind_some,
        moduleRoot?_congr hst.source, hparsed]

theorem child {child : Node} (h : s.Stands trees tree node)
    (hchild : child ∈ node.children) : s.Stands trees tree child := by
  obtain ⟨root, hroot, hnode⟩ := h
  have hbelow : child ∈ node.descendants :=
    Node.mem_descendants_of_child hchild List.mem_cons_self
  refine ⟨root, hroot, List.mem_cons_of_mem root ?_⟩
  rcases List.mem_cons.1 hnode with rfl | hnode
  · exact hbelow
  · exact Node.mem_walk_of_descendant hnode hbelow

theorem numbered (h : s.Stands trees tree node) (hs : s.Planted trees) :
    tree.index < s.nextTree := by
  obtain ⟨root, hroot, -⟩ := h
  cases htree : trees tree with
  | some other => exact hs.brought tree other htree
  | none =>
      rw [rootOf?, htree, Option.none_or, Option.bind_eq_some_iff] at hroot
      obtain ⟨e, he, -⟩ := hroot
      have hsame : e.tree = tree := by simpa using List.find?_some he
      exact hsame ▸ hs.entered e (List.mem_of_find?_eq_some he)

end Stands

namespace Planted

theorem quiet (hs : s.Planted trees) (hst : s.Extends t)
    (hmodules : t.modules = s.modules) (hcode : s.NoNewCode t) :
    t.Planted trees where
  code home node hold := (hs.code home node (hcode home node hold)).extend hst
  brought tree root htree :=
    Nat.lt_of_lt_of_le (hs.brought tree root htree) hst.nextTree
  entered e he := by
    rw [entries, hmodules] at he
    exact Nat.lt_of_lt_of_le (hs.entered e he) hst.nextTree

theorem adoptTree (hs : s.Planted trees) :
    ({ s with nextTree := s.nextTree + 1 } : Engine).Planted trees :=
  hs.quiet (.move .adoptTree) rfl (.of_tables rfl rfl)

theorem addFunction (hs : s.Planted trees) {f : Function} {scope : ScopeId}
    (hnode : s.Stands trees s.currentTree node)
    (hf : f.body = .interpreted s.currentTree node scope) :
    ({ s with functions := (s.functions.add f).2 } : Engine).Planted trees where
  code := (Keeping.addFunction ⟨rfl, hs.code⟩ hnode hf).code
  brought := hs.brought
  entered := hs.entered

theorem addTemplate (hs : s.Planted trees) {d : TemplateDef}
    (hd : s.Stands trees d.tree d.node) :
    ({ s with templates := (s.templates.add d).2 } : Engine).Planted trees where
  code := by
    have hkeeping : s.Keeping (s.Stands trees) s.currentTree := ⟨rfl, hs.code⟩
    exact (hkeeping.addTemplate hd).code
  brought := hs.brought
  entered := hs.entered

theorem addModule (hs : s.Planted trees) (path : String)
    (htree : tree.index < s.nextTree) :
    ((Eval.addModule path tree).after s).Planted trees where
  code home node hold := by
    have hcode : s.NoNewCode ((Eval.addModule path tree).after s) :=
      .of_tables rfl rfl
    exact (hs.code home node (hcode home node hold)).extend
      (.addModule s path tree)
  brought := hs.brought
  entered e he := by
    rw [entries_addModule, List.mem_append, List.mem_singleton] at he
    rcases he with he | rfl
    · exact hs.entered e he
    · exact htree

theorem new (limits : Limits) (sink : Sink) (source : Option ModuleSource)
    (searchPaths : List String) :
    (Engine.new limits sink source searchPaths).Planted .bare where
  code home node hold := by
    obtain ⟨rfl, rfl⟩ := holds_new hold
    exact ⟨default, rfl, List.mem_cons_self⟩
  brought tree root htree := by
    unfold Forest.bare at htree
    split at htree
    · rename_i hzero
      subst hzero
      exact Nat.zero_lt_one
    · cases htree
  entered e he := (List.not_mem_nil he).elim

theorem plant (hs : s.Planted trees) (root : Node) :
    ({ s with nextTree := s.nextTree + 1 } : Engine).Planted
      (trees.plant ⟨s.nextTree⟩ root) where
  code home node hold := by
    have hcode : s.NoNewCode { s with nextTree := s.nextTree + 1 } :=
      .of_tables rfl rfl
    have hstands := hs.code home node (hcode home node hold)
    have hne : home ≠ ⟨s.nextTree⟩ := by
      rintro rfl
      exact Nat.lt_irrefl _ (hstands.numbered hs)
    obtain ⟨root', hroot, hnode⟩ := hstands
    refine ⟨root', ?_, hnode⟩
    rwa [rootOf?, Forest.plant, Function.update_of_ne hne]
  brought tree root' htree := by
    by_cases hnew : tree = ⟨s.nextTree⟩
    · subst hnew
      exact Nat.lt_succ_self _
    · rw [Forest.plant, Function.update_of_ne hnew] at htree
      exact Nat.lt_succ_of_lt (hs.brought tree root' htree)
  entered e he := Nat.lt_succ_of_lt (hs.entered e he)

theorem stands_loaded (hs : s.Planted trees)
    (hroot : s.moduleRoot? path = some root)
    (hnode : node ∈ root :: root.descendants) :
    ((Eval.addModule path ⟨s.nextTree⟩).after
      { s with nextTree := s.nextTree + 1 }).Stands trees
      ⟨s.nextTree⟩ node := by
  refine ⟨root, ?_, hnode⟩
  have hnone : trees ⟨s.nextTree⟩ = none := by
    refine Option.eq_none_iff_forall_ne_some.2 fun other htree => ?_
    exact Nat.lt_irrefl _ (hs.brought _ other htree)
  have hunused : s.entries.find? (·.tree == ⟨s.nextTree⟩) = none := by
    refine List.find?_eq_none.2 fun e he heq => ?_
    have hlt := hs.entered e he
    rw [eq_of_beq heq] at hlt
    exact Nat.lt_irrefl _ hlt
  rw [rootOf?, hnone, Option.none_or, entries_addModule, List.find?_append]
  change ((s.entries.find? _).or _).bind _ = _
  rw [hunused, Option.none_or, List.find?_cons_of_pos (by simp [entryFor])]
  exact hroot

end Planted

end Engine

end ArenaScript
