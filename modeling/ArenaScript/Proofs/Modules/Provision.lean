import ArenaScript.Proofs.Evaluation.Coincidence
import ArenaScript.Proofs.Modules.Silence

/-!
# Imports that only link

Code is provided for if every import in it, at whatever depth, asks for a module
that is in the table.  Such an import does nothing but link a scope.  As long as
all code that an engine keeps is provided for, code that is provided for meets
no other import, so an evaluator that performs imports in no other way does the
same as the evaluator itself.
-/

namespace ArenaScript

/-! ## Code that is provided for -/

theorem ModuleTable.find?_of_prefix {t u : ModuleTable} {path : String}
    {id : ModuleId} (h : t.modules.toList <+: u.modules.toList)
    (hid : t.find? path = some id) : u.find? path = some id := by
  obtain ⟨later, hlater⟩ := h
  unfold find? at hid ⊢
  have hlist : ∀ modules : Array ModuleEntry,
      (modules.findIdx? fun m => Path.same m.path path) =
      modules.toList.findIdx? fun m => Path.same m.path path :=
    fun modules => List.findIdx?_toArray _ modules.toList
  rw [hlist] at hid ⊢
  obtain ⟨i, hi, rfl⟩ := Option.map_eq_some_iff.1 hid
  rw [← hlater, List.findIdx?_append, hi]
  rfl

namespace Engine

variable {env s t : Engine} {tree : TreeId} {node : Node}

def imported? (s : Engine) (request : String) : Option ModuleId :=
  match s.findModulePath request s.currentModulePath? with
  | .ok path => s.modules.find? path
  | .error _ => none

def linked (s : Engine) (node : Node) (id : ModuleId) : Engine :=
  { s with
    scopes :=
      s.scopes.modify s.currentScope (·.addImport (s.modules.get id).scope)
    lastPos := if node.pos.isDummy then s.lastPos else node.pos }

/-- The module that an importer means by a request is in the table. -/
def Supplies (s : Engine) (request : String) (importer : Option String) :
    Prop :=
  ∃ path id, s.findModulePath request importer = .ok path ∧
    s.modules.find? path = some id

/-- The node, as code of the module whose tree this is, is provided for. -/
def Provides (s : Engine) (tree : TreeId) (node : Node) : Prop :=
  ∀ n ∈ node :: node.descendants, n.kind = .importModule →
    ∃ e, s.modules.forTree? tree = some e ∧ s.Supplies n.text (some e.path)

theorem Provides.child {child : Node} (h : s.Provides tree node)
    (hchild : child ∈ node.children) : s.Provides tree child :=
  fun n hn =>
    h n (List.mem_cons_of_mem node (Node.mem_descendants_of_child hchild hn))

theorem Supplies.extend {request : String} {importer : Option String}
    (h : s.Supplies request importer) (hst : s.Extends t) :
    t.Supplies request importer := by
  obtain ⟨path, id, hpath, hid⟩ := h
  refine ⟨path, id, ?_, ModuleTable.find?_of_prefix hst.entries hid⟩
  rw [hst.findModulePath, hpath]

theorem Provides.extend (h : s.Provides tree node) (hst : s.Extends t)
    (hleads : ∀ e, s.modules.forTree? tree = some e →
      t.modules.forTree? tree = some e) : t.Provides tree node := by
  intro n hn himport
  obtain ⟨e, he, hsupplies⟩ := h n hn himport
  exact ⟨e, hleads e he, hsupplies.extend hst⟩

theorem Provides.imported? (h : s.Provides s.currentTree node)
    (himport : node.kind = .importModule) :
    ∃ id, s.imported? node.text = some id := by
  obtain ⟨e, he, path, id, hpath, hid⟩ := h node List.mem_cons_self himport
  have hcurrent : s.currentModulePath? = some e.path := by
    rw [currentModulePath?, he, Option.map_some]
  exact ⟨id, by simp only [Engine.imported?, hcurrent, hpath, hid]⟩

structure Keeping (Code : TreeId → Node → Prop) (tree : TreeId) (s : Engine) :
    Prop where
  tree : s.currentTree = tree
  code : ∀ home node, s.Holds home node → Code home node

namespace Keeping

variable {Code : TreeId → Node → Prop}

theorem noNewCode (h : s.Keeping Code tree)
    (htree : t.currentTree = s.currentTree) (hcode : s.NoNewCode t) :
    t.Keeping Code tree where
  tree := htree.trans h.tree
  code home node hold := h.code home node (hcode home node hold)

theorem currentTree (h : s.Keeping Code tree) (id : TreeId) :
    ({ s with currentTree := id } : Engine).Keeping Code id where
  tree := rfl
  code home node hold := by
    have hcode : s.NoNewCode { s with currentTree := id } := .of_tables rfl rfl
    exact h.code home node (hcode home node hold)

theorem addFunction (h : s.Keeping Code tree) {f : Function} {scope : ScopeId}
    (hnode : Code tree node) (hf : f.body = .interpreted tree node scope) :
    ({ s with functions := (s.functions.add f).2 } : Engine).Keeping Code
      tree where
  tree := h.tree
  code home code hold := by
    rcases hold.of_addFunction with ⟨_, hbody⟩ | hold
    · rw [hf] at hbody
      cases hbody
      exact hnode
    · exact h.code home code hold

theorem addTemplate (h : s.Keeping Code tree) {d : TemplateDef}
    (hd : Code d.tree d.node) :
    ({ s with templates := (s.templates.add d).2 } : Engine).Keeping Code
      tree where
  tree := h.tree
  code home code hold := by
    rcases hold.of_addTemplate with ⟨rfl, rfl⟩ | hold
    · exact hd
    · exact h.code home code hold

end Keeping

/-- From `env` to `s` no module has been entered, code of the tree is executing,
and all code of `s` is provided for. -/
structure Stages (env : Engine) (tree : TreeId) (s : Engine) : Prop where
  grown : env.Extends s
  modules : s.modules = env.modules
  keeping : s.Keeping env.Provides tree

namespace Stages

theorem noNewCode (h : env.Stages tree s) (hst : s.Extends t)
    (hmodules : t.modules = s.modules) (htree : t.currentTree = s.currentTree)
    (hcode : s.NoNewCode t) : env.Stages tree t where
  grown := h.grown.trans hst
  modules := hmodules.trans h.modules
  keeping := h.keeping.noNewCode htree hcode

theorem currentTree (h : env.Stages tree s) (id : TreeId) :
    env.Stages id { s with currentTree := id } where
  grown := { h.grown with }
  modules := h.modules
  keeping := h.keeping.currentTree id

theorem linked (h : env.Stages tree s) (node : Node) (id : ModuleId) :
    env.Stages tree (s.linked node id) :=
  h.noNewCode { Extends.of_modify s s.currentScope (·.addImport
    (s.modules.get id).scope) with }
    rfl rfl (.of_tables rfl rfl)

theorem addFunction (h : env.Stages tree s) {f : Function} {scope : ScopeId}
    (hnode : env.Provides tree node)
    (hf : f.body = .interpreted tree node scope) :
    env.Stages tree { s with functions := (s.functions.add f).2 } where
  grown := h.grown.trans (.move (.addFunction f))
  modules := h.modules
  keeping := h.keeping.addFunction hnode hf

theorem addTemplate (h : env.Stages tree s) {d : TemplateDef}
    (hd : env.Provides d.tree d.node) :
    env.Stages tree { s with templates := (s.templates.add d).2 } where
  grown := h.grown.trans (.move (.addTemplate d))
  modules := h.modules
  keeping := h.keeping.addTemplate hd

end Stages

end Engine

/-! ## The congruence -/

def Stop.SameOrdinary (e e' : Stop) : Prop := e' = e ∧ e.Ordinary

theorem Stop.SameOrdinary.map {e e' : Stop} (h : e.SameOrdinary e')
    {f : Failure → Failure}
    (hf : ∀ e, (f e).fault.isNestedImport = e.fault.isNestedImport) :
    (e.map f).SameOrdinary (e'.map f) := by
  refine ⟨congrArg (Stop.map f) h.1, ?_⟩
  cases e with
  | failed e => exact (hf e).trans h.2
  | outOfFuel => trivial

/-- Code of a tree runs while nothing is entered, and it is what is provided
for. -/
def Engine.staging (env : Engine) : Staging where
  World := TreeId
  inTree _ id := id
  Stage tree s := env.Stages tree s
  Code tree node := env.Provides tree node
  Ends _ e e' := e.SameOrdinary e'
  code_child h hchild := h.child hchild
  plain _ _ he := ⟨rfl, he.ordinary⟩
  ends h _ := h
  quiet := .noNewCode
  enter id h := h.currentTree id
  leave {tree _ _ _} h ht := by
    have hback := ht.currentTree tree
    rwa [← h.keeping.tree] at hback ⊢
  settle {tree _} h := ⟨tree, h, fun _ ht => ht, h.keeping.code⟩
  addFunction h hnode hf := h.addFunction hnode (by rw [hf, h.keeping.tree])
  addTemplate h hnode htree hd := by
    refine h.addTemplate ?_
    rw [htree, hd, h.keeping.tree]
    exact hnode

abbrev Engine.provision (env : Engine) : Congruence := env.staging.congruence

theorem Engine.provision_mapsFailures (env : Engine) :
    env.provision.MapsFailures :=
  fun hf hx s hs => (hx s hs).mapFailure fun t _ _ ⟨ht, he⟩ =>
    ⟨ht, he.map (hf t)⟩

/-! ## Evaluators that only link -/

namespace Calls

/-- An import that can only link a module that is in the table; `otherwise`
stands for anything else that it might do. -/
def linkImport (otherwise : Node → Eval Flow) (node : Node) :
    Eval Flow := fun s =>
  match s.imported? node.text with
  | some id => .ok .normal (s.linked node id)
  | none => otherwise node s

def executeLinking (otherwise : Node → Eval Flow) (c : Calls) (node : Node) :
    Eval Flow :=
  if node.kind = .importModule then linkImport otherwise node else
    c.executeStep node

def linking (otherwise : Node → Eval Flow) : Nat → Calls
  | 0 => exhausted
  | n + 1 =>
      (linking otherwise n).above
        ((linking otherwise n).executeLinking otherwise) n

theorem executeImport_imported (c : Calls) {node : Node} {s : Engine}
    {id : ModuleId} (h : s.imported? node.text = some id) :
    c.executeImport node s = .ok .normal { s with
      scopes :=
        s.scopes.modify s.currentScope
          (·.addImport (s.modules.get id).scope) } := by
  unfold Engine.imported? at h
  split at h
  · rename_i path hpath
    have hinspect :
        Eval.inspect (fun t => t.findModulePath node.text s.currentModulePath?)
          s = .ok path s := by
      simp only [Eval.inspect, hpath]
    unfold executeImport
    rw [Eval.bind_read, Eval.bind_ok hinspect, Eval.bind_read,
      Eval.bind_read, h]
    rfl
  · cases h

theorem executeStep_import (c : Calls) {node : Node}
    (hkind : node.kind = .importModule) {s : Engine} {id : ModuleId}
    (h : s.imported? node.text = some id) :
    c.executeStep node s = .ok .normal (s.linked node id) := by
  have hstep : ∀ pos,
      Eval.mapFailure (fun s e => e.withLocation node.pos s.currentModulePath?)
      (c.executeKind node) { s with lastPos := pos } =
        .ok .normal { s with
          scopes :=
            s.scopes.modify s.currentScope
              (·.addImport (s.modules.get id).scope)
          lastPos := pos } := by
    intro pos
    have himport := c.executeImport_imported (s := { s with lastPos := pos }) h
    simp only [Eval.mapFailure, executeKind, hkind, himport]
    rfl
  unfold executeStep Engine.linked
  cases hpos : node.pos.isDummy with
  | true => exact hstep s.lastPos
  | false => exact hstep node.pos

theorem executeLinking_import (otherwise : Node → Eval Flow) (c : Calls)
    {node : Node} (hkind : node.kind = .importModule) {s : Engine}
    {id : ModuleId} (h : s.imported? node.text = some id) :
    c.executeLinking otherwise node s = .ok .normal (s.linked node id) := by
  have hlink : c.executeLinking otherwise node = linkImport otherwise node :=
    if_pos hkind
  rw [hlink]
  simp only [linkImport, h]

theorem matched_linking (env : Engine) (otherwise : Node → Eval Flow)
    (fuel : Nat) :
    (ofFuel fuel).Matched env.provision (linking otherwise fuel) := by
  induction fuel with
  | zero => exact .exhausted env.provision
  | succ fuel ih =>
      rw [ofFuel_succ, linking]
      refine { ih.toPaired.above ih.invokeStep _ _ fuel fuel with
        rounds := rfl, execute := ?_ }
      intro tree node hnode
      by_cases hkind : node.kind = .importModule
      · intro s hs
        have hprovides : s.Provides s.currentTree node := by
          rw [hs.keeping.tree]
          exact Engine.Provides.extend hnode hs.grown fun e he => by
            rw [hs.modules, he]
        obtain ⟨id, hid⟩ := hprovides.imported? hkind
        exact .ok (executeStep_import _ hkind hid)
          (executeLinking_import otherwise _ hkind hid) (hs.linked node id)
      · have hexecute : (linking otherwise fuel).executeLinking otherwise node =
            (linking otherwise fuel).executeStep node := if_neg hkind
        have hstep :=
          ih.executeStep env.provision_mapsFailures hnode fun himport =>
            absurd himport hkind
        rwa [← hexecute] at hstep

end Calls

end ArenaScript
