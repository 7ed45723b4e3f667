import ArenaScript.Program
import ArenaScript.Proofs.Evaluation.Advance
import ArenaScript.Proofs.Evaluation.Alike.Statements

/-!
# Reachable engines

A host makes an engine and puts requests to it: to evaluate nodes, to call
functions, to run modules or a whole program.  An engine is reachable if a
series of requests leads to it.  Between requests only root frames are live.  A
property of engines that is steady, holds of new engines and survives the
popping of root frames holds of all reachable engines, and throughout every
request.
-/

namespace ArenaScript

open Handles (Known)
open Engine (Good Reached Lenient Steady Quiet Grows)

/-- What a host may ask of an engine. -/
inductive Request where
  | evaluate (tree : SyntaxTree) (node : Node)
  | item (node : Node)
  | call (id : FunctionId) (args : List Value)
  | load (request : String) (importer : Option String)
  | enter (path : String) (tree : SyntaxTree)
  | program (settings : Settings)
  | shutdown

namespace Request

def perform : Request → Calls → Eval Unit
  | .evaluate tree node, c => (fun _ => ()) <$> c.run tree node
  | .item node, c => (fun _ => ()) <$> c.runItem node
  | .call id args, c => (fun _ => ()) <$> c.invoke id args
  | .load request importer, c => (fun _ => ()) <$> c.loadModule request importer
  | .enter path tree, c => (fun _ => ()) <$> c.evaluateModule path tree
  | .program settings, c => (fun _ => ()) <$> Program.run c settings
  | .shutdown, c => c.shutdown

instance : Handles Request where
  Known n
    | .call _ args => Known n args
    | _ => True
  mono {_ _ a} h := by
    cases a with
    | call id args => exact Handles.mono h
    | _ => exact id

end Request

/-- Engines between two requests; the capacity of an arena is a word. -/
inductive Reachable : Engine → Prop
  | new (limits : Limits) (sink : Sink) (source : Option ModuleSource)
      (searchPaths : List String) (h : limits.stackCapacity < Word.modulus) :
      Reachable (.new limits sink source searchPaths)
  | after {s : Engine} (fuel : Nat) (request : Request) (hs : Reachable s)
      (hrequest : s.Knows request) :
      Reachable ((request.perform (Calls.ofFuel fuel)).after s)

def Engine.afterItems (fuel : Nat) (s : Engine) (nodes : List Node) : Engine :=
  nodes.foldl (fun s node =>
    ((Request.item node).perform (Calls.ofFuel fuel)).after s) s

theorem Reachable.items {s : Engine} (hs : Reachable s) (fuel : Nat)
    (nodes : List Node) : Reachable (s.afterItems fuel nodes) := by
  induction nodes generalizing s with
  | nil => exact hs
  | cons node nodes ih => exact ih (.after fuel (.item node) hs trivial)

/-- The engine has the property whenever, from `s` on, one of the recursive
operations begins or ends: whoever watches and acts on no engine that has the
property makes no difference. -/
def Calls.Throughout {α : Type} (P : Engine → Prop) (fuel : Nat)
    (x : Calls → Eval α) (s : Engine) : Prop :=
  ∀ watch : Eval Unit, (∀ t, P t → watch t = .ok () t) →
    x (watched watch fuel) s = x (ofFuel fuel) s

def Calls.Meets {α : Type} (P : Engine → Prop) (fuel : Nat) (x : Calls → Eval α)
    (s : Engine) : Prop :=
  ¬ Throughout (fun t => ¬ P t) fuel x s

theorem Calls.Throughout.exists_of_meets {α : Type} {P Q : Engine → Prop}
    {fuel : Nat} {x : Calls → Eval α} {s : Engine} (h : Throughout P fuel x s)
    (hmeets : Meets Q fuel x s) : ∃ t, Q t ∧ P t := by
  refine Classical.byContradiction fun hnone => hmeets fun watch hwatch =>
    h watch fun t ht => ?_
  exact hwatch t fun hq => hnone ⟨t, hq, ht⟩

def Eval.fault? {α : Type} (x : Eval α) (s : Engine) : Option Fault :=
  match x s with
  | .error (.failed e) _ => some e.fault
  | _ => none

theorem Eval.eq_error_of_fault? {α : Type} {x : Eval α} {s : Engine} {f : Fault}
    (h : x.fault? s = some f) :
    ∃ e, e.fault = f ∧ x s = .error (.failed e) (x.after s) := by
  cases hrun : x s with
  | ok a t => simp [Eval.fault?, hrun] at h
  | error e t =>
      cases e with
      | failed e =>
          simp only [Eval.fault?, hrun, Option.some.injEq] at h
          exact ⟨e, h, by rw [Eval.after_error hrun]⟩
      | outOfFuel => simp [Eval.fault?, hrun] at h

def Eval.stop? {α : Type} (x : Eval α) (s : Engine) : Option Stop :=
  match x s with
  | .ok .. => none
  | .error e _ => some e

/-- Stops at engines that have the property. -/
def Eval.stopWhen (P : Engine → Prop) [DecidablePred P] : Eval Unit := fun s =>
  if P s then .error .outOfFuel s else .ok () s

theorem Calls.meets_of_stopWhen {α : Type} {P : Engine → Prop} [DecidablePred P]
    {fuel : Nat} {x : Calls → Eval α} {s : Engine}
    (h : (x (watched (Eval.stopWhen P) fuel)).stop? s ≠
      (x (ofFuel fuel)).stop? s) : Meets P fuel x s := by
  intro hthroughout
  refine h ?_
  unfold Eval.stop?
  rw [hthroughout (Eval.stopWhen P) fun t ht => if_neg ht]

/-! ## Engines at rest -/

namespace Engine

def Settles (s t : Engine) : Prop :=
  s.Rooted → t.Rooted ∧ t.callDepth = s.callDepth

theorem Settles.composable : Eval.Composable Settles where
  refl _ hs := ⟨hs, rfl⟩
  trans hst htu hs := ⟨(htu (hst hs).1).1, (htu (hst hs).1).2.trans (hst hs).2⟩

theorem Advances.settles {s t : Engine} (h : s.Advances t) : s.Settles t :=
  fun hs => ⟨h.rooted hs, h.callDepth⟩

theorem Rooted.new (limits : Limits) (sink : Sink)
    (source : Option ModuleSource) (searchPaths : List String) :
    (Engine.new limits sink source searchPaths).Rooted := by
  intro f hf
  obtain rfl := List.mem_singleton.1 hf
  exact ⟨rfl, rfl⟩

theorem Rooted.unwindTo {s : Engine} (hs : s.Rooted) (depth : Nat) :
    (s.unwindTo depth).Rooted :=
  Arena.unwindTo_induction (P :=
    fun a => ({ s with arena := a } : Engine).Rooted)
    (fun _ ha => Rooted.popFrame ha) hs depth

theorem Settles.unwindTo (s : Engine) (depth : Nat) :
    s.Settles (s.unwindTo depth) :=
  fun hs => ⟨hs.unwindTo depth, rfl⟩

theorem Rooted.quiet {s t : Engine} (hs : s.Rooted) (h : s.Quiet t) :
    t.Rooted := by
  intro g hg
  have hbare : g.bare ∈ s.arena.frames.map Frame.bare := by
    rw [← h.frames]
    exact List.mem_map_of_mem hg
  obtain ⟨f, hf, hfg⟩ := List.mem_map.1 hbare
  have hroot : f.bare.kind.isRoot = true ∧ f.bare.call = none := hs f hf
  rwa [hfg] at hroot

end Engine

namespace Calls.Within

open Engine (Advances Settles)

variable {c : Calls}

theorem settles {α : Type} {x : Eval α} (hx : Eval.Within Advances x) :
    Eval.Within Settles x :=
  fun s => (hx s).settles

theorem loadModule_settles (hc : c.Within Advances) (request : String)
    (importer : Option String) :
    Eval.Within Settles (c.loadModule request importer) :=
  fun s hs => (hc.loadModule request importer s hs.atRoot).settles hs

theorem evaluateModule_settles (hc : c.Within Advances) (path : String)
    (tree : SyntaxTree) : Eval.Within Settles (c.evaluateModule path tree) :=
  fun _ hs =>
    (hc.evaluateModule_at Advances.stable path tree hs.atRoot).settles hs

theorem popFrame_settles (hc : c.Within Advances) (depth : Nat) :
    Eval.Within Settles (c.popFrame depth) := by
  have hR := Settles.composable
  have htake : Eval.Within Settles takeDestructibles :=
    fun s hs => ⟨hs.disarmed, rfl⟩
  refine hR.bind htake fun doomed => ?_
  have hdestroy := hR.forM (fun v => settles (hc.destroy v)) doomed
  refine hR.bind (hR.onStop hdestroy fun s => .unwindTo s depth) fun _ => ?_
  exact fun s hs => ⟨hs.popFrame, rfl⟩

theorem popFrames_settles (hc : c.Within Advances) (depth rounds : Nat) :
    Eval.Within Settles (c.popFrames depth rounds) := by
  have hR := Settles.composable
  induction rounds with
  | zero => exact hR.pure ()
  | succ rounds ih =>
      unfold Calls.popFrames
      refine hR.bind (hR.read _) fun current => ?_
      split
      · exact hR.bind (hc.popFrame_settles depth) fun _ => ih
      · exact hR.pure ()

theorem shutdown_settles (hc : c.Within Advances) :
    Eval.Within Settles c.shutdown :=
  Settles.composable.bind (Settles.composable.read _) fun rounds =>
    hc.popFrames_settles 0 rounds

theorem runNode_advances (hc : c.Within Advances) (tree : SyntaxTree)
    (node : Node) :
    Eval.Within Advances (Eval.withTree tree.id do
      if node.kind.isOperand then some <$> c.evaluate node
      else
        let _ ← c.execute node
        pure none) := by
  have hR := Advances.composable
  refine Advances.withTree tree.id ?_
  split
  · exact (hc.evaluate node).map some
  · exact hR.bind (hc.execute node) fun _ => hR.pure none

theorem run_settles (hc : c.Within Advances) (tree : SyntaxTree) (node : Node) :
    Eval.Within Settles (c.run tree node) := by
  unfold Calls.run
  refine Settles.composable.bind (Settles.composable.read _) fun depth => ?_
  exact Settles.composable.onStop (settles (hc.runNode_advances tree node))
    fun s => .unwindTo s depth

theorem runItem_settles (hc : c.Within Advances) (node : Node) :
    Eval.Within Settles (c.runItem node) := by
  unfold Calls.runItem
  have hadopt :
      Eval.Within Advances
        (Eval.adoptTree ⟨.moduleRoot, "", .dummy, 0, [node]⟩) :=
    Advances.stable.modifyGet fun _ => .adoptTree
  refine Settles.composable.bind (settles hadopt) fun tree => ?_
  cases tree.root.children with
  | nil => exact Settles.composable.pure none
  | cons node rest => exact hc.run_settles tree node

theorem tryRun_settles (hc : c.Within Advances) (settings : Settings) :
    Eval.Within Settles (Program.tryRun c settings) := by
  have hR := Settles.composable
  have hexit : ∀ code : Int32,
      Eval.Within Settles (do c.shutdown; pure code) := fun code =>
    hR.bind hc.shutdown_settles fun _ => hR.pure code
  unfold Program.tryRun
  refine hR.bind (hR.inspect _) fun path => ?_
  refine hR.bind (settles (Plain.parseModule Advances.stable.toLocal path))
    fun tree => ?_
  refine hR.bind (hc.evaluateModule_settles path tree) fun id => ?_
  refine hR.bind (hR.inspect _) fun entry => ?_
  refine hR.bind (settles (hc.invoke entry [])) fun result => ?_
  cases result with
  | some value => exact hR.bind (hR.inspect _) hexit
  | none => exact hexit 0

theorem runProgram_settles (hc : c.Within Advances) (settings : Settings) :
    Eval.Within Settles (Program.run c settings) := by
  intro s
  have h := hc.tryRun_settles settings s
  unfold Eval.after Program.run at *
  split at h
  · rename_i hrun
    simpa only [hrun] using h
  · rename_i e t hrun
    cases e with
    | failed e =>
        simp only [hrun]
        exact Settles.composable.trans h (.unwindTo t 0)
    | outOfFuel => simpa only [hrun] using h

theorem perform_settles (hc : c.Within Advances) (request : Request) :
    Eval.Within Settles (request.perform c) := by
  cases request with
  | evaluate tree node => exact (hc.run_settles tree node).map _
  | item node => exact (hc.runItem_settles node).map _
  | call id args => exact (settles (hc.invoke id args)).map _
  | load request importer =>
      exact (hc.loadModule_settles request importer).map _
  | enter path tree => exact (hc.evaluateModule_settles path tree).map _
  | program settings => exact (hc.runProgram_settles settings).map _
  | shutdown => exact hc.shutdown_settles

end Calls.Within

/-! ## New engines -/

theorem TypeTable.known_foldl_addEntry {n : Nat}
    {entries : List (String × Shape × Nat)}
    (hentries : ∀ entry ∈ entries, Known n entry.2.1)
    {tables : TypeTable × ScopeTable} (h : Known n tables) :
    Known n (entries.foldl addEntry tables) := by
  induction entries generalizing tables with
  | nil => exact h
  | cons entry rest ih =>
      obtain ⟨hentry, hrest⟩ := List.forall_mem_cons.1 hentries
      refine ih hrest ⟨known_push h.1 hentry, ?_⟩
      exact ScopeTable.known_create h.2 .members none

theorem TypeTable.known_builtin (n : Nat) :
    Known n (TypeTable.builtin .empty) := by
  rw [TypeTable.builtin_eq]
  refine known_foldl_addEntry (fun entry hentry => ?_)
    ⟨fun _ => trivial, fun id => ?_⟩
  · simp only [builtins, List.mem_append, List.mem_map] at hentry
    rcases hentry with ⟨k, -, rfl⟩ | ⟨k, -, rfl⟩
    · exact trivial
    · exact trivial
  · have hscope : Known n ({ kind := .universe, parent := none } : Scope) :=
      ⟨Handles.known_empty, Handles.known_empty⟩
    have hnone : ∀ i,
        Known n ((#[] : Array Scope).getD i
          { kind := .universe, parent := none }) :=
      fun _ => hscope
    exact Handles.known_getD_push hnone hscope id.index

namespace Engine

theorem known_universeNames {n : Nat} (hn : TypeId.firstRegistered ≤ n)
    {scopes : ScopeTable} (h : Known n scopes) :
    Known n (universeNames scopes) := by
  have hput : ∀ (names : List (String × TypeId)),
      (∀ entry ∈ names, Known n entry.2) →
      ∀ types : Bindings TypeId, Known n types →
        Known n (names.foldl (fun types entry => types.put entry.1 entry.2)
          types) := by
    intro names
    induction names with
    | nil => exact fun _ _ htypes => htypes
    | cons entry rest ih =>
        intro hnames types htypes
        obtain ⟨hentry, hrest⟩ := List.forall_mem_cons.1 hnames
        exact ih hrest _ (Handles.known_put htypes hentry)
  have hscope := h .universe
  refine ScopeTable.known_modify h ⟨hput _ (fun entry hentry => ?_) _ hscope.1,
    hscope.2⟩
  rcases List.mem_append.1 hentry with hcore | hcallable
  · obtain ⟨kind, -, rfl⟩ := List.mem_map.1 hcore
    exact CoreKind.known_typeId hn kind
  · simp only [List.mem_cons, List.not_mem_nil, or_false] at hcallable
    rcases hcallable with rfl | rfl
    · exact TypeId.known_builtin hn rfl
    · exact TypeId.known_builtin hn rfl

theorem Closed.addToUniverse {s : Engine} (hs : s.Closed) {f : Function}
    (hf : s.Knows f) : (s.addToUniverse f).Closed := by
  have hscopes : s.Knows (s.scopes.modify .universe
      (·.registerFunction f.name (s.functions.add f).1)) :=
    ScopeTable.known_modify hs.scopes (hs.scopes .universe)
  exact { hs with
    scopes := hscopes
    functions := FunctionTable.known_add hs.functions hf }

theorem Closed.new (limits : Limits) (sink : Sink)
    (source : Option ModuleSource) (searchPaths : List String)
    (h : limits.stackCapacity < Word.modulus) :
    (Engine.new limits sink source searchPaths).Closed := by
  have hsize : TypeId.firstRegistered ≤ (TypeTable.builtin .empty).1.size := by
    decide
  have htables := TypeTable.known_builtin (TypeTable.builtin .empty).1.size
  have hprinter : ∀ (name : String) (newline : Bool),
      Known (TypeTable.builtin .empty).1.size
      (Function.make name [⟨"...", .void⟩] .void
        { variadic := true, synthesized := true } none
        (.native (.print newline))) := by
    intro name newline
    have hvoid : Known (TypeTable.builtin .empty).1.size TypeId.void :=
      TypeId.known_builtin hsize rfl
    exact ⟨Handles.known_cons.2 ⟨hvoid, Handles.known_nil⟩, hvoid,
      Handles.known_none,
      Handles.known_none⟩
  have hcapacity : max limits.stackCapacity Arena.guard < Word.modulus :=
    Nat.max_lt.2 ⟨h, by decide⟩
  refine Closed.addToUniverse (Closed.addToUniverse ?_ (hprinter "print" false))
    (hprinter "println" true)
  exact
    { builtin := hsize
      types := htables.1
      scopes := known_universeNames hsize htables.2
      functions := fun id => ⟨Handles.known_nil, TypeId.known_builtin hsize rfl,
        Handles.known_none, Handles.known_none⟩
      templates := fun id => ⟨Handles.known_nil, Handles.known_none⟩
      arena := ⟨hcapacity,
        Arena.pushFrame_wellFormed (Arena.ofCapacity_wellFormed _) .universe
          .universe none,
        Handles.known_cons.2 ⟨⟨Handles.known_empty, Handles.known_none,
          Handles.known_nil⟩,
          Handles.known_nil⟩⟩ }

/-! ## Enduring properties -/

/-- A steady property that the popping of root frames keeps. -/
class Lasting (I : Engine → Prop) : Prop extends Steady I where
  pop : ∀ {s : Engine}, s.Good I → s.Rooted →
    I { s with arena := s.arena.popFrame }

class Enduring (I : Engine → Prop) : Prop extends Lasting I where
  new : ∀ (limits : Limits) (sink : Sink) (source : Option ModuleSource)
    (searchPaths : List String), I (.new limits sink source searchPaths)

instance {I J : Engine → Prop} [Enduring I] [Enduring J] :
    Enduring fun s => I s ∧ J s where
  quiet hs ht h :=
    ⟨Steady.quiet ⟨hs.closed, hs.inv.1⟩ ht h,
      Steady.quiet ⟨hs.closed, hs.inv.2⟩ ht h⟩
  tree id hs :=
    ⟨Steady.tree id ⟨hs.closed, hs.inv.1⟩, Steady.tree id ⟨hs.closed, hs.inv.2⟩⟩
  push scope kind hs :=
    ⟨Steady.push scope kind ⟨hs.closed, hs.inv.1⟩,
      Steady.push scope kind ⟨hs.closed, hs.inv.2⟩⟩
  call scope record id hs h :=
    ⟨Steady.call scope record id ⟨hs.closed, hs.inv.1⟩ h,
      Steady.call scope record id ⟨hs.closed, hs.inv.2⟩ h⟩
  bind name _ hs ht h hslot :=
    ⟨Steady.bind name ⟨hs.closed, hs.inv.1⟩ ⟨ht.closed, ht.inv.1⟩ h hslot,
      Steady.bind name ⟨hs.closed, hs.inv.2⟩ ⟨ht.closed, ht.inv.2⟩ h hslot⟩
  new limits sink source searchPaths :=
    ⟨Enduring.new limits sink source searchPaths,
      Enduring.new limits sink source searchPaths⟩
  pop hs hrooted :=
    ⟨Lasting.pop ⟨hs.closed, hs.inv.1⟩ hrooted,
      Lasting.pop ⟨hs.closed, hs.inv.2⟩ hrooted⟩

variable {I : Engine → Prop} [Lasting I] {s t : Engine}

theorem Good.popFrame (hs : s.Good I) (hrooted : s.Rooted) :
    ({ s with arena := s.arena.popFrame } : Engine).Good I :=
  ⟨hs.closed.popFrame, Lasting.pop hs hrooted⟩

theorem Good.unwindTo (hs : s.Good I) (hrooted : s.Rooted) (depth : Nat) :
    (s.unwindTo depth).Good I := by
  have hpop : ∀ a : Arena,
      ({ s with arena := a } : Engine).Good I ∧
      ({ s with arena := a } : Engine).Rooted →
        ({ s with arena := a.popFrame } : Engine).Good I ∧
          ({ s with arena := a.popFrame } : Engine).Rooted :=
    fun _ ha => ⟨ha.1.popFrame ha.2, ha.2.popFrame⟩
  exact (Arena.unwindTo_induction hpop ⟨hs, hrooted⟩ depth).1

theorem Reached.unwindTo (h : Reached I Grows s t) (hrooted : t.Rooted)
    (depth : Nat) : Reached I Grows s (t.unwindTo depth) :=
  have hgood := h.good.unwindTo hrooted depth
  ⟨hgood.closed, hgood.inv, h.rel.trans (.unwindTo t depth)⟩

end Engine

open Engine (Lasting Enduring Advances)

theorem Agree.onStop {α : Type} [Handles α] {I : Engine → Prop}
    {R : Engine → Engine → Prop} {s : Engine} {x y : Eval α}
    {g : Engine → Engine}
    (hg : Reached I R s (y.after s) → Reached I R s (g (y.after s)))
    (h : Agree I R s x y) :
    Agree I R s (Eval.onStop g x) (Eval.onStop g y) := by
  rcases h.cases with ⟨a, t, hx, hy, ht, ha⟩ | ⟨e, t, hx, hy, ht⟩
  · exact .of_ok (Eval.onStop_ok g hx) (Eval.onStop_ok g hy) ht ha
  · rw [Eval.after_error hy] at hg
    exact .of_error e (Eval.onStop_error g hx) (Eval.onStop_error g hy) (hg ht)

/-! ## Requests -/

namespace Calls.Alike

variable {I : Engine → Prop} [Lasting I] {c d : Calls} {s : Engine}

theorem dropFrame (hc : c.Alike I d) (hs : s.Good I) (hrooted : s.Rooted)
    (depth : Nat) : Agree I Grows s (c.popFrame depth) (d.popFrame depth) := by
  have htake : Sound I s takeDestructibles :=
    .of_ok rfl rfl ((Engine.Step.disarmed hs.closed).reached hs)
      hs.closed.knows_doomed
  unfold Calls.popFrame
  refine .bind_quiet htake fun doomed t ht hdoomed => ?_
  have hdestroy := hc.destroyAll ht.good hdoomed
  have hrest : ∀ {u}, t.Quiet u → u.Rooted :=
    fun hu => (hrooted.quiet ht.rel).quiet hu
  refine .bind_of (S := Grows) (fun h => h)
    (.onStop (fun hu => hu.unwindTo (hrest hdestroy.reached.rel) depth)
      (.loosen hdestroy)) fun _ u hrun hu _ => ?_
  have hquiet : t.Quiet u := by
    have hafter := hdestroy.reached.rel
    rwa [Eval.after_ok (Eval.onStop_eq_ok hrun)] at hafter
  have hgood := hu.good.popFrame (hrest hquiet)
  have hpop : Eval.updateArena Arena.popFrame u =
      .ok () { u with arena := u.arena.popFrame } := rfl
  exact .of_ok hpop hpop ⟨hgood.closed, hgood.inv, .popFrame u⟩ trivial

theorem dropFrames (hc : c.Alike I d) (hd : d.Within Advances) (hs : s.Good I)
    (hrooted : s.Rooted) (depth rounds : Nat) :
    Agree I Grows s (c.popFrames depth rounds) (d.popFrames depth rounds) := by
  induction rounds generalizing s with
  | zero => exact .pure hs trivial
  | succ rounds ih =>
      unfold Calls.popFrames
      refine .bind_read (.ite (fun _ => ?_) fun _ => .pure hs trivial)
      refine .bind_of (fun h => h) (hc.dropFrame hs hrooted depth)
        fun _ t hrun ht _ => ?_
      have hsettles := hd.popFrame_settles depth s hrooted
      rw [Eval.after_ok hrun] at hsettles
      exact ih ht.good hsettles.1

theorem shutdown (hc : c.Alike I d) (hd : d.Within Advances) (hs : s.Good I)
    (hrooted : s.Rooted) : Agree I Grows s c.shutdown d.shutdown :=
  .bind_read (hc.dropFrames hd hs hrooted 0 s.arena.depth)

theorem run (hc : c.Alike I d) (hd : d.Within Advances) (hs : s.Good I)
    (hrooted : s.Rooted) (tree : SyntaxTree) (node : Node) :
    Agree I Grows s (c.run tree node) (d.run tree node) := by
  unfold Calls.run
  refine .bind_read
    (.onStop (fun ht => ht.unwindTo ?_ _)
      (.withTree tree.id hs fun hinner => ?_))
  · exact (hd.runNode_advances tree node s).rooted hrooted
  refine .ite (fun _ => .loosen ?_) fun _ => ?_
  · exact .map (hc.evaluate node hinner) fun _ _ _ h => Handles.known_some.2 h
  · exact .bind (hc.execute node hinner) fun _ t ht _ =>
      .pure ht.good Handles.known_none

theorem runItem (hc : c.Alike I d) (hd : d.Within Advances) (hs : s.Good I)
    (hrooted : s.Rooted) (node : Node) :
    Agree I Grows s (c.runItem node) (d.runItem node) := by
  unfold Calls.runItem
  refine .bind_quiet (adoptTree hs _) fun tree t ht _ => ?_
  cases tree.root.children with
  | nil => exact .pure ht.good Handles.known_none
  | cons node rest => exact hc.run hd ht.good (hrooted.quiet ht.rel) tree node

theorem tryRun (hc : c.Alike I d) (hd : d.Within Advances) (hs : s.Good I)
    (hrooted : s.Rooted) (settings : Settings) :
    Agree I Grows s (Program.tryRun c settings)
      (Program.tryRun d settings) := by
  have hexit : ∀ (code : Int32) (t : Engine), t.Good I → t.Rooted →
      Agree I Grows t
      (do c.shutdown; pure code) (do d.shutdown; pure code) :=
    fun code t ht hrooted =>
      .bind (hc.shutdown hd ht hrooted) fun _ u hu _ => .pure hu.good trivial
  unfold Program.tryRun
  refine .bind_inspect hs fun path _ => .bind_quiet (parseModule hs path)
    fun tree t ht _ => ?_
  have htrooted := hrooted.quiet ht.rel
  refine .bind_of (fun h => h) (hc.evaluateModule ht.good path tree)
    fun id u hrun hu _ => ?_
  have hurooted := (hd.evaluateModule_settles path tree t htrooted).1
  rw [Eval.after_ok hrun] at hurooted
  refine .bind_inspect hu.good fun entry _ => ?_
  refine .bind_quiet (hc.invoke entry hu.good Handles.known_nil)
    fun result v hv _ => ?_
  have hvrooted := hurooted.quiet hv.rel
  cases result with
  | some value =>
      exact .bind_inspect hv.good fun code _ => hexit code v hv.good hvrooted
  | none => exact hexit 0 v hv.good hvrooted

theorem runProgram (hc : c.Alike I d) (hd : d.Within Advances) (hs : s.Good I)
    (hrooted : s.Rooted) (settings : Settings) :
    Agree I Grows s (Program.run c settings) (Program.run d settings) := by
  have hend := (hd.tryRun_settles settings s hrooted).1
  rcases (hc.tryRun hd hs hrooted settings).cases with
    ⟨code, t, hx, hy, ht, hcode⟩ | ⟨e, t, hx, hy, ht⟩
  · refine .of_ok ?_ ?_ ht hcode
    · simp only [Program.run, hx]
    · simp only [Program.run, hy]
  · rw [Eval.after_error hy] at hend
    cases e with
    | failed e =>
        refine .of_ok (a := 1) ?_ ?_ (ht.unwindTo hend 0) trivial
        · simp only [Program.run, hx]
        · simp only [Program.run, hy]
    | outOfFuel =>
        refine .of_error .outOfFuel ?_ ?_ ht
        · simp only [Program.run, hx]
        · simp only [Program.run, hy]

theorem perform (hc : c.Alike I d) (hd : d.Within Advances) (hs : s.Good I)
    (hrooted : s.Rooted) {request : Request} (hrequest : s.Knows request) :
    Agree I Grows s (request.perform c) (request.perform d) := by
  cases request with
  | evaluate tree node =>
      exact .map (hc.run hd hs hrooted tree node) fun _ _ _ _ => trivial
  | item node =>
      exact .map (hc.runItem hd hs hrooted node) fun _ _ _ _ => trivial
  | call id args =>
      exact .map (.loosen (hc.invoke id hs hrequest)) fun _ _ _ _ => trivial
  | load request importer =>
      exact .map (hc.loadModule request importer hs) fun _ _ _ _ => trivial
  | enter path tree =>
      exact .map (hc.evaluateModule hs path tree) fun _ _ _ _ => trivial
  | program settings =>
      exact .map (hc.runProgram hd hs hrooted settings) fun _ _ _ _ => trivial
  | shutdown => exact hc.shutdown hd hs hrooted

end Calls.Alike

namespace Reachable

variable {s : Engine}

theorem rooted (hs : Reachable s) : s.Rooted ∧ s.callDepth = 0 := by
  induction hs with
  | new limits sink source searchPaths h =>
      exact ⟨.new limits sink source searchPaths, rfl⟩
  | @after s fuel request _ _ ih =>
      have hsettles :=
        (Calls.Within.ofFuel Advances.stable fuel).perform_settles
          request s ih.1
      exact ⟨hsettles.1, hsettles.2.trans ih.2⟩

variable {I : Engine → Prop}

/-- A property that lasts holds throughout a request if it holds at its
beginning. -/
theorem throughout_of_good [Lasting I] (hs : Reachable s) (hgood : s.Good I)
    {P : Engine → Prop} (hP : ∀ t : Engine, t.Good I → P t) (fuel : Nat)
    {request : Request} (hrequest : s.Knows request) :
    Calls.Throughout P fuel request.perform s := by
  intro watch hwatch
  have halike : (Calls.watched watch fuel).Alike I (Calls.ofFuel fuel) :=
    .watched (fun t ht => hwatch t (hP t ht)) fuel
  exact (halike.perform (.ofFuel Advances.stable fuel) hgood hs.rooted.1
    hrequest).same

theorem reached [Lasting I] (hs : Reachable s) (hgood : s.Good I) (fuel : Nat)
    {request : Request} (hrequest : s.Knows request) :
    Reached I Grows s ((request.perform (Calls.ofFuel fuel)).after s) := by
  have hquiet : ∀ t : Engine, t.Good I → (pure () : Eval Unit) t = .ok () t :=
    fun _ _ => rfl
  exact ((Calls.Alike.watched hquiet fuel).perform
    (.ofFuel Advances.stable fuel) hgood hs.rooted.1 hrequest).reached

variable [Enduring I]

theorem good (hs : Reachable s) : s.Good I := by
  induction hs with
  | new limits sink source searchPaths h =>
      exact ⟨.new limits sink source searchPaths h,
        Enduring.new limits sink source searchPaths⟩
  | after fuel request hs hrequest ih =>
      exact (hs.reached ih fuel hrequest).good

theorem throughout (hs : Reachable s) {P : Engine → Prop}
    (hP : ∀ t : Engine, t.Good I → P t) (fuel : Nat) {request : Request}
    (hrequest : s.Knows request) : Calls.Throughout P fuel request.perform s :=
  hs.throughout_of_good hs.good hP fuel hrequest

end Reachable

end ArenaScript
