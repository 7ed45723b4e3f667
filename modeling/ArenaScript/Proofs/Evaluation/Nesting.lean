import ArenaScript.Proofs.Evaluation.Headroom
import ArenaScript.Proofs.Modules.Order
import ArenaScript.Proofs.Syntax.Building

/-!
# How deep frames nest

A program has finitely many modules, each of some height, and so has everything
that an engine has come to hold.  Throughout a request, then, the frames of
modules, calls and blocks are bounded in number: modules are entered once, calls
are counted, and each of these frames carries no more blocks than the highest
tree can nest.  The bound grows only with the frames in which fields are being
initialized.
-/

namespace ArenaScript

open Eval (Joint)
open Engine (Disciplined Advances)

namespace Budget

variable {b : Budget} {room : Headroom} {s t : Engine}

structure Supplied (b : Budget) : Prop where
  roots : ∀ path root, b.start.moduleRoot? path = some root →
    root.height ≤ b.height
  paths : ∀ path, b.start.HasModule path → b.Lists path

/-! ## Entering modules -/

theorem Covers.addModule (hs : b.Covers room s) {path : String}
    (hpath : b.Lists path) (hnew : s.modules.find? path = none)
    (tree : TreeId) :
    b.Covers { room with
      modules := room.modules + 1 } ((Eval.addModule path tree).after s) where
  source := hs.source
  maxCallDepth := hs.maxCallDepth
  code home node hold := hs.code home node
    ((.of_tables rfl rfl : s.NoNewCode ((Eval.addModule path tree).after s))
      home node hold)
  entries := by
    obtain ⟨entered, hentries, hnodup, hlisted⟩ := hs.entries
    refine ⟨entered ++ [s.entryFor path tree], ?_, ?_, ?_⟩
    · rw [Engine.entries_addModule, hentries, List.append_assoc]
    · rw [List.map_append, List.nodup_append]
      refine ⟨hnodup, List.nodup_singleton _, fun p hp q hq => ?_⟩
      obtain ⟨e, he, rfl⟩ := List.mem_map.1 hp
      obtain rfl := List.mem_singleton.1 hq
      rw [ModuleTable.find?, Option.map_eq_none_iff,
        Array.findIdx?_eq_none_iff] at hnew
      have hmem : e ∈ s.entries := hentries ▸ List.mem_append_right _ he
      have hother := hnew e (Array.mem_def.2 hmem)
      exact ne_of_beq_false hother
    · intro e he
      rcases List.mem_append.1 he with he | he
      · exact hlisted e he
      · obtain rfl := List.mem_singleton.1 he
        exact hpath
  blocks := hs.blocks
  roots := by
    have hroots := hs.roots
    rw [Disciplined.entered_addModule]
    change s.arena.roots + (room.modules + 1) + b.start.entered ≤ _
    omega
  accounted := ⟨hs.accounted.active, hs.accounted.limited⟩

theorem Covers.less {less : Headroom} (hs : b.Covers room s)
    (hblocks : less.blocks ≤ room.blocks)
    (hmodules : less.modules ≤ room.modules) : b.Covers less s where
  toAdmits := hs.toAdmits
  blocks := Nat.le_trans (Nat.add_le_add_left hblocks _) hs.blocks
  roots := by
    have hroots := hs.roots
    omega
  accounted := hs.accounted

theorem Covers.beginModule
    (hs : b.Covers { room with modules := room.modules + 1 } s)
    (scope : ScopeId) (tree : TreeId) :
    b.Covers { room with blocks := max room.blocks (2 * b.height) }
      (s.beginModule scope tree) where
  toAdmits := hs.toAdmits.noNewCode (.of_tables rfl rfl) rfl rfl rfl
  blocks := by
    obtain ⟨hblocks, hsegments, -⟩ := s.arena.pushModule_counts scope
    have hbefore := hs.blocks
    change (s.arena.pushFrame scope .moduleFrame none).blocks + max room.blocks
      (2 * b.height) ≤
      ((s.arena.pushFrame scope .moduleFrame none).segments + 1) *
        (2 * b.height)
    rw [hblocks, hsegments, Nat.succ_mul (s.arena.segments + 1)]
    simp only at hbefore
    omega
  roots := by
    have hroots := hs.roots
    change (s.arena.pushFrame scope .moduleFrame none).roots + room.modules +
      _ ≤ _ + s.entered
    rw [(s.arena.pushModule_counts scope).2.2]
    simp only at hroots
    omega
  accounted := by
    have hpushed := hs.accounted.pushed scope .moduleFrame
    exact ⟨hpushed.active, hpushed.limited⟩

theorem Leads.adoptTree (hs : b.Covers room s) :
    b.Leads room s { s with nextTree := s.nextTree + 1 } :=
  .move hs .adoptTree (.of_tables rfl rfl)

theorem parseModule_bind {α : Type} {path : String} {k l : SyntaxTree → Eval α}
    {P : Engine → Prop} (hb : b.Supplied) (hs : b.Covers room s)
    (hnext : ∀ tree, tree.root.height ≤ b.height →
      Joint P (k tree) (l tree) { s with nextTree := s.nextTree + 1 })
    (hP : P s) :
    Joint P (Eval.parseModule path >>= k) (Eval.parseModule path >>= l) s := by
  rcases parseModule_cases s path with ⟨root, hroot, hparse⟩ | ⟨e, -, hparse⟩
  · refine .congr (Eval.bind_ok hparse) (Eval.bind_ok hparse) (hnext _ ?_)
    rw [Engine.moduleRoot?_congr hs.source] at hroot
    exact hb.roots path root hroot
  · exact .of_error (Eval.bind_error hparse) (Eval.bind_error hparse) hP

theorem Supplied.lists (hb : b.Supplied) (hs : b.Covers room s)
    {request path : String} {importer : Option String}
    (h : s.findModulePath request importer = .ok path) : b.Lists path := by
  obtain ⟨hnormal, source, hsource, hcontains⟩ :=
    Engine.findModulePath_hasModule h
  exact hb.paths path ⟨hnormal, source, hs.source ▸ hsource, hcontains⟩

end Budget

namespace Calls

open Budget (Supplied)

structure Covered (b : Budget) (c d : Calls) : Prop
    extends c.Matched b.congruence d where
  loadModule : ∀ {room : Headroom} (request : String) (importer : Option String)
    (s : Engine),
    s.atRoot = true → b.Covers room s →
      Joint (b.Leads room s) (c.loadModule request importer)
        (d.loadModule request importer) s

namespace Covered

variable {b : Budget} {room : Headroom} {c d : Calls} {s : Engine}

theorem executeImport (hc : c.Covered b d) (node : Node) :
    b.Rel room (c.executeImport node) (d.executeImport node) := by
  unfold Calls.executeImport
  extract_lets request link
  have hlink : ∀ id, b.Rel room (link id) (link id) := by
    intro id
    refine .bind (.atomic (.read _)) fun scope => ?_
    refine .bind (.atomic (.read _)) fun current => ?_
    exact .bind (b.congruence.link current trivial) fun _ => .atomic (.pure _)
  refine .bind (.atomic (.read _)) fun importer => ?_
  refine .bind
    (.atomic (.inspect fun s => s.ordinary_findModulePath request importer))
      fun path => ?_
  intro s hs
  -- Whether the module is loaded depends on the frames that there are now.
  refine .congr (Eval.bind_read _ _ s) (Eval.bind_read _ _ s) ?_
  refine .congr (Eval.bind_read _ _ s) (Eval.bind_read _ _ s) ?_
  split
  · exact Budget.Rel.bind (.atomic (.pure _)) hlink s hs
  · split
    · rename_i hroot
      refine (hc.loadModule request importer s hroot hs).bind
        (fun id t _ ht => ?_) fun _ ht => ht
      exact (hlink id t ht.covers).mono fun _ hu => ht.trans hu
    · exact .of_error rfl rfl (.refl hs)

theorem preload (hc : c.Covered b d) (path : String) (scope : ScopeId)
    (root node : Node) (hroot : s.atRoot = true) (hs : b.Covers room s) :
    Joint (b.Leads room s) (c.preload path scope root node)
      (d.preload path scope root node) s := by
  unfold Calls.preload
  refine (hc.loadModule node.text (some path) s hroot hs).mapFailure.bind
    (fun dep t _ ht => ?_) fun _ ht => ht
  refine .mono ?_ fun _ hu => ht.trans hu
  split
  · exact Budget.Rel.bind (.atomic (.read _))
      (fun depScope => b.congruence.link scope trivial) t ht.covers
  · exact .refl (.refl ht.covers)

theorem preloads (hc : c.Covered b d) (path : String) (scope : ScopeId)
    (root : Node) (nodes : List Node) (hroot : s.atRoot = true)
    (hs : b.Covers room s) :
    Joint (b.Leads room s) (nodes.forM (c.preload path scope root))
      (nodes.forM (d.preload path scope root)) s := by
  induction nodes generalizing s with
  | nil => exact .refl (.refl hs)
  | cons node rest ih =>
      refine (hc.preload path scope root node hroot hs).bind
        (fun _ t _ ht => ?_) fun _ ht => ht
      exact (ih (ht.disciplined.atRoot.trans hroot) ht.covers).mono fun _ hu =>
        ht.trans hu

theorem moduleCode_joint {α β : Type} {P Q : Engine → Prop} {x y : Eval α}
    (scope : ScopeId) (tree : TreeId) (a : β)
    (h : Joint P x y (s.beginModule scope tree))
    (hPQ : ∀ t, P t → Q { t with currentTree := s.currentTree }) :
    Joint Q
      (do
        Eval.updateArena (·.pushFrame scope .moduleFrame none)
        let _ ← Eval.withTree tree x
        pure a)
      (do
        Eval.updateArena (·.pushFrame scope .moduleFrame none)
        let _ ← Eval.withTree tree y
        pure a) s where
  same := by rw [Within.moduleCode_eq, Within.moduleCode_eq, h.same]
  after := by
    rw [Within.after_moduleCode]
    exact hPQ _ h.after

theorem evaluateModule (hc : c.Covered b d) {path : String}
    (hpath : b.Lists path) {tree : SyntaxTree}
    (htree : tree.root.height ≤ b.height) (hroot : s.atRoot = true)
    (hs : b.Covers room s) :
    Joint (b.Leads room s) (c.evaluateModule path tree)
      (d.evaluateModule path tree) s := by
  cases hfound : s.modules.find? path with
  | some id =>
      have hknown : ∀ k : Calls, k.evaluateModule path tree s =
          (pure id : Eval ModuleId) s :=
        fun k => Within.evaluateModule_known k tree hfound
      exact .congr (hknown c) (hknown d) (.refl (.refl hs))
  | none =>
      have henter : s.Disciplined ((Eval.addModule path tree.id).after s) :=
        Disciplined.stable.enter path tree.id hroot
      refine .congr (Within.evaluateModule_new c tree hfound)
        (Within.evaluateModule_new d tree hfound) ?_
      have hpreloads := hc.preloads path ⟨s.scopes.size⟩ tree.root
        (tree.root.descendants.filter (·.kind == .importModule))
          (henter.atRoot.trans hroot) (hs.addModule hpath hfound tree.id)
      refine hpreloads.bind (fun _ t _ ht => ?_) fun t ht =>
        ⟨henter.trans ht.disciplined,
          ht.covers.less (Nat.le_refl _) (Nat.le_succ _)⟩
      have hcode : b.Rel { room with blocks := max room.blocks (2 * b.height) }
          (c.executeAll tree.root.children) (d.executeAll tree.root.children) :=
        hc.executeAll fun child hchild => by
          have hlower := Node.height_child hchild
          exact ⟨by simp only; omega, by omega⟩
      refine moduleCode_joint _ tree.id _
        (hcode _ (ht.covers.beginModule _ tree.id)) fun u hu => ?_
      refine ⟨Disciplined.stable.start path _ tree.id hroot ht.disciplined
        hu.disciplined, ?_⟩
      exact (hu.covers.less (Nat.le_max_left _ _) (Nat.le_refl _)).currentTree
        t.currentTree

theorem loadModuleStep (hb : b.Supplied) (hc : c.Covered b d) (request : String)
    (importer : Option String) (hroot : s.atRoot = true)
    (hs : b.Covers room s) :
    Joint (b.Leads room s) (c.loadModuleStep request importer)
      (d.loadModuleStep request importer)
      s := by
  unfold Calls.loadModuleStep
  cases hpath : s.findModulePath request importer with
  | error e =>
      have hfails :
          Eval.inspect (fun s => s.findModulePath request importer) s =
          .error (.failed e) s := by
        simp only [Eval.inspect, hpath]
      exact .of_error (Eval.bind_error hfails) (Eval.bind_error hfails)
        (.refl hs)
  | ok path =>
      refine .congr (Eval.bind_inspect hpath) (Eval.bind_inspect hpath) ?_
      refine .congr (Eval.bind_read _ _ s) (Eval.bind_read _ _ s) ?_
      split
      · exact .refl (.refl hs)
      · refine Budget.parseModule_bind hb hs (fun tree htree => ?_) (.refl hs)
        have ht := Budget.Leads.adoptTree hs
        exact (hc.evaluateModule (hb.lists hs hpath) htree
          (ht.disciplined.atRoot.trans hroot)
          ht.covers).mono fun _ hu => ht.trans hu

end Covered

theorem covered_watched {b : Budget} (hb : b.Supplied) {watch : Eval Unit}
    (hwatch : ∀ room t, b.Covers room t → watch t = .ok () t) (fuel : Nat) :
    (watched watch fuel).Covered b (ofFuel fuel) := by
  induction fuel with
  | zero =>
      exact { Matched.exhausted b.congruence with
        loadModule := fun _ _ s _ hs => .of_error rfl rfl (.refl hs) }
  | succ fuel ih =>
      have hjoint : ∀ {α : Type} {room : Headroom} {x y : Eval α} {s : Engine},
          b.Covers room s → Joint (b.Leads room s) x y s →
            Joint (b.Leads room s) (Eval.watched watch x) y s :=
        fun hs h => h.watched (hwatch _ _ hs) fun t ht => hwatch _ t ht.covers
      have hmatched := ih.toMatched
      rw [ofFuel_succ]
      exact
        { evaluate := fun node s hs => hjoint hs (hmatched.evaluateStep
          node s hs)
          execute := fun {_ node} hnode s hs => hjoint hs
            (hmatched.executeStep b.congruence_mapsFailures hnode
              (fun _ => ih.executeImport node) s hs)
          invoke :=
            fun id args s hs => hjoint hs (hmatched.invokeStep id args s hs)
          resolveType := fun node scope s hs =>
            hjoint hs (hmatched.resolveTypeStep node scope s hs)
          copyConstruct := fun dst src s hs =>
            hjoint hs (hmatched.copyConstructStep dst src s hs)
          defaultConstruct := fun place s hs =>
            hjoint hs (hmatched.defaultConstructStep place s hs)
          destroy := fun v s hs => hjoint hs (hmatched.destroyStep v s hs)
          rounds := rfl
          loadModule := fun request importer s hroot hs =>
            hjoint hs (ih.loadModuleStep hb request importer hroot hs) }

end Calls

/-! ## What a budget has to provide -/

structure ModuleSource.Finite (source : ModuleSource) : Prop where
  files : ∃ files : List String, ∀ path, source.contains path = true →
    ∃ file ∈ files, Path.same path file = true
  roots : ∃ roots : List Node, ∀ path root, source.parse path = .ok root →
    root ∈ roots

namespace ModuleSource

theorem mem_of_find? {α : Type} {entries : List (String × α)}
    {path : String} {a : α} (h : find? entries path = some a) :
    ∃ entry ∈ entries, entry.2 = a ∧ Path.same path entry.1 = true := by
  obtain ⟨entry, hfound, rfl⟩ := Option.map_eq_some_iff.1 h
  have hsame : Path.same entry.1 path = true := by
    simpa using List.find?_some hfound
  exact ⟨entry, List.mem_reverse.1 (List.mem_of_find?_eq_some hfound), rfl,
    beq_iff_eq.2 (beq_iff_eq.1 hsame).symm⟩

theorem finite_inMemory (modules : List (String × Node))
    (broken : List (String × String)) : (inMemory modules broken).Finite where
  files := by
    refine ⟨modules.map Prod.fst ++ broken.map Prod.fst, fun path hpath => ?_⟩
    rcases Bool.or_eq_true_iff.1 hpath with hfound | hfound
    · obtain ⟨root, hroot⟩ := Option.isSome_iff_exists.1 hfound
      obtain ⟨entry, hentry, -, hsame⟩ := mem_of_find? hroot
      exact ⟨entry.1,
        List.mem_append_left _ (List.mem_map_of_mem hentry), hsame⟩
    · obtain ⟨message, hmessage⟩ := Option.isSome_iff_exists.1 hfound
      obtain ⟨entry, hentry, -, hsame⟩ := mem_of_find? hmessage
      exact ⟨entry.1,
        List.mem_append_right _ (List.mem_map_of_mem hentry), hsame⟩
  roots := by
    refine ⟨modules.map Prod.snd, fun path root hroot => ?_⟩
    simp only [inMemory] at hroot
    split at hroot
    · cases hroot
    · rename_i hfound
      cases hroot
      obtain ⟨entry, hentry, rfl, -⟩ := mem_of_find? hfound
      exact List.mem_map_of_mem hentry
    · cases hroot

end ModuleSource

def Function.code? (f : Function) : Option Node :=
  match f.body with
  | .native _ => none
  | .interpreted _ node _ => some node

namespace Engine

variable {s : Engine}

def code (s : Engine) : List Node :=
  (default :: s.functions.functions.toList).filterMap Function.code? ++
    (default :: s.templates.defs.toList).map TemplateDef.node

theorem Holds.mem_code {home : TreeId} {node : Node} (h : s.Holds home node) :
    node ∈ s.code := by
  have hget : ∀ {α : Type} (a : Array α) (d : α) (i : Nat),
      a.getD i d ∈ d :: a.toList := by
    intro α a d i
    rw [Array.getD_eq_getD_getElem?]
    cases hi : a[i]? with
    | none => exact List.mem_cons_self
    | some x =>
        exact List.mem_cons_of_mem d
          (Array.mem_def.1 (Array.mem_of_getElem? hi))
  cases h with
  | @function id _ _ _ hbody =>
      refine List.mem_append_left _
        (List.mem_filterMap.2 ⟨_, hget _ _ id.index, ?_⟩)
      change (s.functions.get id).code? = some node
      rw [Function.code?, hbody]
  | template id =>
      exact List.mem_append_right _ (List.mem_map_of_mem (hget _ _ id.index))

end Engine

/-! ## Requests -/

namespace Budget

variable {b : Budget} {s t : Engine}

structure AtRest (b : Budget) (t : Engine) : Prop where
  covers : b.Covers ⟨2 * b.height, 0⟩ t
  rooted : t.Rooted

theorem AtRest.of_rooted (ht : b.Admits t) (hrooted : t.Rooted)
    (hcalls : t.callDepth = 0)
    (hroots : t.arena.roots + b.start.entered ≤
      b.start.arena.depth + t.entered) : b.AtRest t := by
  refine ⟨⟨ht, ?_, hroots, hcalls.trans hrooted.activeCalls.symm, ?_⟩, hrooted⟩
  · have hblocks : t.arena.blocks = 0 := by
      rw [Arena.blocks, Arena.roles, List.countP_map, List.countP_eq_zero]
      intro f hf hblock
      have hroot := (hrooted f hf).1
      have hkind : f.kind = .block := beq_iff_eq.1 hblock
      rw [hkind] at hroot
      cases hroot
    rw [hblocks, Nat.zero_add]
    exact Nat.le_mul_of_pos_left _ (Nat.succ_pos _)
  · rw [hcalls]
    exact Nat.zero_le _

namespace AtRest

theorem start (hrooted : b.start.Rooted) (hcalls : b.start.callDepth = 0)
    (hcode : ∀ home node, b.start.Holds home node → node.height ≤ b.height) :
    b.AtRest b.start := by
  refine .of_rooted ⟨rfl, rfl, hcode, [], ?_, List.nodup_nil, ?_⟩ hrooted
    hcalls ?_
  · rw [List.append_nil]
  · exact fun e he => (List.not_mem_nil he).elim
  · refine Nat.add_le_add_right ?_ _
    rw [Arena.roots, Arena.depth, ← List.length_map Frame.role]
    exact List.countP_le_length

theorem callDepth (h : b.AtRest t) : t.callDepth = 0 :=
  h.covers.accounted.active.trans h.rooted.activeCalls

theorem leads {room : Headroom} (h : b.AtRest s) (hst : b.Leads room s t)
    (hadvances : s.Advances t) : b.AtRest t := by
  refine .of_rooted hst.covers.toAdmits (hadvances.rooted h.rooted)
    (hadvances.callDepth.trans h.callDepth) ?_
  have hroots := hst.covers.roots
  omega

theorem joint {α : Type} {room : Headroom} {x y : Eval α} (h : b.AtRest s)
    (hxy : Joint (b.Leads room s) x y s) (hadvances : s.Advances (y.after s)) :
    Joint b.AtRest x y s :=
  ⟨hxy.same, h.leads hxy.after hadvances⟩

theorem adoptTree (h : b.AtRest s) :
    b.AtRest { s with nextTree := s.nextTree + 1 } :=
  h.leads (.adoptTree h.covers) (Advances.stable.move .adoptTree)

theorem disarmed (h : b.AtRest t) : b.AtRest t.disarmed :=
  ⟨h.covers.disarmed, h.rooted.disarmed⟩

theorem popFrame (h : b.AtRest t) :
    b.AtRest { t with arena := t.arena.popFrame } := by
  refine .of_rooted (h.covers.toAdmits.arena _) h.rooted.popFrame h.callDepth ?_
  have hpopped : t.arena.popFrame.roots ≤ t.arena.roots := by
    unfold Arena.popFrame Arena.roots Arena.roles
    split
    · exact Nat.le_refl _
    · rename_i hframes
      rw [hframes]
      exact (List.sublist_cons_self _ _).countP_le
  exact Nat.le_trans (Nat.add_le_add_right hpopped _) h.covers.roots

theorem unwindTo (h : b.AtRest t) (depth : Nat) : b.AtRest (t.unwindTo depth) :=
  Arena.unwindTo_induction (P := fun a => b.AtRest { t with arena := a })
    (fun _ ha => ha.popFrame) h depth

end AtRest

end Budget

namespace Calls.Covered

variable {b : Budget} {c d : Calls} {s : Engine}

theorem popFrame (hc : c.Covered b d) (hd : d.Within Advances) (hs : b.AtRest s)
    (depth : Nat) : Joint b.AtRest (c.popFrame depth) (d.popFrame depth) s := by
  have hdestroyed :=
    Budget.Rel.forM hc.destroy (topAggregates s) s.disarmed hs.disarmed.covers
  have hadvances :=
    Advances.composable.forM hd.destroy (topAggregates s) s.disarmed
  refine .congr (Eval.bind_ok (takeDestructibles_eq s))
    (Eval.bind_ok (takeDestructibles_eq s)) ?_
  exact ((hs.disarmed.joint hdestroyed hadvances).onStop fun _ ht =>
    ht.unwindTo depth).bind (fun _ t _ ht => .refl ht.popFrame) fun _ ht => ht

theorem popFrames (hc : c.Covered b d) (hd : d.Within Advances)
    (hs : b.AtRest s) (depth rounds : Nat) :
    Joint b.AtRest (c.popFrames depth rounds) (d.popFrames depth rounds) s := by
  induction rounds generalizing s with
  | zero => exact .refl hs
  | succ rounds ih =>
      unfold Calls.popFrames
      refine .congr (Eval.bind_read _ _ s) (Eval.bind_read _ _ s) ?_
      split
      · exact (hc.popFrame hd hs depth).bind (fun _ t _ ht => ih ht)
          fun _ ht => ht
      · exact .refl hs

theorem shutdown (hc : c.Covered b d) (hd : d.Within Advances)
    (hs : b.AtRest s) : Joint b.AtRest c.shutdown d.shutdown s :=
  .congr (Eval.bind_read _ _ s) (Eval.bind_read _ _ s)
    (hc.popFrames hd hs 0 s.arena.depth)

theorem run_same (hc : c.Covered b d) (hs : b.AtRest s) (tree : SyntaxTree)
    {node : Node} (hnode : node.height ≤ b.height) :
    c.run tree node s = d.run tree node s := by
  have hcode : b.congruence.Code ⟨2 * b.height, 0⟩ node :=
    ⟨Nat.mul_le_mul_left 2 hnode, hnode⟩
  have hinside : b.Rel ⟨2 * b.height, 0⟩
      (if node.kind.isOperand then some <$> c.evaluate node
        else do
          let _ ← c.execute node
          pure none)
      (if node.kind.isOperand then some <$> d.evaluate node
        else do
          let _ ← d.execute node
          pure none) := by
    split
    · exact b.congruence.map some (hc.evaluate node)
    · exact .bind (hc.execute hcode) fun _ => .atomic (.pure none)
  have hrun := Budget.Rel.withTree tree.id hinside s hs.covers
  refine Joint.same (P := fun _ => True) ?_
  refine .congr (Eval.bind_read _ _ s) (Eval.bind_read _ _ s) ?_
  exact .onStop (hrun.mono fun _ _ => trivial) fun _ _ => trivial

theorem runItem_same (hc : c.Covered b d) (hs : b.AtRest s) {item : Node}
    (hitem : (item.number 0).1.height ≤ b.height) :
    c.runItem item s = d.runItem item s := by
  have hrun : ∀ k : Calls, k.runItem item s =
      k.run (.ofRoot ⟨s.nextTree⟩ ⟨.moduleRoot, "", .dummy, 0, [item]⟩)
        (item.number 0).1 { s with nextTree := s.nextTree + 1 } := fun _ => rfl
  rw [hrun, hrun]
  exact hc.run_same hs.adoptTree _ hitem

theorem finish (hc : c.Covered b d) (hd : d.Within Advances) (hs : b.AtRest s)
    (settings : Settings) (id : ModuleId) :
    Joint (fun _ => True) (Program.finish c settings id)
      (Program.finish d settings id) s := by
  have hexit : ∀ (code : Int32) (t : Engine), b.AtRest t → Joint (fun _ => True)
      (do c.shutdown; pure code) (do d.shutdown; pure code)
        t := fun code t ht =>
    (hc.shutdown hd ht).bind (fun _ u _ _ => .refl trivial) fun _ _ => trivial
  have hinspect : ∀ {α : Type} (f : Engine → Except Failure α) {t : Engine},
      b.AtRest t →
      Joint b.AtRest (Eval.inspect f) (Eval.inspect f) t := by
    intro α f t ht
    refine .refl ?_
    cases hrun : Eval.inspect f t with
    | ok a u =>
        rw [Eval.after_ok hrun, (Eval.inspect_eq_ok hrun).2]
        exact ht
    | error e u =>
        rw [Eval.after_error hrun, Eval.inspect_eq_error hrun]
        exact ht
  refine (hinspect _ hs).bind (fun entry t _ ht => ?_) fun _ _ => trivial
  have hinvoke :=
    ht.joint (hc.invoke entry [] t ht.covers) (hd.invoke entry [] t)
  refine hinvoke.bind (fun result u _ hu => ?_) fun _ _ => trivial
  cases result with
  | some value =>
      exact (hinspect _ hu).bind (fun code v _ hv => hexit code v hv) fun _ _ =>
        trivial
  | none => exact hexit 0 u hu

theorem run_program_same (hb : b.Supplied) (hc : c.Covered b d)
    (hd : d.Within Advances) (hs : b.AtRest s) (settings : Settings) :
    Program.run c settings s = Program.run d settings s := by
  have htry : Joint (fun _ => True) (Program.tryRun c settings)
      (Program.tryRun d settings) s := by
    unfold Program.tryRun
    cases hpath : s.findModulePath settings.entry none with
    | error e =>
        have hfails :
            Eval.inspect (fun s => s.findModulePath settings.entry none) s =
            .error (.failed e) s := by
          simp only [Eval.inspect, hpath]
        exact .of_error (Eval.bind_error hfails)
          (Eval.bind_error hfails) trivial
    | ok path =>
        refine .congr (Eval.bind_inspect hpath) (Eval.bind_inspect hpath) ?_
        refine Budget.parseModule_bind hb hs.covers
          (fun tree htree => ?_) trivial
        have ht := hs.adoptTree
        have hroot := ht.rooted.atRoot
        have hload :=
          ht.joint (hc.evaluateModule (hb.lists hs.covers hpath) htree hroot
            ht.covers)
          (hd.evaluateModule_at Advances.stable path tree hroot)
        exact hload.bind (fun id u _ hu => hc.finish hd hu settings id)
          fun _ _ => trivial
  simp only [Program.run, htry.same]

end Calls.Covered

namespace Request

def code : Request → List Node
  | .evaluate _ node => [node]
  | .item node => [(node.number 0).1]
  | .enter _ tree => [tree.root]
  | _ => []

def files : Request → List String
  | .enter path _ => [path]
  | _ => []

end Request

structure Budget.Provides (b : Budget) (request : Request) : Prop where
  code : ∀ node ∈ request.code, node.height ≤ b.height
  files : ∀ path ∈ request.files, b.Lists path

theorem Calls.Covered.perform_same {b : Budget} {c d : Calls} {s : Engine}
    (hb : b.Supplied) (hc : c.Covered b d) (hd : d.Within Advances)
    (hs : b.AtRest s) {request : Request} (hrequest : b.Provides request) :
    request.perform c s = request.perform d s := by
  have hmap : ∀ {α : Type} {x y : Eval α}, x s = y s →
      ((fun _ => ()) <$> x) s = ((fun _ => ()) <$> y) s := by
    intro α x y h
    simp only [Functor.map, EStateM.map, h]
  have hroot := hs.rooted.atRoot
  cases request with
  | evaluate tree node =>
      exact hmap (hc.run_same hs tree (hrequest.code node List.mem_cons_self))
  | item node =>
      exact hmap (hc.runItem_same hs (hrequest.code _ List.mem_cons_self))
  | call id args => exact hmap (hc.invoke id args s hs.covers).same
  | load request importer =>
      exact hmap (hc.loadModule request importer s hroot hs.covers).same
  | enter path tree =>
      exact hmap (hc.evaluateModule (hrequest.files path List.mem_cons_self)
        (hrequest.code tree.root List.mem_cons_self) hroot hs.covers).same
  | program settings => exact hmap (hc.run_program_same hb hd hs settings)
  | shutdown => exact (hc.shutdown hd hs).same

/-! ## Main statement -/

theorem Engine.exists_supply (s : Engine)
    (hsource : ∀ source ∈ s.source, source.Finite) :
    ∃ (files : List String) (roots : List Node),
      (∀ path, s.HasModule path → ∃ file ∈ files, Path.same path file = true) ∧
        ∀ path root, s.moduleRoot? path = some root → root ∈ roots := by
  cases hs : s.source with
  | none =>
      refine ⟨[], [], fun path hpath => ?_, fun path root hroot => ?_⟩
      · obtain ⟨source, hsome, -⟩ := hpath.contains
        rw [hs] at hsome
        cases hsome
      · rw [Engine.moduleRoot?, hs] at hroot
        cases hroot
  | some source =>
      obtain ⟨⟨files, hfiles⟩, roots, hroots⟩ := hsource source hs
      refine ⟨files, roots.map fun root => (root.number 0).1,
        fun path hpath => ?_,
        fun path root hroot => ?_⟩
      · obtain ⟨source', hsome, hcontains⟩ := hpath.contains
        obtain rfl : source = source' := Option.some.inj (hs.symm.trans hsome)
        exact hfiles path hcontains
      · rw [Engine.moduleRoot?, hs, Option.bind_some] at hroot
        split at hroot
        · rename_i parsed hparse
          cases hroot
          exact List.mem_map_of_mem (hroots path parsed hparse)
        · cases hroot

/-- If there are finitely many modules, then throughout a request the number of
live frames is bounded, whatever the fuel, except as fields are being
initialized: each initializer that is active adds a bounded number of frames. -/
theorem Reachable.frames_bounded {s : Engine} (hs : Reachable s)
    (hsource : ∀ source ∈ s.source, source.Finite) (request : Request) :
    ∃ count factor, ∀ fuel, Calls.Throughout
      (fun t => t.arena.depth ≤
        (count + s.maxCallDepth + t.arena.initializers) * factor) fuel
      request.perform s := by
  obtain ⟨files, roots, hfiles, hroots⟩ := s.exists_supply hsource
  let b : Budget :=
    ⟨s, Node.heightAll (s.code ++ roots ++ request.code),
      files ++ request.files⟩
  have hheight : ∀ node ∈ s.code ++ roots ++ request.code,
      node.height ≤ b.height :=
    fun _ => Node.height_le_heightAll
  have hb : b.Supplied :=
    { roots := fun path root hroot => hheight root <|
        List.mem_append_left _
          (List.mem_append_right _ (hroots path root hroot))
      paths := fun path hpath => by
        obtain ⟨file, hfile, hsame⟩ := hfiles path hpath
        exact ⟨file, List.mem_append_left _ hfile, hsame⟩ }
  have hrest : b.AtRest s := .start hs.rooted.1 hs.rooted.2 fun _ node hold =>
    hheight node <|
    List.mem_append_left _ (List.mem_append_left _ hold.mem_code)
  have hrequest : b.Provides request :=
    { code := fun node hnode => hheight node (List.mem_append_right _ hnode)
      files := fun path hpath =>
        ⟨path, List.mem_append_right _ hpath,
          beq_self_eq_true (Path.components path)⟩ }
  refine ⟨s.arena.depth + b.files.length + 1, 2 * b.height + 1,
    fun fuel watch hwatch => ?_⟩
  refine (Calls.covered_watched hb (fun room t ht => hwatch t ?_)
    fuel).perform_same hb (.ofFuel Advances.stable fuel) hrest hrequest
  calc t.arena.depth
      ≤ (s.arena.depth + b.files.length + s.maxCallDepth +
        t.arena.initializers + 1) * (2 * b.height + 1) := ht.depth_le
    _ = _ := congrArg (· * _) (by omega)

namespace Recursion

def hosted : Engine :=
  .new { stackCapacity := 64, maxCallDepth := 2 } ⟨.buffer, ""⟩
    (some (.inMemory [("/a.vx", ⟨.moduleRoot, "", .dummy, 0,
      [function, callWith (leaf .boolLiteral "false")]⟩)] [])) []

def load : Request := .load "a" none

end Recursion

open Recursion in
theorem Reachable.frames_bounded_module :
    Reachable hosted ∧ (∀ source ∈ hosted.source, source.Finite) ∧
      (load.perform (Calls.ofFuel 20)).fault? hosted =
        some (.callDepthExceeded 2) ∧
      Calls.Meets AtLimit 20 load.perform hosted ∧
      ∃ count factor, (∀ fuel, Calls.Throughout
        (fun t => t.arena.depth ≤ (count + 2 + t.arena.initializers) * factor)
          fuel load.perform hosted) ∧
        ∃ t, AtLimit t ∧
          t.arena.depth ≤ (count + 2 + t.arena.initializers) * factor := by
  have hhosted : Reachable hosted := .new _ _ _ _ (by decide)
  have hsource : ∀ source ∈ hosted.source, source.Finite := by
    intro source h
    obtain rfl := Option.some.inj h
    exact ModuleSource.finite_inMemory _ _
  have hmeets : Calls.Meets AtLimit 20 load.perform hosted :=
    Calls.meets_of_stopWhen (by decide +kernel)
  obtain ⟨count, factor, hbounded⟩ := frames_bounded hhosted hsource load
  exact ⟨hhosted, hsource, by decide +kernel, hmeets, count, factor, hbounded,
    (hbounded 20).exists_of_meets hmeets⟩

end ArenaScript
