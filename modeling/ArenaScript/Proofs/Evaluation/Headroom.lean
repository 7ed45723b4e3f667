import Mathlib.Data.List.Perm.Subperm
import ArenaScript.Proofs.Evaluation.Accounting
import ArenaScript.Proofs.Evaluation.Coincidence

/-!
# Frames that are accounted for

Each live frame is a root frame, the frame of a call, that of a field
initializer or that of a block.  Active calls are counted, and a module is
entered once.  Blocks are opened by code only, at most two for each level of its
tree, so what is executing in a frame has room for a number of blocks that its
tree fixes.  Initializers alone are neither counted nor confined by the code
they belong to.

Keeping within this room is a congruence whose worlds say how much of it is
left.
-/

namespace ArenaScript

open Eval (Atomic)

/-! ## Heights -/

namespace Node

mutual

def height : Node → Nat
  | ⟨_, _, _, _, children⟩ => heightAll children + 1

def heightAll : List Node → Nat
  | [] => 0
  | node :: rest => max (height node) (heightAll rest)

end

theorem height_eq (node : Node) :
    node.height = heightAll node.children + 1 := by
  cases node
  rw [height]

theorem height_le_heightAll {node : Node} {nodes : List Node}
    (h : node ∈ nodes) : node.height ≤ heightAll nodes := by
  induction nodes with
  | nil => cases h
  | cons first rest ih =>
      rw [heightAll]
      rcases List.mem_cons.1 h with rfl | h
      · exact Nat.le_max_left _ _
      · exact Nat.le_trans (ih h) (Nat.le_max_right _ _)

theorem height_child {node child : Node} (h : child ∈ node.children) :
    child.height + 1 ≤ node.height := by
  rw [height_eq node]
  exact Nat.succ_le_succ (height_le_heightAll h)

end Node

/-! ## Kinds of frames -/

/-- What a frame is for, as far as limits are concerned. -/
def Frame.role (f : Frame) : FrameKind × Bool := (f.kind, f.call.isSome)

namespace Arena

def roles (a : Arena) : List (FrameKind × Bool) := a.frames.map Frame.role

def blocks (a : Arena) : Nat := a.roles.countP (·.1 == .block)

def roots (a : Arena) : Nat := a.roles.countP (·.1.isRoot)

/-- The number of frames in which fields are initialized; they have no call
record. -/
def initializers (a : Arena) : Nat :=
  a.roles.countP fun role => role.1 == .function && !role.2

def segments (a : Arena) : Nat := a.roots + a.activeCalls + a.initializers

theorem activeCalls_eq (a : Arena) : a.activeCalls = a.roles.countP (·.2) := by
  rw [activeCalls, roles, List.countP_map]
  rfl

theorem depth_le (a : Arena) : a.depth ≤ a.segments + a.blocks := by
  unfold depth segments roots initializers blocks
  rw [activeCalls_eq, roles]
  induction a.frames with
  | nil => exact Nat.zero_le _
  | cons f rest ih =>
      -- A frame without a call record is a root frame, a block or an
      -- initializer.
      have hrole : 1 ≤ (if f.kind.isRoot then 1 else 0) +
          (if f.call.isSome then 1 else 0) +
          (if f.kind == .function && !f.call.isSome then 1 else 0) +
            if f.kind == .block then 1 else 0 := by
        generalize f.call.isSome = called
        generalize f.kind = kind
        cases kind <;> cases called <;> decide
      simp only [List.map_cons, List.countP_cons, List.length_cons,
        Frame.role] at ih ⊢
      omega

section SameRoles

variable {a b : Arena} (h : b.roles = a.roles)
include h

theorem blocks_congr : b.blocks = a.blocks := by rw [blocks, h, blocks]

theorem roots_congr : b.roots = a.roots := by rw [roots, h, roots]

theorem activeCalls_congr : b.activeCalls = a.activeCalls := by
  rw [activeCalls_eq, h, activeCalls_eq]

theorem segments_congr : b.segments = a.segments := by
  rw [segments, segments, roots_congr h, activeCalls_congr h, initializers, h,
    initializers]

end SameRoles

theorem Kept.roles {a b : Arena} (h : a.Kept b) : b.roles = a.roles := by
  have hframes := h.frames
  unfold Arena.roles
  generalize a.frames = fs at hframes
  generalize b.frames = gs at hframes
  cases hframes with
  | empty => rfl
  | top rest hf => simp only [List.map_cons, Frame.role, hf.kind, hf.call]

section Push

variable (a : Arena) (scope : ScopeId)

theorem pushBlock_counts :
    (a.pushFrame scope .block none).blocks = a.blocks + 1 ∧
      (a.pushFrame scope .block none).segments = a.segments ∧
        (a.pushFrame scope .block none).roots = a.roots := by
  simp [blocks, segments, roots, initializers, activeCalls_eq, roles, pushFrame,
    Frame.role, FrameKind.isRoot]

theorem pushFunction_counts (call : Option CallRecord) :
    (a.pushFrame scope .function call).blocks = a.blocks ∧
      (a.pushFrame scope .function call).segments = a.segments + 1 ∧
        (a.pushFrame scope .function call).roots = a.roots := by
  cases call <;>
    simp [blocks, segments, roots, initializers, activeCalls_eq, roles,
      pushFrame, Frame.role, FrameKind.isRoot] <;> omega

theorem pushModule_counts :
    (a.pushFrame scope .moduleFrame none).blocks = a.blocks ∧
      (a.pushFrame scope .moduleFrame none).segments = a.segments + 1 ∧
        (a.pushFrame scope .moduleFrame none).roots = a.roots + 1 := by
  simp [blocks, segments, roots, initializers, activeCalls_eq, roles, pushFrame,
    Frame.role, FrameKind.isRoot]
  omega

end Push

end Arena

/-! ## Computations that do the same -/

structure Eval.Joint {α : Type} (P : Engine → Prop) (x y : Eval α)
    (s : Engine) : Prop where
  same : x s = y s
  after : P (y.after s)

namespace Eval.Joint

variable {α β : Type} {P Q : Engine → Prop} {x y : Eval α} {s : Engine}

theorem refl (h : P (x.after s)) : Joint P x x s := ⟨rfl, h⟩

theorem mono (h : Joint P x y s) (hPQ : ∀ t, P t → Q t) : Joint Q x y s :=
  ⟨h.same, hPQ _ h.after⟩

theorem congr {x' y' : Eval α} {s' : Engine} (hx : x s = x' s')
    (hy : y s = y' s') (h : Joint P x' y' s') : Joint P x y s where
  same := by rw [hx, hy, h.same]
  after := by
    rw [after_congr hy]
    exact h.after

theorem cases (h : Joint P x y s) :
    (∃ a t, x s = .ok a t ∧ y s = .ok a t ∧ P t) ∨
      ∃ e t, x s = .error e t ∧ y s = .error e t ∧ P t := by
  have hafter := h.after
  cases hy : y s with
  | ok a t =>
      rw [after_ok hy] at hafter
      exact .inl ⟨a, t, h.same.trans hy, rfl, hafter⟩
  | error e t =>
      rw [after_error hy] at hafter
      exact .inr ⟨e, t, h.same.trans hy, rfl, hafter⟩

theorem of_error {e : Stop} {t : Engine} (hx : x s = .error e t)
    (hy : y s = .error e t) (ht : P t) : Joint P x y s where
  same := hx.trans hy.symm
  after := by
    rw [after_error hy]
    exact ht

theorem bind {f g : α → Eval β} (hxy : Joint P x y s)
    (hfg : ∀ a t, y s = .ok a t → P t → Joint Q (f a) (g a) t)
    (hPQ : ∀ t, P t → Q t) : Joint Q (x >>= f) (y >>= g) s := by
  rcases hxy.cases with ⟨a, t, hx, hy, ht⟩ | ⟨e, t, hx, hy, ht⟩
  · exact (hfg a t hy ht).congr (bind_ok hx) (bind_ok hy)
  · exact of_error (bind_error hx) (bind_error hy) (hPQ t ht)

theorem onStop {g : Engine → Engine} (h : Joint P x y s)
    (hg : ∀ t, P t → P (g t)) :
    Joint P (Eval.onStop g x) (Eval.onStop g y) s := by
  rcases h.cases with ⟨a, t, hx, hy, ht⟩ | ⟨e, t, hx, hy, ht⟩
  · refine ⟨(onStop_ok g hx).trans (onStop_ok g hy).symm, ?_⟩
    rw [after_ok (onStop_ok g hy)]
    exact ht
  · exact of_error (onStop_error g hx) (onStop_error g hy) (hg t ht)

theorem mapFailure {f : Engine → Failure → Failure} (h : Joint P x y s) :
    Joint P (Eval.mapFailure f x) (Eval.mapFailure f y) s where
  same := by simp only [Eval.mapFailure, h.same]
  after := by
    rw [after_mapFailure]
    exact h.after

theorem withTree {tree : TreeId}
    (h : Joint P x y { s with currentTree := tree })
    (hQ : ∀ t, P t → Q { t with currentTree := s.currentTree }) :
    Joint Q (Eval.withTree tree x) (Eval.withTree tree y) s where
  same := by simp only [Eval.withTree, h.same]
  after := by
    rw [after_withTree]
    exact hQ _ h.after

theorem deeper (h : Joint P x y { s with callDepth := s.callDepth + 1 })
    (hQ : ∀ t, P t → Q { t with callDepth := t.callDepth - 1 }) :
    Joint Q (Calls.deeper x) (Calls.deeper y) s where
  same := by simp only [Calls.deeper, h.same]
  after := by
    rw [Calls.after_deeper]
    exact hQ _ h.after

theorem watched {watch : Eval Unit} (h : Joint P x y s)
    (hbefore : watch s = .ok () s) (hafter : ∀ t, P t → watch t = .ok () t) :
    Joint P (Eval.watched watch x) y s := by
  refine h.congr ?_ rfl
  rcases h.cases with ⟨a, t, hx, -, ht⟩ | ⟨e, t, hx, -, ht⟩ <;>
    simp [Eval.watched, tryFinally, MonadFinally.tryFinally', Bind.bind,
      EStateM.bind, hbefore, hx, hafter t ht, Functor.map, EStateM.map]

end Eval.Joint

open Eval (Joint)

/-! ## Budgets -/

/-- What a request starts from and what it may run: code of a certain height,
and modules that come from certain files. -/
structure Budget where
  start : Engine
  height : Nat
  files : List String

/-- What is left for the code that is executing: blocks, and root frames of
modules that have been entered. -/
structure Headroom where
  blocks : Nat
  modules : Nat

namespace Budget

def Lists (b : Budget) (path : String) : Prop :=
  ∃ file ∈ b.files, Path.same path file = true

/-- The engine holds nothing that the budget does not provide for. -/
structure Admits (b : Budget) (t : Engine) : Prop where
  source : t.source = b.start.source
  maxCallDepth : t.maxCallDepth = b.start.maxCallDepth
  code : ∀ home node, t.Holds home node → node.height ≤ b.height
  entries : ∃ entered : List ModuleEntry,
    t.entries = b.start.entries ++ entered ∧
    (entered.map fun e => Path.components e.path).Nodup ∧ ∀ e ∈ entered,
      b.Lists e.path

structure Covers (b : Budget) (room : Headroom) (t : Engine) : Prop
    extends b.Admits t where
  blocks : t.arena.blocks + room.blocks ≤
    (t.arena.segments + 1) * (2 * b.height)
  roots : t.arena.roots + room.modules + b.start.entered ≤
    b.start.arena.depth + t.entered
  accounted : t.Accounted

variable {b : Budget} {room : Headroom} {s t u : Engine}

namespace Admits

/-- No file is the file of two modules. -/
theorem entered_le (h : b.Admits t) :
    t.entered ≤ b.start.entered + b.files.length := by
  obtain ⟨entered, hentries, hnodup, hfiles⟩ := h.entries
  have hsubset : (entered.map fun e => Path.components e.path) ⊆
      b.files.map Path.components := by
    intro components hmem
    obtain ⟨e, he, rfl⟩ := List.mem_map.1 hmem
    obtain ⟨file, hfile, hsame⟩ := hfiles e he
    rw [beq_iff_eq.1 hsame]
    exact List.mem_map_of_mem hfile
  have hcount := (hnodup.subperm hsubset).length_le
  simp only [List.length_map] at hcount
  have htotal := congrArg List.length hentries
  rw [List.length_append] at htotal
  change t.modules.modules.toList.length =
    b.start.modules.modules.toList.length + _ at htotal
  simp only [Array.length_toList] at htotal
  unfold Engine.entered
  omega

theorem of_code (h : b.Admits t)
    (hcode : ∀ home node, u.Holds home node → node.height ≤ b.height)
    (hsource : u.source = t.source) (hmax : u.maxCallDepth = t.maxCallDepth)
    (hmodules : u.modules = t.modules) : b.Admits u where
  source := hsource.trans h.source
  maxCallDepth := hmax.trans h.maxCallDepth
  code := hcode
  entries := by
    rw [Engine.entries, hmodules]
    exact h.entries

theorem noNewCode (h : b.Admits t) (hcode : t.NoNewCode u)
    (hsource : u.source = t.source) (hmax : u.maxCallDepth = t.maxCallDepth)
    (hmodules : u.modules = t.modules) : b.Admits u :=
  h.of_code (fun home node hold => h.code home node (hcode home node hold))
    hsource hmax hmodules

theorem arena (h : b.Admits t) (arena : Arena) : b.Admits { t with arena } :=
  h.noNewCode (.of_tables rfl rfl) rfl rfl rfl

theorem move (h : b.Admits t) (hmove : t.Move u) (hcode : t.NoNewCode u) :
    b.Admits u :=
  h.noNewCode hcode (Engine.Extends.move hmove).source
    (Engine.Extends.move hmove).maxCallDepth hmove.modules

theorem addFunction (h : b.Admits t) {f : Function} {home : TreeId}
    {node : Node} {scope : ScopeId} (hf : f.body = .interpreted home node scope)
    (hnode : node.height ≤ b.height) :
    b.Admits { t with functions := (t.functions.add f).2 } := by
  refine h.of_code (fun tree code hold => ?_) rfl rfl rfl
  rcases hold.of_addFunction with ⟨_, hbody⟩ | hold
  · rw [hf] at hbody
    cases hbody
    exact hnode
  · exact h.code tree code hold

theorem addTemplate (h : b.Admits t) {d : TemplateDef}
    (hd : d.node.height ≤ b.height) :
    b.Admits { t with templates := (t.templates.add d).2 } := by
  refine h.of_code (fun tree code hold => ?_) rfl rfl rfl
  rcases hold.of_addTemplate with ⟨rfl, rfl⟩ | hold
  · exact hd
  · exact h.code tree code hold

end Admits

namespace Covers

/-- All frames but those of initializers are provided for. -/
theorem depth_le (h : b.Covers room t) :
    t.arena.depth ≤
      (b.start.arena.depth + b.files.length + b.start.maxCallDepth +
        t.arena.initializers + 1) * (2 * b.height + 1) := by
  have hmodules := h.entered_le
  have hroots := h.roots
  have hcalls := h.accounted.active
  have hlimited := h.accounted.limited
  rw [h.maxCallDepth] at hlimited
  have hsegments : t.arena.segments ≤ b.start.arena.depth + b.files.length +
      b.start.maxCallDepth + t.arena.initializers := by
    unfold Arena.segments
    omega
  calc t.arena.depth ≤ t.arena.segments + t.arena.blocks := t.arena.depth_le
    _ ≤ (t.arena.segments + 1) * (2 * b.height + 1) := by
      have hblocks := h.blocks
      rw [Nat.mul_succ]
      omega
    _ ≤ _ := Nat.mul_le_mul_right _ (Nat.succ_le_succ hsegments)

theorem of_roles (h : b.Covers room t) (hu : b.Admits u)
    (hroles : u.arena.roles = t.arena.roles) (hcall : u.callDepth = t.callDepth)
    (hentered : u.entered = t.entered) : b.Covers room u where
  toAdmits := hu
  blocks := by
    rw [Arena.blocks_congr hroles, Arena.segments_congr hroles]
    exact h.blocks
  roots := by
    rw [Arena.roots_congr hroles, hentered]
    exact h.roots
  accounted := by
    refine ⟨?_, ?_⟩
    · rw [hcall, Arena.activeCalls_congr hroles]
      exact h.accounted.active
    · rw [hcall, hu.maxCallDepth, ← h.maxCallDepth]
      exact h.accounted.limited

theorem kept (h : b.Covers room t) (hu : b.Admits u) (hkept : t.Kept u)
    (hentered : u.entered = t.entered) : b.Covers room u :=
  h.of_roles hu hkept.arena.roles hkept.callDepth hentered

theorem currentTree (h : b.Covers room t) (id : TreeId) :
    b.Covers room { t with currentTree := id } :=
  h.of_roles (h.noNewCode (.of_tables rfl rfl) rfl rfl rfl) rfl rfl rfl

theorem disarmed (h : b.Covers room t) : b.Covers room t.disarmed := by
  refine h.of_roles (h.toAdmits.arena _) ?_ rfl rfl
  rw [Engine.disarmed, Arena.roles, Arena.roles, Arena.modifyTop_frames]
  cases t.arena.frames <;> rfl

/-! ### New frames -/

theorem pushBlock (h : b.Covers room t) (hroom : 0 < room.blocks)
    (scope : ScopeId) :
    b.Covers { room with blocks := room.blocks - 1 }
      (t.pushed scope .block none) where
  toAdmits := h.toAdmits.arena _
  blocks := by
    obtain ⟨hblocks, hsegments, -⟩ := t.arena.pushBlock_counts scope
    have hbefore := h.blocks
    rw [Engine.pushed, hblocks, hsegments]
    simp only
    omega
  roots := by
    rw [Engine.pushed, (t.arena.pushBlock_counts scope).2.2]
    exact h.roots
  accounted := h.accounted.pushed scope .block

theorem function_blocks (h : b.Covers room t) (scope : ScopeId)
    (call : Option CallRecord) :
    (t.arena.pushFrame scope .function call).blocks + 2 * b.height ≤
      ((t.arena.pushFrame scope .function call).segments + 1) *
        (2 * b.height) := by
  obtain ⟨hblocks, hsegments, -⟩ := t.arena.pushFunction_counts scope call
  have hbefore := h.blocks
  rw [hblocks, hsegments, Nat.succ_mul (t.arena.segments + 1)]
  omega

theorem pushInitializer (h : b.Covers room t) (scope : ScopeId) :
    b.Covers { room with blocks := 2 * b.height }
      (t.pushed scope .function none) where
  toAdmits := h.toAdmits.arena _
  blocks := h.function_blocks scope none
  roots := by
    rw [Engine.pushed, (t.arena.pushFunction_counts scope none).2.2]
    exact h.roots
  accounted := h.accounted.pushed scope .function

theorem pushCall (h : b.Covers room t) (hlimit : t.callDepth < t.maxCallDepth)
    (scope : ScopeId) (record : CallRecord) (id : TreeId) :
    b.Covers { room with blocks := 2 * b.height }
      (({ t with callDepth := t.callDepth + 1, currentTree := id } :
        Engine).pushed scope .function (some record)) where
  toAdmits := h.noNewCode (.of_tables rfl rfl) rfl rfl rfl
  blocks := h.function_blocks scope (some record)
  roots := by
    rw [Engine.pushed, (t.arena.pushFunction_counts scope (some record)).2.2]
    exact h.roots
  accounted := h.accounted.called hlimit scope record id

end Covers

structure Leads (b : Budget) (room : Headroom) (s t : Engine) : Prop where
  disciplined : s.Disciplined t
  covers : b.Covers room t

namespace Leads

theorem refl (hs : b.Covers room s) : b.Leads room s s :=
  ⟨Engine.Disciplined.composable.refl s, hs⟩

theorem trans (hst : b.Leads room s t) (htu : b.Leads room t u) :
    b.Leads room s u :=
  ⟨hst.disciplined.trans htu.disciplined, htu.covers⟩

theorem kept (hs : b.Covers room s) (ht : b.Admits t) (hkept : s.Kept t)
    (hentered : t.entered = s.entered) : b.Leads room s t :=
  ⟨.of_kept hkept hentered, hs.kept ht hkept hentered⟩

theorem restored (hs : b.Covers room s) (ht : b.Admits t) (h : s.Restored t) :
    b.Leads room s t :=
  .kept hs ht h.kept h.entered

theorem move (hs : b.Covers room s) (h : s.Move t) (hcode : s.NoNewCode t) :
    b.Leads room s t :=
  .kept hs (hs.toAdmits.move h hcode) (.move h) h.entered

theorem alters (hs : b.Covers room s) (h : s.Alters t) : b.Leads room s t := by
  rcases h with rfl | ⟨hmove, htame⟩
  · exact .refl hs
  · exact .move hs hmove htame.code

end Leads

def Rel {α : Type} (b : Budget) (room : Headroom) (x y : Eval α) : Prop :=
  ∀ s, b.Covers room s → Joint (b.Leads room s) x y s

namespace Rel

variable {α β : Type} {x y : Eval α}

theorem atomic (hx : Atomic x) : b.Rel room x x :=
  fun s hs => .refl (.alters hs (hx.alters_after s))

theorem bind {f g : α → Eval β} (hxy : b.Rel room x y)
    (hfg : ∀ a, b.Rel room (f a) (g a)) :
    b.Rel room (x >>= f) (y >>= g) := fun s hs =>
  (hxy s hs).bind (fun a t _ ht => (hfg a t ht.covers).mono fun _ hu =>
    ht.trans hu) fun _ ht => ht

theorem forM {f g : α → Eval Unit} (hfg : ∀ a, b.Rel room (f a) (g a))
    (l : List α) : b.Rel room (l.forM f) (l.forM g) := by
  induction l with
  | nil => exact .atomic (.pure ())
  | cons a l ih => exact .bind (hfg a) fun _ => ih

theorem withTree (id : TreeId) (hxy : b.Rel room x y) :
    b.Rel room (Eval.withTree id x) (Eval.withTree id y) := fun s hs =>
  (hxy _ (hs.currentTree id)).withTree fun _ ht =>
    ⟨.of_tree ht.disciplined, ht.covers.currentTree s.currentTree⟩

end Rel

/-! ## Frames that come and go -/

section Frames

variable {α : Type} {c d : Calls} {inner : Headroom}
  (hdestroy : ∀ v, b.Rel inner (c.destroy v) (d.destroy v))
include hdestroy

theorem popFrame_joint (hinside : s.Inside t) (ht : b.Covers inner t) :
    Joint (fun u => s.Restored u ∧ b.Admits u) (c.popFrame s.arena.depth)
      (d.popFrame s.arena.depth) t := by
  have hdestroyed :=
    Rel.forM hdestroy (Calls.topAggregates t) t.disarmed ht.disarmed
  have hpop :
      Joint b.Admits (c.popFrame s.arena.depth)
        (d.popFrame s.arena.depth) t := by
    refine .congr (Eval.bind_ok (Calls.takeDestructibles_eq t))
      (Eval.bind_ok (Calls.takeDestructibles_eq t)) ?_
    refine .bind (.onStop (hdestroyed.mono fun _ hu => hu.covers.toAdmits)
      fun _ hu => hu.arena _)
      (fun _ u _ hu => .refl (hu.arena _)) fun _ hu => hu
  exact ⟨hpop.same,
    Calls.popFrame_restored hinside hdestroyed.after.disciplined, hpop.after⟩

theorem popFramesTo_joint (hinside : s.Inside t) (ht : b.Covers inner t) :
    Joint (fun u => s.Restored u ∧ b.Admits u) (c.popFramesTo s.arena.depth)
      (d.popFramesTo s.arena.depth) t := by
  have hpop := popFrame_joint hdestroy hinside ht
  have hc : s.Restored ((c.popFrame s.arena.depth).after t) := by
    rw [Eval.after_congr hpop.same]
    exact hpop.after.1
  exact hpop.congr (Calls.popFramesTo_eq hinside hc)
    (Calls.popFramesTo_eq hinside hpop.after.1)

theorem withFrame_joint {x y : Eval α} (scope : ScopeId) {kind : FrameKind}
    (record : Option CallRecord) (hkind : kind.isRoot = false)
    (hpushed : b.Covers inner (s.pushed scope kind record))
    (hxy : b.Rel inner x y) :
    Joint (fun t => s.Restored t ∧ b.Admits t) (c.withFrame scope kind record x)
      (d.withFrame scope kind record y) s := by
  have hinside := Engine.Inside.push s scope record hkind
  let popping (k : Calls) (z : Eval α) : Eval α := do
    let a ← Eval.onStop (·.unwindTo s.arena.depth) z
    k.popFramesTo s.arena.depth
    pure a
  have hopen : ∀ (k : Calls) (z : Eval α),
      k.withFrame scope kind record z s =
        popping k z (s.pushed scope kind record) :=
    fun _ _ => rfl
  refine .congr (hopen c x) (hopen d y) ?_
  rcases (hxy _ hpushed).cases with ⟨a, t, hx, hy, ht⟩ | ⟨e, t, hx, hy, ht⟩
  · refine .congr (Eval.bind_ok (Eval.onStop_ok _ hx))
      (Eval.bind_ok (Eval.onStop_ok _ hy)) ?_
    exact (popFramesTo_joint hdestroy (hinside.step ht.disciplined)
      ht.covers).bind (fun _ u _ hu => .refl hu) fun _ hu => hu
  · refine .of_error (Eval.bind_error (Eval.onStop_error _ hx))
      (Eval.bind_error (Eval.onStop_error _ hy)) ?_
    exact ⟨(hinside.step ht.disciplined).unwindTo, ht.covers.toAdmits.arena _⟩

end Frames

/-! ## The congruence -/

namespace Rel

theorem of_move {α : Type} {x : Eval α}
    (hx : ∀ s, x.after s = s ∨ s.Move (x.after s) ∧ s.NoNewCode (x.after s)) :
    b.Rel room x x := by
  intro s hs
  refine .refl ?_
  rcases hx s with hsame | ⟨hmove, hcode⟩
  · rw [hsame]
    exact .refl hs
  · exact .move hs hmove hcode

theorem registerShell (name : String) (kind : StructKind) (members : ScopeId) :
    b.Rel room (Eval.registerShell name kind members)
      (Eval.registerShell name kind members) := by
  refine of_move fun s => ?_
  cases hresult : s.types.register name (.shell kind) members with
  | ok result =>
      simp only [Eval.after, Eval.registerShell, hresult]
      exact .inr ⟨.registerShell hresult, .of_tables rfl rfl⟩
  | error e =>
      exact .inl (by simp only [Eval.after, Eval.registerShell, hresult])

theorem completeType (type : TypeId) (fields : List Field)
    (variants : List (String × Int64)) :
    b.Rel room (Eval.completeType type fields variants)
      (Eval.completeType type fields variants) := by
  refine of_move fun s => ?_
  cases hresult : s.types.complete type fields variants with
  | ok types =>
      simp only [Eval.after, Eval.completeType, hresult]
      exact .inr ⟨.completeType hresult, .of_tables rfl rfl⟩
  | error e =>
      exact .inl (by simp only [Eval.after, Eval.completeType, hresult])

variable {c d : Calls}

theorem block {α : Type} {x y : Eval α} (scope : ScopeId)
    (hroom : 0 < room.blocks)
    (hdestroy : ∀ v,
      b.Rel { room with blocks := room.blocks - 1 } (c.destroy v) (d.destroy v))
        (hxy : b.Rel { room with blocks := room.blocks - 1 } x y) :
    b.Rel room (c.withFrame scope .block none x)
      (d.withFrame scope .block none y) :=
  fun _ hs =>
    (withFrame_joint hdestroy scope none rfl (hs.pushBlock hroom scope)
      hxy).mono
    fun _ ht => .restored hs ht.2 ht.1

theorem initializer {α : Type} {x y : Eval α} (scope : ScopeId)
    (hdestroy : ∀ v,
      b.Rel { room with blocks := 2 * b.height } (c.destroy v) (d.destroy v))
    (hxy : b.Rel { room with blocks := 2 * b.height } x y) :
    b.Rel room (c.withFrame scope .function none x)
      (d.withFrame scope .function none y) :=
  fun _ hs =>
    (withFrame_joint hdestroy scope none rfl (hs.pushInitializer scope)
      hxy).mono
    fun _ ht => .restored hs ht.2 ht.1

theorem calledFrame {x y : Eval Unit}
    (hdestroy : ∀ v,
      b.Rel { room with blocks := 2 * b.height } (c.destroy v) (d.destroy v))
    (hxy : b.Rel { room with blocks := 2 * b.height } x y)
    (ht : b.Covers room t) (hlimit : t.callDepth < t.maxCallDepth)
    (scope : ScopeId) (record : CallRecord) (home : TreeId) :
    Joint (b.Leads room t)
      (Calls.deeper <| Eval.withTree home <|
        c.withFrame scope .function (some record) x)
      (Calls.deeper <| Eval.withTree home <|
        d.withFrame scope .function (some record) y) t := by
  let counted : Engine := { t with callDepth := t.callDepth + 1 }
  have hframe :=
    withFrame_joint (s := { counted with currentTree := home }) hdestroy scope
    (some record) rfl (ht.pushCall hlimit scope record home) hxy
  have hinTree : Joint (fun u => counted.Restored u ∧ b.Admits u)
      (Eval.withTree home (c.withFrame scope .function (some record) x))
      (Eval.withTree home (d.withFrame scope .function (some record) y))
        counted := by
    refine .withTree hframe fun u ⟨hrestored, hadmits⟩ => ⟨?_, ?_⟩
    · exact ⟨hrestored.frames, hrestored.mark, hrestored.callDepth, rfl,
        hrestored.entered⟩
    · exact hadmits.noNewCode (.of_tables rfl rfl) rfl rfl rfl
  refine .deeper hinTree fun u ⟨hrestored, hadmits⟩ => .restored ht ?_ ?_
  · exact hadmits.noNewCode (.of_tables rfl rfl) rfl rfl rfl
  · refine ⟨hrestored.frames, hrestored.mark, ?_, hrestored.currentTree,
      hrestored.entered⟩
    exact congrArg (· - 1) hrestored.callDepth

/-- The limit on calls is what makes room for the frame of a call. -/
theorem call {x y : Eval Unit} (id : FunctionId) (f : Function) (home : TreeId)
    (scope : ScopeId)
    (hdestroy : ∀ v,
      b.Rel { room with blocks := 2 * b.height } (c.destroy v) (d.destroy v))
        (hxy : b.Rel { room with blocks := 2 * b.height } x y) :
    b.Rel room (c.calling id f home scope x) (d.calling id f home scope y) := by
  intro s hs
  by_cases hlimit : s.maxCallDepth ≤ s.callDepth
  · have hrefused : ∀ (k : Calls) (z : Eval Unit),
        k.calling id f home scope z s =
        .error (.failed (Failure.callDepthExceeded s.maxCallDepth)) s :=
      fun k z => Eval.bind_error (by simp only [Eval.inspect, if_pos hlimit])
    exact .of_error (hrefused c x) (hrefused d y) (.refl hs)
  let body (k : Calls) (z : Eval Unit) (place : Option Value) :
    Eval (Option Value) := do
    Calls.deeper <| Eval.withTree home <|
      k.withFrame scope .function (some ⟨id, f.owner, place⟩) z
    pure place
  have hallowed : ∀ (k : Calls) (z : Eval Unit), k.calling id f home scope z s =
      (Calls.allocateResult f.ret >>= body k z) s := by
    intro k z
    unfold Calls.calling
    rw [Eval.bind_inspect (if_neg hlimit)]
  refine .congr (hallowed c x) (hallowed d y) ?_
  have hplace : Joint (fun t => b.Leads room s t ∧ t.callDepth = s.callDepth)
      (Calls.allocateResult f.ret) (Calls.allocateResult f.ret) s := by
    have halters := (Atomic.allocateResult f.ret).alters_after s
    refine .refl ⟨.alters hs halters, ?_⟩
    rcases halters with hsame | ⟨hmove, -⟩
    · rw [hsame]
    · exact (Engine.Kept.move hmove).callDepth
  refine hplace.bind (fun place t _ ht => ?_) fun _ ht => ht.1
  obtain ⟨ht, hcall⟩ := ht
  have hroom : t.callDepth < t.maxCallDepth := by
    rw [hcall, ht.covers.maxCallDepth, ← hs.maxCallDepth]
    exact Nat.lt_of_not_le hlimit
  exact (calledFrame hdestroy hxy ht.covers hroom scope _ home).bind
    (fun _ u _ hu => .refl (ht.trans hu)) fun u hu => ht.trans hu

end Rel

/-- The congruence of keeping within the headroom.  Code that executes has room
for all its blocks, and so has any other code in the frame of a function. -/
def congruence (b : Budget) : Congruence where
  World := Headroom
  inTree room _ := room
  inBlock room := { room with blocks := room.blocks - 1 }
  inCall room := { room with blocks := 2 * b.height }
  Rel room x y := b.Rel room x y
  Code room node := 2 * node.height ≤ room.blocks ∧ node.height ≤ b.height
  InUse _ _ := True
  code_nested {_ node child} h hchild := by
    have hlower := Node.height_child hchild
    exact ⟨by simp only; omega, by omega⟩
  code_outer h := ⟨Nat.le_trans h.1 (Nat.sub_le _ _), h.2⟩
  code_callable h := ⟨Nat.mul_le_mul_left 2 h.2, h.2⟩
  inUse_inTree _ _ := trivial
  inUse_inBlock _ := trivial
  atomic hx := .atomic hx.atomic
  withScope {_ room _ _ _} hx h :=
    .bind (.atomic hx.atomic) fun scope => h room scope ⟨id, id, id, id⟩ trivial
  link {_ other} scope _ := .atomic (Congruence.atomic_link scope other)
  bind := .bind
  withTree := .withTree
  block {_ _ _ _ _ _ node scope} _ hnode hdestroy hxy := by
    have hpositive : 0 < node.height := by
      rw [Node.height_eq]
      exact Nat.succ_pos _
    exact .block scope (by omega) hdestroy hxy
  initializer {_ _ _ _ _ _ scope} _ hdestroy hxy :=
    .initializer scope hdestroy hxy
  call id f home _ _ hdestroy hxy := .call id f home _ hdestroy hxy
  function id h s hs := by
    refine .congr (Eval.bind_read _ _ s) (Eval.bind_read _ _ s)
      (h _ _ (fun home node _ hbody => ?_) s hs)
    have hnode := hs.code home node (.function hbody)
    exact ⟨⟨Nat.mul_le_mul_left 2 hnode, hnode⟩, trivial⟩
  template id h s hs := by
    refine .congr (Eval.bind_read _ _ s) (Eval.bind_read _ _ s)
      (h _ _ ?_ trivial s hs)
    have hnode := hs.code _ _ (.template id)
    exact ⟨Nat.mul_le_mul_left 2 hnode, hnode⟩
  shell name kind scope _ hx := by
    refine .bind (.registerShell name kind scope) fun type => ?_
    refine .bind (hx type) fun members => ?_
    exact .bind (.completeType type _ _) fun _ => .atomic (.pure type)
  addFunction hnode _ hf s hs := by
    refine .refl (.kept hs ?_ ⟨Arena.Kept.refl s.arena, rfl, rfl⟩ rfl)
    exact hs.toAdmits.addFunction (hf s.currentTree) hnode.2
  addTemplate hnode _ hd s hs := by
    refine .refl (.kept hs ?_ ⟨Arena.Kept.refl s.arena, rfl, rfl⟩ rfl)
    exact hs.toAdmits.addTemplate ((hd s.currentTree).2.1 ▸ hnode.2)

theorem congruence_mapsFailures (b : Budget) : b.congruence.MapsFailures :=
  fun _ hxy s hs => (hxy s hs).mapFailure

end Budget

end ArenaScript
