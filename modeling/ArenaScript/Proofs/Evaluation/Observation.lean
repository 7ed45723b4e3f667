import ArenaScript.Proofs.Evaluation.Closed
import ArenaScript.Proofs.Evaluation.Copiers
import ArenaScript.Proofs.Evaluation.Frames

/-!
# Watching an evaluation

A watched evaluator lets somebody look at the engine whenever one of the
recursive operations begins or ends.  Looking may fail or change the engine; a
property holds throughout an evaluation if nobody who acts only on engines
without that property makes a difference.

The rules below compare a computation with its watched counterpart.  They run
alike, and the engine they leave is closed, has the property again, and is
related to the first one: quietly, if nothing has been bound in a live frame, or
just by growth of its tables.
-/

namespace ArenaScript

open Handles (Known)

namespace Eval

/-- Runs `x`, with `watch` before it and, whether it succeeds or not, after
it. -/
def watched {α : Type} (watch : Eval Unit) (x : Eval α) : Eval α := do
  watch
  try x finally watch

end Eval

def Calls.watched (watch : Eval Unit) : Nat → Calls
  | 0 => exhausted
  | n + 1 =>
      let c := watched watch n
      { evaluate := fun node => Eval.watched watch (c.evaluateStep node)
        execute := fun node => Eval.watched watch (c.executeStep node)
        invoke := fun id args => Eval.watched watch (c.invokeStep id args)
        resolveType :=
          fun node scope => Eval.watched watch (c.resolveTypeStep node scope)
        copyConstruct :=
          fun dst src => Eval.watched watch (c.copyConstructStep dst src)
        defaultConstruct :=
          fun place => Eval.watched watch (c.defaultConstructStep place)
        destroy := fun value => Eval.watched watch (c.destroyStep value)
        loadModule := fun request importer =>
          Eval.watched watch (c.loadModuleStep request importer)
        rounds := n }

/-! ## How an engine changes -/

/-- A frame without the list of its aggregates. -/
def Frame.bare (f : Frame) : Frame := { f with destructibles := [] }

namespace Engine

structure Grows (s t : Engine) : Prop where
  types : s.types.Grown t.types
  capacity : t.arena.capacity = s.arena.capacity
  maxCallDepth : t.maxCallDepth = s.maxCallDepth
  catalogue : s.catalogue.Sorted → s.catalogue.Appends s.types.size t.catalogue
  supplies : s.catalogue.Sorted → s.catalogue.Supplies t.catalogue

/-- The same frames are live with the same bindings, and nothing has been
released. -/
structure Quiet (s t : Engine) : Prop where
  grows : s.Grows t
  frames : t.arena.frames.map Frame.bare = s.arena.frames.map Frame.bare
  mark : s.arena.mark ≤ t.arena.mark
  callDepth : t.callDepth = s.callDepth
  currentTree : t.currentTree = s.currentTree

/-- A relation between the engines before and after a computation. -/
class Evolution (R : Engine → Engine → Prop) : Prop where
  trans : ∀ {s t u : Engine}, R s t → R t u → R s u
  size_le : ∀ {s t : Engine}, R s t → s.types.size ≤ t.types.size

class Lenient (R : Engine → Engine → Prop) : Prop extends Evolution R where
  of_quiet : ∀ {s t : Engine}, s.Quiet t → R s t
  tree : ∀ {s t : Engine} {id : TreeId}, R { s with currentTree := id } t →
    R s { t with currentTree := s.currentTree }

theorem Grows.refl (s : Engine) : s.Grows s :=
  ⟨.refl _, rfl, rfl, .refl, fun _ => .refl _⟩

theorem Grows.trans {s t u : Engine} (hst : s.Grows t) (htu : t.Grows u) :
    s.Grows u where
  types := hst.types.trans htu.types
  capacity := htu.capacity.trans hst.capacity
  maxCallDepth := htu.maxCallDepth.trans hst.maxCallDepth
  catalogue h := by
    have hadded := hst.catalogue h
    exact hadded.trans ((htu.catalogue hadded.sorted).weaken hst.types.size)
  supplies h := by
    have hsorted := (hst.catalogue h).sorted
    exact (hst.supplies h).trans hsorted (htu.catalogue hsorted) htu.types
      (htu.supplies hsorted)

theorem Grows.of_catalogue {s t : Engine} (h : t.catalogue = s.catalogue)
    (hcapacity : t.arena.capacity = s.arena.capacity)
    (hmax : t.maxCallDepth = s.maxCallDepth) : s.Grows t where
  types := by
    rw [show t.types = s.types from congrArg Catalogue.types h]
    exact .refl _
  capacity := hcapacity
  maxCallDepth := hmax
  catalogue hs := by
    rw [h]
    exact .refl hs
  supplies _ := .of_types (congrArg Catalogue.types h)

namespace Quiet

variable {s t u : Engine}

theorem refl (s : Engine) : s.Quiet s := ⟨.refl s, rfl, Nat.le_refl _, rfl, rfl⟩

theorem trans (hst : s.Quiet t) (htu : t.Quiet u) : s.Quiet u where
  grows := hst.grows.trans htu.grows
  frames := htu.frames.trans hst.frames
  mark := Nat.le_trans hst.mark htu.mark
  callDepth := htu.callDepth.trans hst.callDepth
  currentTree := htu.currentTree.trans hst.currentTree

theorem of_restored (h : s.Restored t) (hgrows : s.Grows t) : s.Quiet t where
  grows := hgrows
  frames := by rw [h.frames]
  mark := Nat.le_of_eq h.mark.symm
  callDepth := h.callDepth
  currentTree := h.currentTree

end Quiet

instance : Lenient Grows where
  trans := Grows.trans
  size_le h := h.types.size
  of_quiet h := h.grows
  tree h := ⟨h.types, h.capacity, h.maxCallDepth, h.catalogue, h.supplies⟩

instance : Lenient Quiet where
  trans := Quiet.trans
  size_le h := h.grows.types.size
  of_quiet h := h
  tree h :=
    ⟨⟨h.grows.types, h.grows.capacity, h.grows.maxCallDepth, h.grows.catalogue,
      h.grows.supplies⟩, h.frames, h.mark, h.callDepth, rfl⟩

structure Since (s t u : Engine) : Prop where
  quiet : s.Quiet u
  size_le : t.types.size ≤ u.types.size

instance (s : Engine) : Evolution s.Since where
  trans htu huv := ⟨huv.quiet, Nat.le_trans htu.size_le huv.size_le⟩
  size_le h := h.size_le

theorem Quiet.since {s t u : Engine} (hst : s.Quiet t) (htu : t.Quiet u) :
    s.Since t u :=
  ⟨hst.trans htu, htu.grows.types.size⟩

/-! ## Properties that hold throughout -/

structure Claimed (s t : Engine) (slot : Slot) : Prop where
  known : t.Knows slot
  start : s.arena.mark ≤ t.arena.base + slot.offset
  finish : t.arena.base + slot.offset + t.types.sizeOf slot.type ≤ t.arena.mark

def bound (s : Engine) (name : String) (slot : Slot) : Engine :=
  { s with arena := s.arena.modifyTop (·.bind name slot) }

/-- A closed engine with the property. -/
structure Good (I : Engine → Prop) (s : Engine) : Prop where
  closed : s.Closed
  inv : I s

/-- A property that nothing an evaluation does can break. -/
class Steady (I : Engine → Prop) : Prop where
  quiet : ∀ {s t : Engine}, s.Good I → t.Closed → s.Quiet t → I t
  tree : ∀ {s : Engine} (id : TreeId), s.Good I → I { s with currentTree := id }
  push : ∀ {s : Engine} (scope : ScopeId) (kind : FrameKind), s.Good I →
    I (s.pushed scope kind none)
  call : ∀ {s : Engine} (scope : ScopeId) (record : CallRecord) (id : TreeId),
    s.Good I →
    s.callDepth < s.maxCallDepth →
      I (({ s with callDepth := s.callDepth + 1, currentTree := id } :
        Engine).pushed scope .function (some record))
  bind : ∀ {s t : Engine} (name : String) {slot : Slot}, s.Good I → t.Good I →
    s.Quiet t →
    s.Claimed t slot → I (t.bound name slot)

structure Reached (I : Engine → Prop) (R : Engine → Engine → Prop)
    (s t : Engine) : Prop where
  closed : t.Closed
  inv : I t
  rel : R s t

namespace Reached

variable {I : Engine → Prop} {R : Engine → Engine → Prop} {s t u : Engine}

theorem good (h : Reached I R s t) : t.Good I := ⟨h.closed, h.inv⟩

theorem knows [Evolution R] (h : Reached I R s t) {α : Type} [Handles α] {a : α}
    (ha : s.Knows a) : t.Knows a :=
  Handles.mono (Evolution.size_le h.rel) ha

theorem refl [Lenient R] (hs : s.Good I) : Reached I R s s :=
  ⟨hs.closed, hs.inv, Lenient.of_quiet (.refl s)⟩

theorem trans [Evolution R] (hst : Reached I R s t) (htu : Reached I R t u) :
    Reached I R s u :=
  ⟨htu.closed, htu.inv, Evolution.trans hst.rel htu.rel⟩

theorem of_quiet [Steady I] [Lenient R] (hs : s.Good I) (ht : t.Closed)
    (h : s.Quiet t) : Reached I R s t :=
  ⟨ht, Steady.quiet hs ht h, Lenient.of_quiet h⟩

end Reached

end Engine

/-! ## Computations that run alike -/

open Engine (Good Reached Evolution Lenient Steady Quiet Grows)

structure Agree {α : Type} [Handles α] (I : Engine → Prop)
    (R : Engine → Engine → Prop) (s : Engine) (x y : Eval α) : Prop where
  same : x s = y s
  reached : Reached I R s (y.after s)
  known : ∀ a t, y s = .ok a t → t.Knows a

namespace Agree

variable {α β : Type} [Handles α] [Handles β] {I : Engine → Prop}
  {R : Engine → Engine → Prop} {s : Engine}

theorem of_ok {x y : Eval α} {a : α} {t : Engine} (hx : x s = .ok a t)
    (hy : y s = .ok a t) (ht : Reached I R s t) (ha : t.Knows a) :
    Agree I R s x y where
  same := hx.trans hy.symm
  reached := by
    rw [Eval.after_ok hy]
    exact ht
  known b u hb := by
    rw [hy] at hb
    cases hb
    exact ha

theorem of_error {x y : Eval α} (e : Stop) {t : Engine} (hx : x s = .error e t)
    (hy : y s = .error e t) (ht : Reached I R s t) : Agree I R s x y where
  same := hx.trans hy.symm
  reached := by
    rw [Eval.after_error hy]
    exact ht
  known b u hb := by
    rw [hy] at hb
    cases hb

theorem cases {x y : Eval α} (h : Agree I R s x y) :
    (∃ a t, x s = .ok a t ∧ y s = .ok a t ∧ Reached I R s t ∧ t.Knows a) ∨
      ∃ e t, x s = .error e t ∧ y s = .error e t ∧ Reached I R s t := by
  have hreached := h.reached
  cases hy : y s with
  | ok a t =>
      rw [Eval.after_ok hy] at hreached
      exact .inl ⟨a, t, h.same.trans hy, rfl, hreached, h.known a t hy⟩
  | error e t =>
      rw [Eval.after_error hy] at hreached
      exact .inr ⟨e, t, h.same.trans hy, rfl, hreached⟩

theorem congr {x y x' y' : Eval α} (h : Agree I R s x' y') (hx : x s = x' s)
    (hy : y s = y' s) : Agree I R s x y where
  same := by rw [hx, hy, h.same]
  reached := by
    rw [Eval.after_congr hy]
    exact h.reached
  known a t ha := h.known a t (hy.symm.trans ha)

theorem loosen [Lenient R] {x y : Eval α} (h : Agree I Quiet s x y) :
    Agree I R s x y where
  same := h.same
  reached := ⟨h.reached.closed, h.reached.inv, Lenient.of_quiet h.reached.rel⟩
  known := h.known

theorem since {x y : Eval α} {t : Engine} (h : Agree I Quiet t x y)
    (hst : s.Quiet t) : Agree I s.Since t x y where
  same := h.same
  reached := ⟨h.reached.closed, h.reached.inv,
    ⟨hst.trans h.reached.rel, Evolution.size_le h.reached.rel⟩⟩
  known := h.known

theorem of_since {x y : Eval α} (h : Agree I s.Since s x y) :
    Agree I Quiet s x y where
  same := h.same
  reached := ⟨h.reached.closed, h.reached.inv, h.reached.rel.quiet⟩
  known := h.known

theorem bind_of {S : Engine → Engine → Prop} (hS : ∀ {t}, S s t → R s t)
    [Evolution R] {x y : Eval α} {f g : α → Eval β} (hxy : Agree I S s x y)
    (hfg : ∀ a t, y s = .ok a t → Reached I S s t → t.Knows a →
      Agree I R t (f a) (g a)) : Agree I R s (x >>= f) (y >>= g) := by
  rcases hxy.cases with ⟨a, t, hx, hy, ht, ha⟩ | ⟨e, t, hx, hy, ht⟩
  · have hrest := hfg a t hy ht ha
    have hrel : R s t := hS ht.rel
    have hfx : (x >>= f) s = f a t := by simp only [Bind.bind, EStateM.bind, hx]
    have hgy : (y >>= g) s = g a t := by simp only [Bind.bind, EStateM.bind, hy]
    rcases hrest.cases with ⟨b, u, hf, hg, hu, hb⟩ | ⟨e, u, hf, hg, hu⟩
    · exact of_ok (hfx.trans hf) (hgy.trans hg)
        ⟨hu.closed, hu.inv, Evolution.trans hrel hu.rel⟩ hb
    · exact of_error e (hfx.trans hf) (hgy.trans hg)
        ⟨hu.closed, hu.inv, Evolution.trans hrel hu.rel⟩
  · refine of_error e ?_ ?_ ⟨ht.closed, ht.inv, hS ht.rel⟩
    · simp only [Bind.bind, EStateM.bind, hx]
    · simp only [Bind.bind, EStateM.bind, hy]

theorem bind [Evolution R] {x y : Eval α} {f g : α → Eval β}
    (hxy : Agree I R s x y)
    (hfg : ∀ a t, Reached I R s t → t.Knows a → Agree I R t (f a) (g a)) :
    Agree I R s (x >>= f) (y >>= g) :=
  bind_of (fun h => h) hxy fun a t _ => hfg a t

theorem bind_quiet [Lenient R] {x y : Eval α} {f g : α → Eval β}
    (hxy : Agree I Quiet s x y)
    (hfg : ∀ a t, Reached I Quiet s t → t.Knows a → Agree I R t (f a) (g a)) :
    Agree I R s (x >>= f) (y >>= g) :=
  bind_of Lenient.of_quiet hxy fun a t _ => hfg a t

theorem map {x y : Eval α} {f : α → β} (h : Agree I R s x y)
    (hf : ∀ a t, Reached I R s t → t.Knows a → t.Knows (f a)) :
    Agree I R s (f <$> x) (f <$> y) := by
  rcases h.cases with ⟨a, t, hx, hy, ht, ha⟩ | ⟨e, t, hx, hy, ht⟩
  · refine of_ok ?_ ?_ ht (hf a t ht ha)
    · simp only [Functor.map, EStateM.map, hx]
    · simp only [Functor.map, EStateM.map, hy]
  · refine of_error e ?_ ?_ ht
    · simp only [Functor.map, EStateM.map, hx]
    · simp only [Functor.map, EStateM.map, hy]

theorem ite {p : Prop} [Decidable p] {x y x' y' : Eval α}
    (hp : p → Agree I R s x y) (hn : ¬ p → Agree I R s x' y') :
    Agree I R s (if p then x else x') (if p then y else y') := by
  by_cases h : p
  · rw [if_pos h, if_pos h]
    exact hp h
  · rw [if_neg h, if_neg h]
    exact hn h

theorem mapFailure {x y : Eval α} (f : Engine → Failure → Failure)
    (h : Agree I R s x y) :
    Agree I R s (Eval.mapFailure f x) (Eval.mapFailure f y) := by
  rcases h.cases with ⟨a, t, hx, hy, ht, ha⟩ | ⟨e, t, hx, hy, ht⟩
  · refine of_ok ?_ ?_ ht ha
    · simp only [Eval.mapFailure, hx]
    · simp only [Eval.mapFailure, hy]
  · cases e with
    | failed e =>
        refine of_error (.failed (f t e)) ?_ ?_ ht
        · simp only [Eval.mapFailure, hx]
        · simp only [Eval.mapFailure, hy]
    | outOfFuel =>
        refine of_error .outOfFuel ?_ ?_ ht
        · simp only [Eval.mapFailure, hx]
        · simp only [Eval.mapFailure, hy]

theorem watched {x y : Eval α} {watch : Eval Unit}
    (hwatch : ∀ t : Engine, t.Good I → watch t = .ok () t) (hs : s.Good I)
    (h : Agree I R s x y) : Agree I R s (Eval.watched watch x) y := by
  rcases h.cases with ⟨a, t, hx, hy, ht, ha⟩ | ⟨e, t, hx, hy, ht⟩
  · refine of_ok ?_ hy ht ha
    simp [Eval.watched, tryFinally, MonadFinally.tryFinally', Bind.bind,
      EStateM.bind, hwatch s hs, hx, hwatch t ht.good, Functor.map, EStateM.map]
  · refine of_error e ?_ hy ht
    simp [Eval.watched, tryFinally, MonadFinally.tryFinally', Bind.bind,
      EStateM.bind, hwatch s hs, hx, hwatch t ht.good, Functor.map, EStateM.map]

section Steps

variable [Lenient R]

theorem pure (hs : s.Good I) {a : α} (ha : s.Knows a) :
    Agree I R s (Pure.pure a) (Pure.pure a) :=
  of_ok rfl rfl (.refl hs) ha

theorem fail (hs : s.Good I) (e : Failure) :
    Agree I R s (Eval.fail e : Eval α) (Eval.fail e) :=
  of_error _ rfl rfl (.refl hs)

theorem exhausted (hs : s.Good I) :
    Agree I R s (Eval.exhausted : Eval α) Eval.exhausted :=
  of_error _ rfl rfl (.refl hs)

theorem read (hs : s.Good I) {f : Engine → α} (hf : s.Knows (f s)) :
    Agree I R s (Eval.read f) (Eval.read f) :=
  of_ok rfl rfl (.refl hs) hf

theorem inspect (hs : s.Good I) {f : Engine → Except Failure α}
    (hf : s.Knows (f s)) : Agree I R s (Eval.inspect f) (Eval.inspect f) := by
  cases hrun : f s with
  | ok a =>
      have hinspect : Eval.inspect f s = .ok a s := by
        simp only [Eval.inspect, hrun]
      exact of_ok hinspect hinspect (.refl hs) (hf a hrun)
  | error e =>
      have hinspect : Eval.inspect f s = .error (.failed e) s := by
        simp only [Eval.inspect, hrun]
      exact of_error _ hinspect hinspect (.refl hs)

end Steps

theorem bind_read {γ : Type} {f : Engine → γ} {g g' : γ → Eval α}
    (h : Agree I R s (g (f s)) (g' (f s))) :
    Agree I R s (Eval.read f >>= g) (Eval.read f >>= g') :=
  h.congr rfl rfl

theorem bind_inspect [Lenient R] {γ : Type} {f : Engine → Except Failure γ}
    {g g' : γ → Eval α} (hs : s.Good I)
    (h : ∀ a, f s = .ok a → Agree I R s (g a) (g' a)) :
    Agree I R s (Eval.inspect f >>= g) (Eval.inspect f >>= g') := by
  cases hrun : f s with
  | ok a =>
      refine (h a hrun).congr ?_ ?_
      · simp only [Bind.bind, EStateM.bind, Eval.inspect, hrun]
      · simp only [Bind.bind, EStateM.bind, Eval.inspect, hrun]
  | error e =>
      refine of_error (.failed e) ?_ ?_ (.refl hs)
      · simp only [Bind.bind, EStateM.bind, Eval.inspect, hrun]
      · simp only [Bind.bind, EStateM.bind, Eval.inspect, hrun]

section Lists

variable [Lenient R] {γ : Type}

theorem forM {f g : γ → Eval Unit} {l : List γ} (hs : s.Good I)
    (h : ∀ a ∈ l, ∀ t, Reached I R s t → Agree I R t (f a) (g a)) :
    Agree I R s (l.forM f) (l.forM g) := by
  induction l generalizing s with
  | nil => exact pure hs trivial
  | cons a l ih =>
      refine bind (h a List.mem_cons_self s (.refl hs)) fun _ t ht _ => ?_
      exact ih ht.good fun b hb u hu =>
        h b (List.mem_cons_of_mem a hb) u (ht.trans hu)

theorem mapM {f g : γ → Eval α} {l : List γ} (hs : s.Good I)
    (h : ∀ a ∈ l, ∀ t, Reached I R s t → Agree I R t (f a) (g a)) :
    Agree I R s (l.mapM f) (l.mapM g) := by
  induction l generalizing s with
  | nil => exact pure hs Handles.known_nil
  | cons a l ih =>
      rw [List.mapM_cons, List.mapM_cons]
      refine bind (h a List.mem_cons_self s (.refl hs))
        fun first t ht hfirst => ?_
      have hrest : ∀ b ∈ l, ∀ u, Reached I R t u →
          Agree I R u (f b) (g b) := fun b hb u hu =>
        h b (List.mem_cons_of_mem a hb) u (ht.trans hu)
      refine bind (ih ht.good hrest) fun others u hu hothers => ?_
      exact pure hu.good (Handles.known_cons.2 ⟨hu.knows hfirst, hothers⟩)

omit [Lenient R] in
theorem forM_since {t : Engine} {f g : γ → Eval Unit} {l : List γ}
    (ht : t.Good I) (hst : s.Quiet t)
    (h : ∀ a ∈ l, ∀ u, Reached I s.Since t u → Agree I s.Since u (f a) (g a)) :
    Agree I s.Since t (l.forM f) (l.forM g) := by
  induction l generalizing t with
  | nil => exact .since (pure ht trivial) hst
  | cons a l ih =>
      have hfirst :=
        h a List.mem_cons_self t ⟨ht.closed, ht.inv, hst, Nat.le_refl _⟩
      refine bind hfirst fun _ u hu _ => ?_
      exact ih hu.good hu.rel.quiet fun b hb v hv =>
        h b (List.mem_cons_of_mem a hb) v (hu.trans hv)

end Lists

end Agree

end ArenaScript
