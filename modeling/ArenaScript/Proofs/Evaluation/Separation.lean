import ArenaScript.Proofs.Evaluation.Reachable

/-!
# Variables do not overlap

The variables of a frame lie between the base of the frame and the base of the
next one, or the mark, and apart from each other.  A new variable keeps this up
because its bytes lie above what was the mark when its definition began, and all
older variables of its frame lie below.  So no two variables of any live frames
share a byte, in any reachable engine and at any time during a request.
-/

namespace ArenaScript

open Arena (Span)
open Handles (Known)
open Engine (Good Steady Quiet Claimed Enduring)

/-! ## Fences -/

/-- The bytes of a slot. -/
def Frame.span (types : TypeTable) (f : Frame) (slot : Slot) : Span :=
  ⟨f.base + slot.offset, types.sizeOf slot.type⟩

/-- The variables of a frame lie below `high`, apart from each other. -/
structure Frame.Fenced (types : TypeTable) (high : Nat) (f : Frame) : Prop where
  base_le : f.base ≤ high
  finish_le : ∀ name slot, f.local? name = some slot →
    (f.span types slot).finish ≤ high
  disjoint : ∀ name other p q, name ≠ other → f.local? name = some p →
    f.local? other = some q →
    (f.span types p).Disjoint (f.span types q)

/-- Each frame ends where the next one begins, the innermost one at `high`. -/
def Fenced (types : TypeTable) : Nat → List Frame → Prop
  | _, [] => True
  | high, f :: rest => f.Fenced types high ∧ Fenced types f.base rest

namespace Frame.Fenced

variable {types : TypeTable} {high : Nat} {f : Frame}

theorem of_empty (hbase : f.base ≤ high) (h : f.locals = .empty) :
    f.Fenced types high := by
  have hnone : ∀ name, f.local? name = none := by
    intro name
    rw [Frame.local?, h, Bindings.get?_empty]
  refine ⟨hbase, fun name slot hslot => ?_, fun name other p q _ hp _ => ?_⟩
  · rw [hnone] at hslot
    cases hslot
  · rw [hnone] at hp
    cases hp

theorem bind {low : Nat} (h : f.Fenced types low) (hlow : low ≤ high)
    (name : String) {slot : Slot} (hstart : low ≤ f.base + slot.offset)
    (hfinish : (f.span types slot).finish ≤ high) :
    (f.bind name slot).Fenced types high := by
  have hlocal : ∀ other, (f.bind name slot).local? other =
      if other = name then some slot else f.local? other := fun other =>
    Bindings.get?_put f.locals name other slot
  refine ⟨Nat.le_trans h.base_le hlow, fun other q hq => ?_,
    fun first second p q hne hp hq => ?_⟩
  · rw [hlocal] at hq
    split at hq
    · cases hq
      exact hfinish
    · exact Nat.le_trans (h.finish_le other q hq) hlow
  · rw [hlocal] at hp hq
    split at hp
    · split at hq
      · rename_i hfirst hsecond
        exact absurd (hfirst.trans hsecond.symm) hne
      · cases hp
        exact .inr (Nat.le_trans (h.finish_le second q hq) hstart)
    · split at hq
      · cases hq
        exact .inl (Nat.le_trans (h.finish_le first p hp) hstart)
      · exact h.disjoint first second p q hne hp hq

theorem transport {n high' : Nat} {types' : TypeTable} {g : Frame}
    (h : f.Fenced types high)
    (hsizes : ∀ id, Known n id → types'.sizeOf id = types.sizeOf id)
    (hhigh : high ≤ high') (hknown : Known n f) (hbare : g.bare = f.bare) :
    g.Fenced types' high' := by
  have hbase : g.base = f.base := by
    change g.bare.base = f.bare.base
    rw [hbare]
  have hlocal : ∀ name, g.local? name = f.local? name := by
    intro name
    change g.bare.local? name = f.bare.local? name
    rw [hbare]
  have hspan : ∀ name slot, f.local? name = some slot →
      g.span types' slot = f.span types slot := by
    intro name slot hslot
    rw [Frame.span, Frame.span, hbase,
      hsizes slot.type (hknown.1 name slot hslot)]
  refine ⟨?_, fun name slot hslot => ?_, fun name other p q hne hp hq => ?_⟩
  · rw [hbase]
    exact Nat.le_trans h.base_le hhigh
  · rw [hlocal] at hslot
    rw [hspan name slot hslot]
    exact Nat.le_trans (h.finish_le name slot hslot) hhigh
  · rw [hlocal] at hp hq
    rw [hspan name p hp, hspan other q hq]
    exact h.disjoint name other p q hne hp hq

end Frame.Fenced

namespace Fenced

variable {types : TypeTable} {high : Nat} {frames : List Frame}

theorem transport {n high' : Nat} {types' : TypeTable} {frames' : List Frame}
    (h : Fenced types high frames)
    (hsizes : ∀ id, Known n id → types'.sizeOf id = types.sizeOf id)
    (hhigh : high ≤ high') (hknown : Known n frames)
    (hbare : frames'.map Frame.bare = frames.map Frame.bare) :
    Fenced types' high' frames' := by
  induction frames generalizing high high' frames' with
  | nil =>
      rw [List.map_nil, List.map_eq_nil_iff] at hbare
      subst hbare
      trivial
  | cons f rest ih =>
      obtain ⟨g, rest', rfl, hg, hrest⟩ := List.map_eq_cons_iff.1 hbare
      obtain ⟨hf, hknown⟩ := Handles.known_cons.1 hknown
      refine ⟨h.1.transport hsizes hhigh hf hg, ih h.2 ?_ hknown hrest⟩
      exact Nat.le_of_eq (congrArg Frame.base hg).symm

/-- Every variable ends below every fence further in. -/
theorem finish_le (h : Fenced types high frames) {i : Nat} {f : Frame}
    (hf : frames[i]? = some f) {name : String} {slot : Slot}
    (hslot : f.local? name = some slot) :
    (f.span types slot).finish ≤ high := by
  induction frames generalizing high i with
  | nil => cases hf
  | cons top rest ih =>
      cases i with
      | zero =>
          cases hf
          exact h.1.finish_le name slot hslot
      | succ i => exact Nat.le_trans (ih h.2 hf) h.1.base_le

theorem disjoint (h : Fenced types high frames) {i j : Nat} {f g : Frame}
    {name other : String} {p q : Slot} (hf : frames[i]? = some f)
    (hg : frames[j]? = some g) (hp : f.local? name = some p)
    (hq : g.local? other = some q) (hne : i = j → name ≠ other) :
    (f.span types p).Disjoint (g.span types q) := by
  induction frames generalizing high i j with
  | nil => cases hf
  | cons top rest ih =>
      cases i with
      | zero =>
          cases hf
          cases j with
          | zero =>
              cases hg
              exact h.1.disjoint name other p q (hne rfl) hp hq
          | succ j =>
              have hend := finish_le h.2 hg hq
              exact .inr (Nat.le_trans hend (Nat.le_add_right _ _))
      | succ i =>
          cases j with
          | zero =>
              cases hg
              have hend := finish_le h.2 hf hp
              exact .inl (Nat.le_trans hend (Nat.le_add_right _ _))
          | succ j => exact ih h.2 hf hg fun hij => hne (congrArg Nat.succ hij)

theorem fence (h : Fenced types high frames) {i : Nat} {f : Frame}
    (hf : frames[i]? = some f) (default : Nat) :
    f.Fenced types ((high :: frames.map Frame.base).getD i default) := by
  induction frames generalizing high i with
  | nil => cases hf
  | cons top rest ih =>
      cases i with
      | zero =>
          cases hf
          exact h.1
      | succ i => exact ih h.2 hf

end Fenced

/-! ## The invariant -/

namespace Engine

def Fenced (s : Engine) : Prop :=
  ArenaScript.Fenced s.types s.arena.mark s.arena.frames

variable {s t : Engine}

theorem Fenced.below (hs : s.Good Fenced) (hst : s.Quiet t) {high : Nat}
    (hhigh : s.arena.mark ≤ high) :
    ArenaScript.Fenced t.types high t.arena.frames :=
  hs.inv.transport hst.grows.types.sizeOf hhigh hs.closed.arena.2.2 hst.frames

theorem Fenced.popFrame (hs : s.Fenced) :
    ({ s with arena := s.arena.popFrame } : Engine).Fenced := by
  unfold Fenced Arena.popFrame at *
  cases hframes : s.arena.frames with
  | nil =>
      rw [hframes] at hs
      simp only [hframes]
      trivial
  | cons top rest =>
      rw [hframes] at hs
      exact hs.2

theorem Fenced.bind (hs : s.Good Fenced) (ht : t.Good Fenced) (hst : s.Quiet t)
    (name : String) {slot : Slot} (hslot : s.Claimed t slot) :
    (t.bound name slot).Fenced := by
  have hold := Fenced.below hs hst (Nat.le_refl _)
  have hstart := hslot.start
  have hfinish := hslot.finish
  have hbound : (t.bound name slot).arena =
      t.arena.modifyTop (·.bind name slot) := rfl
  unfold Fenced
  rw [hbound, Arena.modifyTop_mark, Arena.modifyTop_frames]
  unfold Arena.base Arena.top? at hstart hfinish
  have hinv := ht.inv
  unfold Fenced at hinv
  cases hframes : t.arena.frames with
  | nil => trivial
  | cons top rest =>
      rw [hframes] at hold hinv hstart hfinish
      exact ⟨hold.1.bind hst.mark name hstart hfinish, hinv.2⟩

instance : Enduring Fenced where
  quiet hs _ hst := Fenced.below hs hst hst.mark
  tree _ hs := hs.inv
  push _ _ hs := ⟨.of_empty (Nat.le_refl _) rfl, hs.inv⟩
  call _ _ _ hs _ := ⟨.of_empty (Nat.le_refl _) rfl, hs.inv⟩
  bind name _ hs ht hst hslot := Fenced.bind hs ht hst name hslot
  new _ _ _ _ := ⟨.of_empty (Nat.le_refl _) rfl, trivial⟩
  pop hs _ := Fenced.popFrame hs.inv

end Engine

/-! ## Main statement -/

structure Variable where
  frame : Nat
  name : String
  deriving DecidableEq

def Arena.ceiling (a : Arena) (frame : Nat) : Nat :=
  (a.mark :: a.bases).getD frame a.mark

namespace Engine

variable {s : Engine}

def span (s : Engine) (v : Value) : Span := ⟨v.addr, s.types.sizeOf v.type⟩

inductive Denotes (s : Engine) : Variable → Frame → Value → Prop
  | intro {i : Nat} {f : Frame} {name : String} {slot : Slot}
      (hf : s.arena.frames[i]? = some f) (hslot : f.local? name = some slot) :
      Denotes s ⟨i, name⟩ f (f.resolve slot)

/-- No two variables share a byte, and none leaves its frame.  Not even
a variable without any bytes lies inside another one. -/
structure Unaliased (s : Engine) : Prop where
  disjoint : ∀ {x y f g v w}, x ≠ y → s.Denotes x f v → s.Denotes y g w →
    (s.span v).Disjoint (s.span w)
  within : ∀ {x f v}, s.Denotes x f v →
    f.base ≤ (s.span v).start ∧ (s.span v).finish ≤ s.arena.ceiling x.frame

theorem Fenced.span_resolve (hs : s.Good Fenced) {i : Nat} {f : Frame}
    (hf : s.arena.frames[i]? = some f) {name : String} {slot : Slot}
    (hslot : f.local? name = some slot) :
    s.span (f.resolve slot) = f.span s.types slot := by
  have hmark := hs.closed.mark_lt
  have hfinish : f.base + slot.offset + s.types.sizeOf slot.type ≤
      s.arena.mark :=
    ArenaScript.Fenced.finish_le hs.inv hf hslot
  have haddr : Word.add f.base slot.offset = f.base + slot.offset :=
    Word.add_of_lt (by omega)
  rw [span, Frame.resolve, Frame.span, haddr]

theorem Fenced.unaliased (hs : s.Good Fenced) : s.Unaliased where
  disjoint hne hv hw := by
    cases hv with
    | intro hf hp =>
      cases hw with
      | intro hg hq =>
        rw [span_resolve hs hf hp, span_resolve hs hg hq]
        refine ArenaScript.Fenced.disjoint hs.inv hf hg hp hq
          fun hframe hname => hne ?_
        rw [hframe, hname]
  within hv := by
    cases hv with
    | intro hf hp =>
      rw [span_resolve hs hf hp]
      have hfence := ArenaScript.Fenced.fence hs.inv hf s.arena.mark
      exact ⟨Nat.le_add_right _ _, hfence.finish_le _ _ hp⟩

end Engine

/-- Distinct variables never alias, neither between requests nor during one. -/
theorem Reachable.variables_never_alias {s : Engine} (hs : Reachable s) :
    s.Unaliased ∧ ∀ (fuel : Nat) (request : Request), s.Knows request →
      Calls.Throughout Engine.Unaliased fuel request.perform s :=
  ⟨Engine.Fenced.unaliased hs.good, fun fuel _ hrequest =>
    hs.throughout (fun _ => Engine.Fenced.unaliased) fuel hrequest⟩

/-! ### Two activations of one function -/

namespace Recursion

def leaf (kind : NodeKind) (text : String) : Node := ⟨kind, text, .dummy, 0, []⟩

def callWith (argument : Node) : Node :=
  ⟨.expression, "", .dummy, 0,
    [leaf .identifier "f", ⟨.call, "", .dummy, 0, [argument]⟩]⟩

/-- A function that calls itself.  Its parameter `p` is copied, its variable `x`
adopts a temporary, and its variable `y` is copied into a fresh slot. -/
def function : Node :=
  ⟨.function, "f", .dummy, 0,
    [⟨.parameters, "", .dummy, 0,
      [⟨.parameter, "p", .dummy, 0, [leaf .typeName "Bool"]⟩]⟩,
      ⟨.block, "", .dummy, 0,
        [⟨.variableDefinition, "x", .dummy, 0, [leaf .boolLiteral "true"]⟩,
          ⟨.variableDefinition, "y", .dummy, 0, [leaf .identifier "p"]⟩,
          callWith (leaf .identifier "x")]⟩]⟩

def engine : Engine :=
  ((Request.item function).perform (Calls.ofFuel 20)).after
    (.new { stackCapacity := 64, maxCallDepth := 2 } ⟨.buffer, ""⟩ none [])

def request : Request := .item (callWith (leaf .boolLiteral "false"))

def Twice (s : Engine) : Prop :=
  s.arena.frames.map (fun f => f.locals.entries.map Prod.fst) =
    [["p", "x", "y"], ["p", "x", "y"], []]

instance (s : Engine) : Decidable (Twice s) :=
  inferInstanceAs (Decidable (_ = _))

def stop : Eval Unit :=
  fun s => if Twice s then .error .outOfFuel s else .ok () s

def ranOut : EStateM.Result Stop Engine Unit → Bool
  | .error .outOfFuel _ => true
  | _ => false

end Recursion

open Recursion in
theorem Reachable.variables_never_alias_recursion :
    Reachable engine ∧ engine.Knows request ∧
    Calls.Meets Twice 20 request.perform engine ∧
      ∃ t, Twice t ∧ t.Unaliased := by
  have hengine : Reachable engine :=
    .after 20 (.item function) (.new _ _ _ _ (by decide)) trivial
  have hrequest : engine.Knows request := trivial
  -- The watcher that stops the second activation is noticed, so that activation
  -- exists.
  have hmeets : Calls.Meets Twice 20 request.perform engine := by
    intro h
    have hsame : request.perform (Calls.watched stop 20) engine =
        request.perform (Calls.ofFuel 20) engine := h stop fun t ht => if_neg ht
    have hstopped : ranOut (request.perform (Calls.watched stop 20) engine) =
        true := by
      decide +kernel
    have hplain : ranOut (request.perform (Calls.ofFuel 20) engine) =
        false := by decide +kernel
    rw [hsame, hplain] at hstopped
    cases hstopped
  refine ⟨hengine, hrequest, hmeets, ?_⟩
  exact (variables_never_alias hengine).2 20 request hrequest
    |>.exists_of_meets hmeets

end ArenaScript
