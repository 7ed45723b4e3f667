import Mathlib.Data.List.Basic
import ArenaScript.Engine.Evaluator

/-!
# Lexical isolation

The variables that code can name lie in few frames: those of the running
activation, down to the nearest function or root frame, and the outermost root
frames of the modules in view.  What any other frame binds makes no difference
to a lookup, so the locals of callers and the globals of unrelated modules stay
hidden however the frames are nested.
-/

namespace ArenaScript

/-- The frame with its variables forgotten. -/
def Frame.unbound (f : Frame) : Frame := { f with locals := .empty }

namespace Engine

def unbound (s : Engine) : Engine :=
  { s with
    arena := { s.arena with frames := s.arena.frames.map Frame.unbound } }

/-! ## Frames in view -/

/-- Frame `i`, counted from the innermost one, belongs to the running
activation: no frame further in is a function or root frame. -/
def Nearby (frames : List Frame) (i : Nat) : Prop :=
  ∀ j f, j < i → frames[j]? = some f → f.kind ≠ .function ∧
    f.kind.isRoot = false

structure Outermost (frames : List Frame) (scope : ScopeId) (i : Nat) :
    Prop where
  root : ∃ f, frames[i]? = some f ∧ f.kind.isRoot = true ∧ f.scope = scope
  first : ∀ j f, i < j → frames[j]? = some f → ¬ (f.kind.isRoot = true ∧
    f.scope = scope)

inductive InView (s : Engine) : ScopeId → Prop
  | home {scope : ScopeId}
      (h : s.scopes.enclosingModule s.currentScope = some scope) :
      InView s scope
  | imported {ancestor scope : ScopeId}
      (h : ancestor ∈ s.scopes.ancestors s.currentScope)
      (himport : scope ∈ (s.scopes.get ancestor).imports) : InView s scope
  | universe : InView s .universe

/-- Frame `i` is one whose variables can be named. -/
def Sees (s : Engine) (i : Nat) : Prop :=
  Nearby s.arena.frames i ∨ ∃ scope, s.InView scope ∧
    Outermost s.arena.frames scope i

theorem mem_globalScopes {s : Engine} {scope : ScopeId} :
    scope ∈ s.globalScopes s.currentScope ↔ s.InView scope := by
  simp only [globalScopes, List.mem_append, Option.mem_toList, List.mem_flatMap,
    List.mem_singleton]
  constructor
  · rintro ((h | ⟨ancestor, h, himport⟩) | rfl)
    · exact .home h
    · exact .imported h himport
    · exact .universe
  · rintro (h | ⟨h, himport⟩ | _)
    · exact .inl (.inl h)
    · exact .inl (.inr ⟨_, h, himport⟩)
    · exact .inr rfl

/-! ## The running activation -/

section Frames

variable {f g : Frame} {rest rest' frames frames' : List Frame}
  {scope : ScopeId} {i : Nat}

theorem nearby_zero (frames : List Frame) : Nearby frames 0 :=
  fun _ _ h => absurd h (by omega)

theorem nearby_succ : Nearby (f :: rest) (i + 1) ↔
    (f.kind == .function || f.kind.isRoot) = false ∧ Nearby rest i := by
  simp only [Bool.or_eq_false_iff, beq_eq_false_iff_ne]
  constructor
  · intro h
    exact ⟨h 0 f (by omega) rfl, fun j g hj hg => h (j + 1) g (by omega) hg⟩
  · rintro ⟨hf, hrest⟩ j g hj hg
    cases j with
    | zero =>
        cases hg
        exact hf
    | succ j => exact hrest j g (by omega) hg

theorem kind_eq_of_unbound (h : f.unbound = g.unbound) :
    f.kind = g.kind ∧ f.scope = g.scope := by
  simp only [Frame.unbound, Frame.mk.injEq] at h
  exact ⟨h.2.2.1, h.2.1⟩

theorem reachableFrames_congr
    (h : frames.map Frame.unbound = frames'.map Frame.unbound)
    (hsame : ∀ i, Nearby frames i → frames[i]? = frames'[i]?) :
    reachableFrames frames = reachableFrames frames' := by
  induction frames generalizing frames' with
  | nil =>
      rw [List.map_nil, eq_comm, List.map_eq_nil_iff] at h
      rw [h]
  | cons f rest ih =>
      obtain ⟨g, rest', rfl, -, hrest⟩ := List.map_eq_cons_iff.1 h.symm
      obtain rfl : f = g := Option.some.inj (hsame 0 (nearby_zero _))
      unfold reachableFrames
      split
      · rfl
      · rename_i hkind
        rw [ih hrest.symm fun i hi =>
          hsame (i + 1) (nearby_succ.2 ⟨by simpa using hkind, hi⟩)]

theorem mem_reachableFrames (hi : Nearby frames i) (hf : frames[i]? = some f) :
    f ∈ reachableFrames frames := by
  induction frames generalizing i with
  | nil => cases hf
  | cons g rest ih =>
      unfold reachableFrames
      cases i with
      | zero =>
          cases hf
          split <;> exact List.mem_cons_self
      | succ i =>
          obtain ⟨hkind, hi⟩ := nearby_succ.1 hi
          rw [if_neg (by simp [hkind])]
          exact List.mem_cons_of_mem _ (ih hi hf)

/-! ## Root frames -/

theorem outermost_succ : Outermost (f :: rest) scope (i + 1) ↔
    Outermost rest scope i := by
  constructor
  · intro h
    exact ⟨h.root, fun j g hj hg => h.first (j + 1) g (by omega) hg⟩
  · intro h
    refine ⟨h.root, fun j g hj hg => ?_⟩
    obtain ⟨j, rfl⟩ : ∃ k, j = k + 1 := ⟨j - 1, by omega⟩
    exact h.first j g (by omega) hg

def isRootOf (scope : ScopeId) (f : Frame) : Bool :=
  f.kind.isRoot && f.scope == scope

theorem isRootOf_iff : isRootOf scope f = true ↔ f.kind.isRoot = true ∧
    f.scope = scope := by
  simp [isRootOf]

theorem isRootOf_congr (h : f.unbound = g.unbound) (scope : ScopeId) :
    isRootOf scope f = isRootOf scope g := by
  obtain ⟨hkind, hscope⟩ := kind_eq_of_unbound h
  rw [isRootOf, hkind, hscope, isRootOf]

theorem outermost_zero : Outermost (f :: rest) scope 0 ↔
    isRootOf scope f = true ∧ rest.reverse.find? (isRootOf scope) = none := by
  simp only [List.find?_eq_none, List.mem_reverse, isRootOf_iff]
  constructor
  · rintro ⟨⟨g, hg, hroot⟩, hfirst⟩
    cases hg
    refine ⟨hroot, fun g hg => ?_⟩
    obtain ⟨j, hj⟩ := List.mem_iff_getElem?.1 hg
    exact hfirst (j + 1) g (by omega) hj
  · rintro ⟨hroot, hrest⟩
    refine ⟨⟨f, rfl, hroot⟩, fun j g hj hg => ?_⟩
    obtain ⟨j, rfl⟩ : ∃ k, j = k + 1 := ⟨j - 1, by omega⟩
    exact hrest g (List.mem_of_getElem? hg)

theorem find?_reverse_congr
    (h : frames.map Frame.unbound = frames'.map Frame.unbound)
    (hsame : ∀ i, Outermost frames scope i → frames[i]? = frames'[i]?) :
    frames.reverse.find? (isRootOf scope) =
      frames'.reverse.find? (isRootOf scope) := by
  induction frames generalizing frames' with
  | nil =>
      rw [List.map_nil, eq_comm, List.map_eq_nil_iff] at h
      rw [h]
  | cons f rest ih =>
      obtain ⟨g, rest', rfl, hfg, hrest⟩ := List.map_eq_cons_iff.1 h.symm
      have hinner := ih hrest.symm fun i hi =>
        hsame (i + 1) (outermost_succ.2 hi)
      rw [List.reverse_cons, List.reverse_cons, List.find?_append,
        List.find?_append, ← hinner]
      cases hfind : rest.reverse.find? (isRootOf scope) with
      | some root => rfl
      | none =>
          have hroot := isRootOf_congr hfg scope
          by_cases hf : isRootOf scope f = true
          · obtain rfl : f = g :=
              Option.some.inj (hsame 0 (outermost_zero.2 ⟨hf, hfind⟩))
            rfl
          · simp [hf, hroot]

theorem find?_reverse_of_outermost (hi : Outermost frames scope i)
    (hf : frames[i]? = some f) :
    frames.reverse.find? (isRootOf scope) = some f := by
  induction frames generalizing i with
  | nil => cases hf
  | cons g rest ih =>
      rw [List.reverse_cons, List.find?_append]
      cases i with
      | zero =>
          obtain ⟨hroot, hrest⟩ := outermost_zero.1 hi
          cases hf
          simp [hrest, hroot]
      | succ i =>
          rw [ih (outermost_succ.1 hi) hf]
          rfl

end Frames

/-! ## Lookups -/

variable {s t : Engine}

theorem currentScope_unbound (s : Engine) :
    s.unbound.currentScope = s.currentScope := by
  simp only [currentScope, unbound, Arena.top?, List.head?_map, Option.map_map]
  rfl

theorem globalScopes_congr (h : s.unbound = t.unbound) :
    s.globalScopes s.currentScope = t.globalScopes t.currentScope := by
  have hscope : s.currentScope = t.currentScope := by
    rw [← currentScope_unbound s, h, currentScope_unbound]
  have hscopes : s.scopes = t.scopes := by
    change s.unbound.scopes = t.unbound.scopes
    rw [h]
  simp only [globalScopes, hscope, hscopes]

theorem globalFrames_congr (h : s.unbound = t.unbound)
    (hsees : ∀ i, s.Sees i → s.arena.frames[i]? = t.arena.frames[i]?) :
    s.globalFrames s.currentScope = t.globalFrames t.currentScope := by
  have hframes : s.arena.frames.map Frame.unbound =
      t.arena.frames.map Frame.unbound :=
    congrArg (·.arena.frames) h
  unfold globalFrames
  rw [← globalScopes_congr h]
  refine List.filterMap_congr fun scope hscope => ?_
  refine find?_reverse_congr hframes fun i hi => ?_
  exact hsees i (.inr ⟨scope, mem_globalScopes.1 hscope, hi⟩)

theorem fieldThroughSelf_unbound (s : Engine) (f : Frame) (name : String) :
    s.unbound.fieldThroughSelf f name = s.fieldThroughSelf f name := rfl

theorem lookupVariable_congr (h : s.unbound = t.unbound)
    (hsees : ∀ i, s.Sees i → s.arena.frames[i]? = t.arena.frames[i]?)
    (name : String) : s.lookupVariable name = t.lookupVariable name := by
  have hframes : s.arena.frames.map Frame.unbound =
      t.arena.frames.map Frame.unbound :=
    congrArg (·.arena.frames) h
  have hreachable := reachableFrames_congr hframes fun i hi => hsees i (.inl hi)
  have hfield : s.fieldThroughSelf = t.fieldThroughSelf := by
    funext f name
    rw [← fieldThroughSelf_unbound s, h, fieldThroughSelf_unbound]
  simp only [lookupVariable, hreachable, hfield, globalFrames_congr h hsees]

theorem localIn_eq_none {frames : List Frame} {name : String}
    (h : localIn frames name = none) {f : Frame} (hf : f ∈ frames) :
    f.local? name = none := by
  have hnone := List.findSome?_eq_none_iff.1 h f hf
  simpa using hnone

theorem localIn_of_lookupVariable {name : String}
    (h : s.lookupVariable name = .ok none) :
    localIn (reachableFrames s.arena.frames) name = none ∧
      localIn (s.globalFrames s.currentScope) name = none := by
  unfold lookupVariable at h
  simp only at h
  split at h
  · cases h
  · rename_i hlocal
    refine ⟨hlocal, ?_⟩
    split at h
    · rename_i frame _
      cases hfield : s.fieldThroughSelf frame name with
      | error e =>
          rw [hfield] at h
          cases h
      | ok field =>
          rw [hfield] at h
          cases field with
          | some value => cases h
          | none => exact Except.ok.inj h
    · exact Except.ok.inj h

theorem unbound_of_lookupVariable {name : String}
    (h : s.lookupVariable name = .ok none) {i : Nat} (hi : s.Sees i) {f : Frame}
    (hf : s.arena.frames[i]? = some f) : f.local? name = none := by
  obtain ⟨hlocal, hglobal⟩ := localIn_of_lookupVariable h
  rcases hi with hnear | ⟨scope, hscope, houtermost⟩
  · exact localIn_eq_none hlocal (mem_reachableFrames hnear hf)
  · refine localIn_eq_none hglobal
      (List.mem_filterMap.2 ⟨scope, mem_globalScopes.2 hscope, ?_⟩)
    exact find?_reverse_of_outermost houtermost hf

/-- Two engines that differ only in what frames out of view bind find the same
under every name; and what a frame in view binds is found. -/
theorem lookup_lexical {s t : Engine} (h : s.unbound = t.unbound)
    (hsees : ∀ i, s.Sees i → s.arena.frames[i]? = t.arena.frames[i]?)
    (name : String) :
    s.lookupVariable name = t.lookupVariable name ∧
      (s.lookupVariable name = .ok none →
        ∀ i f, s.Sees i → s.arena.frames[i]? = some f → f.local? name = none) :=
  ⟨lookupVariable_congr h hsees name, fun hnone _ _ hi hf =>
    unbound_of_lookupVariable hnone hi hf⟩

/-! ### A call between two modules -/

namespace Nested

/-- An unrelated module, an imported one, the module of the running code, and in
it a function and a block. -/
def scopes : ScopeTable where
  scopes := #[{ kind := .universe, parent := none },
    { kind := .moduleScope, parent := some .universe },
    { kind := .moduleScope, parent := some .universe },
    { kind := .moduleScope, parent := some .universe, imports := [⟨2⟩] },
    { kind := .function, parent := some ⟨3⟩ },
    { kind := .block, parent := some ⟨4⟩ }]
  byNode := []

def binding (name : String) : Bindings Slot :=
  Bindings.empty.put name ⟨.int32, 0⟩

/-- A block of a called function; the caller and the unrelated module have
variables of their own. -/
def engine (caller unrelated : Bindings Slot) : Engine :=
  { Engine.new {} ⟨.silent, ""⟩ none [] with
    scopes
    arena :=
      { capacity := 64
        bytes := #[]
        mark := 40
        frames :=
          [⟨36, ⟨5⟩, .block, none, binding "i", []⟩,
            ⟨32, ⟨4⟩, .function, some ⟨⟨3⟩, none, none⟩, binding "p", []⟩,
            ⟨28, ⟨4⟩, .function, some ⟨⟨3⟩, none, none⟩, caller, []⟩,
            ⟨24, ⟨3⟩, .moduleFrame, none, binding "g", []⟩,
            ⟨20, ⟨2⟩, .moduleFrame, none, binding "h", []⟩,
            ⟨16, ⟨1⟩, .moduleFrame, none, unrelated, []⟩,
            ⟨8, .universe, .universe, none, .empty, []⟩] } }

def before : Engine := engine (binding "x") (binding "y")

def after : Engine := engine .empty (binding "h")

/-- The two differ only out of view. -/
theorem frames_eq_of_sees (i : Nat) (hi : before.Sees i) :
    before.arena.frames[i]? = after.arena.frames[i]? := by
  match i with
  | 0 | 1 | 3 | 4 | 6 | _ + 7 => rfl
  | 2 =>
      rcases hi with hnear | ⟨scope, -, ⟨f, hf, hroot, -⟩, -⟩
      · exact absurd rfl (hnear 1 _ (by decide) rfl).1
      · cases hf
        cases hroot
  | 5 =>
      rcases hi with hnear | ⟨scope, hscope, ⟨f, hf, -, rfl⟩, -⟩
      · exact absurd rfl (hnear 1 _ (by decide) rfl).1
      · cases hf
        exact absurd (mem_globalScopes.2 hscope) (by decide +kernel)

end Nested

open Nested in
theorem lookup_lexical_nested :
    before.unbound = after.unbound ∧
      (∀ i, before.Sees i → before.arena.frames[i]? = after.arena.frames[i]?) ∧
      before.lookupVariable "h" = .ok (some ⟨.int32, 20⟩) ∧
      ∀ name, before.lookupVariable name = after.lookupVariable name := by
  have hsame : before.unbound = after.unbound := rfl
  refine ⟨hsame, frames_eq_of_sees, by decide +kernel, fun name => ?_⟩
  exact (lookup_lexical hsame frames_eq_of_sees name).1

end Engine

end ArenaScript
