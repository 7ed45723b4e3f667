import ArenaScript.Proofs.Evaluation.Coincidence

/-!
# Blame

A failure that has no position is blamed on the innermost statement that has
one, with the module whose tree the statement stands in.  A statement that is
left does the same as the list of all statements that are executing, as long as
the tree that is executing is its own.
-/

namespace ArenaScript

structure Site where
  tree : TreeId
  node : Node

namespace Engine

/-- The path of the module entered last with the tree, if any was. -/
def fileOf? (s : Engine) (tree : TreeId) : Option String :=
  (s.modules.forTree? tree).map ModuleEntry.path

def blame (s : Engine) (sites : List Site) (e : Failure) : Failure :=
  match e.pos, sites.find? fun site => !site.node.pos.isDummy with
  | none, some site =>
      { e with pos := some site.node.pos, file := s.fileOf? site.tree }
  | _, _ => e

end Engine

/-! ## Failures -/

namespace Failure

variable {e : Failure} {pos : Position}

theorem withLocation_of_dummy (h : pos.isDummy = true) (e : Failure)
    (file : Option String) : e.withLocation pos file = e := by
  simp [withLocation, h]

theorem withLocation_of_pos (h : e.pos.isSome = true) (pos : Position)
    (file : Option String) : e.withLocation pos file = e := by
  obtain ⟨_, hpos⟩ := Option.isSome_iff_exists.1 h
  simp [withLocation, hpos]

theorem withLocation_eq (h : e.pos = none) (hpos : pos.isDummy = false)
    (file : Option String) :
    e.withLocation pos file = { e with pos := some pos, file } := by
  simp [withLocation, h, hpos]

/-- A failure that has no position names no file. -/
def Clean (e : Failure) : Prop := e.pos = none → e.file = none

theorem Clean.withLocation (h : e.Clean) (pos : Position)
    (file : Option String) : (e.withLocation pos file).Clean := by
  unfold Failure.withLocation
  split
  · exact nofun
  · exact h

end Failure

namespace Engine

variable {s t : Engine} {site : Site} {sites : List Site}

theorem blame_of_pos {e : Failure} (h : e.pos.isSome = true) (s : Engine)
    (sites : List Site) : s.blame sites e = e := by
  obtain ⟨_, hpos⟩ := Option.isSome_iff_exists.1 h
  simp only [blame, hpos]

theorem blame_nil (s : Engine) (e : Failure) : s.blame [] e = e := by
  unfold blame
  cases e.pos <;> rfl

/-- The innermost statement is asked first. -/
theorem blame_cons (s : Engine) (site : Site) (sites : List Site)
    (e : Failure) :
    s.blame (site :: sites) e =
      s.blame sites (e.withLocation site.node.pos (s.fileOf? site.tree)) := by
  cases hdummy : site.node.pos.isDummy with
  | true =>
      rw [Failure.withLocation_of_dummy hdummy]
      simp only [blame, List.find?_cons, hdummy, Bool.not_true]
  | false =>
      cases hpos : e.pos with
      | some pos =>
          have hsome : e.pos.isSome = true := by rw [hpos]; rfl
          rw [Failure.withLocation_of_pos hsome, blame_of_pos hsome,
            blame_of_pos hsome]
      | none =>
          rw [Failure.withLocation_eq hpos hdummy]
          refine Eq.trans ?_ (blame_of_pos rfl s sites).symm
          simp only [blame, hpos, List.find?_cons, hdummy, Bool.not_false]

theorem blame_blame (s : Engine) (sites : List Site) (e : Failure) :
    s.blame sites (s.blame sites e) = s.blame sites e := by
  have hplaced : s.blame sites e = e ∨ (s.blame sites e).pos.isSome = true := by
    unfold blame
    split
    · exact .inr rfl
    · exact .inl rfl
  rcases hplaced with hsame | hpos
  · rw [hsame, hsame]
  · exact blame_of_pos hpos s sites

theorem blame_congr (h : t.modules = s.modules) : t.blame = s.blame := by
  funext sites e
  simp only [blame, fileOf?, h]

end Engine

namespace Stop

def Clean : Stop → Prop
  | .failed e => e.Clean
  | .outOfFuel => True

theorem Clean.map {e : Stop} {f : Failure → Failure} (h : e.Clean)
    (hf : ∀ e : Failure, e.Clean → (f e).Clean) : (e.map f).Clean := by
  cases e with
  | failed e => exact hf e h
  | outOfFuel => trivial

theorem Plain.clean {e : Stop} (h : e.Plain) : e.Clean := by
  cases e with
  | failed e => exact fun _ => Failure.file_of_isPlain h
  | outOfFuel => trivial

theorem map_map (f g : Failure → Failure) (e : Stop) :
    (e.map f).map g = e.map (g ∘ f) := by
  cases e <;> rfl

theorem map_id (e : Stop) : e.map id = e := by
  cases e <;> rfl

structure BlamedAlike (sites : List Site) (s : Engine) (e e' : Stop) :
    Prop where
  clean : e.Clean
  same : e.map (s.blame sites) = e'.map (s.blame sites)

namespace BlamedAlike

variable {s t : Engine} {sites : List Site} {e e' : Stop}

theorem refl (h : e.Clean) (sites : List Site) (s : Engine) :
    BlamedAlike sites s e e := ⟨h, rfl⟩

theorem congr (h : BlamedAlike sites s e e')
    (hmodules : t.modules = s.modules) : BlamedAlike sites t e e' := by
  refine ⟨h.clean, ?_⟩
  rw [Engine.blame_congr hmodules]
  exact h.same

theorem eq (h : BlamedAlike [] s e e') : e' = e := by
  have hid : s.blame [] = id := funext s.blame_nil
  have hsame := h.same
  rw [hid, map_id, map_id] at hsame
  exact hsame.symm

theorem blamed (h : BlamedAlike sites s e e') :
    BlamedAlike sites s e (e'.map (s.blame sites)) := by
  refine ⟨h.clean, ?_⟩
  have htwice : s.blame sites ∘ s.blame sites = s.blame sites :=
    funext (s.blame_blame sites)
  rw [map_map, htwice, h.same]

theorem leave {node : Node}
    (h : BlamedAlike (⟨s.currentTree, node⟩ :: sites) s e e') :
    BlamedAlike sites s
      (e.map fun e => e.withLocation node.pos s.currentModulePath?)
      (e'.map (s.blame (⟨s.currentTree, node⟩ :: sites))) := by
  have hcons : s.blame (⟨s.currentTree, node⟩ :: sites) =
      s.blame sites ∘ fun e => e.withLocation node.pos s.currentModulePath? :=
    funext fun e => Engine.blame_cons s ⟨s.currentTree, node⟩ sites e
  have htwice : s.blame sites ∘ s.blame (⟨s.currentTree, node⟩ :: sites) =
      s.blame (⟨s.currentTree, node⟩ :: sites) := by
    funext e
    simp only [hcons, Function.comp_apply, Engine.blame_blame]
  refine ⟨h.clean.map fun e he => he.withLocation _ _, ?_⟩
  rw [map_map, ← hcons, map_map, htwice]
  exact h.same

end BlamedAlike

end Stop

end ArenaScript
