import ArenaScript.Proofs.Evaluation.Advance
import ArenaScript.Proofs.Evaluation.Statements

/-!
# Evaluators that do the same

Two computations coincide on an engine if they give the same value and leave the
same engine, or leave the same engine and stop for reasons that count as the
same.  A staging says in which engines code of a world may run.  What a world
knows is kept by everything that code does; when a function or a template is
looked up, the engine has settled in a world that knows all code the engine
holds.  To coincide on every engine of a world is a congruence.
-/

namespace ArenaScript

/-! ## Computations that do the same -/

def Stop.map (f : Failure → Failure) : Stop → Stop
  | .failed e => .failed (f e)
  | .outOfFuel => .outOfFuel

namespace Eval

variable {α β : Type}

theorem mapFailure_ok {f : Engine → Failure → Failure} {x : Eval α}
    {s t : Engine} {a : α} (h : x s = .ok a t) :
    mapFailure f x s = .ok a t := by
  simp only [mapFailure, h]

theorem mapFailure_error {f : Engine → Failure → Failure} {x : Eval α}
    {s t : Engine} {e : Stop} (h : x s = .error e t) :
    mapFailure f x s = .error (e.map (f t)) t := by
  cases e <;> simp only [mapFailure, h, Stop.map]

/-- Started in `s`, both computations do the same.  At the end `P` holds, or
they stop early for reasons that `E` relates. -/
inductive Coincide (E : Engine → Stop → Stop → Prop) (P : α → Engine → Prop)
    (x y : Eval α) (s : Engine) : Prop
  | ok {a : α} {t : Engine} (hx : x s = .ok a t) (hy : y s = .ok a t)
      (h : P a t)
  | stop {e e' : Stop} {t : Engine} (hx : x s = .error e t)
      (hy : y s = .error e' t) (h : E t e e')

namespace Coincide

variable {E E' : Engine → Stop → Stop → Prop} {P P' : α → Engine → Prop}
  {Q : β → Engine → Prop} {x y : Eval α} {s : Engine}

theorem same (hE : ∀ {t e e'}, E t e e' → e' = e) (h : Coincide E P x y s) :
    y s = x s := by
  cases h with
  | ok hx hy => rw [hx, hy]
  | stop hx hy he => rw [hx, hy, hE he]

theorem of_eq {x' y' : Eval α} {s' : Engine} (hx : x s = x' s')
    (hy : y s = y' s') (h : Coincide E P x' y' s') : Coincide E P x y s := by
  cases h with
  | ok hx' hy' h => exact .ok (hx.trans hx') (hy.trans hy') h
  | stop hx' hy' h => exact .stop (hx.trans hx') (hy.trans hy') h

theorem relax (h : Coincide E P x y s) (hP : ∀ a t, P a t → P' a t)
    (hE : ∀ t e e', E t e e' → E' t e e') : Coincide E' P' x y s := by
  cases h with
  | ok hx hy h => exact .ok hx hy (hP _ _ h)
  | stop hx hy h => exact .stop hx hy (hE _ _ _ h)

theorem mono (h : Coincide E P x y s) (hP : ∀ a t, P a t → P' a t) :
    Coincide E P' x y s :=
  h.relax hP fun _ _ _ he => he

theorem pure {a : α} (h : P a s) : Coincide E P (Pure.pure a) (Pure.pure a) s :=
  .ok rfl rfl h

theorem bind {f g : α → Eval β} (hx : Coincide E P x y s)
    (hf : ∀ a t, P a t → Coincide E Q (f a) (g a) t) :
    Coincide E Q (x >>= f) (y >>= g) s := by
  cases hx with
  | ok hx hy h => exact .of_eq (bind_ok hx) (bind_ok hy) (hf _ _ h)
  | stop hx hy h => exact .stop (bind_error hx) (bind_error hy) h

theorem bind_read {γ : Type} {f : Engine → γ} {k l : γ → Eval α}
    (h : Coincide E P (k (f s)) (l (f s)) s) :
    Coincide E P (read f >>= k) (read f >>= l) s := by
  cases h with
  | ok hx hy h => exact .ok hx hy h
  | stop hx hy h => exact .stop hx hy h

theorem inspect {f : Engine → Except Failure α} (h : ∀ a, f s = .ok a → P a s)
    (hE : ∀ e, f s = .error e → E s (.failed e) (.failed e)) :
    Coincide E P (Eval.inspect f) (Eval.inspect f) s := by
  cases hf : f s with
  | ok a =>
      exact .ok (by simp only [Eval.inspect, hf])
        (by simp only [Eval.inspect, hf]) (h a hf)
  | error e =>
      exact .stop (by simp only [Eval.inspect, hf])
        (by simp only [Eval.inspect, hf]) (hE e hf)

theorem mapFailure {f g : Engine → Failure → Failure} (hx : Coincide E P x y s)
    (hE : ∀ t e e', E t e e' → E' t (e.map (f t)) (e'.map (g t))) :
    Coincide E' P (Eval.mapFailure f x) (Eval.mapFailure g y) s := by
  cases hx with
  | ok hx hy h => exact .ok (mapFailure_ok hx) (mapFailure_ok hy) h
  | stop hx hy h =>
      exact .stop (mapFailure_error hx) (mapFailure_error hy) (hE _ _ _ h)

theorem mapFailure_right {g : Engine → Failure → Failure}
    (hx : Coincide E P x y s)
    (hE : ∀ t e e', E t e e' → E' t e (e'.map (g t))) :
    Coincide E' P x (Eval.mapFailure g y) s := by
  cases hx with
  | ok hx hy h => exact .ok hx (mapFailure_ok hy) h
  | stop hx hy h => exact .stop hx (mapFailure_error hy) (hE _ _ _ h)

theorem onStop {g : Engine → Engine} (hx : Coincide E P x y s)
    (hE : ∀ t e e', E t e e' → E' (g t) e e') :
    Coincide E' P (Eval.onStop g x) (Eval.onStop g y) s := by
  cases hx with
  | ok hx hy h => exact .ok (onStop_ok g hx) (onStop_ok g hy) h
  | stop hx hy h =>
      exact .stop (onStop_error g hx) (onStop_error g hy) (hE _ _ _ h)

theorem withTree {tree : TreeId}
    (hx : Coincide E P x y { s with currentTree := tree })
    (hP : ∀ a t, P a t → P' a { t with currentTree := s.currentTree })
    (hE : ∀ t e e', E t e e' →
      E' { t with currentTree := s.currentTree } e e') :
    Coincide E' P' (Eval.withTree tree x) (Eval.withTree tree y) s := by
  cases hx with
  | ok hx hy h =>
      exact .ok (by simp only [Eval.withTree, hx])
        (by simp only [Eval.withTree, hy]) (hP _ _ h)
  | stop hx hy h =>
      exact .stop (by simp only [Eval.withTree, hx])
        (by simp only [Eval.withTree, hy]) (hE _ _ _ h)

theorem deeper (hx : Coincide E P x y { s with callDepth := s.callDepth + 1 })
    (hP : ∀ a t, P a t → P' a { t with callDepth := t.callDepth - 1 })
    (hE : ∀ t e e', E t e e' →
      E' { t with callDepth := t.callDepth - 1 } e e') :
    Coincide E' P' (Calls.deeper x) (Calls.deeper y) s := by
  cases hx with
  | ok hx hy h =>
      exact .ok (by simp only [Calls.deeper, hx])
        (by simp only [Calls.deeper, hy]) (hP _ _ h)
  | stop hx hy h =>
      exact .stop (by simp only [Calls.deeper, hx])
        (by simp only [Calls.deeper, hy]) (hE _ _ _ h)

end Coincide

end Eval

open Eval (Coincide)

/-! ## Stagings -/

structure Staging where
  World : Type
  inTree : World → TreeId → World
  Stage : World → Engine → Prop
  Code : World → Node → Prop
  Ends : Engine → Stop → Stop → Prop
  code_child : ∀ {w : World} {node child : Node}, Code w node →
    child ∈ node.children →
    Code w child
  plain : ∀ (s : Engine) {e : Stop}, e.Plain → Ends s e e
  ends : ∀ {s t : Engine} {e e' : Stop}, Ends s e e' → t.modules = s.modules →
    Ends t e e'
  quiet : ∀ {w : World} {s t : Engine}, Stage w s → s.Extends t →
    t.modules = s.modules →
    t.currentTree = s.currentTree → s.NoNewCode t → Stage w t
  enter : ∀ {w : World} {s : Engine} (id : TreeId), Stage w s →
    Stage (inTree w id) { s with currentTree := id }
  leave : ∀ {w : World} {s t : Engine} {id : TreeId}, Stage w s →
    Stage (inTree w id) t →
    Stage w { t with currentTree := s.currentTree }
  /-- All code that the engine holds is code of a world that the engine has come
  to. -/
  settle : ∀ {w : World} {s : Engine}, Stage w s →
    ∃ v, Stage v s ∧ (∀ t, Stage v t → Stage w t) ∧
      ∀ home node, s.Holds home node → Code (inTree v home) node
  addFunction : ∀ {w : World} {s : Engine} {node : Node} {f : Function}
    {scope : ScopeId},
    Stage w s → Code w node → f.body = .interpreted s.currentTree node scope →
      Stage w { s with functions := (s.functions.add f).2 }
  addTemplate : ∀ {w : World} {s : Engine} {node : Node} {d : TemplateDef},
    Stage w s → Code w node → d.tree = s.currentTree → d.node = node →
      Stage w { s with templates := (s.templates.add d).2 }

namespace Staging

variable {S : Staging} {w : S.World} {s t : Engine} {α β : Type}

theorem move (hs : S.Stage w s) (hmove : s.Move t) (hcode : s.NoNewCode t) :
    S.Stage w t :=
  S.quiet hs (.move hmove) hmove.modules
    (Engine.Kept.move hmove).currentTree hcode

theorem alters (hs : S.Stage w s) (hst : s.Alters t) : S.Stage w t := by
  rcases hst with rfl | ⟨hmove, htame⟩
  · exact hs
  · exact move hs hmove htame.code

theorem arena (hs : S.Stage w s) (arena : Arena) : S.Stage w { s with arena } :=
  S.quiet hs { Engine.Extends.refl s with } rfl rfl (.of_tables rfl rfl)

theorem callDepth (hs : S.Stage w s) (callDepth : Nat) :
    S.Stage w { s with callDepth } :=
  S.quiet hs { Engine.Extends.refl s with } rfl rfl (.of_tables rfl rfl)

def Stops (S : Staging) (w : S.World) (t : Engine) (e e' : Stop) : Prop :=
  S.Stage w t ∧ S.Ends t e e'

def Rel (S : Staging) (w : S.World) (x y : Eval α) : Prop :=
  ∀ s, S.Stage w s → Coincide (S.Stops w) (fun _ t => S.Stage w t) x y s

theorem Stops.of_plain (hs : S.Stage w s) {e : Stop} (he : e.Plain) :
    S.Stops w s e e :=
  ⟨hs, S.plain s he⟩

theorem Rel.atomic {x : Eval α} (hx : Eval.Atomic x) : S.Rel w x x := by
  intro s hs
  have hrun := hx s
  cases hresult : x s with
  | ok a t =>
      rw [hresult] at hrun
      cases hrun with
      | ok _ h => exact .ok hresult hresult (alters hs h)
  | error e t =>
      rw [hresult] at hrun
      cases hrun with
      | stop he => exact .stop hresult hresult (.of_plain hs he)

theorem Rel.bind {x y : Eval α} {f g : α → Eval β} (hx : S.Rel w x y)
    (hf : ∀ a, S.Rel w (f a) (g a)) : S.Rel w (x >>= f) (y >>= g) :=
  fun s hs => (hx s hs).bind fun a t ht => hf a t ht

theorem Rel.updateArena (f : Arena → Arena) :
    S.Rel w (Eval.updateArena f) (Eval.updateArena f) :=
  fun s hs => .ok rfl rfl (arena hs (f s.arena))

theorem threading (S : Staging) (w : S.World) :
    Eval.Threading fun x y => S.Rel w x y where
  read f := .atomic (.read f)
  updateArena f _ := .updateArena f
  onStop _ hx s hs :=
    (hx s hs).onStop fun _ _ _ ⟨ht, he⟩ => ⟨arena ht _, S.ends he rfl⟩
  bind := .bind

theorem Rel.registerShell (name : String) (kind : StructKind)
    (members : ScopeId) :
    S.Rel w (Eval.registerShell name kind members)
      (Eval.registerShell name kind members) := by
  intro s hs
  cases hresult : s.types.register name (.shell kind) members with
  | ok result =>
      have hrun : Eval.registerShell name kind members s =
          .ok result.1 { s with types := result.2 } := by
        simp only [Eval.registerShell, hresult]
      exact .ok hrun hrun
        (move hs (.registerShell hresult) (.of_tables rfl rfl))
  | error e =>
      have hrun : Eval.registerShell name kind members s =
          .error (.failed e) s := by
        simp only [Eval.registerShell, hresult]
      exact .stop hrun hrun
        (.of_plain hs (s.types.ordinary_register name _ members e hresult))

theorem Rel.completeType (type : TypeId) (fields : List Field)
    (variants : List (String × Int64)) :
    S.Rel w (Eval.completeType type fields variants)
      (Eval.completeType type fields variants) := by
  intro s hs
  cases hresult : s.types.complete type fields variants with
  | ok types =>
      have hrun : Eval.completeType type fields variants s =
          .ok () { s with types } := by
        simp only [Eval.completeType, hresult]
      exact .ok hrun hrun (move hs (.completeType hresult) (.of_tables rfl rfl))
  | error e =>
      have hrun : Eval.completeType type fields variants s =
          .error (.failed e) s := by
        simp only [Eval.completeType, hresult]
      exact .stop hrun hrun
        (.of_plain hs
          (s.types.ordinary_complete type fields variants e hresult))

theorem Rel.settled {v : S.World} (hv : ∀ t, S.Stage v t → S.Stage w t)
    {x y : Eval α} (h : S.Rel v x y) (hs : S.Stage v s) :
    Coincide (S.Stops w) (fun _ t => S.Stage w t) x y s :=
  (h s hs).relax (fun _ t ht => hv t ht) fun t _ _ ⟨ht, he⟩ => ⟨hv t ht, he⟩

def congruence (S : Staging) : Congruence := Congruence.Uniform.congruence {
  World := S.World
  inTree := S.inTree
  Rel w x y := S.Rel w x y
  Code := S.Code
  code_child := S.code_child
  atomic := .atomic
  bind := .bind
  withTree id hx s hs :=
    (hx _ (S.enter id hs)).withTree (fun _ _ ht => S.leave hs ht)
      fun _ _ _ ⟨ht, he⟩ => ⟨S.leave hs ht, S.ends he rfl⟩
  deeper hx s hs :=
    (hx _ (callDepth hs _)).deeper (fun _ _ ht => callDepth ht _)
      fun _ _ _ ⟨ht, he⟩ => ⟨callDepth ht _, S.ends he rfl⟩
  withFrame {_ w _ _ _ _} _ _ _ _ hdestroy hx :=
    (S.threading w).withFrame hdestroy (.updateArena _) hx
  function id h s hs := by
    obtain ⟨v, hvs, hv, hcode⟩ := S.settle hs
    exact .bind_read
      ((h v _ fun home node _ hbody =>
        hcode home node (.function hbody)).settled hv hvs)
  template id h s hs := by
    obtain ⟨v, hvs, hv, hcode⟩ := S.settle hs
    exact .bind_read ((h v _ (hcode _ _ (.template id))).settled hv hvs)
  shell name kind scope hx := by
    refine .bind (.registerShell name kind scope) fun type => ?_
    refine .bind (hx type) fun members => ?_
    exact .bind (.completeType type _ _) fun _ => .atomic (.pure type)
  addFunction hnode hf s hs :=
    .bind_read (.ok rfl rfl (S.addFunction hs hnode (hf _)))
  addTemplate hnode hd s hs :=
    .ok rfl rfl (S.addTemplate hs hnode (hd _).1 (hd _).2) }

end Staging

theorem Calls.Matched.shutdown {S : Staging} {w : S.World} {c d : Calls}
    (hc : c.Matched S.congruence d) :
    S.congruence.Rel w c.shutdown d.shutdown :=
  (S.threading w).popFramesTo hc.destroy 0

end ArenaScript
