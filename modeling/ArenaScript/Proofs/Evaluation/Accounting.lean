import ArenaScript.Proofs.Evaluation.Separation

/-!
# Active calls are counted

The counter of active calls agrees with the frames: it is the number of live
frames that carry a call record, and it stays within the limit.  A call made at
the limit is refused before anything else happens, and no request leaves the
counter changed, whether it succeeds or not.
-/

namespace ArenaScript

open Engine (Good Steady Quiet Enduring Advances)

def Arena.activeCalls (a : Arena) : Nat := a.frames.countP (·.call.isSome)

theorem Arena.activeCalls_pushFrame (a : Arena) (scope : ScopeId)
    (kind : FrameKind) (call : Option CallRecord) :
    (a.pushFrame scope kind call).activeCalls =
      a.activeCalls + if call.isSome then 1 else 0 := by
  simp [activeCalls, pushFrame, List.countP_cons]

theorem Arena.activeCalls_bind (a : Arena) (name : String) (slot : Slot) :
    (a.modifyTop (·.bind name slot)).activeCalls = a.activeCalls := by
  unfold activeCalls
  rw [modifyTop_frames]
  cases a.frames with
  | nil => rfl
  | cons top rest => simp [List.countP_cons, Frame.bind]

theorem Frame.countP_call_bare (frames : List Frame) :
    (frames.map Frame.bare).countP (·.call.isSome) =
      frames.countP (·.call.isSome) := by
  rw [List.countP_map]
  rfl

namespace Engine

variable {s t : Engine}

theorem Quiet.activeCalls (h : s.Quiet t) :
    t.arena.activeCalls = s.arena.activeCalls := by
  unfold Arena.activeCalls
  rw [← Frame.countP_call_bare, h.frames, Frame.countP_call_bare]

theorem Rooted.activeCalls (h : s.Rooted) : s.arena.activeCalls = 0 := by
  unfold Arena.activeCalls
  rw [List.countP_eq_zero]
  intro f hf
  simp [(h f hf).2]

structure Accounted (s : Engine) : Prop where
  active : s.callDepth = s.arena.activeCalls
  limited : s.callDepth ≤ s.maxCallDepth

theorem Accounted.quiet (hs : s.Accounted) (hst : s.Quiet t) : t.Accounted where
  active := by rw [hst.callDepth, hst.activeCalls, hs.active]
  limited := by
    rw [hst.callDepth, hst.grows.maxCallDepth]
    exact hs.limited

theorem Accounted.pushed (hs : s.Accounted) (scope : ScopeId)
    (kind : FrameKind) : (s.pushed scope kind none).Accounted := by
  refine ⟨?_, hs.limited⟩
  simp [Engine.pushed, Arena.activeCalls_pushFrame, hs.active]

/-- The counter and the frames change together when a call begins. -/
theorem Accounted.called (hs : s.Accounted)
    (hroom : s.callDepth < s.maxCallDepth) (scope : ScopeId)
    (record : CallRecord) (id : TreeId) :
    (({ s with callDepth := s.callDepth + 1, currentTree := id } :
      Engine).pushed scope .function (some record)).Accounted := by
  refine ⟨?_, hroom⟩
  simp [Engine.pushed, Arena.activeCalls_pushFrame, hs.active]

instance : Enduring Accounted where
  quiet hs _ hst := hs.inv.quiet hst
  tree _ hs := ⟨hs.inv.active, hs.inv.limited⟩
  push scope kind hs := hs.inv.pushed scope kind
  call scope record id hs hroom := hs.inv.called hroom scope record id
  bind {_ t} name slot _ ht _ _ := by
    refine ⟨?_, ht.inv.limited⟩
    simp [Engine.bound, Arena.activeCalls_bind, ht.inv.active]
  new _ _ _ _ := ⟨rfl, Nat.zero_le _⟩
  pop {s} hs hrooted := by
    have hzero : s.callDepth = 0 := hs.inv.active.trans hrooted.activeCalls
    refine ⟨?_, hs.inv.limited⟩
    rw [hrooted.popFrame.activeCalls]
    exact hzero

structure Applies (s : Engine) (id : FunctionId) (args : List Value) :
    Prop where
  declared : (s.functions.get id).isNative = false
  arity : (s.functions.get id).fixedParams.length ≤ args.length

end Engine

/-- At the limit a call fails where it begins; how the other operations work
does not matter. -/
theorem Calls.invokeStep_at_limit (c : Calls) {t : Engine} {id : FunctionId}
    {args : List Value} (hlimit : t.maxCallDepth ≤ t.callDepth)
    (happlies : t.Applies id args) :
    c.invokeStep id args t =
      .error (.failed (Failure.callDepthExceeded t.maxCallDepth)) t := by
  have hdeclared := happlies.declared
  have harity := happlies.arity
  unfold Function.isNative at hdeclared
  unfold Calls.invokeStep
  simp only [bind, EStateM.bind, Eval.read, Nat.not_lt.2 harity, ite_false]
  split at hdeclared
  · cases hdeclared
  · rename_i tree node scope hbody
    simp [hbody, Calls.invokeInterpreted, Eval.inspect, bind,
      EStateM.bind, hlimit]

/-! ## Main statement -/

/-- Between requests and throughout each of them the active calls are counted,
within the limit.  A call that would exceed it changes nothing, and every
request restores the counter. -/
theorem Reachable.calls_accounted {s : Engine} (hs : Reachable s) :
    s.Accounted ∧
    (∀ (fuel : Nat) (request : Request), s.Knows request →
      Calls.Throughout Engine.Accounted fuel request.perform s ∧
        ((request.perform (Calls.ofFuel fuel)).after s).callDepth =
          s.callDepth) ∧
    ∀ (c : Calls) (t : Engine) (id : FunctionId) (args : List Value),
      t.callDepth = t.maxCallDepth → t.Applies id args →
        c.invokeStep id args t =
          .error (.failed (Failure.callDepthExceeded t.maxCallDepth)) t := by
  have hinv {t : Engine} (ht : t.Good Engine.Accounted) : t.Accounted := ht.inv
  refine ⟨hinv hs.good, fun fuel request hrequest => ⟨?_, ?_⟩, ?_⟩
  · exact hs.throughout (fun _ => hinv) fuel hrequest
  · exact ((Calls.Within.ofFuel Advances.stable fuel).perform_settles request s
      hs.rooted.1).2
  · intro c t id args hlimit happlies
    exact c.invokeStep_at_limit (Nat.le_of_eq hlimit.symm) happlies

namespace Recursion

def AtLimit (s : Engine) : Prop :=
  s.callDepth = s.maxCallDepth ∧ s.arena.activeCalls = 2

instance : DecidablePred AtLimit := fun _ => inferInstanceAs (Decidable (_ ∧ _))

def crowded : Engine := { engine with callDepth := engine.maxCallDepth }

end Recursion

open Recursion in
theorem Reachable.calls_accounted_recursion :
    Reachable engine ∧ engine.Knows request ∧
    Calls.Meets AtLimit 20 request.perform engine ∧
      (∃ t, AtLimit t ∧ t.Accounted) ∧
      (request.perform (Calls.ofFuel 20)).fault? engine =
        some (.callDepthExceeded 2) ∧
      ((request.perform (Calls.ofFuel 20)).after engine).callDepth =
        engine.callDepth ∧
      crowded.Applies ⟨2⟩ [⟨.bool, 0⟩] ∧
      (Calls.ofFuel 20).invokeStep ⟨2⟩ [⟨.bool, 0⟩] crowded =
        .error (.failed (Failure.callDepthExceeded 2)) crowded := by
  have hengine : Reachable engine :=
    .after 20 (.item function) (.new _ _ _ _ (by decide)) trivial
  have hrequest : engine.Knows request := trivial
  have hmeets : Calls.Meets AtLimit 20 request.perform engine :=
    Calls.meets_of_stopWhen (by decide +kernel)
  have happlies : crowded.Applies ⟨2⟩ [⟨.bool, 0⟩] :=
    ⟨by decide +kernel, by decide +kernel⟩
  obtain ⟨-, hrun, hlimit⟩ := calls_accounted hengine
  refine ⟨hengine, hrequest, hmeets,
    (hrun 20 request hrequest).1.exists_of_meets hmeets,
    by decide +kernel, (hrun 20 request hrequest).2, happlies, ?_⟩
  exact hlimit (Calls.ofFuel 20) crowded ⟨2⟩ _ rfl happlies

end ArenaScript
