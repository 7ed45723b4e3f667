import ArenaScript.Proofs.Evaluation.Reachable
import ArenaScript.Proofs.Modules.Silence

/-!
# The order of destruction

Frames are popped from the top, and what a frame holds is destroyed last
allocated first: an object before its fields, and of the fields and of the
elements of an array the last one first.  Popping frames is done once more here
with a record of the objects whose turn it is to be destroyed; keeping the
record changes nothing else.  The record says that all of them have their turn
in that order, or, if a destructor fails, that those before it have had theirs
and nothing comes after it.
-/

namespace ArenaScript

open Engine (Silent)

/-! ## The order -/

namespace Engine

/-- Destroying `values` one after the other: when the `objects` have had their
turn, in this order, it remains to destroy `pending`. -/
inductive Unrolls (s : Engine) : List Value → List Value → List Value → Prop
  | stop (values : List Value) : Unrolls s values [] values
  | plain {v : Value} {rest objects pending : List Value}
      (h : (s.types.get v.type).aggregate = false)
      (hrest : Unrolls s rest objects pending) :
      Unrolls s (v :: rest) objects pending
  | array {v : Value} {elem : TypeId} {len : Nat}
      {rest objects pending : List Value}
      (h : (s.types.get v.type).aggregate = true)
      (harray : (s.types.get v.type).array? = some (elem, len))
      (hrest : Unrolls s
        (((List.range len).map (s.element v elem)).reverse ++ rest)
        objects pending) : Unrolls s (v :: rest) objects pending
  /-- An object comes before its fields, which follow in reverse.  A union has
  no fields of its own. -/
  | object {v : Value} {rest objects pending : List Value}
      (h : (s.types.get v.type).aggregate = true)
      (harray : (s.types.get v.type).array? = none)
      (hrest : Unrolls s ((s.classFields v.type).reverse.map
        (fun field => v.view field.type field.offset) ++ rest) objects
          pending) :
      Unrolls s (v :: rest) (v :: objects) pending

namespace Unrolls

variable {s : Engine}
  {values others objects objects' pending pending' : List Value}

theorem append (h : s.Unrolls values objects pending) (rest : List Value) :
    s.Unrolls (values ++ rest) objects (pending ++ rest) := by
  induction h with
  | stop values => exact .stop _
  | plain h _ ih => exact .plain h ih
  | array h harray _ ih =>
      rw [List.append_assoc] at ih
      exact .array h harray ih
  | object h harray _ ih =>
      rw [List.append_assoc] at ih
      exact .object h harray ih

theorem trans (h : s.Unrolls values objects pending)
    (h' : s.Unrolls pending objects' pending') :
    s.Unrolls values (objects ++ objects') pending' := by
  induction h with
  | stop values => exact h'
  | plain h _ ih => exact .plain h (ih h')
  | array h harray _ ih => exact .array h harray (ih h')
  | object h harray _ ih => exact .object h harray (ih h')

theorem both (h : s.Unrolls values objects [])
    (h' : s.Unrolls others objects' pending) :
    s.Unrolls (values ++ others) (objects ++ objects') pending :=
  (h.append others).trans h'

end Unrolls

def framesAbove (s : Engine) (depth : Nat) : List Frame :=
  s.arena.frames.take (s.arena.depth - depth)

/-- What the frames above `depth` hold, in the order in which it is
destroyed. -/
def doomed (s : Engine) (depth : Nat) : List Value :=
  (s.framesAbove depth).flatMap Frame.destructibles

/-- The frames above `depth` are gone, those below are untouched, and the mark
is back at the base of the lowest frame that is gone. -/
structure TornDown (s : Engine) (depth : Nat) (t : Engine) : Prop where
  reached : t.arena.depth = depth
  frames : s.arena.frames = s.framesAbove depth ++ t.arena.frames
  mark : (s.framesAbove depth).getLast?.map Frame.base = some t.arena.mark

end Engine

/-! ## Keeping a record -/

/-- It is the turn of an object, in the given engine. -/
structure Turn where
  object : Value
  engine : Engine

namespace Turn

def destructor? (turn : Turn) : Option FunctionId :=
  turn.engine.memberFunction? turn.object.type "destruct" []

/-- If the object has a destructor, it runs to its end. -/
def Passes (turn : Turn) : Prop :=
  ∀ id, turn.destructor? = some id → ∃ fuel result t,
    (Calls.ofFuel fuel).invoke id [turn.object] turn.engine = .ok result t

def FailsWith (turn : Turn) (e : Failure) : Prop :=
  ∃ id fuel t, turn.destructor? = some id ∧
    (Calls.ofFuel fuel).invoke id [turn.object] turn.engine =
      .error (.failed e) t

end Turn

abbrev Teardown := EStateM Stop (Engine × List Turn)

namespace Teardown

variable {α β : Type}

def lift (x : Eval α) : Teardown α := fun st =>
  match x st.1 with
  | .ok a t => .ok a (t, st.2)
  | .error e t => .error e (t, st.2)

def note (object : Value) : Teardown Unit :=
  fun st => .ok () (st.1, st.2 ++ [⟨object, st.1⟩])

def onStop (g : Engine → Engine) (x : Teardown α) : Teardown α := fun st =>
  match x st with
  | .ok a st => .ok a st
  | .error e st => .error e (g st.1, st.2)

def destroyStep (destroy : Value → Teardown Unit) (c : Calls) (value : Value) :
    Teardown Unit := do
  if ← lift (Eval.read fun s => (s.types.get value.type).aggregate) then
    match ← lift (Calls.elementsOf value) with
    | some elements => elements.reverse.forM destroy
    | none =>
        note value
        match ← lift
          (Eval.read fun s => s.memberFunction? value.type "destruct" []) with
        | some id =>
            let _ ← lift (c.invoke id [value])
            pure ()
        | none => pure ()
        let fields ← lift (Eval.read fun s => s.classFields value.type)
        fields.reverse.forM fun field =>
          destroy (value.view field.type field.offset)

def destroy : Nat → Value → Teardown Unit
  | 0, _ => lift Eval.exhausted
  | n + 1, value => destroyStep (destroy n) (Calls.ofFuel n) value

def popFrame (fuel depth : Nat) : Teardown Unit := do
  let doomed ← lift Calls.takeDestructibles
  onStop (·.unwindTo depth) (doomed.forM (destroy fuel))
  lift (Eval.updateArena Arena.popFrame)

def popFrames (fuel depth : Nat) : Nat → Teardown Unit
  | 0 => pure ()
  | rounds + 1 => do
      if depth < (← lift (Eval.read fun s => s.arena.depth)) then
        popFrame fuel depth
        popFrames fuel depth rounds

def popFramesTo (fuel depth : Nat) : Teardown Unit := do
  popFrames fuel depth (← lift (Eval.read fun s => s.arena.depth))

def forget : EStateM.Result Stop (Engine × List Turn) α →
    EStateM.Result Stop Engine α
  | .ok a st => .ok a st.1
  | .error e st => .error e st.1

def Erases (x : Teardown α) (y : Eval α) : Prop := ∀ st, forget (x st) = y st.1

namespace Erases

theorem lift (y : Eval α) : Erases (Teardown.lift y) y := by
  intro st
  unfold Teardown.lift forget
  cases y st.1 <;> rfl

theorem pure (a : α) : Erases (Pure.pure a) (Pure.pure a) := fun _ => rfl

theorem bind {x : Teardown α} {y : Eval α} {f : α → Teardown β} {g : α → Eval β}
    (hxy : Erases x y) (hfg : ∀ a, Erases (f a) (g a)) :
    Erases (x >>= f) (y >>= g) := by
  intro st
  have hst := hxy st
  simp only [Bind.bind, EStateM.bind]
  cases hrun : x st with
  | ok a st' =>
      rw [hrun] at hst
      simp only [← hst, forget]
      exact hfg a st'
  | error e st' =>
      rw [hrun] at hst
      simp only [← hst, forget]

theorem note_bind (object : Value) {x : Teardown α} {y : Eval α}
    (hxy : Erases x y) : Erases (note object >>= fun _ => x) y :=
  fun st => hxy (st.1, st.2 ++ [Turn.mk object st.1])

theorem onStop (g : Engine → Engine) {x : Teardown α} {y : Eval α}
    (hxy : Erases x y) : Erases (Teardown.onStop g x) (Eval.onStop g y) := by
  intro st
  have hst := hxy st
  unfold Teardown.onStop Eval.onStop
  rw [← hst]
  cases x st <;> rfl

theorem forM {f : α → Teardown Unit} {g : α → Eval Unit}
    (hfg : ∀ a, Erases (f a) (g a)) (l : List α) :
    Erases (l.forM f) (l.forM g) := by
  induction l with
  | nil => exact pure ()
  | cons a l ih => exact bind (hfg a) fun _ => ih

theorem destroyStep {destroy : Value → Teardown Unit} {c : Calls}
    (hdestroy : ∀ v, Erases (destroy v) (c.destroy v)) (value : Value) :
    Erases (Teardown.destroyStep destroy c value) (c.destroyStep value) := by
  refine bind (lift _) fun aggregate => ?_
  cases aggregate with
  | false => exact pure ()
  | true =>
      refine bind (lift _) fun elements => ?_
      cases elements with
      | some elements => exact forM hdestroy _
      | none =>
          have hfields : Erases
              (do
                let fields ← Teardown.lift
                  (Eval.read fun s => s.classFields value.type)
                fields.reverse.forM fun field =>
                  destroy (value.view field.type field.offset))
              (do
                let fields ← Eval.read fun s => s.classFields value.type
                fields.reverse.forM fun field =>
                  c.destroy (value.view field.type field.offset)) :=
            bind (lift _) fun fields =>
              forM (fun field => hdestroy _) fields.reverse
          refine note_bind value (bind (lift _) fun found => ?_)
          cases found with
          | some id => exact bind (lift _) fun _ => hfields
          | none => exact hfields

theorem destroy (fuel : Nat) (value : Value) :
    Erases (Teardown.destroy fuel value)
      ((Calls.ofFuel fuel).destroy value) := by
  induction fuel generalizing value with
  | zero => exact lift _
  | succ fuel ih => exact destroyStep ih value

theorem popFrame (fuel depth : Nat) :
    Erases (Teardown.popFrame fuel depth)
      ((Calls.ofFuel fuel).popFrame depth) := by
  refine bind (lift _) fun doomed => ?_
  exact bind (onStop _ (forM (destroy fuel) doomed)) fun _ => lift _

theorem popFrames (fuel depth rounds : Nat) :
    Erases (Teardown.popFrames fuel depth rounds)
      ((Calls.ofFuel fuel).popFrames depth rounds) := by
  induction rounds with
  | zero => exact pure ()
  | succ rounds ih =>
      refine bind (lift _) fun current => ?_
      split
      · exact bind (popFrame fuel depth) fun _ => ih
      · exact pure ()

theorem popFramesTo (fuel depth : Nat) :
    Erases (Teardown.popFramesTo fuel depth)
      ((Calls.ofFuel fuel).popFramesTo depth) :=
  bind (lift _) fun rounds => popFrames fuel depth rounds

end Erases

end Teardown

/-! ## Frames -/

theorem Arena.unwind_append (above below : List Frame) (mark : Nat) :
    unwind below.length mark (above ++ below) =
      (below, (above.map Frame.base).getLastD mark) := by
  induction above generalizing mark with
  | nil => exact unwind_length mark below
  | cons top above ih =>
      rw [List.cons_append, unwind, if_pos (by simp), ih, List.map_cons,
        List.getLastD_cons]

theorem Arena.length_lt_depth {a : Arena} {top : Frame}
    {above below : List Frame} (h : a.frames = top :: above ++ below) :
    below.length < a.depth := by
  rw [Arena.depth, h, List.cons_append, List.length_cons, List.length_append]
  omega

namespace Calls

variable {s : Engine} {top : Frame} {above below rest : List Frame}

theorem destroyAll_frames (fuel : Nat) (doomed : List Value)
    (hframes : s.arena.frames = top :: rest) :
    ∃ left : Frame, ((doomed.forM (ofFuel fuel).destroy).after s).arena.frames =
      left :: rest ∧
      left.base = top.base := by
  have hsilent :=
    Silent.composable.forM (Discreet.ofFuel fuel).plain.destroy doomed s
  have hkept := hsilent.kept.arena.frames
  rw [hframes] at hkept
  generalize ((doomed.forM (ofFuel fuel).destroy).after s).arena.frames =
    frames at hkept ⊢
  cases hkept with
  | top _ h => exact ⟨_, rfl, h.base⟩

theorem takeDestructibles_run (hframes : s.arena.frames = top :: rest) :
    takeDestructibles s = .ok top.destructibles s.disarmed := by
  unfold takeDestructibles
  rw [Eval.bind_read]
  simp only [Arena.top?, hframes]
  rfl

theorem popFrame_frames (fuel : Nat)
    (hframes : s.arena.frames = top :: (above ++ below)) :
    match (ofFuel fuel).popFrame below.length s with
    | .ok _ t => t.arena.frames = above ++ below ∧ t.arena.mark = top.base
    | .error _ t => t.arena.frames = below ∧
        t.arena.mark = (above.map Frame.base).getLastD top.base := by
  have hdisarmed : s.disarmed.arena.frames =
      { top with destructibles := [] } :: (above ++ below) := by
    simp [Engine.disarmed, hframes]
  obtain ⟨left, hleft, hbase⟩ :=
    destroyAll_frames fuel top.destructibles hdisarmed
  unfold Calls.popFrame
  rw [Eval.bind_ok (takeDestructibles_run hframes)]
  cases hrun : top.destructibles.forM (ofFuel fuel).destroy s.disarmed with
  | ok _ u =>
      rw [Eval.after_ok hrun] at hleft
      rw [Eval.bind_ok (Eval.onStop_ok _ hrun)]
      simp [Eval.updateArena, Arena.popFrame, hleft, hbase]
  | error e u =>
      rw [Eval.after_error hrun] at hleft
      rw [Eval.bind_error (Eval.onStop_error _ hrun)]
      have hunwind := Arena.unwind_append (left :: above) below u.arena.mark
      rw [List.cons_append, List.map_cons, List.getLastD_cons, hbase] at hunwind
      simp [Engine.unwindTo, Arena.unwindTo, hleft, hunwind]

theorem popFrames_frames (fuel : Nat) {rounds : Nat}
    (hframes : s.arena.frames = above ++ below)
    (hrounds : above.length ≤ rounds) :
    (((ofFuel fuel).popFrames below.length rounds).after s).arena.frames =
      below ∧
      (((ofFuel fuel).popFrames below.length rounds).after s).arena.mark =
        (above.map Frame.base).getLastD s.arena.mark := by
  induction above generalizing s rounds with
  | nil =>
      have hdone : (ofFuel fuel).popFrames below.length rounds s =
          .ok () s := by
        cases rounds with
        | zero => rfl
        | succ rounds =>
            rw [popFrames_succ, if_neg (by simp [Arena.depth, hframes])]
      rw [Eval.after_ok hdone]
      exact ⟨hframes, rfl⟩
  | cons top above ih =>
      obtain ⟨rounds, rfl⟩ : ∃ n, rounds = n + 1 :=
        ⟨rounds - 1, by simp at hrounds; omega⟩
      have hstep : (ofFuel fuel).popFrames below.length (rounds + 1) s =
          ((ofFuel fuel).popFrame below.length >>= fun _ =>
            (ofFuel fuel).popFrames below.length rounds) s := by
        rw [popFrames_succ, if_pos (Arena.length_lt_depth hframes)]
      have hpop := popFrame_frames fuel hframes
      rw [Eval.after_congr hstep, List.map_cons, List.getLastD_cons]
      cases hrun : (ofFuel fuel).popFrame below.length s with
      | ok _ u =>
          rw [hrun] at hpop
          rw [Eval.after_bind_ok hrun, ← hpop.2]
          exact ih hpop.1 (by simpa using hrounds)
      | error e u =>
          rw [hrun] at hpop
          rw [Eval.after_bind_error hrun]
          exact hpop

end Calls

theorem Engine.framesAbove_append {s : Engine} {depth : Nat}
    (hdepth : depth < s.arena.depth) :
    ∃ below, s.arena.frames = s.framesAbove depth ++ below ∧
      below.length = depth ∧
      s.framesAbove depth ≠ [] := by
  unfold Arena.depth at hdepth
  refine ⟨s.arena.frames.drop (s.arena.depth - depth),
    (List.take_append_drop _ _).symm, ?_, ?_⟩
  · rw [List.length_drop, Arena.depth]
    omega
  · intro hnone
    have hlength := congrArg List.length hnone
    rw [framesAbove, List.length_take, Arena.depth, List.length_nil] at hlength
    omega

/-- The frames above `depth` are gone in the end, whether all destructors
succeed or not. -/
theorem Calls.popFramesTo_tornDown (fuel : Nat) {depth : Nat} {s : Engine}
    (hdepth : depth < s.arena.depth) :
    s.TornDown depth (((Calls.ofFuel fuel).popFramesTo depth).after s) := by
  obtain ⟨below, hframes, rfl, hne⟩ := Engine.framesAbove_append hdepth
  have hrounds : (s.framesAbove below.length).length ≤ s.arena.depth :=
    List.length_take_le' ..
  obtain ⟨hleft, hmark⟩ := popFrames_frames fuel hframes hrounds
  have hread : ((Calls.ofFuel fuel).popFramesTo below.length).after s =
      ((Calls.ofFuel fuel).popFrames below.length s.arena.depth).after s := rfl
  rw [hread]
  refine ⟨congrArg List.length hleft, ?_, ?_⟩
  · rw [hleft]
    exact hframes
  · rw [hmark, List.getLastD_eq_getLast?, List.getLast?_map,
      List.getLast?_eq_some_getLast hne]
    rfl

/-! ## Types stay what they are -/

namespace Engine

instance : Enduring fun _ : Engine => True where
  quiet _ _ _ := trivial
  tree _ _ := trivial
  push _ _ _ := trivial
  call _ _ _ _ _ := trivial
  bind _ _ _ _ _ _ := trivial
  new _ _ _ _ := trivial
  pop _ _ := trivial

structure Follows (s t : Engine) : Prop where
  closed : t.Closed
  types : s.types.Grown t.types

theorem classFields_of_grown {s t : Engine} (h : s.types.Grown t.types)
    {type : TypeId} (htype : s.types.Has type) :
    t.classFields type = s.classFields type := by
  have hshape := congrArg TypeEntry.shape (h.entry type htype)
  unfold classFields TypeEntry.structural?
  unfold TypeEntry.fixed Shape.fixed at hshape
  generalize (t.types.get type).shape = shape at hshape ⊢
  generalize (s.types.get type).shape = shape' at hshape ⊢
  cases shape <;> cases shape' <;> simp_all

theorem Closed.known_destructibles {s : Engine} (hs : s.Closed) {f : Frame}
    (hf : f ∈ s.arena.frames) : s.Knows f.destructibles :=
  (hs.knows_frame hf).2.2

namespace Follows

variable {s t u : Engine} {v : Value}

theorem refl (hs : s.Closed) : s.Follows s := ⟨hs, .refl _⟩

theorem quiet (h : s.Follows t) (hu : u.Closed) (htu : t.Quiet u) :
    s.Follows u :=
  ⟨hu, h.types.trans htu.grows.types⟩

theorem knows {α : Type} [Handles α] {a : α} (h : s.Follows t)
    (ha : s.Knows a) : t.Knows a :=
  Handles.mono h.types.size ha

theorem elements (h : s.Follows t) (hs : s.Closed) (hv : s.Knows v) :
    ((t.types.get v.type).array?.map fun (elem, len) =>
        (List.range len).map (t.element v elem)) =
      (s.types.get v.type).array?.map fun (elem, len) =>
        (List.range len).map (s.element v elem) := by
  rw [h.types.array? hv.1]
  cases harray : (s.types.get v.type).array? with
  | none => rfl
  | some parts =>
      obtain ⟨elem, len⟩ := parts
      have helem := (TypeEntry.known_array? (hs.types v.type) _ harray).1
      have helement : t.element v elem = s.element v elem := by
        funext i
        rw [Engine.element, Engine.element, h.types.sizeOf elem helem]
      simp only [Option.map_some, helement]

theorem invoke (h : s.Follows t) (hv : s.Knows v) {fuel : Nat} {id : FunctionId}
    {result : Option Value}
    (hrun : (Calls.ofFuel fuel).invoke id [v] t = .ok result u) :
    s.Follows u := by
  have halike : (Calls.watched (pure ()) fuel).Alike (fun _ => True)
      (Calls.ofFuel fuel) :=
    .watched (fun _ _ => rfl) fuel
  have hargs : t.Knows [v] :=
    Handles.known_cons.2 ⟨h.knows hv, Handles.known_nil⟩
  have hreached := (halike.invoke id ⟨h.closed, trivial⟩ hargs).reached
  rw [Eval.after_ok hrun] at hreached
  exact h.quiet hreached.closed hreached.rel

end Follows

end Engine

/-! ## What the record says -/

namespace Teardown

variable {b : Engine} {values others : List Value} {log : List Turn}

/-- All turns but the last one have passed, which is that of a destructor that
has failed. -/
def EndIn (turns : List Turn) (failure : Failure) : Prop :=
  ∃ earlier last, turns = earlier ++ [last] ∧ (∀ turn ∈ earlier, turn.Passes) ∧
    last.FailsWith failure

/-- How destroying `values` may end, where `b` says what the values are made of:
all of them have had their turn, or a destructor has failed at its turn. -/
inductive Ends (b : Engine) (values : List Value) (log : List Turn)
    (result : EStateM.Result Stop (Engine × List Turn) Unit) : Prop
  | done (t : Engine) (turns : List Turn)
      (hresult : result = .ok () (t, log ++ turns)) (ht : b.Follows t)
      (h : b.Unrolls values (turns.map Turn.object) [])
      (hpass : ∀ turn ∈ turns, turn.Passes)
  | stopped (e : Stop) (t : Engine) (turns : List Turn) (pending : List Value)
      (hresult : result = .error e (t, log ++ turns))
      (h : b.Unrolls values (turns.map Turn.object) pending)
      (hlast : ∀ failure, e = .failed failure → EndIn turns failure)

namespace Ends

theorem of_unrolls {result : EStateM.Result Stop (Engine × List Turn) Unit}
    (hend : Ends b values log result)
    (h : ∀ objects pending, b.Unrolls values objects pending →
      b.Unrolls others objects pending) : Ends b others log result := by
  cases hend with
  | done t turns hresult ht hturns hpass =>
      exact .done t turns hresult ht (h _ _ hturns) hpass
  | stopped e t turns pending hresult hturns hlast =>
      exact .stopped e t turns pending hresult (h _ _ hturns) hlast

theorem cons {turn : Turn}
    {result : EStateM.Result Stop (Engine × List Turn) Unit}
    (hend : Ends b values (log ++ [turn]) result) (hturn : turn.Passes)
    (h : ∀ objects pending, b.Unrolls values objects pending →
      b.Unrolls others (turn.object :: objects) pending) :
        Ends b others log result := by
  cases hend with
  | done t turns hresult ht hturns hpass =>
      rw [List.append_assoc] at hresult
      exact .done t (turn :: turns) hresult ht (h _ _ hturns)
        (List.forall_mem_cons.2 ⟨hturn, hpass⟩)
  | stopped e t turns pending hresult hturns hlast =>
      rw [List.append_assoc] at hresult
      refine .stopped e t (turn :: turns) pending hresult (h _ _ hturns)
        fun failure he => ?_
      obtain ⟨earlier, last, rfl, hpass, hfails⟩ := hlast failure he
      exact ⟨turn :: earlier, last, rfl, List.forall_mem_cons.2 ⟨hturn, hpass⟩,
        hfails⟩

theorem bind {x : Teardown Unit} {k : Unit → Teardown Unit} {s : Engine}
    (hx : Ends b values log (x (s, log)))
    (hk : ∀ t turns, x (s, log) = .ok () (t, log ++ turns) → b.Follows t →
      Ends b others (log ++ turns) (k () (t, log ++ turns))) :
    Ends b (values ++ others) log ((x >>= k) (s, log)) := by
  cases hx with
  | done t turns hresult ht h hpass =>
      have hrun : (x >>= k) (s, log) = k () (t, log ++ turns) := by
        simp only [Bind.bind, EStateM.bind, hresult]
      rw [hrun]
      cases hk t turns hresult ht with
      | done u later hlater hu h' hpass' =>
          rw [List.append_assoc] at hlater
          refine .done u (turns ++ later) hlater hu ?_
            (List.forall_mem_append.2 ⟨hpass, hpass'⟩)
          rw [List.map_append]
          exact h.both h'
      | stopped e u later pending hlater h' hlast =>
          rw [List.append_assoc] at hlater
          refine .stopped e u (turns ++ later) pending hlater ?_
            fun failure he => ?_
          · rw [List.map_append]
            exact h.both h'
          · obtain ⟨earlier, last, rfl, hpass', hfails⟩ := hlast failure he
            exact ⟨turns ++ earlier, last, (List.append_assoc ..).symm,
              List.forall_mem_append.2 ⟨hpass, hpass'⟩, hfails⟩
  | stopped e t turns pending hresult h hlast =>
      have hrun : (x >>= k) (s, log) = .error e (t, log ++ turns) := by
        simp only [Bind.bind, EStateM.bind, hresult]
      exact .stopped e t turns _ hrun (h.append others) hlast

theorem nothing {t : Engine} (ht : b.Follows t) :
    Ends b [] log (.ok () (t, log)) :=
  .done t [] (by rw [List.append_nil]) ht (.stop []) nofun

theorem onStop (g : Engine → Engine) {x : Teardown Unit} {s : Engine}
    (hx : Ends b values log (x (s, log))) :
    Ends b values log (Teardown.onStop g x (s, log)) := by
  unfold Teardown.onStop
  cases hx with
  | done t turns hresult ht h hpass =>
      rw [hresult]
      exact .done t turns rfl ht h hpass
  | stopped e t turns pending hresult h hlast =>
      rw [hresult]
      exact .stopped e (g t) turns pending rfl h hlast

theorem forM {γ : Type} (place : γ → Value) {f : γ → Teardown Unit} {l : List γ}
    (hf : ∀ a ∈ l, ∀ t log, b.Follows t → Ends b [place a] log (f a (t, log)))
    {t : Engine} (ht : b.Follows t) (log : List Turn) :
    Ends b (l.map place) log (l.forM f (t, log)) := by
  induction l generalizing t log with
  | nil => exact nothing ht
  | cons a l ih =>
      obtain ⟨ha, hl⟩ := List.forall_mem_cons.1 hf
      exact (ha t log ht).bind fun u turns _ hu => ih hl hu _

end Ends

section Step

variable {destroy : Value → Teardown Unit} {v : Value}

/-- After the turn of an object come its fields, whatever engine its destructor
has left. -/
theorem fields_ends (hb : b.Closed)
    (hdestroy : ∀ v, b.Knows v → ∀ t log, b.Follows t →
      Ends b [v] log (destroy v (t, log)))
    (hv : b.Knows v) (haggregate : (b.types.get v.type).aggregate = true)
    (harray : (b.types.get v.type).array? = none) {before : Engine}
    (hturn : Turn.Passes ⟨v, before⟩) {t : Engine} (ht : b.Follows t)
    (log : List Turn) :
    Ends b [v] log ((t.classFields v.type).reverse.forM
      (fun field => destroy (v.view field.type field.offset))
        (t, log ++ [⟨v, before⟩])) := by
  have hparts := Ends.forM (fun field : Field => v.view field.type field.offset)
    (f := fun field : Field => destroy (v.view field.type field.offset))
    (l := (t.classFields v.type).reverse)
    (fun field hfield u later hu => ?_) ht (log ++ [⟨v, before⟩])
  · refine hparts.cons hturn fun objects pending h =>
      .object haggregate harray ?_
    rw [Engine.classFields_of_grown ht.types hv.1] at h
    rwa [List.append_nil]
  · rw [Engine.classFields_of_grown ht.types hv.1, List.mem_reverse] at hfield
    exact hdestroy _
      (Value.known_view (hb.knows_classFields v.type field hfield) _) u later hu

theorem bind_read {α β : Type} (f : Engine → α) (k : α → Teardown β)
    (st : Engine × List Turn) :
    (lift (Eval.read f) >>= k) st = k (f st.1) st := rfl

theorem bind_lift {α β : Type} (x : Eval α) (k : α → Teardown β)
    (st : Engine × List Turn) :
    (lift x >>= k) st =
      match x st.1 with
      | .ok a t => k a (t, st.2)
      | .error e t => .error e (t, st.2) := by
  simp only [Bind.bind, EStateM.bind, lift]
  cases x st.1 <;> rfl

theorem destroyStep_ends (hb : b.Closed) {fuel : Nat}
    (hdestroy : ∀ v, b.Knows v → ∀ t log, b.Follows t →
      Ends b [v] log (destroy v (t, log)))
    (hv : b.Knows v) {t : Engine} (ht : b.Follows t) :
    Ends b [v] log (destroyStep destroy (Calls.ofFuel fuel) v (t, log)) := by
  have hsame := ht.types.aggregate hv.1
  have helements := ht.elements hb hv
  have hknown := hb.knows_elements v
  unfold destroyStep
  rw [bind_read]
  cases haggregate : (b.types.get v.type).aggregate with
  | false =>
      rw [hsame, haggregate]
      exact (Ends.nothing ht).of_unrolls fun objects pending h =>
        .plain haggregate h
  | true =>
      rw [hsame, haggregate, if_pos rfl, Calls.elementsOf, bind_read, helements]
      cases harray : (b.types.get v.type).array? with
      | some parts =>
          obtain ⟨elem, len⟩ := parts
          rw [harray] at hknown
          have hend := Ends.forM id (f := destroy)
            (l := ((List.range len).map (b.element v elem)).reverse)
            (fun part hpart t log ht => hdestroy part ?_ t log ht) ht log
          · rw [List.map_id] at hend
            refine hend.of_unrolls fun objects pending h =>
              .array haggregate harray ?_
            rwa [List.append_nil]
          · exact Handles.known_some.1 hknown part (List.mem_reverse.1 hpart)
      | none =>
          have hturn : ∀ k : Option FunctionId → Teardown Unit,
              (note v >>= fun _ => lift (Eval.read fun s =>
                s.memberFunction? v.type "destruct" []) >>= k) (t, log) =
              k (t.memberFunction? v.type "destruct" []) (t, log ++ [⟨v, t⟩]) :=
                fun _ => rfl
          simp only [Option.map_none]
          rw [hturn]
          cases hfound : t.memberFunction? v.type "destruct" [] with
          | none =>
              have hpass : Turn.Passes ⟨v, t⟩ := fun id hid => by
                rw [Turn.destructor?, hfound] at hid
                cases hid
              exact fields_ends hb hdestroy hv haggregate harray hpass ht log
          | some id =>
              dsimp only
              rw [bind_lift]
              cases hrun : (Calls.ofFuel fuel).invoke id [v] t with
              | ok result u =>
                  have hpass : Turn.Passes ⟨v, t⟩ := fun id' hid => by
                    rw [Turn.destructor?, hfound] at hid
                    cases hid
                    exact ⟨fuel, result, u, hrun⟩
                  exact fields_ends hb hdestroy hv haggregate harray hpass
                    (ht.invoke hv hrun) log
              | error e u =>
                  refine .stopped e u [⟨v, t⟩] _ rfl
                    (.object haggregate harray (.stop _)) fun failure he => ?_
                  subst he
                  exact ⟨[], _, rfl, nofun, id, fuel, u, hfound, hrun⟩

end Step

theorem destroy_ends (hb : b.Closed) (fuel : Nat) {v : Value} (hv : b.Knows v)
    {t : Engine} (ht : b.Follows t) :
    Ends b [v] log (destroy fuel v (t, log)) := by
  induction fuel generalizing v t log with
  | zero =>
      exact .stopped .outOfFuel t [] [v] (by rw [List.append_nil]; rfl)
        (.stop _) nofun
  | succ fuel ih =>
      exact destroyStep_ends hb (fun v hv t log ht => ih hv ht) hv ht

section Frames

variable {top : Frame} {above below : List Frame} {t : Engine}

theorem popFrame_ends (hb : b.Closed) (fuel depth : Nat) (ht : b.Follows t)
    (hframes : t.arena.frames = top :: above)
    (htop : b.Knows top.destructibles) :
    Ends b top.destructibles log (popFrame fuel depth (t, log)) := by
  have hdisarmed : b.Follows t.disarmed :=
    ht.quiet (Engine.Step.disarmed ht.closed).closed
      (Engine.Step.disarmed ht.closed).quiet
  have hend := Ends.forM id (f := destroy fuel) (l := top.destructibles)
    (fun v hv t log ht => destroy_ends hb fuel (htop v hv) ht) hdisarmed log
  rw [List.map_id] at hend
  have hpop := (hend.onStop (·.unwindTo depth)).bind
    (k := fun _ => lift (Eval.updateArena Arena.popFrame)) fun u turns _ hu =>
      Ends.nothing (t := { u with arena := u.arena.popFrame })
        ⟨hu.closed.popFrame, hu.types⟩
  rw [List.append_nil] at hpop
  unfold popFrame
  rw [bind_lift, Calls.takeDestructibles_run hframes]
  exact hpop

/-- One frame after the other: the first one is popped, and the next one is then
what it has been from the beginning. -/
theorem popFrames_ends (hb : b.Closed) (fuel : Nat) {rounds : Nat}
    (ht : b.Follows t) (hframes : t.arena.frames = above ++ below)
    (hrounds : above.length ≤ rounds)
    (habove : ∀ f ∈ above, b.Knows f.destructibles) :
    Ends b (above.flatMap Frame.destructibles) log
      (popFrames fuel below.length rounds (t, log)) := by
  induction above generalizing t log rounds with
  | nil =>
      have hdone : popFrames fuel below.length rounds (t, log) =
          .ok () (t, log) := by
        cases rounds with
        | zero => rfl
        | succ rounds =>
            unfold popFrames
            rw [bind_read, if_neg (by simp [Arena.depth, hframes])]
            rfl
      rw [hdone]
      exact .nothing ht
  | cons top above ih =>
      obtain ⟨rounds, rfl⟩ : ∃ n, rounds = n + 1 :=
        ⟨rounds - 1, by simp at hrounds; omega⟩
      obtain ⟨htop, habove⟩ := List.forall_mem_cons.1 habove
      unfold popFrames
      rw [bind_read, if_pos (Arena.length_lt_depth hframes), List.flatMap_cons]
      refine (popFrame_ends hb fuel below.length ht hframes htop).bind
        fun u turns hrun hu => ?_
      have hpop := Erases.popFrame fuel below.length (t, log)
      rw [hrun] at hpop
      have hnext := Calls.popFrame_frames fuel hframes
      rw [← hpop] at hnext
      exact ih hu hnext.1 (by simpa using hrounds) habove

theorem popFramesTo_ends (hb : b.Closed) (fuel : Nat) {depth : Nat}
    (hdepth : depth < b.arena.depth) :
    Ends b (b.doomed depth) [] (popFramesTo fuel depth (b, [])) := by
  obtain ⟨below, hframes, rfl, -⟩ := Engine.framesAbove_append hdepth
  have hknown : ∀ f ∈ b.framesAbove below.length,
      b.Knows f.destructibles := fun f hf =>
    hb.known_destructibles (hframes ▸ List.mem_append_left below hf)
  exact popFrames_ends hb fuel (.refl hb) hframes
    (List.length_take_le' ..) hknown

end Frames

end Teardown

/-- What the frames above `depth` hold is destroyed in order, and the frames are
gone in the end.  The order stops short only at a destructor that fails.  `s`
says throughout what a value is made of: no destructor that runs on the way can
change that. -/
theorem destruction_order (fuel : Nat) {depth : Nat} {s : Engine}
    (hs : s.Closed) (hdepth : depth < s.arena.depth) :
    Teardown.Erases (Teardown.popFramesTo fuel depth)
      ((Calls.ofFuel fuel).popFramesTo depth) ∧
    match Teardown.popFramesTo fuel depth (s, []) with
    | .ok _ (t, turns) =>
        s.TornDown depth t ∧
          s.Unrolls (s.doomed depth) (turns.map Turn.object) [] ∧
          ∀ turn ∈ turns, turn.Passes
    | .error e (t, turns) =>
        s.TornDown depth t ∧
          (∃ pending,
            s.Unrolls (s.doomed depth) (turns.map Turn.object) pending) ∧
          ∀ failure, e = .failed failure → Teardown.EndIn turns failure := by
  have herases := Teardown.Erases.popFramesTo fuel depth
  have hgone := Calls.popFramesTo_tornDown fuel hdepth
  have hrun := herases (s, [])
  refine ⟨herases, ?_⟩
  cases Teardown.popFramesTo_ends hs fuel hdepth with
  | done t turns hresult _ h hpass =>
      rw [hresult] at hrun ⊢
      rw [Eval.after_ok hrun.symm] at hgone
      exact ⟨hgone, h, hpass⟩
  | stopped e t turns pending hresult h hlast =>
      rw [hresult] at hrun ⊢
      rw [Eval.after_error hrun.symm] at hgone
      exact ⟨hgone, ⟨pending, h⟩, hlast⟩

/-! ### Parts of parts -/

namespace Nested

def leaf (kind : NodeKind) (text : String) : Node := ⟨kind, text, .dummy, 0, []⟩

def field (name : String) (type : Node) : Node :=
  ⟨.variableDefinition, name, .dummy, 0, [type]⟩

def destructor (body : List Node) : Node :=
  ⟨.function, "destruct", .dummy, 0,
    [leaf .parameters "", ⟨.block, "", .dummy, 0, body⟩]⟩

/-- `class P { x : Bool, destruct() { body } }`. -/
def part (body : List Node) : Node :=
  ⟨.classDecl, "P", .dummy, 0,
    [field "x" (leaf .typeName "Bool"), destructor body]⟩

/-- `class Q { p : P, a : Array<P, 2>, destruct() {} }`. -/
def whole : Node :=
  ⟨.classDecl, "Q", .dummy, 0,
    [field "p" (leaf .typeName "P"),
      field "a" ⟨.typeName, "Array", .dummy, 0,
        [leaf .typeName "P",
          ⟨.expression, "", .dummy, 0, [leaf .integerLiteral "2"]⟩]⟩,
      destructor []]⟩

def perform (s : Engine) (node : Node) : Engine :=
  ((Request.item node).perform (Calls.ofFuel 20)).after s

def engine (body : List Node) : Engine :=
  [part body, whole, field "q" (leaf .typeName "Q")].foldl perform
    (.new { stackCapacity := 64, maxCallDepth := 2 } ⟨.buffer, ""⟩ none [])

theorem reachable (body : List Node) : Reachable (engine body) :=
  .after 20 (.item _)
    (.after 20 (.item _)
      (.after 20 (.item _) (.new _ _ _ _ (by decide)) trivial) trivial) trivial

def record (body : List Node) : List Value × Bool :=
  match Teardown.popFramesTo 20 0 (engine body, []) with
  | .ok _ st => (st.2.map Turn.object, true)
  | .error _ st => (st.2.map Turn.object, false)

end Nested

open Nested in
/-- First the object itself, then the elements of its array from the last to the
first, and then the field before the array. -/
theorem destruction_order_nested :
    (engine []).Closed ∧ 0 < (engine []).arena.depth ∧ ∃ t turns,
      Teardown.popFramesTo 20 0 (engine [], []) = .ok () (t, turns) ∧
      turns.map Turn.object = [⟨⟨17⟩, 12⟩, ⟨⟨15⟩, 14⟩, ⟨⟨15⟩, 13⟩, ⟨⟨15⟩, 12⟩] ∧
      (engine []).TornDown 0 t ∧
      (engine []).Unrolls ((engine []).doomed 0)
        (turns.map Turn.object) [] := by
  have hclosed : (engine []).Closed :=
    ((reachable []).good (I := fun _ => True)).closed
  have hdepth : 0 < (engine []).arena.depth := by decide +kernel
  have horder := (destruction_order 20 hclosed hdepth).2
  have hrecord : record [] =
      ([⟨⟨17⟩, 12⟩, ⟨⟨15⟩, 14⟩, ⟨⟨15⟩, 13⟩, ⟨⟨15⟩, 12⟩], true) := by
    decide +kernel
  unfold record at hrecord
  cases hrun : Teardown.popFramesTo 20 0 (engine [], []) with
  | ok _ st =>
      rw [hrun] at horder hrecord
      exact ⟨hclosed, hdepth, st.1, st.2, rfl, congrArg Prod.fst hrecord,
        horder.1, horder.2.1⟩
  | error e st =>
      rw [hrun] at hrecord
      cases congrArg Prod.snd hrecord

example :
    Nested.record [Nested.leaf .identifier "y"] =
      ([⟨⟨17⟩, 12⟩, ⟨⟨15⟩, 14⟩], false) := by
  decide +kernel

end ArenaScript
