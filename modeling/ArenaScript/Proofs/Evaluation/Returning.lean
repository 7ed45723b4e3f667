import ArenaScript.Proofs.Evaluation.Separation
import ArenaScript.Proofs.Evaluation.Teardown

/-!
# Returning a value

The result of a call gets its place in the caller's frame before the frame of
the call is pushed.  It lies below that frame and below all frames that are
pushed on top of it, so popping them releases none of its bytes.  A `return`
copies its value there from whatever depth of blocks it is executed in.  Only
when the body has ended is the frame of the call popped and what it holds
destroyed, the parameters included.
-/

namespace ArenaScript

open Engine (Good Reached Steady Quiet Grows)

/-! ## The place of the result -/

def Frame.receive (f : Frame) (types : TypeTable) : Option Value → Frame
  | some v =>
      if (types.get v.type).aggregate then
        { f with destructibles := v :: f.destructibles } else f
  | none => f

namespace Frame

variable (f : Frame) (types : TypeTable) (v : Value)

theorem receive_kept : f.Kept (f.receive types (some v)) := by
  unfold receive
  dsimp only
  split
  · exact ⟨rfl, rfl, rfl, rfl, List.suffix_cons _ _⟩
  · exact .refl f

theorem receive_locals : (f.receive types (some v)).locals = f.locals := by
  unfold receive
  dsimp only
  split <;> rfl

theorem receive_destructibles : (f.receive types (some v)).destructibles =
    if (types.get v.type).aggregate then v :: f.destructibles else
      f.destructibles := by
  unfold receive
  dsimp only
  split <;> rfl

end Frame

theorem Arena.claim_frames_cons {a : Arena} {f : Frame} {rest : List Frame}
    (hframes : a.frames = f :: rest) (types : TypeTable) (type : TypeId)
    (contents : List UInt8) : (a.claim types type contents).frames =
      f.receive types (some ⟨type, a.mark⟩) :: rest := by
  rw [claim_frames, hframes, List.modifyHead_cons]
  unfold Frame.receive
  dsimp only
  split
  · rfl
  · rfl

namespace Engine

def resultPlace (s : Engine) (ret : TypeId) : Option Value :=
  if ret = .void then none else some ⟨ret, s.arena.mark⟩

def pastResult (s : Engine) (ret : TypeId) : Nat :=
  if ret = .void then s.arena.mark else s.arena.mark + s.types.sizeOf ret

def callRecord (s : Engine) (id : FunctionId) : CallRecord where
  function := id
  owner := (s.functions.get id).owner
  returnSlot := s.resultPlace (s.functions.get id).ret

def called (s : Engine) (scope : ScopeId) (tree : TreeId)
    (record : CallRecord) : Engine :=
  ({ s with callDepth := s.callDepth + 1, currentTree := tree } : Engine).pushed
    scope .function (some record)

end Engine

theorem Calls.allocateResult_eq_ok {s t : Engine} {ret : TypeId}
    {place : Option Value} {caller : Frame} {rest : List Frame}
    (hframes : s.arena.frames = caller :: rest)
    (h : allocateResult ret s = .ok place t) :
    place = s.resultPlace ret ∧
    t.arena.frames = caller.receive s.types place :: rest ∧
      t.arena.mark = s.pastResult ret ∧ t = { s with arena := t.arena } := by
  unfold allocateResult at h
  unfold Engine.resultPlace Engine.pastResult
  by_cases hvoid : ret = .void
  · rw [if_pos hvoid] at h ⊢
    cases h
    exact ⟨rfl, hframes, (if_pos hvoid).symm, rfl⟩
  · rw [if_neg hvoid] at h ⊢
    rw [if_neg hvoid]
    have hrun : ∃ v, Eval.allocate ret s = .ok v t ∧ place = some v := by
      cases halloc : Eval.allocate ret s with
      | ok v u =>
          simp only [Functor.map, EStateM.map, halloc] at h
          cases h
          exact ⟨v, rfl, rfl⟩
      | error e u =>
          simp only [Functor.map, EStateM.map, halloc] at h
          cases h
    obtain ⟨v, hrun, rfl⟩ := hrun
    simp only [Eval.allocate, Eval.onArena] at hrun
    split at hrun
    · rename_i v' arena hop
      cases hrun
      obtain ⟨contents, hlength, -, rfl, rfl⟩ := Arena.allocate_eq_ok hop
      refine ⟨rfl, Arena.claim_frames_cons hframes .., ?_, rfl⟩
      rw [Arena.claim_mark, hlength]
    · cases hrun

/-! ## During a call -/

namespace Engine

/-- The call of `record` is active above `depth` frames.  Its frame and all
frames above it begin at or past `low`, where its result ends. -/
structure Serving (depth low : Nat) (record : CallRecord) (s : Engine) :
    Prop where
  frames : ∃ above callee below, s.arena.frames = above ++ callee :: below ∧
    below.length = depth ∧ callee.base = low ∧ callee.kind = .function ∧
      callee.call = some record ∧ ∀ f ∈ above, low ≤ f.base
  mark : low ≤ s.arena.mark
  result : ∀ place, record.returnSlot = some place →
    s.Knows place ∧ (s.span place).finish = low

namespace Serving

variable {depth low : Nat} {record : CallRecord} {s t : Engine}

theorem result_of_sizes (h : s.Serving depth low record)
    (hst : s.types.Grown t.types) :
    ∀ place, record.returnSlot = some place → t.Knows place ∧
      (t.span place).finish = low := by
  intro place hplace
  obtain ⟨hknown, hfinish⟩ := h.result place hplace
  refine ⟨Handles.mono hst.size hknown, ?_⟩
  unfold Engine.span at hfinish ⊢
  rwa [hst.sizeOf place.type hknown.1]

theorem quiet (h : s.Serving depth low record) (hst : s.Quiet t) :
    t.Serving depth low record where
  frames := by
    obtain ⟨above, callee, below, hframes, hdepth, hbase, hkind, hcall,
      habove⟩ := h.frames
    have hbare := hst.frames
    rw [hframes, List.map_append, List.map_cons] at hbare
    obtain ⟨above', rest, htframes, habove', hrest⟩ :=
      List.map_eq_append_iff.1 hbare
    obtain ⟨callee', below', rfl, hcallee, hbelow⟩ :=
      List.map_eq_cons_iff.1 hrest
    refine ⟨above', callee', below', htframes, ?_, ?_, ?_, ?_, fun f hf => ?_⟩
    · rw [← hdepth, ← List.length_map Frame.bare, hbelow, List.length_map]
    · exact (congrArg Frame.base hcallee).trans hbase
    · exact (congrArg Frame.kind hcallee).trans hkind
    · exact (congrArg Frame.call hcallee).trans hcall
    · have hmem : f.bare ∈ above.map Frame.bare :=
        habove' ▸ List.mem_map_of_mem hf
      obtain ⟨g, hg, hgf⟩ := List.mem_map.1 hmem
      change low ≤ f.bare.base
      rw [← hgf]
      exact habove g hg
  mark := Nat.le_trans h.mark hst.mark
  result := h.result_of_sizes hst.grows.types

theorem pushed (h : s.Serving depth low record) (scope : ScopeId)
    (kind : FrameKind) (call : Option CallRecord) :
    (s.pushed scope kind call).Serving depth low record where
  frames := by
    obtain ⟨above, callee, below, hframes, hdepth, hbase, hkind, hcall,
      habove⟩ := h.frames
    refine ⟨{ base := s.arena.mark, scope, kind, call } :: above, callee, below,
      ?_, hdepth, hbase,
      hkind, hcall, List.forall_mem_cons.2 ⟨h.mark, habove⟩⟩
    simp [Engine.pushed, Arena.pushFrame, hframes]
  mark := h.mark
  result := h.result

theorem bound (h : s.Serving depth low record) (name : String) (slot : Slot) :
    (s.bound name slot).Serving depth low record where
  frames := by
    obtain ⟨above, callee, below, hframes, hdepth, hbase, hkind, hcall,
      habove⟩ := h.frames
    have hbound : (s.bound name slot).arena.frames =
        (above ++ callee :: below).modifyHead (·.bind name slot) := by
      rw [← hframes]
      exact Arena.modifyTop_frames ..
    cases above with
    | nil => exact ⟨[], callee.bind name slot, below, hbound, hdepth, hbase,
      hkind, hcall, nofun⟩
    | cons top above =>
        obtain ⟨htop, habove⟩ := List.forall_mem_cons.1 habove
        exact ⟨top.bind name slot :: above, callee, below, hbound, hdepth,
          hbase, hkind, hcall,
          List.forall_mem_cons.2 ⟨htop, habove⟩⟩
  mark := by
    have hmark : (s.bound name slot).arena.mark = s.arena.mark :=
      Arena.modifyTop_mark ..
    rw [hmark]
    exact h.mark
  result := h.result

instance : Steady (Serving depth low record) where
  quiet hs _ hst := hs.inv.quiet hst
  tree _ hs := ⟨hs.inv.frames, hs.inv.mark, hs.inv.result⟩
  push scope kind hs := hs.inv.pushed scope kind none
  call {s} scope other id hs _ := by
    have hinner : ({ s with callDepth := s.callDepth + 1, currentTree := id } :
        Engine).Serving depth low record :=
      ⟨hs.inv.frames, hs.inv.mark, hs.inv.result⟩
    exact hinner.pushed scope .function (some other)
  bind name slot _ ht _ _ := ht.inv.bound name slot

end Serving

theorem Serving.currentCall? {depth low : Nat} {record : CallRecord}
    {s : Engine} (h : s.Serving depth low record)
    (hblocks : ∀ f ∈ s.framesAbove (depth + 1), f.kind = .block) :
    s.currentCall? = some record := by
  obtain ⟨above, callee, below, hframes, rfl, -, hkind, hcall, -⟩ := h.frames
  have habove : s.framesAbove (below.length + 1) = above := by
    unfold framesAbove
    rw [Arena.depth, hframes, List.length_append, List.length_cons,
      Nat.add_sub_cancel]
    exact List.take_left
  rw [habove] at hblocks
  have hnone : above.find? (·.kind == .function) = none := by
    refine List.find?_eq_none.2 fun f hf => ?_
    rw [hblocks f hf]
    decide
  unfold Engine.currentCall?
  rw [hframes, List.find?_append, hnone, Option.none_or,
    List.find?_cons_of_pos (by rw [hkind]; rfl)]
  exact hcall

theorem Quiet.currentCall? {s t : Engine} (h : s.Quiet t) :
    t.currentCall? = s.currentCall? := by
  have hbare : ∀ u : Engine, u.currentCall? =
      ((u.arena.frames.map Frame.bare).find? (·.kind == .function)).bind
        Frame.call := by
    intro u
    rw [List.find?_map, Option.bind_map]
    rfl
  rw [hbare, hbare, h.frames]

end Engine

namespace Calls

theorem alike_self {I : Engine → Prop} [Steady I] (fuel : Nat) :
    (watched (pure ()) fuel).Alike I (ofFuel fuel) :=
  .watched (fun _ _ => rfl) fuel

/-- A `return` with a value, in the call of `record`: when the value is known,
it is copied to the place of the result.  Nothing can be returned where there is
no such place. -/
def Delivers (fuel : Nat) (record : CallRecord) (node : Node) (s : Engine) :
    Prop :=
  ∀ expression, node.child? 0 = some expression → ∀ flow t,
    (ofFuel fuel).executeReturn node s = .ok flow t → flow = .returned ∧
      ∃ value u, (ofFuel fuel).evaluate expression s = .ok value u ∧
        match record.returnSlot with
        | some place => (ofFuel fuel).copyConstruct place value u = .ok () t
        | none => value.type = .void ∧ t = u

theorem executeReturn_delivers (fuel : Nat) {record : CallRecord} {s : Engine}
    (hs : s.Closed) (hcall : s.currentCall? = some record) (node : Node) :
    Delivers fuel record node s := by
  intro expression hchild flow t hrun
  unfold executeReturn at hrun
  rw [hchild] at hrun
  obtain ⟨value, u, hvalue, hrun⟩ := Eval.bind_eq_ok hrun
  have hquiet :=
    ((alike_self (I := fun _ => True) fuel).evaluate expression
      ⟨hs, trivial⟩).reached.rel
  rw [Eval.after_ok hvalue] at hquiet
  rw [Eval.bind_read, hquiet.currentCall?, hcall, Option.bind_some] at hrun
  cases hslot : record.returnSlot with
  | some place =>
      rw [hslot] at hrun
      obtain ⟨_, w, hcopy, hrun⟩ := Eval.bind_eq_ok hrun
      cases hrun
      exact ⟨rfl, value, u, hvalue, hcopy⟩
  | none =>
      rw [hslot] at hrun
      simp only at hrun
      split at hrun
      · rename_i hvoid
        cases hrun
        exact ⟨rfl, value, t, hvalue, hvoid, rfl⟩
      · cases hrun

end Calls

/-! ## Parameters -/

/-- The frame has the parameters as variables in `slots`, and those that are
aggregates are its to destroy. -/
structure Frame.Takes (types : TypeTable) (params : List Param)
    (slots : List Slot) (f g : Frame) : Prop where
  typed : slots.map Slot.type = params.map Param.type
  locals : g.locals = (params.zip slots).foldl
    (fun locals pair => locals.put pair.1.name pair.2) f.locals
  owned : ((slots.filter fun slot =>
    (types.get slot.type).aggregate).reverse.map f.resolve ++
    f.destructibles).Sublist g.destructibles
  kept : f.Kept g

namespace Frame.Takes

variable {types : TypeTable} {f g h : Frame}

theorem nil (types : TypeTable) (f : Frame) : f.Takes types [] [] f :=
  ⟨rfl, rfl, .refl _, .refl f⟩

theorem cons {param : Param} {params : List Param} {slot : Slot}
    {slots : List Slot} (hfg : f.Takes types [param] [slot] g)
    (hgh : g.Takes types params slots h) :
    f.Takes types (param :: params) (slot :: slots) h where
  typed := by
    have hhead : slot.type = param.type := by simpa using hfg.typed
    rw [List.map_cons, List.map_cons, hgh.typed, hhead]
  locals := by
    rw [List.zip_cons_cons, List.foldl_cons, hgh.locals, hfg.locals]
    rfl
  owned := by
    have hresolve : g.resolve = f.resolve := by
      funext slot
      rw [Frame.resolve, Frame.resolve, hfg.kept.base]
    have howned := hgh.owned
    rw [hresolve] at howned
    have hfirst := (List.Sublist.refl ((slots.filter fun slot =>
      (types.get slot.type).aggregate).reverse.map f.resolve)).append hfg.owned
    refine .trans ?_ (hfirst.trans howned)
    rewrite [show slot :: slots = [slot] ++ slots from rfl, List.filter_append,
      List.reverse_append, List.map_append, List.append_assoc]
    exact .refl _
  kept := hfg.kept.trans hgh.kept

end Frame.Takes

namespace Calls

open Engine (Follows Disciplined)

variable {fuel : Nat} {base s t : Engine} {f : Frame} {below : List Frame}

theorem copyConstruct_frame (hs : s.Closed) (dst src : Value)
    (hdst : s.Knows dst) (hsrc : s.Knows src)
    (hframes : s.arena.frames = f :: below) (hkind : f.kind.isRoot = false)
    (hrun : (ofFuel fuel).copyConstruct dst src s = .ok () t) :
    ∃ g, t.arena.frames = g :: below ∧ f.Kept g ∧ g.locals = f.locals := by
  have hquiet :=
    ((alike_self (I := fun _ => True) fuel).copyConstruct ⟨hs, trivial⟩ hdst
      hsrc).reached.rel
  have hdisciplined :=
    ((Within.ofFuel Disciplined.stable fuel).copyConstruct dst src).of_ok hrun
  have hroot : s.atRoot = false := by
    rw [Engine.atRoot, Arena.top?, hframes]
    exact hkind
  have hkept := (hdisciplined.of_inner hroot).arena.frames
  rw [Eval.after_ok hrun] at hquiet
  have hbare := hquiet.frames
  rw [hframes] at hkept hbare
  generalize t.arena.frames = frames at hkept hbare
  cases hkept with
  | @top _ g _ hg =>
      have hlocals : g.bare.locals = f.bare.locals := by
        rw [(List.cons.inj hbare).1]
      exact ⟨g, rfl, hg, hlocals⟩

theorem resolve_reserved (hs : s.Closed) (hframes : s.arena.frames = f :: below)
    (type : TypeId) :
    f.resolve ⟨type, s.arena.mark - s.arena.base⟩ = ⟨type, s.arena.mark⟩ := by
  have hbase : s.arena.base = f.base := by
    simp [Arena.base, Arena.top?, hframes]
  have hle := hs.wellFormed.base_le_mark
  have hlt := hs.mark_lt
  rw [hbase] at hle ⊢
  have hsum : f.base + (s.arena.mark - f.base) = s.arena.mark := by omega
  rw [Frame.resolve, Word.add_of_lt (by rwa [hsum]), hsum]

theorem bindArgument_takes (hs : base.Follows s) {param : Param}
    (hparam : base.Knows param) {arg : Value} (harg : base.Knows arg)
    (hframes : s.arena.frames = f :: below) (hkind : f.kind.isRoot = false)
    (hrun : (ofFuel fuel).bindArgument param arg s = .ok () t) :
    base.Follows t ∧ ∃ slot g, t.arena.frames = g :: below ∧
      f.Takes base.types [param] [slot] g := by
  have hreached :=
    ((alike_self (I := fun _ => True) fuel).bindArgument ⟨hs.closed, trivial⟩
      (hs.knows hparam) (hs.knows harg)).reached
  rw [Eval.after_ok hrun] at hreached
  refine ⟨⟨hreached.closed, hs.types.trans hreached.rel.types⟩, ?_⟩
  obtain ⟨slot, a, hreserve, hrun⟩ := Eval.bind_eq_ok hrun
  rw [Eval.bind_read] at hrun
  obtain ⟨_, u, hcopy, hbind⟩ := Eval.bind_eq_ok hrun
  obtain ⟨arena, hop, rfl⟩ := Engine.reserve_eq_ok hreserve
  obtain ⟨hstep, hslot⟩ := Engine.Step.reserve hs.closed (hs.knows hparam) hop
  obtain ⟨contents, -, -, rfl, rfl⟩ := Arena.reserve_fresh_eq_ok hop
  have hclaimed := f.receive_kept s.types ⟨param.type, s.arena.mark⟩
  have hroot :
      (f.receive s.types (some ⟨param.type, s.arena.mark⟩)).kind.isRoot =
        false := by
    rw [hclaimed.kind, hkind]
  obtain ⟨k, hkframes, hk, hlocals⟩ := copyConstruct_frame hstep.closed
    ⟨param.type, _⟩ arg ⟨hslot, Word.wrap_lt (_ + _)⟩ (hs.knows harg)
    (Arena.claim_frames_cons hframes s.types param.type contents) hroot hcopy
  cases hbind
  let slot : Slot := ⟨param.type, s.arena.mark - s.arena.base⟩
  have hframes' : (u.arena.modifyTop (·.bind param.name slot)).frames =
      k.bind param.name slot :: below := by
    rw [Arena.modifyTop_frames, hkframes, List.modifyHead_cons]
  refine ⟨slot, k.bind param.name slot, hframes', rfl, ?_, ?_, ?_⟩
  · rw [f.receive_locals] at hlocals
    exact congrArg (·.put param.name slot) hlocals
  · have hsuffix := hk.destructibles
    rw [Frame.receive_destructibles, hs.types.aggregate hparam] at hsuffix
    refine .trans ?_ hsuffix.sublist
    have hplace : f.resolve slot = ⟨param.type, s.arena.mark⟩ :=
      resolve_reserved hs.closed hframes param.type
    cases haggregate : (base.types.get param.type).aggregate with
    | true => simp [slot, haggregate, ← hplace]
    | false => simp [slot, haggregate]
  · exact (hclaimed.trans hk).trans ⟨rfl, rfl, rfl, rfl, List.suffix_rfl⟩

def bindArguments (c : Calls) (params : List Param) (args : List Value) :
    Eval Unit :=
  (params.zip args).forM fun (param, arg) => c.bindArgument param arg

theorem bindArguments_takes {params : List Param} {args : List Value}
    (hs : base.Follows s) (hparams : base.Knows params)
    (hargs : base.Knows args) (hlength : params.length ≤ args.length)
    (hframes : s.arena.frames = f :: below) (hkind : f.kind.isRoot = false)
    (hrun : (ofFuel fuel).bindArguments params args s = .ok () t) :
    base.Follows t ∧ ∃ slots g, t.arena.frames = g :: below ∧
      f.Takes base.types params slots g := by
  induction params generalizing args s f with
  | nil =>
      cases hrun
      exact ⟨hs, [], f, hframes, .nil _ f⟩
  | cons param params ih =>
      cases args with
      | nil => simp at hlength
      | cons arg args =>
          obtain ⟨hparam, hparams⟩ := Handles.known_cons.1 hparams
          obtain ⟨harg, hargs⟩ := Handles.known_cons.1 hargs
          obtain ⟨_, u, hfirst, hrun⟩ := Eval.bind_eq_ok hrun
          obtain ⟨hu, slot, g, hgframes, hg⟩ :=
            bindArgument_takes hs hparam harg hframes hkind hfirst
          have hgkind : g.kind.isRoot = false := by rw [hg.kept.kind, hkind]
          obtain ⟨ht, slots, h, hhframes, hh⟩ :=
            ih hu hparams hargs (by simpa using hlength) hgframes hgkind hrun
          exact ⟨ht, slot :: slots, h, hhframes, hg.cons hh⟩

end Calls

/-! ## A whole call -/

namespace Calls

open Engine (Follows Disciplined Inside Serving)

variable {c : Calls} {fuel : Nat} {s t : Engine} {id : FunctionId}
  {tree : TreeId} {node : Node} {scope : ScopeId} {args : List Value}
    {result : Option Value}

def inCallFrame (c : Calls) (id : FunctionId) (f : Function) (tree : TreeId)
    (node : Node) (scope : ScopeId) (args : List Value) (place : Option Value) :
    Eval Unit :=
  deeper <| Eval.withTree tree <|
    c.withFrame scope .function (some ⟨id, f.owner, place⟩) <|
    c.runBody node f.fixedParams args

structure Admitted (s : Engine) (id : FunctionId) (args : List Value)
    (place : Option Value) (a : Engine) : Prop where
  arity : (s.functions.get id).fixedParams.length ≤ args.length
  depth : s.callDepth < s.maxCallDepth
  allocated : allocateResult (s.functions.get id).ret s = .ok place a

theorem Admitted.invokeStep_eq {place : Option Value} {a : Engine}
    (h : Admitted s id args place a)
    (hbody : (s.functions.get id).body = .interpreted tree node scope)
    (c : Calls) :
    c.invokeStep id args s =
      (c.inCallFrame id (s.functions.get id) tree node scope args place >>=
        fun _ => pure place) a := by
  have hlimit : Eval.inspect (fun s : Engine =>
      if s.maxCallDepth ≤ s.callDepth then
        .error (Failure.callDepthExceeded s.maxCallDepth)
      else .ok ()) s = .ok () s := by
    simp only [Eval.inspect, if_neg (Nat.not_le.2 h.depth)]
  unfold invokeStep
  rw [Eval.bind_read, if_neg (Nat.not_lt.2 h.arity), hbody]
  dsimp only
  unfold invokeInterpreted
  rw [Eval.bind_ok hlimit, Eval.bind_ok h.allocated]
  rfl

theorem admitted_of_ok
    (hbody : (s.functions.get id).body = .interpreted tree node scope)
    (hrun : c.invokeStep id args s = .ok result t) :
    ∃ place a, Admitted s id args place a := by
  unfold invokeStep at hrun
  rw [Eval.bind_read] at hrun
  split at hrun
  · cases hrun
  · rename_i harity
    rw [hbody] at hrun
    unfold invokeInterpreted at hrun
    obtain ⟨_, u, hlimit, hrun⟩ := Eval.bind_eq_ok hrun
    obtain ⟨place, a, halloc, -⟩ := Eval.bind_eq_ok hrun
    simp only [Eval.inspect] at hlimit
    split at hlimit
    · cases hlimit
      rename_i hroom
      split at hroom
      · cases hroom
      · rename_i hdepth
        exact ⟨place, a, ⟨Nat.not_lt.1 harity, Nat.not_le.1 hdepth, halloc⟩⟩
    · cases hlimit

/-- The parts of a call that succeeds, from the engine in its frame on: the
arguments become variables, the body runs, and then everything is destroyed that
the frame holds. -/
inductive Course (fuel : Nat) (params : List Param) (node : Node)
    (args : List Value) (entered left : Engine) : Prop
  | intro {block : Node} {flow : Flow} {bound ended : Engine}
      {first start callee : Frame} {caller : List Frame} {slots : List Slot}
      {turns : List Turn} (hentered : entered.arena.frames = first :: caller)
      (hbind : (ofFuel fuel).bindArguments params args entered = .ok () bound)
      (hbound : bound.arena.frames = start :: caller)
      (hparams : first.Takes entered.types params slots start)
      (hblock : node.findChild? .block = some block)
      (hbody : (ofFuel fuel).executeAll block.children bound = .ok flow ended)
      (hended : ended.arena.frames = callee :: caller)
      (hkept : start.Kept callee)
      (hteardown : Teardown.popFramesTo fuel caller.length (ended, []) =
        .ok () (left, turns))
      (horder : ended.Unrolls callee.destructibles (turns.map Turn.object) [])
      (hpasses : ∀ turn ∈ turns, turn.Passes)

theorem inCallFrame_eq_ok {a : Engine} {f : Function} {place : Option Value}
    (hrun : c.inCallFrame id f tree node scope args place a = .ok () t) :
    ∃ ended left,
      c.runBody node f.fixedParams args
        (a.called scope tree ⟨id, f.owner, place⟩) =
        .ok () ended ∧ c.popFramesTo a.arena.depth ended = .ok () left ∧
      t = { left with
        callDepth := left.callDepth - 1, currentTree := a.currentTree } := by
  let inner : Engine :=
    { a with callDepth := a.callDepth + 1, currentTree := tree }
  have hframe : ∃ left, c.withFrame scope .function (some ⟨id, f.owner, place⟩)
      (c.runBody node f.fixedParams args) inner = .ok () left ∧
        t = { left with
          callDepth := left.callDepth - 1, currentTree := a.currentTree } := by
    unfold inCallFrame at hrun
    simp only [deeper, Eval.withTree] at hrun
    split at hrun
    · rename_i left hleft
      cases hrun
      split at hleft
      · rename_i left' hleft'
        cases hleft
        exact ⟨left', hleft', rfl⟩
      · cases hleft
    · cases hrun
  obtain ⟨left, hleft, rfl⟩ := hframe
  have hpush : Eval.updateArena
      (·.pushFrame scope .function (some ⟨id, f.owner, place⟩)) inner =
        .ok () (a.called scope tree ⟨id, f.owner, place⟩) := rfl
  unfold withFrame at hleft
  rw [Eval.bind_read, Eval.bind_ok hpush] at hleft
  obtain ⟨_, ended, hbody, hleft⟩ := Eval.bind_eq_ok hleft
  obtain ⟨_, left', hpop, hleft⟩ := Eval.bind_eq_ok hleft
  cases hleft
  exact ⟨ended, left, Eval.onStop_eq_ok hbody, hpop, rfl⟩

/-- If popping one frame succeeds, all that the frame holds has had its turn. -/
theorem teardown_of_ok (hs : s.Closed) {callee : Frame} {caller : List Frame}
    (hframes : s.arena.frames = callee :: caller)
    (hrun : (ofFuel fuel).popFramesTo caller.length s = .ok () t) :
    ∃ turns, Teardown.popFramesTo fuel caller.length (s, []) =
      .ok () (t, turns) ∧
      s.Unrolls callee.destructibles (turns.map Turn.object) [] ∧
        ∀ turn ∈ turns, turn.Passes := by
  have hdepth : s.arena.depth = caller.length + 1 := by
    rw [Arena.depth, hframes, List.length_cons]
  have hdoomed : s.doomed caller.length = callee.destructibles := by
    rw [Engine.doomed, Engine.framesAbove, hdepth,
      Nat.add_sub_cancel_left, hframes]
    simp
  have habove : caller.length < s.arena.depth := by omega
  have hend := Teardown.popFramesTo_ends hs fuel habove
  have hsame := Teardown.Erases.popFramesTo fuel caller.length (s, [])
  rw [hdoomed] at hend
  rw [hrun] at hsame
  cases hend with
  | done u turns hresult _ horder hpasses =>
      rw [hresult] at hsame
      cases hsame
      exact ⟨turns, hresult, horder, hpasses⟩
  | stopped e u turns pending hresult _ _ =>
      rw [hresult] at hsame
      cases hsame

/-- The body of a call finds the parameters in their slots, and what it leaves
in the frame of the call is destroyed. -/
theorem course_of_ok {caller : List Frame} {params : List Param} {first : Frame}
    {left : Engine} (hs : s.Closed) (hparams : s.Knows params)
    (hargs : s.Knows args) (hlength : params.length ≤ args.length)
    (hframes : s.arena.frames = first :: caller)
    (hkind : first.kind.isRoot = false)
    (hbody : (ofFuel fuel).runBody node params args s = .ok () t)
    (hpop : (ofFuel fuel).popFramesTo caller.length t = .ok () left) :
    Course fuel params node args s left := by
  obtain ⟨_, bound, hbind, hrest⟩ := Eval.bind_eq_ok hbody
  obtain ⟨hbound, slots, start, hstart, htakes⟩ :=
    bindArguments_takes (.refl hs) hparams hargs hlength hframes hkind hbind
  cases hblock : node.findChild? .block with
  | none =>
      rw [hblock] at hrest
      cases hrest
  | some block =>
      rw [hblock] at hrest
      obtain ⟨flow, u, hrun, hrest⟩ := Eval.bind_eq_ok hrest
      cases hrest
      have hend :=
        ((alike_self (I := fun _ => True) fuel).executeAll
          ⟨hbound.closed, trivial⟩ block.children).reached
      rw [Eval.after_ok hrun] at hend
      have hroot : bound.atRoot = false := by
        rw [Engine.atRoot, Arena.top?, hstart]
        exact (congrArg FrameKind.isRoot htakes.kept.kind).trans hkind
      have hdisciplined := (Within.ofFuel Disciplined.stable fuel).executeAll
        Disciplined.stable.toLocal block.children
      have hkept := ((hdisciplined.of_ok hrun).of_inner hroot).arena.frames
      rw [hstart] at hkept
      generalize hframes' : t.arena.frames = frames at hkept
      cases hkept with
      | top _ hkept =>
          obtain ⟨turns, hteardown, horder, hpasses⟩ :=
            teardown_of_ok hend.closed hframes' hpop
          exact .intro hframes hbind hstart htakes hblock hrun hframes' hkept
            hteardown horder hpasses

theorem inCallFrame_course {a : Engine} (ha : a.Closed) {f : Function}
    (hf : a.Knows f) {place : Option Value} (hplace : a.Knows place)
    (hargs : a.Knows args) (hlength : f.fixedParams.length ≤ args.length)
    (hrun : (ofFuel fuel).inCallFrame id f tree node scope args place a =
      .ok () t) :
    ∃ left, Course fuel f.fixedParams node args
      (a.called scope tree ⟨id, f.owner, place⟩) left ∧
      t = { left with callDepth := a.callDepth, currentTree := a.currentTree } ∧
      t.arena.frames = a.arena.frames ∧ t.arena.mark = a.arena.mark := by
  obtain ⟨ended, left, hbody, hpop, rfl⟩ := inCallFrame_eq_ok hrun
  let inner : Engine :=
    { a with callDepth := a.callDepth + 1, currentTree := tree }
  have hinner : inner.Closed := { ha with }
  have hentered : (a.called scope tree ⟨id, f.owner, place⟩).Closed :=
    hinner.pushed scope .function (Handles.known_some.2 ⟨hf.2.2.1, hplace⟩)
  have hdisciplined := Within.ofFuel Disciplined.stable fuel
  have hinside := (Inside.push inner scope (some ⟨id, f.owner, place⟩) rfl).step
    ((hdisciplined.runBody Disciplined.stable.toLocal node f.fixedParams
      args).of_ok hbody)
  have hrestored := popFramesTo_restored hdisciplined.destroy hinside
  change inner.Restored
    (((ofFuel fuel).popFramesTo a.arena.depth).after ended) at hrestored
  rw [Eval.after_ok hpop] at hrestored
  refine ⟨left, ?_, ?_, hrestored.frames, hrestored.mark⟩
  · exact course_of_ok hentered (Function.known_fixedParams hf) hargs hlength
      rfl rfl hbody hpop
  · rw [hrestored.callDepth]
    rfl

/-! ## Main statement -/

abbrev Calling (s : Engine) (id : FunctionId) : Engine → Prop :=
  Engine.Serving s.arena.depth (s.pastResult (s.functions.get id).ret)
    (s.callRecord id)

structure Returns (fuel : Nat) (s : Engine) (id : FunctionId) (tree : TreeId)
    (node : Node) (scope : ScopeId) (args : List Value) (caller : Frame)
    (rest : List Frame) (result : Option Value) (t : Engine) : Prop where
  place : result = s.resultPlace (s.functions.get id).ret
  /-- The caller's frame gains the result if that is an aggregate, and nothing
  else. -/
  frames : t.arena.frames = caller.receive s.types result :: rest
  mark : t.arena.mark = s.pastResult (s.functions.get id).ret
  /-- All that time the result lies below the frame of the call and those above
  it. -/
  during : Throughout (Good (Calling s id)) fuel
    (fun c => c.invokeStep id args) s
  /-- A `return` in whatever blocks of the body copies its value to the place of
  the result. -/
  delivers : ∀ (n : Nat) (node : Node) (u : Engine), u.Good (Calling s id) →
    (∀ f ∈ u.framesAbove (s.arena.depth + 1), f.kind = .block) →
      Delivers n (s.callRecord id) node u
  /-- When the body has ended, the frame of the call is popped and what it holds
  is destroyed. -/
  course : ∃ a left, allocateResult (s.functions.get id).ret s = .ok result a ∧
    Course fuel (s.functions.get id).fixedParams node args
      (a.called scope tree (s.callRecord id))
      left ∧
    t = { left with callDepth := s.callDepth, currentTree := s.currentTree }

theorem calling_entered {a : Engine} {place : Option Value} {caller : Frame}
    {rest : List Frame} (hs : s.Closed)
    (hframes : s.arena.frames = caller :: rest)
    (halloc : allocateResult (s.functions.get id).ret s = .ok place a)
    (scope : ScopeId) (tree : TreeId) :
    Calling s id (a.called scope tree (s.callRecord id)) := by
  obtain ⟨rfl, haframes, hmark, ha⟩ := allocateResult_eq_ok hframes halloc
  have hdepth : a.arena.frames.length = s.arena.depth := by
    rw [haframes, Arena.depth, hframes]
    rfl
  have htypes : a.types = s.types := by rw [ha]
  refine ⟨⟨[], _, a.arena.frames, rfl, hdepth, hmark, rfl, rfl, ?_⟩,
    Nat.le_of_eq hmark.symm, ?_⟩
  · exact fun _ h => absurd h List.not_mem_nil
  intro place hplace
  have hret : s.Knows (s.functions.get id).ret := (hs.functions id).2.1
  simp only [Engine.callRecord, Engine.resultPlace] at hplace
  split at hplace
  · cases hplace
  · rename_i hvoid
    cases hplace
    refine ⟨?_, ?_⟩
    · change Handles.Known a.types.size _
      rw [htypes]
      exact ⟨hret, hs.mark_lt⟩
    · change s.arena.mark + a.types.sizeOf _ = _
      rw [htypes, Engine.pastResult, if_neg hvoid]

theorem Admitted.step {a : Engine} {place : Option Value}
    (h : Admitted s id args place a) (hs : s.Closed) :
    a.Closed ∧ s.Quiet a ∧ a.Knows place := by
  have hsound :=
    Alike.allocateResult (I := fun _ => True) ⟨hs, trivial⟩
      (hs.functions id).2.1
  have hreached := hsound.reached
  rw [Eval.after_ok h.allocated] at hreached
  exact ⟨hreached.closed, hreached.rel, hsound.known place a h.allocated⟩

/-- Whoever watches a call finds it active until its frame is popped. -/
theorem Admitted.during {a : Engine} {place : Option Value} {caller : Frame}
    {rest : List Frame} (h : Admitted s id args place a) (hs : s.Closed)
    (hargs : s.Knows args)
    (hbody : (s.functions.get id).body = .interpreted tree node scope)
    (hframes : s.arena.frames = caller :: rest) :
    Throughout (Good (Calling s id)) fuel
      (fun c => c.invokeStep id args) s := by
  intro watch hwatch
  have hc : (watched watch fuel).Alike (Calling s id) (ofFuel fuel) :=
    .watched hwatch fuel
  have hentered := calling_entered hs hframes h.allocated scope tree
  obtain ⟨ha, hquiet, hplace⟩ := h.step hs
  obtain ⟨rfl, -⟩ := allocateResult_eq_ok hframes h.allocated
  have hf : a.Knows (s.functions.get id) :=
    Handles.mono hquiet.grows.types.size (hs.functions id)
  have hknown : a.Knows args := Handles.mono hquiet.grows.types.size hargs
  let inner : Engine :=
    { a with callDepth := a.callDepth + 1, currentTree := tree }
  have hinner : inner.Closed := { ha with }
  have hcall : inner.Knows (some (s.callRecord id)) :=
    Handles.known_some.2 ⟨hf.2.2.1, hplace⟩
  have hdisciplined :=
    hc.disciplined.runBody Engine.Disciplined.stable.toLocal node
    (s.functions.get id).fixedParams args
  have hframed :=
    Framed.call (hc.withFrame hinner scope rfl hcall hentered (hdisciplined _)
      fun hpushed =>
        hc.runBody hpushed node (Function.known_fixedParams hf) hknown)
  have hsame :
      (watched watch fuel).inCallFrame id (s.functions.get id) tree node scope
        args _ a =
      (ofFuel fuel).inCallFrame id (s.functions.get id) tree node scope args _
        a := hframed.same
  simp only [h.invokeStep_eq hbody, Bind.bind, EStateM.bind, hsame]

/-- The return protocol of a declared function.  The result has its place at the
old mark and the call its frame right behind it; in the end the mark is there
again, and by then everything that the frame of the call held has been
destroyed. -/
theorem invoke_returns (fuel : Nat) {s t : Engine} (hs : s.Closed)
    {id : FunctionId} {args : List Value} (hargs : s.Knows args) {tree : TreeId}
    {node : Node} {scope : ScopeId}
    (hbody : (s.functions.get id).body = .interpreted tree node scope)
    {caller : Frame} {rest : List Frame}
    (hframes : s.arena.frames = caller :: rest) {result : Option Value}
    (hrun : (ofFuel (fuel + 1)).invoke id args s = .ok result t) :
    Returns fuel s id tree node scope args caller rest result t := by
  change (ofFuel fuel).invokeStep id args s = .ok result t at hrun
  obtain ⟨place, a, hadmitted⟩ := admitted_of_ok hbody hrun
  rw [hadmitted.invokeStep_eq hbody] at hrun
  obtain ⟨_, u, hframe, hrun⟩ := Eval.bind_eq_ok hrun
  cases hrun
  obtain ⟨ha, hquiet, hplace⟩ := hadmitted.step hs
  obtain ⟨hresult, haframes, hmark, -⟩ :=
    allocateResult_eq_ok hframes hadmitted.allocated
  have hsize := hquiet.grows.types.size
  obtain ⟨left, hcourse, ht, htframes, htmark⟩ := inCallFrame_course ha
    (Handles.mono hsize (hs.functions id)) hplace (Handles.mono hsize hargs)
      hadmitted.arity hframe
  refine ⟨hresult, htframes.trans haframes, htmark.trans hmark,
    hadmitted.during hs hargs hbody hframes, fun n node u hu hblocks => ?_,
    a, left, hadmitted.allocated, ?_, ?_⟩
  · exact executeReturn_delivers n hu.closed (hu.inv.currentCall? hblocks) node
  · rw [Engine.callRecord, ← hresult]
    exact hcourse
  · rw [ht, hquiet.callDepth, hquiet.currentTree]

end Calls

/-! ### A value returned from a block -/

namespace Keeping

open Nested

/-- `function keep(p: P) -> P { q: P; { return p; } }`. -/
def function : Node :=
  ⟨.function, "keep", .dummy, 0,
    [⟨.parameters, "", .dummy, 0,
      [⟨.parameter, "p", .dummy, 0, [leaf .typeName "P"]⟩]⟩, leaf .typeName "P",
      ⟨.block, "", .dummy, 0,
        [field "q" (leaf .typeName "P"),
          ⟨.block, "", .dummy, 0,
            [⟨.returnStmt, "", .dummy, 0, [leaf .identifier "p"]⟩]⟩]⟩]⟩

def engine : Engine :=
  [part [], function, field "x" (leaf .typeName "P")].foldl Nested.perform
    (.new { stackCapacity := 64, maxCallDepth := 2 } ⟨.buffer, ""⟩ none [])

def argument : Value := ⟨⟨15⟩, 8⟩

theorem reachable : Reachable engine :=
  .after 20 (.item _)
    (.after 20 (.item _)
      (.after 20 (.item _) (.new _ _ _ _ (by decide)) trivial) trivial) trivial

end Keeping

open Keeping in
theorem Calls.invoke_returns_kept :
    ∃ tree node scope caller t, engine.Closed ∧ engine.Knows [argument] ∧
      (engine.functions.get ⟨3⟩).body = .interpreted tree node scope ∧
      engine.arena.frames = [caller] ∧
      (ofFuel 20).invoke ⟨3⟩ [argument] engine = .ok (some ⟨⟨15⟩, 9⟩) t ∧
      Returns 19 engine ⟨3⟩ tree node scope [argument] caller []
        (some ⟨⟨15⟩, 9⟩) t := by
  have hclosed : engine.Closed := (reachable.good (I := fun _ => True)).closed
  have htype : 15 < engine.types.size := by decide +kernel
  have hargs : engine.Knows [argument] :=
    Handles.known_cons.2 ⟨⟨htype, by decide⟩, Handles.known_nil⟩
  have hrun : (ofFuel 20).invoke ⟨3⟩ [argument] engine =
      .ok (some ⟨⟨15⟩, 9⟩) _ :=
    Eval.eq_ok_of_value? (by decide +kernel)
  have hlength : engine.arena.frames.length = 1 := by decide +kernel
  obtain ⟨caller, hframes⟩ := List.length_eq_one_iff.1 hlength
  have hdeclared : (engine.functions.get ⟨3⟩).isNative = false := by
    decide +kernel
  cases hbody : (engine.functions.get ⟨3⟩).body with
  | native what =>
      rw [Function.isNative, hbody] at hdeclared
      cases hdeclared
  | interpreted tree node scope =>
      exact ⟨tree, node, scope, caller, _, hclosed, hargs, rfl, hframes, hrun,
        invoke_returns 19 hclosed hargs hbody hframes hrun⟩

end ArenaScript
