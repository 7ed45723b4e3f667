import ArenaScript.Proofs.Evaluation.Separation
import ArenaScript.Proofs.Modules.Silence

/-!
# Temporaries that become variables

A definition makes a temporary its variable when the temporary ends at the mark,
and copies any other value into a place of its own.  A variable that exists
already ends below the mark at which the definition begins.  So it is taken for
a temporary only if it has no bytes and lies at the mark, and is copied
otherwise: the innermost frame then owns one more aggregate.
-/

namespace ArenaScript

open Engine (Good Quiet Silent Enduring)

namespace Calls

variable {c : Calls} {node init : Node} {typeNode : Option Node}
  {declared : Option TypeId} {name : String} {s t : Engine} {value : Value}
    {type : TypeId}

def declaredType (c : Calls) : Option Node → Eval (Option TypeId)
  | some typeNode => do
    pure (some (← c.resolveType typeNode (← Eval.currentScope)))
  | none => pure none

def bindSlot (name : String) (slot : Slot) : Eval Unit := do
  match ← Eval.read fun s => s.arena.top? with
  | some _ => Eval.updateArena (·.modifyTop (·.bind name slot))
  | none => Eval.fail (Failure.unexpectedNode .variableDefinition)

def copyDefinition (c : Calls) (name : String) (type : TypeId) (value : Value) :
    Eval Unit := do
  let slot ← Eval.reserve type false
  c.copyConstruct (← topSlot slot) value
  bindSlot name slot

def adoptDefinition (name : String) (type : TypeId) : Eval Unit := do
  bindSlot name (← Eval.reserve type true)

theorem executeDefinition_eq
    (hparts : definitionParts node = (typeNode, some init)) :
    c.executeDefinition node = (do
      let declared ← c.declaredType typeNode
      let slot ← c.defineFrom node.text declared init
      bindSlot node.text slot) := by
  unfold executeDefinition declaredType
  rw [hparts]
  cases typeNode with
  | none =>
      simp only [pure_bind]
      rfl
  | some typeNode =>
      simp only [bind_assoc, pure_bind, map_eq_pure_bind]
      rfl

/-- Only a fresh temporary is adopted. -/
theorem defineFrom_run (hvalue : c.evaluate init s = .ok value t)
    (htype : declared.getD (t.types.decay value.type) = type)
    (hvoid : type ≠ .void) :
    (c.defineFrom name declared init >>= bindSlot name) s =
      if t.isFreshTemporary value type s.arena.mark then
        adoptDefinition name type t
      else c.copyDefinition name type value t := by
  subst htype
  unfold defineFrom
  rw [bind_assoc, Eval.bind_read, bind_assoc, Eval.bind_ok hvalue, bind_assoc,
    Eval.bind_read]
  simp only [if_neg hvoid, bind_assoc]
  rw [Eval.bind_read]
  split
  · rfl
  · simp [copyDefinition]

end Calls

/-! ## What a definition leaves -/

namespace Engine

structure Gains (t : Engine) (place : Value) (u : Engine) : Prop where
  addr : place.addr = t.arena.mark
  mark : u.arena.mark = t.arena.mark + t.types.sizeOf place.type
  frames : ∃ top rest, t.arena.frames = top :: rest ∧
    u.arena.frames = { top with
      destructibles := place :: top.destructibles } :: rest

/-- The end of a definition that copies `value` into a variable of its own.
Whatever the copy construction does, the frames go on to own all they owned and
the new variable. -/
inductive Copies (c : Calls) (name : String) (type : TypeId) (value : Value)
    (t : Engine) :
    EStateM.Result Stop Engine Unit → Prop
  | full : Copies c name type value t
      (.error (.failed (Failure.stackOverflow (t.types.sizeOf type)
        (t.arena.capacity - t.arena.mark))) t)
  | failed {u w : Engine} {addr : Nat} {e : Stop} (hu : t.Gains ⟨type, addr⟩ u)
      (hcopy : c.copyConstruct ⟨type, addr⟩ value u = .error e w)
      (hw : u.Kept w) :
      Copies c name type value t (.error e w)
  | copied {u w : Engine} {addr : Nat} {slot : Slot}
      (hu : t.Gains ⟨type, addr⟩ u)
      (hcopy : c.copyConstruct ⟨type, addr⟩ value u = .ok () w) (hw : u.Kept w)
      (hslot : w.arena.top?.map (·.resolve slot) = some ⟨type, addr⟩) :
      Copies c name type value t (.ok () (w.bound name slot))

inductive Adopts (name : String) (value : Value) (t : Engine) :
    EStateM.Result Stop Engine Unit → Prop
  | adopted {slot : Slot}
      (hslot : t.arena.top?.map (·.resolve slot) = some value) :
      Adopts name value t (.ok () (t.bound name slot))

def owned (s : Engine) : List Value :=
  (s.arena.top?.map Frame.destructibles).getD []

/-- After the copy the innermost frame owns the new variable in addition.
Anything that comes on top of it has been left there by the copy
construction. -/
theorem Copies.owned {c : Calls} {name : String} {type : TypeId} {value : Value}
    {t w : Engine} (h : t.Copies c name type value (.ok () w)) :
    ∃ later, w.owned = later ++ ⟨type, t.arena.mark⟩ :: t.owned := by
  cases h with
  | @copied u w addr slot hu _ hw _ =>
      obtain ⟨top, rest, ht, hframes⟩ := hu.frames
      have hkept := hw.arena.frames
      rw [hframes] at hkept
      obtain rfl : addr = t.arena.mark := hu.addr
      unfold Engine.owned bound Arena.top?
      rw [ht, Arena.modifyTop_frames]
      generalize w.arena.frames = frames at hkept
      cases hkept with
      | top _ h =>
          obtain ⟨later, hlater⟩ := h.destructibles
          exact ⟨later, hlater.symm⟩

end Engine

namespace Calls

variable {name : String} {s t : Engine} {value : Value} {type : TypeId}

theorem bindSlot_run {top : Frame} (htop : t.arena.top? = some top)
    (slot : Slot) : bindSlot name slot t = .ok () (t.bound name slot) := by
  unfold bindSlot
  rw [Eval.bind_read, htop]
  rfl

theorem top_of_bindSlot {w : Engine} {slot : Slot}
    (h : bindSlot name slot t = .ok () w) : ∃ top, t.arena.top? = some top := by
  unfold bindSlot at h
  rw [Eval.bind_read] at h
  cases htop : t.arena.top? with
  | some top => exact ⟨top, rfl⟩
  | none =>
      rw [htop] at h
      cases h

theorem reserve_full
    (hroom : ¬ t.arena.mark + t.types.sizeOf type ≤ t.arena.capacity) :
    Eval.reserve type false t =
      .error (.failed (Failure.stackOverflow (t.types.sizeOf type)
        (t.arena.capacity - t.arena.mark))) t := by
  simp [Eval.reserve, Eval.onArena, Arena.reserve, Arena.allocate, hroom]

theorem reserve_gains (ht : t.Closed)
    (haggregate : (t.types.get type).aggregate = true) {top : Frame}
    {rest : List Frame} (hframes : t.arena.frames = top :: rest)
    (hroom : t.arena.mark + t.types.sizeOf type ≤ t.arena.capacity) :
    ∃ u slot, Eval.reserve type false t = .ok slot u ∧
      t.Gains ⟨type, t.arena.mark⟩ u ∧
      top.resolve slot = ⟨type, t.arena.mark⟩ := by
  have hmark := ht.mark_lt
  have hbase := ht.wellFormed.base_le_mark
  have hbase_eq : t.arena.base = top.base := by
    simp [Arena.base, Arena.top?, hframes]
  cases hreserve : Eval.reserve type false t with
  | error e u =>
      simp [Eval.reserve, Eval.onArena, Arena.reserve, Arena.allocate,
        hroom] at hreserve
  | ok slot u =>
      obtain ⟨arena, harena, rfl⟩ := Engine.reserve_eq_ok hreserve
      obtain ⟨contents, hlength, -, rfl, rfl⟩ :=
        Arena.reserve_fresh_eq_ok harena
      refine ⟨_, _, rfl, ⟨rfl, ?_, top, rest, hframes, ?_⟩, ?_⟩
      · rw [Arena.claim_mark, hlength]
      · rw [Arena.claim_frames, if_pos haggregate, hframes]
        rfl
      · rw [hbase_eq] at hbase ⊢
        have hadd : Word.add top.base (t.arena.mark - top.base) =
            t.arena.mark := by
          rw [Word.add_of_lt (by omega)]
          omega
        rw [Frame.resolve, hadd]

theorem copyDefinition_copies (fuel : Nat) (ht : t.Closed)
    (haggregate : (t.types.get type).aggregate = true)
    (hframes : t.arena.frames ≠ []) :
    t.Copies (ofFuel fuel) name type value
      ((ofFuel fuel).copyDefinition name type value t) := by
  obtain ⟨top, rest, hframes⟩ := List.exists_cons_of_ne_nil hframes
  unfold copyDefinition
  by_cases hroom : t.arena.mark + t.types.sizeOf type ≤ t.arena.capacity
  · obtain ⟨u, slot, hreserve, hgains, hslot⟩ :=
      reserve_gains ht haggregate hframes hroom
    obtain ⟨top', rest', hframes', hu⟩ := hgains.frames
    cases hframes.symm.trans hframes'
    have htop : topSlot slot u = .ok ⟨type, t.arena.mark⟩ u := by
      simp only [topSlot, Eval.inspect, Arena.top?, hu, List.head?_cons]
      rw [← hslot]
      rfl
    have hsilent :=
      (Discreet.ofFuel fuel).plain.copyConstruct ⟨type, t.arena.mark⟩ value u
    rw [Eval.bind_ok hreserve, Eval.bind_ok htop]
    cases hcopy : (ofFuel fuel).copyConstruct ⟨type, t.arena.mark⟩ value u with
    | error e w =>
        rw [Eval.after_error hcopy] at hsilent
        rw [Eval.bind_error hcopy]
        exact .failed hgains hcopy hsilent.kept
    | ok _ w =>
        rw [Eval.after_ok hcopy] at hsilent
        rw [Eval.bind_ok hcopy]
        have hkept := hsilent.kept.arena.frames
        rw [hu] at hkept
        obtain ⟨top', htop', hresolve⟩ : ∃ top', w.arena.top? = some top' ∧
            top'.resolve slot = top.resolve slot := by
          unfold Arena.top?
          generalize w.arena.frames = frames at hkept
          cases hkept with
          | top _ h => exact ⟨_, rfl, by rw [Frame.resolve, h.base]; rfl⟩
        rw [bindSlot_run htop']
        refine .copied hgains hcopy hsilent.kept ?_
        rw [htop', Option.map_some, hresolve, hslot]
  · rw [Eval.bind_error (reserve_full hroom)]
    exact .full

theorem adoptDefinition_adopts (ht : t.Closed) {top : Frame}
    (htop : t.arena.top? = some top) (hstart : top.base ≤ value.addr)
    (hfinish : value.addr + t.types.sizeOf value.type = t.arena.mark) :
    Engine.Adopts name value t (adoptDefinition name value.type t) := by
  have hmark := ht.mark_lt
  have hbase : t.arena.base = top.base := by simp [Arena.base, htop]
  have hroom : top.base + t.types.sizeOf value.type ≤ t.arena.mark := by omega
  have hreserve : Eval.reserve value.type true t =
      .ok ⟨value.type, t.arena.mark - t.types.sizeOf value.type - top.base⟩
        t := by
    simp [Eval.reserve, Eval.onArena, Arena.reserve, hbase, hroom]
  have hadd :
      Word.add top.base (t.arena.mark - t.types.sizeOf value.type - top.base) =
      value.addr := by
    rw [Word.add_of_lt (by omega)]
    omega
  unfold adoptDefinition
  rw [Eval.bind_ok hreserve, bindSlot_run htop]
  refine .adopted ?_
  rw [htop, Option.map_some, Frame.resolve, hadd]

end Calls

/-! ## Main statement -/

inductive Defining (c : Calls) (s : Engine) (node : Node) (r t : Engine)
    (type : TypeId) (value : Value) : Prop
  | intro {typeNode : Option Node} {init : Node} {declared : Option TypeId}
      (hparts : definitionParts node = (typeNode, some init))
      (hdeclared : c.declaredType typeNode s = .ok declared r)
      (hvalue : c.evaluate init r = .ok value t)
      (htype : declared.getD (t.types.decay value.type) = type)

namespace Engine

def VoidPlain (s : Engine) : Prop := (s.types.get .void).aggregate = false

instance : Enduring VoidPlain where
  quiet hs _ h :=
    (h.grows.types.aggregate (hs.closed.knows_builtin (by decide))).trans hs.inv
  tree _ hs := hs.inv
  push _ _ hs := hs.inv
  call _ _ _ hs _ := hs.inv
  bind _ _ _ ht _ _ := ht.inv
  new _ _ _ _ := rfl
  pop hs _ := hs.inv

def AtMark (t : Engine) (type : TypeId) (value : Value) : Prop :=
  value.type = type ∧ t.types.sizeOf type = 0 ∧ value.addr = t.arena.mark

structure CopiesVariables (s : Engine) : Prop where
  /-- Evaluating the initializer takes nothing away from what the frames own. -/
  kept : ∀ {fuel node r t type value},
    Defining (Calls.ofFuel fuel) s node r t type value →
    s.Kept t
  /-- A variable that exists already is copied. -/
  copied : ∀ {fuel node r t type value x f},
    Defining (Calls.ofFuel fuel) s node r t type value →
    (t.types.get type).aggregate = true → s.Denotes x f value →
    ¬ t.AtMark type value →
      t.Copies (Calls.ofFuel fuel) node.text type value
        ((Calls.ofFuel fuel).executeDefinition node s)
  /-- An empty one at the mark is not. -/
  atMark : ∀ {fuel node r t type value x f},
    Defining (Calls.ofFuel fuel) s node r t type value →
    (t.types.get type).aggregate = true → s.Denotes x f value →
    t.AtMark type value →
      Adopts node.text value t ((Calls.ofFuel fuel).executeDefinition node s)
  /-- What is not copied lies between the mark before and the mark after the
  evaluation. -/
  fresh : ∀ {fuel node r t type value w},
    Defining (Calls.ofFuel fuel) s node r t type value →
    (t.types.get type).aggregate = true →
    (Calls.ofFuel fuel).executeDefinition node s = .ok () w →
      t.Copies (Calls.ofFuel fuel) node.text type value (.ok () w) ∨
        Adopts node.text value t (.ok () w) ∧ r.arena.mark ≤ value.addr ∧
          value.addr + t.types.sizeOf value.type = t.arena.mark

end Engine

namespace Calls

theorem Alike.declaredType {I : Engine → Prop} [Engine.Steady I] {c d : Calls}
    {s : Engine} (hc : c.Alike I d) (hs : s.Good I) (typeNode : Option Node) :
    Agree I Quiet s (c.declaredType typeNode) (d.declaredType typeNode) := by
  cases typeNode with
  | none => exact .pure hs Handles.known_none
  | some typeNode =>
      refine .bind_read
        (.bind (hc.resolveType typeNode _ hs) fun type t ht htype => ?_)
      exact .pure ht.good (Handles.known_some.2 htype)

theorem declaredType_silent (fuel : Nat) (typeNode : Option Node) :
    Eval.Within Silent ((ofFuel fuel).declaredType typeNode) := by
  cases typeNode with
  | none => exact Silent.composable.pure none
  | some typeNode =>
      refine Silent.composable.bind (Silent.composable.read _) fun scope => ?_
      exact Silent.composable.bind
        ((Discreet.ofFuel fuel).plain.resolveType typeNode scope)
        fun _ => Silent.composable.pure _

end Calls

namespace Defining

variable {fuel : Nat} {node : Node} {s r t : Engine} {type : TypeId}
  {value : Value}

theorem quiet {I : Engine → Prop} [Engine.Steady I]
    (h : Defining (Calls.ofFuel fuel) s node r t type value) (hs : s.Good I) :
    s.Quiet r ∧ r.Good I ∧ r.Quiet t ∧ t.Good I ∧ t.Knows value := by
  have halike : (Calls.watched (pure ()) fuel).Alike I (Calls.ofFuel fuel) :=
    .watched (fun _ _ => rfl) fuel
  cases h with
  | @intro typeNode init _ hparts hdeclared hvalue htype =>
      have hr := (halike.declaredType hs typeNode).reached
      rw [Eval.after_ok hdeclared] at hr
      have ht := halike.evaluate init hr.good
      have hreached := ht.reached
      rw [Eval.after_ok hvalue] at hreached
      exact ⟨hr.rel, hr.good, hreached.rel, hreached.good, ht.known _ _ hvalue⟩

theorem silent (h : Defining (Calls.ofFuel fuel) s node r t type value) :
    s.Silent t := by
  cases h with
  | @intro typeNode init _ hparts hdeclared hvalue htype =>
      have hr := Calls.declaredType_silent fuel typeNode s
      have ht := (Calls.Discreet.ofFuel fuel).plain.evaluate init r
      rw [Eval.after_ok hdeclared] at hr
      rw [Eval.after_ok hvalue] at ht
      exact hr.trans ht

theorem run (h : Defining (Calls.ofFuel fuel) s node r t type value)
    (hvoid : type ≠ .void) :
    (Calls.ofFuel fuel).executeDefinition node s =
      if t.isFreshTemporary value type r.arena.mark then
        Calls.adoptDefinition node.text type t
      else (Calls.ofFuel fuel).copyDefinition node.text type value t := by
  cases h with
  | intro hparts hdeclared hvalue htype =>
      rw [Calls.executeDefinition_eq hparts, Eval.bind_ok hdeclared]
      exact Calls.defineFrom_run hvalue htype hvoid

end Defining

namespace Engine

variable {s r t : Engine} {value : Value} {x : Variable} {f : Frame}

theorem Fenced.denotes_finish (hs : s.Good Fenced) (h : s.Denotes x f value) :
    s.Knows value ∧ value.addr + s.types.sizeOf value.type ≤ s.arena.mark := by
  cases h with
  | @intro i f name slot hf hslot =>
      have hmem := List.mem_of_getElem? hf
      have hspan := Fenced.span_resolve hs hf hslot
      have hfinish := ArenaScript.Fenced.finish_le hs.inv hf hslot
      rw [← hspan] at hfinish
      exact ⟨Frame.known_resolve
        ((hs.closed.knows_frame hmem).1 name slot hslot), hfinish⟩

theorem isFreshTemporary_iff_atMark (hs : s.Good Fenced) (hsr : s.Quiet r)
    (hrt : r.Quiet t) (h : s.Denotes x f value) (type : TypeId) :
    t.isFreshTemporary value type r.arena.mark = true ↔
    t.AtMark type value := by
  obtain ⟨hknows, hfinish⟩ := Fenced.denotes_finish hs h
  have hsize := (hsr.trans hrt).grows.types.sizeOf value.type hknows.1
  have hmark := hsr.mark
  have hmark' := hrt.mark
  have haddr : value.addr < Word.modulus := hknows.2
  simp only [isFreshTemporary, AtMark, Bool.and_eq_true, beq_iff_eq,
    decide_eq_true_eq]
  constructor
  · rintro ⟨⟨rfl, hstart⟩, hend⟩
    have hempty : t.types.sizeOf value.type = 0 := by omega
    rw [hempty, Word.add_of_lt (by omega)] at hend
    exact ⟨rfl, hempty, hend⟩
  · rintro ⟨rfl, hempty, hat⟩
    refine ⟨⟨rfl, by omega⟩, ?_⟩
    rw [hempty, Word.add_of_lt (by omega)]
    exact hat

theorem Denotes.frames_ne (h : s.Denotes x f value) (hst : s.Quiet t) :
    t.arena.frames ≠ [] := by
  intro hnone
  have hbare := hst.frames
  rw [hnone, List.map_nil, eq_comm, List.map_eq_nil_iff] at hbare
  cases h with
  | intro hf _ =>
      rw [hbare] at hf
      cases hf

end Engine

namespace Defining

variable {fuel : Nat} {node : Node} {s r t w : Engine} {type : TypeId}
  {value : Value} {x : Variable} {f : Frame}

theorem ne_void (ht : t.VoidPlain)
    (haggregate : (t.types.get type).aggregate = true) : type ≠ .void := by
  rintro rfl
  rw [ht] at haggregate
  cases haggregate

theorem copies (h : Defining (Calls.ofFuel fuel) s node r t type value)
    (hs : s.Good fun s => s.Fenced ∧ s.VoidPlain)
    (haggregate : (t.types.get type).aggregate = true)
    (hx : s.Denotes x f value) (hat : ¬ t.AtMark type value) :
    t.Copies (Calls.ofFuel fuel) node.text type value
      ((Calls.ofFuel fuel).executeDefinition node s) := by
  obtain ⟨hsr, -, hrt, ht, -⟩ := h.quiet hs
  have hfresh :=
    Engine.isFreshTemporary_iff_atMark ⟨hs.closed, hs.inv.1⟩ hsr hrt hx type
  rw [h.run (ne_void ht.inv.2 haggregate), if_neg (mt hfresh.1 hat)]
  exact Calls.copyDefinition_copies fuel ht.closed haggregate
    (hx.frames_ne (hsr.trans hrt))

theorem adopts (h : Defining (Calls.ofFuel fuel) s node r t type value)
    (hs : s.Good fun s => s.Fenced ∧ s.VoidPlain)
    (haggregate : (t.types.get type).aggregate = true)
    (hx : s.Denotes x f value) (hat : t.AtMark type value) :
    Engine.Adopts node.text value t
      ((Calls.ofFuel fuel).executeDefinition node s) := by
  obtain ⟨hsr, -, hrt, ht, -⟩ := h.quiet hs
  have hfresh :=
    Engine.isFreshTemporary_iff_atMark ⟨hs.closed, hs.inv.1⟩ hsr hrt hx type
  rw [h.run (ne_void ht.inv.2 haggregate), if_pos (hfresh.2 hat)]
  obtain ⟨rfl, hempty, haddr⟩ := hat
  obtain ⟨top, rest, hframes⟩ :=
    List.exists_cons_of_ne_nil (hx.frames_ne (hsr.trans hrt))
  have hbase := ht.closed.wellFormed.base_le_mark
  have htop : t.arena.top? = some top := by
    rw [Arena.top?, hframes, List.head?_cons]
  rw [Arena.base, htop, ← haddr] at hbase
  exact Calls.adoptDefinition_adopts ht.closed htop hbase (by omega)

theorem fresh (h : Defining (Calls.ofFuel fuel) s node r t type value)
    (hs : s.Good fun s => s.Fenced ∧ s.VoidPlain)
    (haggregate : (t.types.get type).aggregate = true)
    (hrun : (Calls.ofFuel fuel).executeDefinition node s = .ok () w) :
    t.Copies (Calls.ofFuel fuel) node.text type value (.ok () w) ∨
      Engine.Adopts node.text value t (.ok () w) ∧ r.arena.mark ≤ value.addr ∧
        value.addr + t.types.sizeOf value.type = t.arena.mark := by
  obtain ⟨hsr, hr, hrt, ht, hvalue⟩ := h.quiet hs
  rw [h.run (ne_void ht.inv.2 haggregate)] at hrun
  split at hrun
  · rename_i hfresh
    obtain ⟨slot, u, hreserve, hbind⟩ := Eval.bind_eq_ok hrun
    obtain ⟨arena, harena, rfl⟩ := Engine.reserve_eq_ok hreserve
    obtain ⟨hroom, -, rfl⟩ := Arena.reserve_back_eq_ok harena
    obtain ⟨top, htop⟩ := Calls.top_of_bindSlot hbind
    obtain ⟨rfl, hstart, hfinish⟩ :=
      Engine.fresh_finish ht.closed hvalue hfresh (by omega)
    have hbase := hr.closed.wellFormed.base_le_mark
    rw [← hrt.base, Arena.base, htop] at hbase
    refine .inr ⟨?_, hstart, hfinish⟩
    rw [← hrun]
    exact Calls.adoptDefinition_adopts ht.closed htop
      (Nat.le_trans hbase hstart) hfinish
  · left
    obtain ⟨slot, u, hreserve, hcopy⟩ := Eval.bind_eq_ok hrun
    obtain ⟨place, v, htop, -⟩ := Eval.bind_eq_ok hcopy
    rw [← hrun]
    refine Calls.copyDefinition_copies fuel ht.closed haggregate fun hnone => ?_
    obtain ⟨arena, harena, rfl⟩ := Engine.reserve_eq_ok hreserve
    obtain ⟨contents, -, -, -, rfl⟩ := Arena.reserve_fresh_eq_ok harena
    simp [Calls.topSlot, Eval.inspect, Arena.top?, Arena.claim_frames,
      hnone] at htop

end Defining

theorem Engine.copiesVariables {s : Engine}
    (hs : s.Good fun s => s.Fenced ∧ s.VoidPlain) : s.CopiesVariables :=
  ⟨fun h => h.silent.kept, fun h => h.copies hs, fun h => h.adopts hs,
    fun h => h.fresh hs⟩

/-- Definitions copy the variables that exist already, in every reachable engine
and at any time during a request, but for those without bytes that lie at the
mark. -/
theorem Reachable.definitions_copy_variables {s : Engine} (hs : Reachable s) :
    s.CopiesVariables ∧ ∀ (fuel : Nat) (request : Request), s.Knows request →
      Calls.Throughout Engine.CopiesVariables fuel request.perform s :=
  ⟨Engine.copiesVariables hs.good, fun fuel _ hrequest =>
    hs.throughout (fun _ => Engine.copiesVariables) fuel hrequest⟩

/-! ### A variable with bytes, and one without -/

namespace Twins

def leaf (kind : NodeKind) (text : String) : Node := ⟨kind, text, .dummy, 0, []⟩

def perform (s : Engine) (node : Node) : Engine :=
  ((Request.item node).perform (Calls.ofFuel 20)).after s

def engine (fields : List Node) : Engine :=
  [⟨.classDecl, "A", .dummy, 0, fields⟩,
    ⟨.variableDefinition, "a", .dummy, 0, [leaf .typeName "A"]⟩].foldl perform
      (.new { stackCapacity := 64, maxCallDepth := 2 } ⟨.buffer, ""⟩ none [])

/-- `x : Bool`. -/
def field : Node :=
  ⟨.variableDefinition, "x", .dummy, 0, [leaf .typeName "Bool"]⟩

/-- `b = a`. -/
def definition : Node :=
  ⟨.variableDefinition, "b", .dummy, 0, [leaf .identifier "a"]⟩

def evaluated (fields : List Node) : Engine :=
  ((Calls.ofFuel 20).evaluate (leaf .identifier "a")).after (engine fields)

theorem reachable (fields : List Node) : Reachable (engine fields) :=
  .after 20 (.item _) (.after 20 (.item _) (.new _ _ _ _ (by decide)) trivial)
    trivial

theorem defining (fields : List Node)
    (h : ((Calls.ofFuel 20).evaluate (leaf .identifier "a")).value?
      (engine fields) =
      some ⟨⟨15⟩, 8⟩) (hdecay : (evaluated fields).types.decay ⟨15⟩ = ⟨15⟩) :
    Defining (Calls.ofFuel 20) (engine fields) definition (engine fields)
      (evaluated fields) ⟨15⟩ ⟨⟨15⟩, 8⟩ := by
  have hnone : (Calls.ofFuel 20).declaredType none (engine fields) =
      .ok none (engine fields) := rfl
  -- Without the rewriting, unfolding `decay` would be tried first, and with it
  -- the whole run.
  refine .intro rfl hnone (Eval.eq_ok_of_value? h) ?_
  rw [Option.getD_none]
  exact hdecay

theorem denotes (fields : List Node)
    (h : ((engine fields).arena.frames[0]?.map fun f =>
      (f.local? "a", f.base)) = some (some ⟨⟨15⟩, 0⟩, 8)) : ∃ f,
        (engine fields).Denotes ⟨0, "a"⟩ f ⟨⟨15⟩, 8⟩ := by
  obtain ⟨f, hf, hslot⟩ := Option.map_eq_some_iff.1 h
  obtain ⟨hslot, hbase⟩ := Prod.mk.inj hslot
  have hvariable := Engine.Denotes.intro hf hslot
  rw [Frame.resolve, hbase] at hvariable
  exact ⟨f, hvariable⟩

end Twins

open Twins in
theorem Reachable.definitions_copy_variables_twins :
    Reachable (engine [field]) ∧
      Defining (Calls.ofFuel 20) (engine [field]) definition (engine [field])
        (evaluated [field]) ⟨15⟩ ⟨⟨15⟩, 8⟩ ∧
      (∃ f, (engine [field]).Denotes ⟨0, "a"⟩ f ⟨⟨15⟩, 8⟩) ∧
      (evaluated [field]).Copies (Calls.ofFuel 20) "b" ⟨15⟩ ⟨⟨15⟩, 8⟩
        ((Calls.ofFuel 20).executeDefinition definition (engine [field])) := by
  have hdefining := defining [field] (by decide +kernel) (by decide +kernel)
  obtain ⟨f, hf⟩ := denotes [field] (by decide +kernel)
  have haggregate : ((evaluated [field]).types.get ⟨15⟩).aggregate = true := by
    decide +kernel
  have hat : ¬ (evaluated [field]).AtMark ⟨15⟩ ⟨⟨15⟩, 8⟩ := fun h =>
    absurd h.2.1 (by decide +kernel)
  refine ⟨reachable _, hdefining, ⟨f, hf⟩, ?_⟩
  exact (definitions_copy_variables (reachable _)).1.copied hdefining
    haggregate hf hat

open Twins in
/-- A variable without bytes is not copied: the frame owns one aggregate for
both variables. -/
theorem Reachable.empty_variable_adopted :
    Reachable (engine []) ∧
      Defining (Calls.ofFuel 20) (engine []) definition (engine [])
        (evaluated []) ⟨15⟩ ⟨⟨15⟩, 8⟩ ∧
      ((evaluated []).types.get ⟨15⟩).aggregate = true ∧
      (∃ f, (engine []).Denotes ⟨0, "a"⟩ f ⟨⟨15⟩, 8⟩) ∧
      ¬ (evaluated []).Copies (Calls.ofFuel 20) "b" ⟨15⟩ ⟨⟨15⟩, 8⟩
        ((Calls.ofFuel 20).executeDefinition definition (engine [])) := by
  have hdefining := defining [] (by decide +kernel) (by decide +kernel)
  have hvariable := denotes [] (by decide +kernel)
  refine ⟨reachable _, hdefining, by decide +kernel, hvariable,
    fun hcopies => ?_⟩
  have hrun :=
    Eval.eq_ok_of_value? (x := (Calls.ofFuel 20).executeDefinition definition)
    (s := engine []) (a := ()) (by decide +kernel)
  rw [hrun] at hcopies
  obtain ⟨later, howned⟩ := hcopies.owned
  have hsame :
      (((Calls.ofFuel 20).executeDefinition definition).after
        (engine [])).owned = (evaluated []).owned := by decide +kernel
  rw [hsame] at howned
  have hlength := congrArg List.length howned
  rw [List.length_append, List.length_cons] at hlength
  omega

end ArenaScript
