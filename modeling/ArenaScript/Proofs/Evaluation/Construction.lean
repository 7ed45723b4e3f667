import ArenaScript.Proofs.Evaluation.Adoption
import ArenaScript.Proofs.Evaluation.Copiers
import ArenaScript.Proofs.Evaluation.ValueCalls

/-!
# The order of construction

An object is made field by field, in the order in which its class declares them,
and then the body of its constructor is run.  A field is initialized by its
initializer, or else constructed from nothing in turn.  A constructor that the
engine provides leaves all of this out: it copies part by part, or byte by byte.

The recursions that construct objects are unrolled into the runs of a machine
that keeps a list of what is still to be done.  Whatever they are called with,
they end where the machine ends, or fail where it gets stuck, so that the list
tells what has been done by then and what has not.
-/

namespace ArenaScript

/-! ## The machine -/

/-- In a frame of its own, without the locals of the constructing code. -/
def Calls.runInitializer (c : Calls) (scope : ScopeId) (slot : Value)
    (init : Initializer) : Eval Unit :=
  c.withFrame scope .function none do
    let value ← Eval.withTree init.tree (c.evaluate init.node)
    c.copyConstruct slot value

def Field.slot (field : Field) (object : Value) : Value :=
  object.view field.type field.offset

/-- What is still to be done while objects are constructed. -/
inductive Job
  /-- An object is constructed from nothing. -/
  | construct (place : Value)
  /-- A field is initialized, in the scope of the class. -/
  | field (scope : ScopeId) (object : Value) (field : Field)
  /-- The fields are there; a constructor without arguments is run if there is
  one. -/
  | finish (object : Value)
  /-- A constructor that has been chosen is run on a place. -/
  | run (id : FunctionId) (object : Value) (args : List Value)
  | body (id : FunctionId) (object : Value) (args : List Value)
  | copy (dst src : Value)

inductive Beginning
  | field (object : Value) (field : Field) (s : Engine)
  | body (id : FunctionId) (object : Value) (args : List Value) (s : Engine)

namespace Engine

def fieldJobs (s : Engine) (object : Value) : List Job :=
  (s.classFields object.type).map
    (.field (s.types.get object.type).members object)

def copiedParts (s : Engine) (id : FunctionId) (args : List Value) :
    Option (List (Value × Value)) :=
  let f := s.functions.get id
  match f.body, s.adaptArgs f.fixedParams args with
  | .native .copyMembers, .ok adapted =>
      if f.fixedParams.length ≤ args.length then
        s.parts (adapted.getD 0 default) (adapted.getD 1 default)
      else none
  | _, _ => none

def Declared (s : Engine) (id : FunctionId) : Prop :=
  (s.functions.get id).traits.synthesized = false

/-- The constructor for copying that the engine provides for classes and
unions. -/
def CopiesMembers (s : Engine) (id : FunctionId) : Prop :=
  ∃ ref owner, s.functions.get id =
    (Member.copier ref .copyMembers).provided owner

structure IsObject (s : Engine) (v : Value) : Prop where
  aggregate : (s.types.get v.type).aggregate = true
  single : (s.types.get v.type).array? = none

def Initializes (s : Engine) (scope : ScopeId) (slot : Value)
    (init : Initializer) (t : Engine) : Prop :=
  ∃ fuel, (Calls.ofFuel fuel).runInitializer scope slot init s = .ok () t

def Invokes (s : Engine) (id : FunctionId) (args : List Value) (t : Engine) :
    Prop :=
  ∃ fuel result, (Calls.ofFuel fuel).invoke id args s = .ok result t

def Chooses (s : Engine) (type : TypeId) (args : List Value)
    (choice : Option FunctionId) (t : Engine) : Prop :=
  Calls.constructorFor type args s = .ok choice t

end Engine

open Engine (Initializes Invokes Chooses Declared IsObject)

inductive Job.Step : Engine → Job → List Beginning → List Job → Engine → Prop
  | scalar {s : Engine} {v : Value}
      (h : (s.types.get v.type).aggregate = false) :
      Step s (.construct v) [] [] s
  | array {s : Engine} {v : Value} {elem : TypeId} {len : Nat}
      (h : (s.types.get v.type).aggregate = true)
      (hparts : (s.types.get v.type).array? = some (elem, len)) :
      Step s (.construct v) []
        (((List.range len).map (s.element v elem)).map .construct) s
  | object {s : Engine} {v : Value} (h : s.IsObject v) :
      Step s (.construct v) [] (s.fieldJobs v ++ [.finish v]) s
  | initializer {s t : Engine} {scope : ScopeId} {v : Value} {field : Field}
      {init : Initializer} (hinit : field.initializer = some init)
      (hrun : s.Initializes scope (field.slot v) init t) :
      Step s (.field scope v field) [.field v field s] [] t
  | byDefault {s : Engine} {scope : ScopeId} {v : Value} {field : Field}
      (hnone : field.initializer = none) :
      Step s (.field scope v field) [.field v field s]
        [.construct (field.slot v)] s
  | bodiless {s t : Engine} {v : Value} (h : s.Chooses v.type [] none t) :
      Step s (.finish v) [] [] t
  | finish {s t : Engine} {v : Value} {id : FunctionId}
      (h : s.Chooses v.type [] (some id) t) :
      Step s (.finish v) [] [.body id v []] t
  | declared {s : Engine} {id : FunctionId} {v : Value} {args : List Value}
      (h : s.Declared id) :
      Step s (.run id v args) [] (s.fieldJobs v ++ [.body id v args]) s
  | parts {s : Engine} {id : FunctionId} {v : Value} {args : List Value}
      {pairs : List (Value × Value)} (h : ¬ s.Declared id)
      (hparts : s.copiedParts id (v :: args) = some pairs) :
      Step s (.run id v args) [] (pairs.map fun pair => .copy pair.1 pair.2) s
  | provided {s t : Engine} {id : FunctionId} {v : Value} {args : List Value}
      (h : ¬ s.Declared id) (hparts : s.copiedParts id (v :: args) = none)
      (hrun : s.Invokes id (v :: args) t) : Step s (.run id v args) [] [] t
  | body {s t : Engine} {id : FunctionId} {v : Value} {args : List Value}
      (hrun : s.Invokes id (v :: args) t) :
      Step s (.body id v args) [.body id v args s] [] t
  | void {s : Engine} {dst src : Value} (h : dst.type = .void) :
      Step s (.copy dst src) [] [] s
  | copy {s t : Engine} {dst src : Value} {id : FunctionId}
      (h : dst.type ≠ .void) (hchosen : s.Chooses dst.type [src] (some id) t) :
      Step s (.copy dst src) [] [.run id dst [src]] t

inductive Job.Breaks : Engine → Job → Stop → Engine → Prop
  | exhausted {s : Engine} {job : Job} : Breaks s job .outOfFuel s
  | initializer {s t : Engine} {scope : ScopeId} {v : Value} {field : Field}
      {init : Initializer} {e : Stop} {fuel : Nat}
      (hinit : field.initializer = some init)
      (hrun : (Calls.ofFuel fuel).runInitializer scope (field.slot v) init s =
        .error e t) :
      Breaks s (.field scope v field) e t
  | finish {s t : Engine} {v : Value} {e : Stop}
      (h : Calls.constructorFor v.type [] s = .error e t) :
      Breaks s (.finish v) e t
  | provided {s t : Engine} {id : FunctionId} {v : Value} {args : List Value}
      {e : Stop} {fuel : Nat} (h : ¬ s.Declared id)
      (hparts : s.copiedParts id (v :: args) = none)
      (hrun : (Calls.ofFuel fuel).invoke id (v :: args) s = .error e t) :
      Breaks s (.run id v args) e t
  | body {s t : Engine} {id : FunctionId} {v : Value} {args : List Value}
      {e : Stop} {fuel : Nat}
      (hrun : (Calls.ofFuel fuel).invoke id (v :: args) s = .error e t) :
      Breaks s (.body id v args) e t
  | choice {s t : Engine} {dst src : Value} {e : Stop}
      (h : Calls.constructorFor dst.type [src] s = .error e t) :
      Breaks s (.copy dst src) e t
  | unmatched {s t : Engine} {dst src : Value}
      (h : s.Chooses dst.type [src] none t) :
      Breaks s (.copy dst src)
        (.failed (Failure.typeConversion (t.types.name src.type)
          (t.types.name dst.type))) t

namespace Engine

/-- From `s` the jobs are done up to `pending`, which remain in `t`. -/
inductive Builds : Engine → List Job → List Beginning → List Job → Engine → Prop
  | stop (s : Engine) (jobs : List Job) : Builds s jobs [] jobs s
  | step {s t u : Engine} {job : Job} {events later : List Beginning}
      {jobs rest pending : List Job} (h : Job.Step s job events jobs t)
      (hrest : Builds t (jobs ++ rest) later pending u) :
      Builds s (job :: rest) (events ++ later) pending u

variable {s t u : Engine} {job last : Job} {jobs others pending : List Job}
  {events later : List Beginning}

namespace Builds

theorem append (h : s.Builds jobs events pending t) (rest : List Job) :
    s.Builds (jobs ++ rest) events (pending ++ rest) t := by
  induction h with
  | stop s jobs => exact .stop s _
  | step h _ ih =>
      rw [List.append_assoc] at ih
      exact .step h ih

theorem trans (h : s.Builds jobs events pending t)
    (h' : t.Builds pending later others u) :
    s.Builds jobs (events ++ later) others u := by
  induction h with
  | stop s jobs => exact h'
  | step h _ ih =>
      rw [List.append_assoc]
      exact .step h (ih h')

theorem both (h : s.Builds jobs events [] t)
    (h' : t.Builds others later pending u) :
    s.Builds (jobs ++ others) (events ++ later) pending u :=
  (h.append others).trans h'

theorem split (h : s.Builds (jobs ++ others) events pending t) :
    (∃ rest, pending = rest ++ others ∧ s.Builds jobs events rest t) ∨
      ∃ first later u, events = first ++ later ∧ s.Builds jobs first [] u ∧
        u.Builds others later pending t := by
  generalize hall : jobs ++ others = all at h
  induction h generalizing jobs with
  | stop s all => exact .inl ⟨jobs, hall.symm, .stop s jobs⟩
  | @step s t u job events later more rest pending h hrest ih =>
      cases jobs with
      | nil =>
          obtain rfl : others = job :: rest := hall
          exact .inr ⟨[], events ++ later, s, rfl, .stop s [], .step h hrest⟩
      | cons first jobs =>
          obtain ⟨rfl, rfl⟩ := List.cons.inj hall
          rcases ih (List.append_assoc more jobs others) with
            ⟨left, rfl, hleft⟩ | ⟨before, after, v, rfl, hbefore, hafter⟩
          · exact .inl ⟨left, rfl, .step h hleft⟩
          · refine .inr
              ⟨events ++ before, after, v, (List.append_assoc ..).symm,
                ?_, hafter⟩
            exact .step h hbefore

theorem split_done (h : s.Builds (jobs ++ others) events [] t) :
    ∃ first later u, events = first ++ later ∧ s.Builds jobs first [] u ∧
      u.Builds others later [] t := by
  rcases h.split with ⟨rest, hpending, hjobs⟩ | hboth
  · obtain ⟨rfl, rfl⟩ := List.append_eq_nil_iff.1 hpending.symm
    exact ⟨events, [], t, (List.append_nil _).symm, hjobs, .stop t []⟩
  · exact hboth

end Builds

inductive FieldByField (scope : ScopeId) (object : Value) :
    Engine → List Field → List Beginning → Engine → Prop
  | done (s : Engine) : FieldByField scope object s [] [] s
  | initializer {s t u : Engine} {field : Field} {init : Initializer}
      {rest : List Field} {later : List Beginning}
      (hinit : field.initializer = some init)
      (hrun : s.Initializes scope (field.slot object) init t)
      (hrest : FieldByField scope object t rest later u) :
      FieldByField scope object s (field :: rest)
        (.field object field s :: later) u
  | byDefault {s t u : Engine} {field : Field} {rest : List Field}
      {inner later : List Beginning} (hnone : field.initializer = none)
      (hbuilds : s.Builds [.construct (field.slot object)] inner [] t)
      (hrest : FieldByField scope object t rest later u) :
      FieldByField scope object s (field :: rest)
        (.field object field s :: (inner ++ later)) u

theorem Builds.fieldByField {scope : ScopeId} {object : Value}
    {fields : List Field}
    (h : s.Builds (fields.map (.field scope object)) events [] t) :
    FieldByField scope object s fields events t := by
  induction fields generalizing s events with
  | nil =>
      cases h
      exact .done _
  | cons field fields ih =>
      cases h with
      | step hstep hrest =>
          cases hstep with
          | initializer hinit hrun => exact .initializer hinit hrun (ih hrest)
          | byDefault hnone =>
              obtain ⟨inner, later, u, rfl, hslot, hrest⟩ := hrest.split_done
              have hdone : FieldByField scope object s (field :: fields)
                  (.field object field s :: (inner ++ later)) t :=
                .byDefault hnone hslot (ih hrest)
              exact hdone

/-! ## Objects -/

/-- The job makes an object out of its fields; the second one comes last and
runs the body of a constructor that the program declares. -/
inductive Makes (s : Engine) (object : Value) : Job → Job → Prop
  | nothing (h : s.IsObject object) :
      Makes s object (.construct object) (.finish object)
  | chosen {id : FunctionId} {args : List Value} (h : s.Declared id) :
      Makes s object (.run id object args) (.body id object args)

inductive FieldsFirst (s : Engine) (object : Value) (job last : Job) :
    List Beginning → List Job → Engine → Prop
  | waiting : FieldsFirst s object job last [] [job] s
  | fields {events : List Beginning} {rest : List Job} {t : Engine}
      (hrest : rest ≠ []) (h : s.Builds (s.fieldJobs object) events rest t) :
      FieldsFirst s object job last events (rest ++ [last]) t
  | done {first later : List Beginning} {pending : List Job} {u t : Engine}
      (hfields : FieldByField (s.types.get object.type).members object s
        (s.classFields object.type) first u)
      (h : u.Builds [last] later pending t) :
      FieldsFirst s object job last (first ++ later) pending t

theorem Makes.step {object : Value} (h : s.Makes object job last)
    {others : List Job} (hstep : job.Step s events others t) :
    events = [] ∧ others = s.fieldJobs object ++ [last] ∧ t = s := by
  cases h with
  | nothing hobject =>
      cases hstep with
      | scalar hscalar => cases hobject.aggregate.symm.trans hscalar
      | array _ hparts => cases hobject.single.symm.trans hparts
      | object _ => exact ⟨rfl, rfl, rfl⟩
  | chosen hdeclared =>
      cases hstep with
      | declared _ => exact ⟨rfl, rfl, rfl⟩
      | parts hnot _ => exact absurd hdeclared hnot
      | provided hnot _ _ => exact absurd hdeclared hnot

theorem Makes.fieldsFirst {object : Value} (h : s.Makes object job last)
    (hbuilds : s.Builds [job] events pending t) :
    s.FieldsFirst object job last events pending t := by
  cases hbuilds with
  | stop => exact .waiting
  | @step _ _ _ _ _ later _ _ _ hstep hrest =>
      obtain ⟨rfl, rfl, hsame⟩ := h.step hstep
      rw [hsame, List.append_nil] at hrest
      rw [List.nil_append]
      rcases hrest.split with ⟨rest, rfl, hfields⟩ |
        ⟨first, later, u, rfl, hfields, hlast⟩
      · cases rest with
        | nil =>
            have hdone : s.FieldsFirst object job last (later ++ []) [last] t :=
              .done hfields.fieldByField (.stop t [last])
            rwa [List.append_nil] at hdone
        | cons job rest => exact .fields (List.cons_ne_nil job rest) hfields
      · exact .done hfields.fieldByField hlast

/-- When nothing remains, all fields are there, and what comes last has come
after them. -/
theorem FieldsFirst.complete {object : Value}
    (h : s.FieldsFirst object job last events [] t) :
    ∃ first later u, events = first ++ later ∧
      FieldByField (s.types.get object.type).members object s
        (s.classFields object.type) first u ∧
        u.Builds [last] later [] t := by
  generalize hpending : [] = pending at h
  cases h with
  | waiting => cases hpending
  | fields _ _ => simp at hpending
  | done hfields hlast =>
      subst hpending
      exact ⟨_, _, _, rfl, hfields, hlast⟩

/-- How far copying has come by the constructor that the engine provides:
nothing is constructed but the parts, each by copying it. -/
inductive PartsOnly (s : Engine) (id : FunctionId) (object : Value)
    (args : List Value) :
    List Beginning → List Job → Engine → Prop
  | waiting : PartsOnly s id object args [] [.run id object args] s
  | parts {pairs : List (Value × Value)} {events : List Beginning}
      {pending : List Job} {t : Engine}
      (hparts : s.copiedParts id (object :: args) = some pairs)
      (h : s.Builds (pairs.map fun pair => .copy pair.1 pair.2) events
        pending t) :
      PartsOnly s id object args events pending t
  | bytes {arena : Arena} (hparts : s.copiedParts id (object :: args) = none) :
      PartsOnly s id object args [] [] { s with arena }

theorem Invokes.bytes {id : FunctionId} {args : List Value}
    (hrun : s.Invokes id args t) (h : s.CopiesMembers id)
    (hparts : s.copiedParts id args = none) :
    ∃ arena, t = { s with arena } := by
  obtain ⟨ref, owner, hfunction⟩ := h
  have hbody : (s.functions.get id).body = .native .copyMembers := by
    rw [hfunction]
    rfl
  obtain ⟨fuel, result, hrun⟩ := hrun
  cases fuel with
  | zero => cases hrun
  | succ n =>
      change (Calls.ofFuel n).invokeStep id args s = _ at hrun
      rcases Nat.lt_or_ge args.length
        (s.functions.get id).fixedParams.length with hshort | hlength
      · rw [Calls.invokeStep_short _ hshort] at hrun
        cases hrun
      cases hadapted : s.adaptArgs (s.functions.get id).fixedParams args with
      | error e =>
          rw [Calls.invokeStep, Eval.bind_read, if_neg (Nat.not_lt.2 hlength),
            hbody] at hrun
          obtain ⟨adapted, u, hok, -⟩ := Eval.bind_eq_ok hrun
          rw [Eval.inspect, hadapted] at hok
          cases hok
      | ok adapted =>
          have hwhole :
              s.parts (adapted.getD 0 default) (adapted.getD 1 default) =
                none := by
            simpa only [copiedParts, hbody, hadapted, if_pos hlength]
              using hparts
          rw [Calls.invokeStep_native (Calls.ofFuel n) hbody hlength
            hadapted] at hrun
          obtain ⟨_, u, hmembers, hpure⟩ := Eval.bind_eq_ok hrun
          cases hpure
          rw [Calls.memberwise, Eval.bind_read, hwhole] at hmembers
          obtain ⟨arena, -, harena⟩ := Eval.onArena_eq_ok hmembers
          exact ⟨arena, harena⟩

theorem Builds.partsOnly {id : FunctionId} {object : Value} {args : List Value}
    (hcopies : s.CopiesMembers id)
    (h : s.Builds [.run id object args] events pending t) :
    s.PartsOnly id object args events pending t := by
  have hnot : ¬ s.Declared id := by
    obtain ⟨ref, owner, hfunction⟩ := hcopies
    rw [Declared, hfunction]
    exact Bool.noConfusion
  cases h with
  | stop => exact .waiting
  | step hstep hrest =>
      rw [List.append_nil] at hrest
      cases hstep with
      | declared hdeclared => exact absurd hdeclared hnot
      | parts _ hparts => exact .parts hparts hrest
      | provided _ hparts hrun =>
          cases hrest
          obtain ⟨arena, rfl⟩ := hrun.bytes hcopies hparts
          exact .bytes hparts

end Engine

/-! ## What the recursions do -/

inductive Concludes {α : Type} (s : Engine) (jobs : List Job) :
    EStateM.Result Stop Engine α → Prop
  | done {a : α} {t : Engine} {events : List Beginning}
      (h : s.Builds jobs events [] t) :
      Concludes s jobs (.ok a t)
  | broken {e : Stop} {t u : Engine} {job : Job} {rest : List Job}
      {events : List Beginning} (h : s.Builds jobs events (job :: rest) u)
      (hbreaks : job.Breaks u e t) :
      Concludes s jobs (.error e t)

namespace Concludes

variable {α β : Type} {s t : Engine} {job : Job} {jobs others : List Job}
  {events : List Beginning}

theorem nothing (a : α) (s : Engine) : Concludes s [] (.ok a s) :=
  .done (.stop s [])

theorem fails {e : Stop} (h : job.Breaks s e t) :
    Concludes (α := α) s [job] (.error e t) :=
  .broken (.stop s [job]) h

theorem step {r : EStateM.Result Stop Engine α} (h : job.Step s events jobs t)
    (hr : Concludes t jobs r) : Concludes s [job] r := by
  have hall : ∀ {later pending u}, t.Builds jobs later pending u →
      s.Builds [job] (events ++ later) pending u := by
    intro later pending u hlater
    refine .step h ?_
    rwa [List.append_nil]
  cases hr with
  | done hlater => exact .done (hall hlater)
  | broken hlater hbreaks => exact .broken (hall hlater) hbreaks

theorem bind {x : Eval α} {k : α → Eval β} (hx : Concludes s jobs (x s))
    (hk : ∀ a t, x s = .ok a t → Concludes t others (k a t)) :
    Concludes s (jobs ++ others) ((x >>= k) s) := by
  cases hrun : x s with
  | ok a t =>
      rw [Eval.bind_ok hrun]
      rw [hrun] at hx
      have hnext := hk a t hrun
      generalize k a t = r at hnext ⊢
      cases hx with
      | done h =>
          cases hnext with
          | done h' => exact .done (h.both h')
          | broken h' hbreaks => exact .broken (h.both h') hbreaks
  | error e t =>
      rw [Eval.bind_error hrun]
      rw [hrun] at hx
      cases hx with
      | broken h hbreaks => exact .broken (h.append others) hbreaks

theorem before {x : Eval α} {k : α → Eval β} (hx : Concludes s jobs (x s))
    (hk : ∀ a t, ∃ b, k a t = .ok b t) : Concludes s jobs ((x >>= k) s) := by
  rw [← List.append_nil jobs]
  refine hx.bind fun a t _ => ?_
  obtain ⟨b, hb⟩ := hk a t
  rw [hb]
  exact .nothing b t

theorem forM {f : α → Eval Unit} {place : α → Job} {list : List α}
    (h : ∀ a ∈ list, ∀ s, Concludes s [place a] (f a s)) (s : Engine) :
    Concludes s (list.map place) (list.forM f s) := by
  induction list generalizing s with
  | nil => exact .nothing () s
  | cons a rest ih =>
      obtain ⟨ha, hrest⟩ := List.forall_mem_cons.1 h
      exact (ha s).bind fun _ t _ => ih hrest t

end Concludes

namespace Calls

variable {s : Engine} {fuel : Nat} {id : FunctionId} {v : Value}
  {args : List Value}

/-- Objects are constructed from nothing in order. -/
def Constructs (c : Calls) : Prop :=
  ∀ v s, Concludes s [.construct v] (c.defaultConstruct v s)

def Copies (c : Calls) : Prop :=
  ∀ dst src s, Concludes s [.copy dst src] (c.copyConstruct dst src s)

theorem initField_concludes (hc : (ofFuel fuel).Constructs) (scope : ScopeId)
    (v : Value) (field : Field) (s : Engine) :
    Concludes s [.field scope v field]
      ((ofFuel fuel).initField scope v field s) := by
  cases hinit : field.initializer with
  | none =>
      have hrun : (ofFuel fuel).initField scope v field =
          (ofFuel fuel).defaultConstruct (field.slot v) := by
        simp only [initField, hinit, Field.slot]
      rw [hrun]
      exact .step (.byDefault hinit) (hc _ s)
  | some init =>
      have hrun : (ofFuel fuel).initField scope v field =
          (ofFuel fuel).runInitializer scope (field.slot v) init := by
        simp only [initField, hinit, Field.slot, runInitializer]
      rw [hrun]
      cases hresult :
        (ofFuel fuel).runInitializer scope (field.slot v) init s with
      | ok a t =>
          exact .step (.initializer hinit ⟨fuel, hresult⟩) (.nothing a t)
      | error e t => exact .fails (.initializer hinit hresult)

theorem initFields_concludes (hc : (ofFuel fuel).Constructs) (v : Value)
    (s : Engine) :
    Concludes s (s.fieldJobs v) ((ofFuel fuel).initFields v s) := by
  rw [initFields, Eval.bind_read, Eval.bind_read]
  exact .forM (fun field _ => initField_concludes hc _ v field) s

theorem defaultConstructStep_concludes (hc : (ofFuel fuel).Constructs)
    (v : Value) (s : Engine) :
    Concludes s [.construct v] ((ofFuel fuel).defaultConstructStep v s) := by
  rw [defaultConstructStep, Eval.bind_read]
  cases haggregate : (s.types.get v.type).aggregate with
  | false => exact .step (.scalar haggregate) (.nothing () s)
  | true =>
      rw [if_pos rfl, elementsOf, Eval.bind_read]
      cases hparts : (s.types.get v.type).array? with
      | some parts =>
          obtain ⟨elem, len⟩ := parts
          exact .step (.array haggregate hparts)
            (.forM (fun place _ => hc place) s)
      | none =>
          refine .step (.object ⟨haggregate, hparts⟩) ?_
          refine (initFields_concludes hc v s).bind fun _ t _ => ?_
          cases hchoice : constructorFor v.type [] t with
          | error e u =>
              rw [Eval.bind_error hchoice]
              exact .fails (.finish hchoice)
          | ok choice u =>
              rw [Eval.bind_ok hchoice]
              cases choice with
              | none => exact .step (.bodiless hchoice) (.nothing () u)
              | some id =>
                  refine .step (.finish hchoice)
                    (.before ?_ fun _ t => ⟨(), rfl⟩)
                  cases hrun : (ofFuel fuel).invoke id [v] u with
                  | ok result w =>
                      exact .step (.body ⟨fuel, result, hrun⟩)
                        (.nothing result w)
                  | error e w => exact .fails (.body hrun)

theorem invoke_parts {pairs : List (Value × Value)}
    (h : s.copiedParts id args = some pairs) (n : Nat) :
    (ofFuel (n + 1)).invoke id args s =
      (pairs.forM (fun pair => (ofFuel n).copyConstruct pair.1 pair.2) >>=
        fun _ => pure none) s := by
  unfold Engine.copiedParts at h
  simp only at h
  split at h
  · rename_i adapted hbody hadapted
    split at h
    · rename_i hlength
      have hinvoke : (ofFuel (n + 1)).invoke id args s =
          (ofFuel n).runNative .copyMembers adapted s :=
        invokeStep_native (ofFuel n) hbody hlength hadapted
      rw [hinvoke]
      refine Eval.bind_congr ?_
      rw [memberwise, Eval.bind_read, h]
    · cases h
  · cases h

theorem invoke_concludes (hcopies : ∀ n, fuel = n + 1 → (ofFuel n).Copies)
    (h : ¬ s.Declared id) :
    Concludes s [.run id v args] ((ofFuel fuel).invoke id (v :: args) s) := by
  cases fuel with
  | zero => exact .fails .exhausted
  | succ n =>
      cases hparts : s.copiedParts id (v :: args) with
      | some pairs =>
          rw [invoke_parts hparts]
          refine .step (.parts h hparts) (.before ?_ fun _ t => ⟨none, rfl⟩)
          exact .forM (fun pair _ => hcopies n rfl pair.1 pair.2) s
      | none =>
          cases hrun : (ofFuel (n + 1)).invoke id (v :: args) s with
          | ok result t =>
              exact .step (.provided h hparts ⟨n + 1, result, hrun⟩)
                (.nothing result t)
          | error e t => exact .fails (.provided h hparts hrun)

theorem runConstructor_concludes (hc : (ofFuel fuel).Constructs)
    (hcopies : ∀ n, fuel = n + 1 → (ofFuel n).Copies) (id : FunctionId)
    (v : Value) (args : List Value) (s : Engine) :
    Concludes s [.run id v args]
      ((ofFuel fuel).runConstructor id v args s) := by
  rw [runConstructor, Eval.bind_read]
  by_cases hdeclared : s.Declared id
  · have hsynthesized : (!(s.functions.get id).traits.synthesized) = true := by
      rw [hdeclared]
      rfl
    rw [if_pos hsynthesized]
    refine .step (.declared hdeclared)
      ((initFields_concludes hc v s).bind fun _ t _ => ?_)
    refine .before ?_ fun _ u => ⟨(), rfl⟩
    cases hrun : (ofFuel fuel).invoke id (v :: args) t with
    | ok result u =>
        exact .step (.body ⟨fuel, result, hrun⟩) (.nothing result u)
    | error e u => exact .fails (.body hrun)
  · have hsynthesized : (!(s.functions.get id).traits.synthesized) = false := by
      simpa [Engine.Declared] using hdeclared
    rw [hsynthesized]
    exact .before (invoke_concludes hcopies hdeclared) fun _ u => ⟨(), rfl⟩

theorem copyConstructStep_concludes (hc : (ofFuel fuel).Constructs)
    (hcopies : ∀ n, fuel = n + 1 → (ofFuel n).Copies) (dst src : Value)
    (s : Engine) :
    Concludes s [.copy dst src]
      ((ofFuel fuel).copyConstructStep dst src s) := by
  rw [copyConstructStep]
  by_cases hvoid : dst.type = .void
  · rw [if_pos hvoid]
    exact .step (.void hvoid) (.nothing () s)
  · rw [if_neg hvoid]
    cases hchoice : constructorFor dst.type [src] s with
    | error e t =>
        rw [Eval.bind_error hchoice]
        exact .fails (.choice hchoice)
    | ok choice t =>
        rw [Eval.bind_ok hchoice]
        cases choice with
        | none => exact .fails (.unmatched hchoice)
        | some id =>
            exact .step (.copy hvoid hchoice)
              (runConstructor_concludes hc hcopies id dst [src] t)

/-- By induction on the fuel; what the engine provides goes two levels down. -/
theorem ofFuel_concludes (fuel : Nat) :
    (ofFuel fuel).Constructs ∧ (ofFuel fuel).Copies := by
  induction fuel using Nat.strongRecOn with
  | ind fuel ih =>
      cases fuel with
      | zero =>
          exact ⟨fun _ _ => .fails .exhausted, fun _ _ _ => .fails .exhausted⟩
      | succ n =>
          have hc := (ih n (Nat.lt_succ_self n)).1
          refine ⟨fun v s => defaultConstructStep_concludes hc v s,
            fun dst src s => ?_⟩
          refine copyConstructStep_concludes hc (fun m hm => ?_) dst src s
          exact (ih m (by omega)).2

/-! ## What constructs objects -/

inductive Creates (s : Engine) (type : TypeId) :
    List Value → Value → Job → Engine → Prop
  | empty {place : Value} {t : Engine}
      (h : Eval.allocate type s = .ok place t) :
      Creates s type [] place (.construct place) t
  | chosen {args : List Value} {place : Value} {id : FunctionId} {t u : Engine}
      (hargs : args ≠ []) (hchosen : s.Chooses type args (some id) t)
      (h : Eval.allocate type t = .ok place u) :
      Creates s type args place (.run id place args) u

inductive Reserves (c : Calls) (s : Engine) (node : Node) :
    Slot → Value → Engine → Prop
  | intro {typeNode : Node} {type : TypeId} {slot : Slot} {place : Value}
      {r t : Engine} (hparts : definitionParts node = (some typeNode, none))
      (hdeclared : c.declaredType (some typeNode) s = .ok (some type) r)
      (hslot : Eval.reserve type false r = .ok slot t)
      (hplace : topSlot slot t = .ok place t) :
      Reserves c s node slot place t

theorem constructNew_concludes (fuel : Nat) {type : TypeId} {place : Value}
    {job : Job} {t : Engine} (h : Creates s type args place job t) :
    Concludes t [job] ((ofFuel fuel).constructNew type args s) := by
  have hc := (ofFuel_concludes fuel).1
  cases h with
  | empty hplace =>
      rw [constructNew, List.isEmpty_nil, if_pos rfl, Eval.bind_ok hplace]
      exact .before (hc _ t) fun _ u => ⟨place, rfl⟩
  | chosen hargs hchosen hplace =>
      have hsome : ¬ args.isEmpty = true := by simpa using hargs
      rw [constructNew, if_neg hsome, Eval.bind_ok hchosen]
      simp only
      rw [Eval.bind_ok hplace]
      refine .before (runConstructor_concludes hc (fun n hn => ?_) _ _ _ t)
        fun _ u => ⟨place, rfl⟩
      exact (ofFuel_concludes n).2

theorem exists_creates {c : Calls} {type : TypeId} {place : Value} {t : Engine}
    (h : c.constructNew type args s = .ok place t) :
    ∃ job u, Creates s type args place job u := by
  rw [constructNew] at h
  cases args with
  | nil =>
      obtain ⟨v, u, hplace, hrest⟩ := Eval.bind_eq_ok h
      obtain ⟨_, w, -, hpure⟩ := Eval.bind_eq_ok hrest
      cases hpure
      exact ⟨_, _, .empty hplace⟩
  | cons arg args =>
      obtain ⟨choice, u, hchosen, hrest⟩ := Eval.bind_eq_ok h
      cases choice with
      | none => cases hrest
      | some id =>
          obtain ⟨v, w, hplace, hrest⟩ := Eval.bind_eq_ok hrest
          obtain ⟨_, x, -, hpure⟩ := Eval.bind_eq_ok hrest
          cases hpure
          exact ⟨_, _, .chosen (by simp) hchosen hplace⟩

theorem executeDefinition_default {c : Calls} {node : Node} {slot : Slot}
    {place : Value} {t : Engine} (h : Reserves c s node slot place t) :
    c.executeDefinition node s =
      (c.defaultConstruct place >>= fun _ => bindSlot node.text slot) t := by
  cases h with
  | @intro typeNode type _ _ r _ hparts hdeclared hslot hplace =>
      have hresolve : c.resolveType typeNode s.currentScope s = .ok type r := by
        rw [declaredType, Eval.currentScope, Eval.bind_read] at hdeclared
        obtain ⟨_, _, hresolve, hpure⟩ := Eval.bind_eq_ok hdeclared
        cases hpure
        exact hresolve
      have hrun : c.executeDefinition node s =
          (c.defineDefault type >>= bindSlot node.text) r := by
        unfold executeDefinition
        rw [hparts]
        simp only [bind_assoc, map_eq_pure_bind, pure_bind]
        exact Eval.bind_ok hresolve
      have hdefine : c.defineDefault type r =
          (c.defaultConstruct place >>= fun _ => pure slot) t := by
        rw [defineDefault, Eval.bind_ok hslot, Eval.bind_ok hplace]
      rw [hrun]
      refine (Eval.bind_congr hdefine).trans ?_
      rw [bind_assoc]
      rfl

/-- Everything that constructs objects does it in order. -/
structure InOrder (c : Calls) : Prop where
  construct : ∀ v s, Concludes s [.construct v] (c.defaultConstruct v s)
  copy : ∀ dst src s, Concludes s [.copy dst src] (c.copyConstruct dst src s)
  new : ∀ s type args place job t, Creates s type args place job t →
    Concludes t [job] (c.constructNew type args s)
  created : ∀ s type args place t, c.constructNew type args s = .ok place t →
    ∃ job u, Creates s type args place job u
  definition : ∀ s node slot place t, Reserves c s node slot place t →
    c.executeDefinition node s =
      (c.defaultConstruct place >>= fun _ => bindSlot node.text slot) t

theorem inOrder (fuel : Nat) : (ofFuel fuel).InOrder where
  construct := (ofFuel_concludes fuel).1
  copy := (ofFuel_concludes fuel).2
  new _ _ _ _ _ _ h := constructNew_concludes fuel h
  created _ _ _ _ _ h := exists_creates h
  definition _ _ _ _ _ h := executeDefinition_default h

end Calls

/-- Objects are constructed field by field, each of their fields once and in the
order of declaration: by its initializer, or else from nothing.  The body of a
constructor that the program declares comes after all of them, and a constructor
that the engine provides does none of this. -/
theorem construction_order :
    (∀ fuel, (Calls.ofFuel fuel).InOrder) ∧
      ∀ (s t : Engine) (object : Value) (events : List Beginning)
        (pending : List Job),
        (∀ job last, s.Makes object job last → s.Builds [job] events pending t →
          s.FieldsFirst object job last events pending t) ∧
        ∀ id args, s.CopiesMembers id →
          s.Builds [.run id object args] events pending t →
          s.PartsOnly id object args events pending t :=
  ⟨Calls.inOrder, fun _ _ _ _ _ =>
    ⟨fun _ _ h => h.fieldsFirst, fun _ _ h hb => hb.partsOnly h⟩⟩

/-! ### An object in an object -/

namespace Assembled

open Twins (leaf perform)

def constructor : Node :=
  ⟨.function, "construct", .dummy, 0,
    [leaf .parameters "", ⟨.block, "", .dummy, 0, []⟩]⟩

def number (name value : String) : Node :=
  ⟨.variableDefinition, name, .dummy, 0,
    [leaf .typeName "Int32", leaf .integerLiteral value]⟩

/-- `class P { x : Int32 = 1, construct() {} }`. -/
def part : Node := ⟨.classDecl, "P", .dummy, 0, [number "x" "1", constructor]⟩

/-- `class Q { p : P, y : Int32 = 2, construct() {} }`. -/
def whole : Node :=
  ⟨.classDecl, "Q", .dummy, 0,
    [⟨.variableDefinition, "p", .dummy, 0, [leaf .typeName "P"]⟩,
      number "y" "2", constructor]⟩

def engine : Engine :=
  [part, whole].foldl perform
    (.new { stackCapacity := 64, maxCallDepth := 2 } ⟨.buffer, ""⟩ none [])

def placed : Engine := (Eval.allocate ⟨17⟩).after engine

theorem checked :
    (Eval.allocate ⟨17⟩).value? engine = some ⟨⟨17⟩, 8⟩ ∧
    ((Calls.ofFuel 20).constructNew ⟨17⟩ []).value? engine = some ⟨⟨17⟩, 8⟩ ∧
    (placed.types.get ⟨17⟩).aggregate = true ∧
    (placed.types.get ⟨17⟩).array? = none ∧
    (placed.classFields ⟨17⟩).map
      (fun field => (field.name, field.initializer.isSome)) =
      [("p", false), ("y", true)] := by
  decide +kernel

end Assembled

open Assembled in
/-- The part, which is constructed from nothing, and the number, which has an
initializer, are there before the body of the constructor. -/
theorem construction_order_assembled :
    (placed.classFields ⟨17⟩).map
      (fun field => (field.name, field.initializer.isSome)) =
        [("p", false), ("y", true)] ∧
      ∃ t u first later, (Calls.ofFuel
        20).constructNew ⟨17⟩ [] engine = .ok ⟨⟨17⟩, 8⟩ t ∧
        placed.FieldByField (placed.types.get ⟨17⟩).members ⟨⟨17⟩, 8⟩
          (placed.classFields ⟨17⟩)
          first u ∧ u.Builds [.finish ⟨⟨17⟩, 8⟩] later [] t := by
  obtain ⟨hplace, hnew, haggregate, hsingle, hfields⟩ := checked
  have hrun := Eval.eq_ok_of_value? hnew
  have hends := (construction_order.1 20).new engine ⟨17⟩ [] ⟨⟨17⟩, 8⟩ _ placed
    (.empty (Eval.eq_ok_of_value? hplace))
  rw [hrun] at hends
  cases hends with
  | done hbuilds =>
      have hfirst := (construction_order.2 placed _ ⟨⟨17⟩, 8⟩ _ []).1 _ _
        (.nothing ⟨haggregate, hsingle⟩) hbuilds
      obtain ⟨first, later, u, -, hall, hlast⟩ := hfirst.complete
      exact ⟨hfields, _, u, first, later, hrun, hall, hlast⟩

end ArenaScript
