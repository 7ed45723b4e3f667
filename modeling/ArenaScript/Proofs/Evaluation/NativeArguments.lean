import ArenaScript.Proofs.Evaluation.ValueCalls

/-!
# What natives see

A native works on places.  An argument that a parameter accepts is such a place,
or a reference to one, and its type alone says which: so a native is handed
places of the types it asks for, or is not run because the address of one is
unreadable.
-/

namespace ArenaScript

namespace Engine

variable {s : Engine} {param : Param} {arg place : Value} {params : List Param}
  {args places : List Value} {e : Failure}

/-- The argument is the place, if it has the type, or else refers to it. -/
structure LeadsTo (s : Engine) (target : TypeId) (arg place : Value) :
    Prop where
  type : place.type = target
  own : arg.type = target → place.addr = arg.addr
  referred : arg.type ≠ target → (s.types.get arg.type).referenceTarget? =
    some target ∧
    s.arena.readWord arg.addr = .ok place.addr

structure Unreadable (s : Engine) (target : TypeId) (arg : Value)
    (e : Failure) : Prop where
  other : arg.type ≠ target
  reference : (s.types.get arg.type).referenceTarget? = some target
  outside : s.arena.inBounds arg.addr 8 = false
  failure : e = Failure.invalidMemoryAccess arg.addr 8

/-- The place of the given type that an argument is or refers to. -/
def placeAt (s : Engine) (type : TypeId) (arg : Value) : Except Failure Value :=
  if arg.type = type then .ok arg
  else (s.arena.readWord arg.addr).map fun addr => ⟨type, addr⟩

/-! ## One argument -/

theorem accepts_iff {param arg : TypeId} : s.types.accepts param arg = true ↔
    arg = param ∨ (s.types.get param).referenceTarget? = some arg := by
  rw [TypeTable.accepts, Bool.or_eq_true, beq_iff_eq, beq_iff_eq, eq_comm]

theorem type_or_reference (h : s.types.accepts param.type arg.type = true) :
    arg.type = s.types.decay param.type ∨
      (s.types.get arg.type).referenceTarget? =
        some (s.types.decay param.type) := by
  rw [accepts_iff] at h
  cases hparam : (s.types.get param.type).referenceTarget? with
  | none => simp_all [TypeTable.decay]
  | some target =>
      rcases h with h | h
      · simp [TypeTable.decay, h, hparam]
      · simp_all [TypeTable.decay]

theorem adaptArgs_cons (h : s.types.accepts param.type arg.type = true) :
    s.adaptArgs (param :: params) (arg :: args) = (do
      let place ← s.placeAt (s.types.decay param.type) arg
      let places ← s.adaptArgs params args
      pure (place :: places)) := by
  have hcases := type_or_reference h
  rw [accepts_iff] at h
  rw [adaptArgs]
  cases hparam : (s.types.get param.type).referenceTarget? with
  | none =>
      have hsame : arg.type = param.type := by simpa [hparam] using h
      simp [placeAt, TypeTable.decay, hparam, hsame, Bind.bind, Except.bind]
  | some target =>
      have hdecay : s.types.decay param.type = target := by
        simp [TypeTable.decay, hparam]
      rw [hdecay] at hcases ⊢
      by_cases hplace : arg.type = target
      · simp [placeAt, placeOf, hplace]
      · have hreference := hcases.resolve_left hplace
        simp [placeAt, placeOf, stripRef, hplace, hreference]

theorem placeAt_ok (h : s.types.accepts param.type arg.type = true)
    (hplace : s.placeAt (s.types.decay param.type) arg = .ok place) :
    s.LeadsTo (s.types.decay param.type) arg place := by
  have hcases := type_or_reference h
  unfold placeAt at hplace
  split at hplace
  · rename_i htype
    cases hplace
    exact ⟨htype, fun _ => rfl, fun hother => absurd htype hother⟩
  · rename_i htype
    cases hword : s.arena.readWord arg.addr with
    | error e => simp [hword, Except.map] at hplace
    | ok addr =>
        rw [hword] at hplace
        cases hplace
        exact ⟨rfl, fun hsame => absurd hsame htype,
          fun _ => ⟨hcases.resolve_left htype, hword⟩⟩

theorem placeAt_error (h : s.types.accepts param.type arg.type = true)
    (hplace : s.placeAt (s.types.decay param.type) arg = .error e) :
    s.Unreadable (s.types.decay param.type) arg e := by
  have hcases := type_or_reference h
  unfold placeAt at hplace
  split at hplace
  · cases hplace
  · rename_i htype
    have hreference := hcases.resolve_left htype
    unfold Arena.readWord Arena.read at hplace
    cases hbounds : s.arena.inBounds arg.addr 8 with
    | true => simp [hbounds, Except.map] at hplace
    | false =>
        obtain rfl : _ = e := by simpa [hbounds, Except.map] using hplace
        exact ⟨htype, hreference, hbounds, rfl⟩

/-! ## All arguments -/

structure SeesPlaces (s : Engine) (params : List Param)
    (args places : List Value) : Prop where
  length : places.length = args.length
  fixed : ∀ (i : Nat) (param : Param) (arg : Value), params[i]? = some param →
    args[i]? = some arg →
      ∃ place, places[i]? = some place ∧
        s.LeadsTo (s.types.decay param.type) arg place
  variadic : places.drop params.length = args.drop params.length

theorem SeesPlaces.cons
    (hplace : s.LeadsTo (s.types.decay param.type) arg place)
    (hrest : s.SeesPlaces params args places) :
    s.SeesPlaces (param :: params) (arg :: args) (place :: places) where
  length := by simp [hrest.length]
  fixed i p a hp ha := by
    cases i with
    | zero => simp_all
    | succ i =>
        simpa using hrest.fixed i p a (by simpa using hp) (by simpa using ha)
  variadic := by simpa using hrest.variadic

def Accepted (s : Engine) (params : List Param) (args : List Value) : Prop :=
  ∀ pair ∈ params.zip args, s.types.accepts pair.1.type pair.2.type = true

theorem sees_of_adaptArgs (haccepted : s.Accepted params args)
    (h : s.adaptArgs params args = .ok places) :
    s.SeesPlaces params args places := by
  induction args generalizing params places with
  | nil =>
      obtain rfl : [] = places := by simpa [adaptArgs] using h
      exact ⟨rfl, by simp, by simp⟩
  | cons arg args ih =>
      cases params with
      | nil =>
          obtain rfl : arg :: args = places := by simpa [adaptArgs] using h
          exact ⟨rfl, by simp, rfl⟩
      | cons param params =>
          obtain ⟨haccepts, hothers⟩ : _ ∧ s.Accepted params args := by
            simpa [Accepted] using haccepted
          rw [adaptArgs_cons haccepts] at h
          cases hplace : s.placeAt (s.types.decay param.type) arg with
          | error e => simp [hplace, Bind.bind, Except.bind] at h
          | ok place =>
              cases hrest : s.adaptArgs params args with
              | error e => simp [hplace, hrest, Bind.bind, Except.bind] at h
              | ok rest =>
                  obtain rfl : place :: rest = places := by
                    simpa [hplace, hrest, Bind.bind, Except.bind, Pure.pure,
                      Except.pure] using h
                  exact .cons (placeAt_ok haccepts hplace) (ih hothers hrest)

/-- The first reference that cannot be followed is the failure. -/
theorem unreadable_of_adaptArgs (haccepted : s.Accepted params args)
    (h : s.adaptArgs params args = .error e) :
    ∃ (i : Nat) (param : Param) (arg : Value), params[i]? = some param ∧
      args[i]? = some arg ∧
      s.Unreadable (s.types.decay param.type) arg e := by
  induction args generalizing params with
  | nil => simp [adaptArgs] at h
  | cons arg args ih =>
      cases params with
      | nil => simp [adaptArgs] at h
      | cons param params =>
          obtain ⟨haccepts, hothers⟩ : _ ∧ s.Accepted params args := by
            simpa [Accepted] using haccepted
          rw [adaptArgs_cons haccepts] at h
          cases hplace : s.placeAt (s.types.decay param.type) arg with
          | error e' =>
              obtain rfl : e' = e := by
                simpa [hplace, Bind.bind, Except.bind] using h
              exact ⟨0, param, arg, rfl, rfl, placeAt_error haccepts hplace⟩
          | ok place =>
              cases hrest : s.adaptArgs params args with
              | error e' =>
                  obtain rfl : e' = e := by
                    simpa [hplace, hrest, Bind.bind, Except.bind] using h
                  obtain ⟨i, p, a, hp, ha, hbroken⟩ := ih hothers hrest
                  exact ⟨i + 1, p, a, by simpa using hp,
                    by simpa using ha, hbroken⟩
              | ok rest =>
                  simp [hplace, hrest, Bind.bind, Except.bind, Pure.pure,
                    Except.pure] at h

theorem accepted_of_fits {f : Function} {site : CallSite}
    (hsite : site.args = args.map Value.type) (h : f.fits s.types site = true) :
    s.Accepted f.fixedParams args ∧ f.fixedParams.length ≤ args.length := by
  simp only [Function.fits, Bool.and_eq_true, List.all_eq_true] at h
  obtain ⟨⟨-, hcount⟩, hall⟩ := h
  rw [hsite] at hcount hall
  constructor
  · rintro ⟨param, arg⟩ hpair
    refine hall (param, arg.type) ?_
    rw [List.zip_map_right]
    exact List.mem_map_of_mem hpair
  · unfold Function.acceptsCount at hcount
    split at hcount
    · simpa using hcount
    · have hsame : args.length = f.fixedParams.length := by simpa using hcount
      omega

/-- A native whose signature fits the arguments runs on the places that they are
or refer to, and the further arguments as they are; only a reference whose
address cannot be read stops the call. -/
theorem natives_see_places {id : FunctionId} {native : Native} {site : CallSite}
    (hnative : (s.functions.get id).body = .native native)
    (hsite : site.args = args.map Value.type)
    (hfits : (s.functions.get id).fits s.types site = true) :
    (∃ places, s.adaptArgs (s.functions.get id).fixedParams args = .ok places ∧
        s.SeesPlaces (s.functions.get id).fixedParams args places ∧
        ∀ c : Calls, c.invokeStep id args s = c.runNative native places s) ∨
      ∃ e, s.adaptArgs (s.functions.get id).fixedParams args = .error e ∧
        (∃ (i : Nat) (param : Param) (arg : Value),
          (s.functions.get id).fixedParams[i]? = some param ∧
          args[i]? = some arg ∧
            s.Unreadable (s.types.decay param.type) arg e) ∧
        ∀ c : Calls, c.invokeStep id args s = .error (.failed e) s := by
  obtain ⟨haccepted, hlength⟩ := accepted_of_fits hsite hfits
  cases hadapted : s.adaptArgs (s.functions.get id).fixedParams args with
  | ok places =>
      have hsees := sees_of_adaptArgs haccepted hadapted
      exact .inl
        ⟨places, rfl, hsees,
          fun c => Calls.invokeStep_native c hnative hlength hadapted⟩
  | error e =>
      refine .inr ⟨e, rfl, unreadable_of_adaptArgs haccepted hadapted,
        fun c => ?_⟩
      unfold Calls.invokeStep
      rw [Eval.bind_read, if_neg (Nat.not_lt.2 hlength), hnative]
      simp [Eval.inspect, hadapted, Bind.bind, EStateM.bind]

/-! ### A reference that is seen as itself and looked through -/

namespace Rebound

open Calls.Alias (leaf define andThen)

/-- `x = 7` and `r: Ref<Int32> = x`, at the addresses 8 and 12. -/
def engine : Engine :=
  [define "x" (leaf .integerLiteral "7"),
    ⟨.variableDefinition, "r", .dummy, 0,
      [⟨.typeName, "Ref", .dummy, 0, [leaf .typeName "Int32"]⟩,
        leaf .identifier "x"]⟩].foldl
    andThen (.new { stackCapacity := 64 } ⟨.buffer, ""⟩ none [])

def r : Value := ⟨⟨15⟩, 12⟩

def assignment : Function := engine.functions.get ⟨6⟩

theorem checked :
    assignment.isNative = true ∧
      assignment.fits engine.types (.member [⟨15⟩, ⟨15⟩]) = true ∧
      assignment.fixedParams.map (engine.types.name ·.type) =
        ["Ref<Ref<Int32>>", "Ref<Int32>"] ∧
      (engine.adaptArgs assignment.fixedParams [r, r]).toOption =
        some [r, ⟨.int32, 8⟩] := by
  decide +kernel

end Rebound

open Rebound in
/-- Assigning `r` to itself: the left side is `r`, the right side is `x`. -/
theorem natives_see_places_nested :
    (∃ native, assignment.body = .native native) ∧
      assignment.fits engine.types (.member ([r, r].map Value.type)) = true ∧
      engine.SeesPlaces assignment.fixedParams [r, r] [r, ⟨.int32, 8⟩] := by
  obtain ⟨hnative, hfits, -, hplaces⟩ := checked
  cases hbody : assignment.body with
  | interpreted tree node scope => simp [Function.isNative, hbody] at hnative
  | native native =>
      have hsite : (CallSite.member [⟨15⟩, ⟨15⟩]).args =
          [r, r].map Value.type := rfl
      refine ⟨⟨native, rfl⟩, hfits, ?_⟩
      rcases natives_see_places hbody hsite hfits with
        ⟨places, hadapted, hsees, -⟩ | ⟨e, hadapted, -⟩
      · obtain rfl : places = [r, ⟨.int32, 8⟩] := by
          simpa [assignment, hadapted, Except.toOption] using hplaces
        exact hsees
      · simp [assignment, hadapted, Except.toOption] at hplaces

end Engine

end ArenaScript
