import ArenaScript.Proofs.Evaluation.Observation

/-!
# Signatures

A signature tells what a function looks like from outside, with its types given
by name.  Names do not depend on the numbers that types happen to have, so the
signatures of the members which the engine provides to a type depend only on the
type itself: whichever types have been created in the meantime, the same members
are provided.
-/

namespace ArenaScript

open Handles (Known)

structure Signature where
  name : String
  params : List (String × String)
  ret : String
  traits : Traits
  deriving DecidableEq, Repr

def Function.signature (names : TypeId → String) (f : Function) :
    Signature where
  name := f.name
  params := f.params.map fun p => (p.name, names p.type)
  ret := names f.ret
  traits := f.traits

theorem Function.signature_congr {n : Nat} {names names' : TypeId → String}
    {f : Function} (h : ∀ id, Known n id → names id = names' id)
    (hf : Known n f) : f.signature names = f.signature names' := by
  unfold signature
  rw [h f.ret hf.2.1, List.map_congr_left
    fun p hp => by rw [h p.type (hf.1 p hp)]]

/-! ## Members -/

namespace Member

/-- The kind of a member and the signature of the function it becomes. -/
def outline (names : TypeId → String) (owner : TypeId) (m : Member) :
    Bool × Signature :=
  (m.isOperator, (m.provided owner).signature names)

theorem outline_function (names : TypeId → String) (owner : TypeId)
    (name : String) (params : List Param) (ret : TypeId) (native : Native) :
    outline names owner (function name params ret native) =
      (false,
        { name, params := params.map fun p => (p.name,
          names p.type), ret := names ret
          traits := { synthesized := true, constructs := name == "construct"
                      method :=
                        params.head?.map Param.name == some "self" } }) := rfl

theorem outline_operator (names : TypeId → String) (owner : TypeId)
    (symbol : String) (params : List Param) (ret : TypeId) (native : Native) :
    outline names owner (operator symbol params ret native) =
      (true,
        { name := symbol, params := params.map fun p => (p.name, names p.type),
          ret := names ret
          traits := { synthesized := true
                      method :=
                        params.head?.map Param.name == some "self" } }) := rfl

def SameCore (names names' : TypeId → String) : Prop :=
  ∀ kind : CoreKind, names kind.typeId = names' kind.typeId

section Lists

variable {names names' : TypeId → String} (owner : TypeId)
  {type ref ref' : TypeId}

theorem outline_copying (hcore : SameCore names names')
    (htype : names type = names' type) (href : names ref = names' ref')
    (copy assign copy' assign' : Native) :
    (copying type ref copy assign).map (outline names owner) =
      (copying type ref' copy' assign').map (outline names' owner) := by
  have hvoid : names .void = names' .void := hcore .void
  simp [copying, outline_function, outline_operator, self, htype, href, hvoid]

theorem outline_constants (hcore : SameCore names names')
    (htype : names type = names' type) :
    (constants type).map (outline names owner) =
      (constants type).map (outline names' owner) := by
  have hbool : names .bool = names' .bool := hcore .bool
  simp [constants, binary, outline_operator, self, htype, hbool]

theorem outline_numeric (hcore : SameCore names names')
    (htype : names type = names' type) (href : names ref = names' ref')
    (size size' : Nat) (kind : CoreKind) :
    (numeric type ref size kind).map (outline names owner) =
      (numeric type ref' size' kind).map (outline names' owner) := by
  have hbool : names .bool = names' .bool := hcore .bool
  have hvoid : names .void = names' .void := hcore .void
  have hsource : ∀ source : CoreKind, names source.typeId =
      names' source.typeId := hcore
  unfold numeric
  cases kind.isInteger <;>
    simp [bytewise,
      outline_copying owner hcore htype href _ _ (.copyBytes size')
      (.assignBytes size'), binary, outline_function, outline_operator, self,
      htype, href, hsource, hvoid, hbool, Function.comp_def]

theorem outline_boolean (hcore : SameCore names names')
    (htype : names type = names' type) (href : names ref = names' ref')
    (size size' : Nat) :
    (boolean type ref size).map (outline names owner) =
      (boolean type ref' size').map (outline names' owner) := by
  simp [boolean, bytewise,
    outline_copying owner hcore htype href _ _ (.copyBytes size')
    (.assignBytes size'), binary, outline_operator, self, htype,
    Function.comp_def]

theorem outline_string (hcore : SameCore names names')
    (htype : names type = names' type) (href : names ref = names' ref')
    (size size' : Nat) :
    (string type ref size).map (outline names owner) =
      (string type ref' size').map (outline names' owner) := by
  have hbool : names .bool = names' .bool := hcore .bool
  have hint : names .int32 = names' .int32 := hcore .int32
  simp [string, bytewise,
    outline_copying owner hcore htype href _ _ (.copyBytes size')
    (.assignBytes size'), binary, outline_function, outline_operator, self,
    htype, href, hbool, hint]

theorem outline_array {elem address address' : TypeId}
    (hcore : SameCore names names') (href : names ref = names' ref')
    (helem : names elem = names' elem)
    (haddress : names address = names' address') (len size size' : Nat) :
    (array ref elem address len size).map (outline names owner) =
      (array ref' elem address' len size').map (outline names' owner) := by
  have hint : names .int32 = names' .int32 := hcore .int32
  have hlong : names .int64 = names' .int64 := hcore .int64
  simp [array, outline_function, outline_operator, self, href, helem, haddress,
    hint, hlong]

theorem outline_reference {target : TypeId} (hcore : SameCore names names')
    (htype : names type = names' type) (href : names ref = names' ref')
    (htarget : names target = names' target) :
    (reference type ref target).map (outline names owner) =
      (reference type ref' target).map (outline names' owner) := by
  have hvoid : names .void = names' .void := hcore .void
  simp [reference, outline_function, outline_operator, self, htype, href,
    htarget, hvoid]

theorem outline_address {target : TypeId} (hcore : SameCore names names')
    (htype : names type = names' type) (href : names ref = names' ref')
    (htarget : names target = names' target)
    (size targetSize size' targetSize' : Nat) :
    (address type ref target size targetSize).map (outline names owner) =
      (address type ref' target size' targetSize').map
        (outline names' owner) := by
  have hbool : names .bool = names' .bool := hcore .bool
  have hint : names .int32 = names' .int32 := hcore .int32
  simp [address, bytewise,
    outline_copying owner hcore htype href _ _ (.copyBytes size')
    (.assignBytes size'), binary, outline_function, outline_operator, self,
    htype, htarget, hbool, hint]

end Lists

end Member

/-! ## The members of a type -/

theorem Shape.eq_of_fixed {x y : Shape} (h : x.fixed = y.fixed) :
    x = y ∨ ∃ body body', x = .structural body ∧ y = .structural body' ∧
      body.kind = body'.kind := by
  cases x with
  | structural body =>
      cases y with
      | structural body' =>
          have hbody : ({ body with origin := none } : Structural) =
              { body' with origin := none } :=
            Shape.structural.inj h
          have hkind := congrArg Structural.kind hbody
          exact .inr ⟨body, body', rfl, rfl, hkind⟩
      | _ => cases h
  | _ =>
      cases y with
      | structural body' => cases h
      | _ => exact .inl h

namespace TypeTable.Grown

variable {t u : TypeTable} {id : TypeId}

theorem shape (h : t.Grown u) (hid : t.Has id) :
    (u.get id).shape = (t.get id).shape ∨
    ∃ body' body, (u.get id).shape = .structural body' ∧
      (t.get id).shape = .structural body ∧
      body'.kind = body.kind :=
  Shape.eq_of_fixed (congrArg TypeEntry.shape (h.entry id hid))

theorem shape_eq (h : t.Grown u) (hid : t.Has id)
    (hshape : ∀ body, (t.get id).shape ≠ .structural body) :
    (u.get id).shape = (t.get id).shape :=
  (h.shape hid).resolve_right fun ⟨_, body, _, hbody, _⟩ => hshape body hbody

theorem referenceTarget? (h : t.Grown u) (hid : t.Has id) :
    (u.get id).referenceTarget? = (t.get id).referenceTarget? := by
  have htarget := congrArg TypeEntry.referenceTarget? (h.entry id hid)
  rwa [TypeEntry.referenceTarget?_fixed,
    TypeEntry.referenceTarget?_fixed] at htarget

theorem addressTarget? (h : t.Grown u) (hid : t.Has id) :
    (u.get id).addressTarget? = (t.get id).addressTarget? := by
  unfold TypeEntry.addressTarget?
  rcases h.shape hid with hsame | ⟨body', body, hbody', hbody, -⟩
  · rw [hsame]
  · rw [hbody', hbody]

end TypeTable.Grown

namespace Engine

def declaresCopying (s : Engine) (type : TypeId) (operator : Bool)
    (name : String) : Bool :=
  (s.functions.resolve s.types
    (s.catalogue.overloads (s.catalogue.members type) operator name)
    (.member [type, type])).isSome

theorem outline_aggregateMembers {a b : Engine} {type ref ref' : TypeId}
    (hcore : Member.SameCore a.types.name b.types.name)
    (htype : a.types.name type = b.types.name type)
    (href : a.types.name ref = b.types.name ref') (hdeclares : ∀ operator name,
      a.declaresCopying type operator name =
        b.declaresCopying type operator name) :
    (a.aggregateMembers type ref).map (Member.outline a.types.name type) =
      (b.aggregateMembers type ref').map
        (Member.outline b.types.name type) := by
  have hfilter : ∀ (s : Engine) (ref : TypeId),
      (s.aggregateMembers type ref).map (Member.outline s.types.name type) =
        ((Member.memberwise type ref).map
          (Member.outline s.types.name type)).filter
          fun o => !s.declaresCopying type o.1 o.2.name := by
    intro s ref
    rw [List.filter_map]
    rfl
  have hall :=
    Member.outline_copying type hcore htype href .copyMembers .assignMembers
      .copyMembers
    .assignMembers
  rw [hfilter, hfilter, Member.memberwise, Member.memberwise, hall]
  simp only [hdeclares]

/-- Whatever types have been added since `s`, the same members are provided to a
type of `s`. -/
theorem outline_membersFor {s a b : Engine} (hs : s.Closed)
    (ha : s.types.Grown a.types) (hb : s.types.Grown b.types)
    {type ref ref' address address' : TypeId} (htype : s.types.Has type)
    (href : a.types.name ref = b.types.name ref')
    (haddress : ∀ parts, (s.types.get type).array? = some parts →
      a.types.name address = b.types.name address')
    (hdeclares : ∀ operator name,
      a.declaresCopying type operator name =
        b.declaresCopying type operator name) :
    (a.membersFor type ref address).map (Member.outline a.types.name type) =
      (b.membersFor type ref' address').map
        (Member.outline b.types.name type) := by
  have hsame : ∀ id, s.types.Has id →
      a.types.name id = b.types.name id := fun id hid =>
    (ha.name hid).trans (hb.name hid).symm
  have hcore : Member.SameCore a.types.name b.types.name := fun kind =>
    hsame _ (kind.known_typeId hs.builtin)
  have hname := hsame type htype
  have hentry := hs.types type
  have hkept : ∀ {shape : Shape}, (s.types.get type).shape = shape →
      (∀ body, shape ≠ .structural body) →
        (a.types.get type).shape = shape ∧ (b.types.get type).shape =
          shape := by
    intro shape hshape hnot
    rw [← hshape] at hnot ⊢
    exact ⟨ha.shape_eq htype hnot, hb.shape_eq htype hnot⟩
  unfold membersFor
  simp only
  cases hshape : (s.types.get type).shape with
  | structural body =>
      have hstructural : ∀ {u : TypeTable}, s.types.Grown u →
          ∃ body', (u.get type).shape = .structural body' ∧
            body'.kind = body.kind := by
        intro u hu
        rcases hu.shape htype with h | ⟨body', other, hbody', hbody, hkind⟩
        · exact ⟨body, h.trans hshape, rfl⟩
        · rw [hshape] at hbody
          cases hbody
          exact ⟨body', hbody', hkind⟩
      obtain ⟨body', ha', hkind⟩ := hstructural ha
      obtain ⟨body'', hb', hkind'⟩ := hstructural hb
      rw [ha', hb']
      simp only [hkind, hkind']
      split
      · rw [List.map_append, List.map_append,
          Member.outline_constants type hcore hname]
        exact congrArg (· ++ _)
          (Member.outline_copying type hcore hname href _ _ _ _)
      · exact outline_aggregateMembers hcore hname href hdeclares
  | core kind =>
      obtain ⟨ha', hb'⟩ := hkept hshape nofun
      rw [ha', hb']
      cases kind with
      | void => rfl
      | bool => exact Member.outline_boolean type hcore hname href _ _
      | str => exact Member.outline_string type hcore hname href _ _
      | _ => exact Member.outline_numeric type hcore hname href _ _ _
  | callable kind =>
      obtain ⟨ha', hb'⟩ := hkept hshape nofun
      rw [ha', hb']
      exact Member.outline_copying type hcore hname href _ _ _ _
  | template kind args =>
      obtain ⟨ha', hb'⟩ := hkept hshape nofun
      rw [ha', hb']
      cases kind with
      | ref =>
          simp only [ha.referenceTarget? htype, hb.referenceTarget? htype]
          cases htarget : (s.types.get type).referenceTarget? with
          | none => rfl
          | some target =>
              exact Member.outline_reference type hcore hname href
                (hsame target
                  (TypeEntry.known_referenceTarget? hentry target htarget))
      | address =>
          simp only [ha.addressTarget? htype, hb.addressTarget? htype]
          cases htarget : (s.types.get type).addressTarget? with
          | none => rfl
          | some target =>
              exact Member.outline_address type hcore hname href
                (hsame target
                  (TypeEntry.known_addressTarget? hentry target htarget))
                    _ _ _ _
      | array =>
          simp only [ha.array? htype, hb.array? htype]
          cases hparts : (s.types.get type).array? with
          | none => rfl
          | some parts =>
              have helem :=
                hsame _ (TypeEntry.known_array? hentry parts hparts).1
              rw [List.map_append, List.map_append,
                Member.outline_array type hcore href helem
                (haddress parts hparts)]
              refine congrArg (· ++ _) ?_
              split <;> split <;>
                exact Member.outline_copying type hcore hname href _ _ _ _

end Engine

end ArenaScript
