import ArenaScript.Proofs.Evaluation.Preparation

/-!
# Members from their lists

A type that has been used has the members its shape calls for, in the order of
their list, behind what the program declares.  So the member that an operator or
a method stands for can be read off that list: it is the first one that accepts
the operands, unless the program declares a member that does.
-/

namespace ArenaScript

open Engine (Good Stocked)
open Catalogue (labelled)

def Engine.chosen? (s : Engine) (type : TypeId) (ms : List Member)
    (operator : Bool) (name : String) (args : List TypeId) : Option Member :=
  (labelled ms operator name).find? fun m =>
    (m.provided type).fits s.types (.member args)

variable {s t u : Engine} {type ref address : TypeId} {m : Member}

theorem Catalogue.Outfit.grows (h : s.catalogue.Outfit type u ref address)
    (hs : s.Stocked) (hst : s.Grows t) :
    t.catalogue.Outfit type u ref address :=
  h.later hs.sorted (hst.catalogue hs.sorted)
    (fun id hid _ =>
      ⟨Nat.lt_of_lt_of_le hid hst.types.size, hst.types.entry id hid⟩)
    fun id hid => .of_fixed (hst.types.entry id hid)

theorem Catalogue.Outfit.exists_resolve {operator : Bool} {name : String}
    {args : List TypeId} (h : s.catalogue.Outfit type u ref address)
    (hundeclared : ¬ s.Declares type operator name args)
    (hm : s.chosen? type (u.membersFor type ref address) operator name args =
      some m) :
    ∃ id, s.functions.resolve s.types
      (s.catalogue.memberList type operator name)
        (.member args) = some id ∧ s.functions.get id = m.provided type := by
  obtain ⟨before, mine, after, hlist, hbefore, -, hmembers⟩ :=
    h.members operator name
  have hmap :=
    congrArg (List.find? fun f => f.fits s.types (.member args)) hmembers
  rw [List.find?_map, List.find?_map] at hmap
  obtain ⟨id, hid, hget⟩ := Option.map_eq_some_iff.1
    (hmap.trans (congrArg (Option.map (Member.provided type)) hm))
  refine ⟨id, ?_, hget⟩
  obtain ⟨hfits, first, last, hmine, hfirst⟩ :=
    List.find?_eq_some_iff_append.1 hid
  refine List.find?_eq_some_iff_append.2
    ⟨hfits, before ++ first, last ++ after, ?_,
      fun other hother => ?_⟩
  · rw [Catalogue.memberList, hlist, hmine]
    simp only [List.append_assoc, List.cons_append]
  · rcases List.mem_append.1 hother with hdeclared | hnew
    · refine Bool.not_eq_true' _ ▸ Bool.eq_false_iff.2 fun hother =>
        hundeclared ?_
      refine ⟨other, ?_, hbefore other hdeclared, hother⟩
      rw [Catalogue.memberList, hlist]
      exact List.mem_append_left _ hdeclared
    · exact hfirst other hnew

namespace Engine

theorem exists_outfit (hs : s.Good Stocked) (htype : s.types.Has type)
    (hcomplete : (s.types.get type).isComplete = true) (hvoid : type ≠ .void) :
    ∃ t u ref address, Eval.ensureInitialized type s = .ok () t ∧ s.Prepares t ∧
      t.Good Stocked ∧ t.arena = s.arena ∧
      t.catalogue.Outfit type u ref address := by
  obtain ⟨t, hrun, hst, ht, harena, hinitialized⟩ :=
    exists_prepared hs htype hcomplete hvoid
  obtain ⟨u, ref, address, houtfit⟩ :=
    (ht.inv.furnished type hinitialized).outfit
  exact ⟨t, u, ref, address, hrun, hst, ht, harena, houtfit⟩

section Calling

variable (receiver : Value) {adapted : List Value} {name : String}
  {id : FunctionId}

theorem binaryOperator_provided {rhs : Value}
    (hrun : Eval.ensureInitialized receiver.type s = .ok () t)
    (hid : t.functions.resolve t.types
      (t.catalogue.memberList receiver.type true name)
        (.member [receiver.type, rhs.type]) = some id)
    (hfunction : t.functions.get id = m.provided type)
    (hlength : m.params.length ≤ [receiver, rhs].length)
    (hadapted : t.adaptArgs m.params [receiver, rhs] = .ok adapted) (n : Nat) :
    (Calls.ofFuel (n + 1)).binaryOperator name receiver rhs s =
      (do
        match ← (Calls.ofFuel n).runNative m.native adapted with
        | some value => pure value
        | none => Eval.read Engine.voidValue) t :=
  binaryOperator_eq (tryOperator_eq hrun hid
    (invoke_provided hfunction hlength hadapted n))

theorem binaryOperator_exhausted {rhs : Value}
    (hrun : Eval.ensureInitialized receiver.type s = .ok () t)
    (hid : t.functions.resolve t.types
      (t.catalogue.memberList receiver.type true name)
        (.member [receiver.type, rhs.type]) = some id) :
    (Calls.ofFuel 0).binaryOperator name receiver rhs s = .error .outOfFuel t :=
  (binaryOperator_eq (x := Eval.exhausted) (tryOperator_eq hrun hid rfl)).trans
    rfl

theorem callMethod_provided (others : List Value)
    (hrun : Eval.ensureInitialized receiver.type s = .ok () t)
    (hid : t.functions.resolve t.types
      (t.catalogue.memberList receiver.type false name)
        (.member ((receiver :: others).map Value.type)) = some id)
    (hfunction : t.functions.get id = m.provided type)
    (hlength : m.params.length ≤ (receiver :: others).length)
    (hadapted : t.adaptArgs m.params (receiver :: others) = .ok adapted)
    (n : Nat) :
    (Calls.ofFuel (n + 1)).callMethod receiver name others s =
      (Calls.ofFuel n).runNative m.native adapted t := by
  have hmember :
      t.functions.resolve t.types
        ((t.membersOf receiver.type).findFunction name)
    (.member ((receiver :: others).map Value.type)) = some id := hid
  rw [Calls.callMethod, Eval.bind_ok hrun, Eval.bind_read, Eval.bind_read]
  simp only [hmember]
  exact invoke_provided hfunction hlength hadapted n

end Calling

end Engine

end ArenaScript
