import ArenaScript.Proofs.Evaluation.Alike.Declarations

/-!
# Native functions and calls run alike

Arguments are bound to slots reserved for them.  Between the reservation and the
binding an argument is copied, which may run any code; but that code is quiet,
so the bytes of the slot are still claimed and nobody else's when they are
bound.
-/

namespace ArenaScript

open Handles (Known)
open Engine (Good Reached Lenient Steady Quiet Grows Step Claimed)

/-! ## Claimed slots -/

namespace Engine

variable {s t u : Engine}

theorem Quiet.bases (h : s.Quiet t) : t.arena.bases = s.arena.bases := by
  have hbare : ∀ frames : List Frame, (frames.map Frame.bare).map Frame.base =
      frames.map Frame.base := fun frames => List.map_map
  have hframes := congrArg (List.map Frame.base) h.frames
  rwa [hbare, hbare] at hframes

theorem Quiet.base (h : s.Quiet t) : t.arena.base = s.arena.base := by
  have hhead : ∀ a : Arena, a.base = a.bases.head?.getD Arena.guard := by
    intro a
    rw [Arena.bases, List.head?_map]
    rfl
  rw [hhead, hhead, h.bases]

theorem Claimed.quiet {slot : Slot} (h : s.Claimed t slot) (htu : t.Quiet u) :
    s.Claimed u slot where
  known := Handles.mono htu.grows.types.size h.known
  start := by
    rw [htu.base]
    exact h.start
  finish := by
    rw [htu.base, htu.grows.types.sizeOf slot.type h.known]
    exact Nat.le_trans h.finish htu.mark

theorem reserve_eq_ok {type : TypeId} {lookBack : Bool} {slot : Slot}
    (h : Eval.reserve type lookBack s = .ok slot t) :
    ∃ arena, Arena.reserve s.types type lookBack s.arena = .ok slot arena ∧
      t = { s with arena } := by
  simp only [Eval.reserve, Eval.onArena] at h
  split at h
  · rename_i hop
    cases h
    exact ⟨_, hop, rfl⟩
  · cases h

theorem Claimed.fresh (hs : s.Closed) {type : TypeId} (htype : s.Knows type)
    {slot : Slot} (h : Eval.reserve type false s = .ok slot t) :
    s.Claimed t slot := by
  obtain ⟨arena, hreserve, rfl⟩ := reserve_eq_ok h
  obtain ⟨hstep, hslot⟩ := Step.reserve hs htype hreserve
  have hfinish := Arena.slot_finish hs.wellFormed hreserve
  have hbase := hstep.quiet.base
  have hle := hs.wellFormed.base_le_mark
  obtain ⟨contents, hlength, -, rfl, -⟩ := Arena.reserve_fresh_eq_ok hreserve
  refine ⟨hslot, ?_, ?_⟩
  · rw [hbase]
    simp only
    omega
  · rw [hbase]
    exact Nat.le_of_eq hfinish

end Engine

/-! ## Natives -/

theorem offsetAddress_lt {base size addr : Nat} {n : Int}
    (h : offsetAddress base n size = .ok addr) : addr < Word.modulus := by
  unfold offsetAddress at h
  extract_lets fits delta sum at h
  split at h
  · rename_i hfits
    have haddr : sum.toNat = addr := Except.ok.inj h
    have hsum : fits sum = true := by
      simp only [Bool.and_eq_true] at hfits
      exact hfits.1.2
    simp only [fits, Bool.and_eq_true, decide_eq_true_eq] at hsum
    have hlt : sum.toNat < 9223372036854775808 := by omega
    rw [← haddr]
    exact Nat.lt_trans hlt (by decide)
  · cases h

theorem elementAddress_lt {base len size addr : Nat} {index : Int}
    (h : elementAddress base index len size = .ok addr) :
    addr < Word.modulus := by
  unfold elementAddress at h
  split at h
  · cases h
    exact Word.wrap_lt _
  · cases h

theorem Engine.shifted_lt {s : Engine} {value offset : Value} {size addr : Nat}
    {backwards : Bool} (h : s.shifted value offset size backwards = .ok addr) :
    addr < Word.modulus := by
  simp only [Engine.shifted, bind, Except.bind] at h
  split at h
  · cases h
  · split at h
    · cases h
    · exact offsetAddress_lt h

namespace Calls.Alike

variable {I : Engine → Prop} [Steady I] {c d : Calls} {s : Engine}

theorem runNative (hc : c.Alike I d) (hs : s.Good I) {native : Native}
    (hnative : s.Knows native) {args : List Value} (hargs : s.Knows args) :
    Agree I Quiet s (c.runNative native args) (d.runNative native args) := by
  have harg : ∀ i, s.Knows (args.getD i default) := by
    intro i
    rw [List.getD_eq_getElem?_getD]
    refine Handles.known_getD (fun a ha => hargs a (List.mem_of_getElem? ha)) ?_
    exact ⟨hs.closed.knows_builtin rfl, by decide⟩
  have hbool : ∀ b, Sound I s (some <$> Eval.allocBool b) := fun b =>
    .map (Sound.allocBool hs b) fun _ _ _ h => Handles.known_some.2 h
  have hscalar : ∀ (type : TypeId) (scalar : Scalar), s.Knows type →
      Sound I s (some <$> Eval.allocScalar type scalar) :=
    fun type scalar htype =>
      .map (Sound.allocScalar hs htype scalar) fun _ _ _ h =>
        Handles.known_some.2 h
  have haddress : ∀ (type : TypeId) (addr : Nat), s.Knows type →
      Sound I s (some <$> Eval.allocAddress type addr) := fun type addr htype =>
    .map (Sound.allocAddress hs htype addr) fun _ _ _ h =>
      Handles.known_some.2 h
  have hself : ∀ t : Engine, Reached I Quiet s t →
      Sound I t (pure (some (args.getD 0 default))) :=
    fun t ht => .pure ht.good (Handles.known_some.2 (ht.knows (harg 0)))
  cases native with
  | print newline =>
      refine .bind_inspect hs fun text _ => ?_
      refine .bind (Sound.modify hs ?_) fun _ t ht _ =>
        .pure ht.good Handles.known_none
      exact ⟨{ hs.closed with }, .of_catalogue rfl rfl rfl rfl rfl⟩
  | copyBytes size =>
      exact .bind (Sound.copy hs _ _ size) fun _ t ht _ =>
        .pure ht.good Handles.known_none
  | assignBytes size =>
      exact .bind (Sound.copy hs _ _ size) fun _ t ht _ => hself t ht
  | copyMembers =>
      refine .bind (memberwise hs (fun ht => hc.copyConstruct ht) _ _)
        fun _ t ht _ => ?_
      exact .pure ht.good Handles.known_none
  | assignMembers =>
      exact .bind (memberwise hs (fun ht => hc.assign ht) _ _) fun _ t ht _ =>
        hself t ht
  | compareConstants comparison => exact .bind_inspect hs fun order _ => hbool _
  | convert source target =>
      refine .bind_inspect hs fun scalar _ => ?_
      exact .bind (Sound.write hs _ _) fun _ t ht _ =>
        .pure ht.good Handles.known_none
  | arith op kind type =>
      exact .bind_inspect hs fun scalar _ =>
        hscalar type scalar (Handles.known_some.1 hnative)
  | arithAssign op kind =>
      refine .bind_inspect hs fun scalar _ => ?_
      exact .bind (Sound.write hs _ _) fun _ t ht _ => hself t ht
  | compare comparison kind => exact .bind_inspect hs fun order _ => hbool _
  | negate kind type =>
      exact .bind_inspect hs fun scalar _ =>
        hscalar type _ (Handles.known_some.1 hnative)
  | complement kind type =>
      exact .bind_inspect hs fun scalar _ =>
        hscalar type _ (Handles.known_some.1 hnative)
  | not => exact .bind_inspect hs fun v _ => hbool _
  | connect connective =>
      exact .bind_inspect hs fun v _ => .bind_inspect hs fun w _ => hbool _
  | concat =>
      refine .bind_inspect hs fun v _ => .bind_inspect hs fun w _ => ?_
      exact .map (Sound.allocStr hs _) fun _ _ _ h => Handles.known_some.2 h
  | compareStrings comparison => exact .bind_inspect hs fun order _ => hbool _
  | stringSize =>
      exact .bind_inspect hs fun text _ =>
        hscalar _ _ (hs.closed.knows_builtin rfl)
  | arrayData address => exact haddress address _ (Handles.known_some.1 hnative)
  | arraySize len => exact hscalar _ _ (hs.closed.knows_builtin rfl)
  | arrayIndex elem len size =>
      refine .bind_inspect hs fun index _ =>
        .bind_inspect hs fun addr haddr => ?_
      exact .pure hs (Handles.known_some.2
        ⟨Handles.known_some.1 hnative, elementAddress_lt haddr⟩)
  | copyReference =>
      exact .bind (Sound.copy hs _ _ 8) fun _ t ht _ =>
        .pure ht.good Handles.known_none
  | bindReference =>
      exact .bind (Sound.writeWord hs _ _) fun _ t ht _ =>
        .pure ht.good Handles.known_none
  | follow target =>
      refine .bind_inspect hs fun addr haddr => ?_
      exact .pure hs (Handles.known_some.2
        ⟨Handles.known_some.1 hnative, Arena.readWord_lt haddr⟩)
  | assignThrough target =>
      refine .bind_inspect hs fun addr haddr => ?_
      have hplace : s.Knows (⟨target, addr⟩ : Value) :=
        ⟨Handles.known_some.1 hnative, Arena.readWord_lt haddr⟩
      refine .bind (hc.assign hs hplace (harg 1)) fun _ t ht _ => ?_
      exact .pure ht.good (Handles.known_some.2 (ht.knows hplace))
  | shiftAddress type size backwards =>
      exact .bind_inspect hs fun addr _ =>
        haddress type addr (Handles.known_some.1 hnative)
  | addressIndex target size =>
      refine .bind_inspect hs fun addr haddr => ?_
      exact .pure hs (Handles.known_some.2
        ⟨Handles.known_some.1 hnative, Engine.shifted_lt haddr⟩)
  | compareAddresses comparison => exact .bind_inspect hs fun order _ => hbool _

/-! ## Calls -/

theorem bindArgument (hc : c.Alike I d) (hs : s.Good I) {param : Param}
    (hparam : s.Knows param) {arg : Value} (harg : s.Knows arg) :
    Agree I Grows s (c.bindArgument param arg) (d.bindArgument param arg) := by
  unfold Calls.bindArgument
  refine .bind_of Lenient.of_quiet (Sound.reserve hs hparam false)
    fun slot t hreserve ht hslot => .bind_read ?_
  have hplace :
      t.Knows (⟨slot.type, Word.add t.arena.base slot.offset⟩ : Value) :=
    ⟨hslot, Word.wrap_lt _⟩
  refine .bind_quiet (hc.copyConstruct ht.good hplace (ht.knows harg))
    fun _ u hu _ => ?_
  have hclaimed := Claimed.fresh hs.closed hparam hreserve
  exact .bindLocal hs hu.good (ht.rel.trans hu.rel) param.name
    (hclaimed.quiet hu.rel)

omit [Steady I] in
theorem executeAll (hc : c.Alike I d) (hs : s.Good I) (nodes : List Node) :
    Agree I Grows s (c.executeAll nodes) (d.executeAll nodes) := by
  induction nodes generalizing s with
  | nil => exact .pure hs trivial
  | cons node rest ih =>
      unfold Calls.executeAll
      refine .bind (hc.execute node hs) fun flow t ht _ => ?_
      cases flow with
      | normal => exact ih ht.good
      | returned => exact .pure ht.good trivial
      | broken levels => exact .pure ht.good trivial
      | continued => exact .pure ht.good trivial

theorem runBody (hc : c.Alike I d) (hs : s.Good I) (node : Node)
    {params : List Param} (hparams : s.Knows params) {args : List Value}
    (hargs : s.Knows args) :
    Agree I Grows s (c.runBody node params args)
      (d.runBody node params args) := by
  unfold Calls.runBody
  refine .bind (.forM hs fun pair hpair t ht => ?_) fun _ t ht _ => ?_
  · obtain ⟨hparam, harg⟩ := List.of_mem_zip hpair
    exact hc.bindArgument ht.good (ht.knows (hparams _ hparam))
      (ht.knows (hargs _ harg))
  · cases node.findChild? .block with
    | some body =>
        exact .bind (hc.executeAll ht.good body.children) fun _ u hu _ =>
          .pure hu.good trivial
    | none => exact .fail ht.good _

theorem allocateResult (hs : s.Good I) {ret : TypeId} (hret : s.Knows ret) :
    Sound I s (Calls.allocateResult ret) := by
  unfold Calls.allocateResult
  refine .ite (fun _ => .pure hs Handles.known_none) fun _ => ?_
  exact .map (Sound.allocate hs hret) fun _ _ _ h => Handles.known_some.2 h

theorem invokeInterpreted (hc : c.Alike I d) (hs : s.Good I) (id : FunctionId)
    {f : Function} (hf : s.Knows f) (tree : TreeId) (node : Node)
    (scope : ScopeId) {args : List Value} (hargs : s.Knows args) :
    Agree I Quiet s (c.invokeInterpreted id f tree node scope args)
      (d.invokeInterpreted id f tree node scope args) := by
  unfold Calls.invokeInterpreted
  refine .bind_inspect hs fun _ hlimit => ?_
  refine .bind (allocateResult hs hf.2.1) fun returnSlot t ht hslot => ?_
  have hroom : t.callDepth < t.maxCallDepth := by
    rw [ht.rel.callDepth, ht.rel.grows.maxCallDepth]
    split at hlimit
    · cases hlimit
    · omega
  have hrecord : t.Knows (⟨id, f.owner, returnSlot⟩ : CallRecord) :=
    ⟨ht.knows hf.2.2.1, hslot⟩
  refine .bind
    (hc.inCall ht.good hroom scope tree hrecord ?_ fun u htypes hu => ?_)
    fun _ u hu _ => ?_
  · exact hc.disciplined.runBody Engine.Disciplined.stable.toLocal node
      f.fixedParams args
  · have hknows : u.types.size = t.types.size := by rw [htypes]
    refine hc.runBody hu node ?_ ?_
    · rw [Engine.Knows, hknows]
      exact ht.knows (Function.known_fixedParams hf)
    · rw [Engine.Knows, hknows]
      exact ht.knows hargs
  · exact .pure hu.good (hu.knows hslot)

theorem invokeStep (hc : c.Alike I d) (hs : s.Good I) (id : FunctionId)
    {args : List Value} (hargs : s.Knows args) :
    Agree I Quiet s (c.invokeStep id args) (d.invokeStep id args) := by
  unfold Calls.invokeStep
  have hf := hs.closed.functions id
  refine .bind_read
    (.ite (fun _ => .inspect hs Handles.known_error) fun _ => ?_)
  cases hbody : (s.functions.get id).body with
  | native native =>
      have hnative := hf.2.2.2
      rw [hbody] at hnative
      refine .bind_inspect hs fun adapted hadapted => ?_
      exact hc.runNative hs hnative
        (hs.closed.knows_adaptArgs _ hargs adapted hadapted)
  | interpreted tree node scope =>
      exact hc.invokeInterpreted hs id hf tree node scope hargs

/-! ## Choosing what to call -/

theorem accepts (hs : s.Good I) (args : List Value) {callee : Callee}
    (hcallee : s.Knows callee) : Sound I s (Calls.accepts args callee) := by
  cases callee with
  | function id => exact .read hs trivial
  | constructor type =>
      unfold Calls.accepts
      refine .ite (fun _ => .pure hs trivial) fun _ => ?_
      exact .map (constructorFor hs hcallee args) fun _ _ _ _ => trivial

theorem firstAccepting (hs : s.Good I) (args : List Value)
    {callees : List Callee} (hcallees : s.Knows callees) :
    Sound I s (Calls.firstAccepting args callees) := by
  induction callees generalizing s with
  | nil => exact .pure hs Handles.known_none
  | cons callee rest ih =>
      obtain ⟨hcallee, hrest⟩ := Handles.known_cons.1 hcallees
      unfold Calls.firstAccepting
      refine .bind (accepts hs args hcallee) fun accepted t ht _ => ?_
      refine .ite (fun _ => .pure ht.good ?_) fun _ =>
        ih ht.good (ht.knows hrest)
      exact Handles.known_some.2 ⟨ht.knows hcallee, ht.knows hrest⟩

theorem selectCallee (hs : s.Good I) {candidates : List Callee}
    (hcandidates : s.Knows candidates) (args : List Value) :
    Sound I s (Calls.selectCallee candidates args) := by
  unfold Calls.selectCallee
  refine .bind (firstAccepting hs args hcandidates) fun found t ht hfound => ?_
  cases found with
  | some found =>
      obtain ⟨hcallee, hrest⟩ := Handles.known_some.1 hfound
      refine .bind (firstAccepting ht.good args hrest) fun _ u hu _ => ?_
      exact .pure hu.good (Handles.known_some.2 (hu.knows hcallee))
  | none => exact .pure ht.good Handles.known_none

theorem invokeCallee (hc : c.Alike I d) (hs : s.Good I) {callee : Callee}
    (hcallee : s.Knows callee) {args : List Value} (hargs : s.Knows args) :
    Agree I Quiet s (c.invokeCallee callee args)
      (d.invokeCallee callee args) := by
  cases callee with
  | function id => exact hc.invoke id hs hargs
  | constructor type =>
      exact .map (hc.constructNew hs hcallee hargs) fun _ _ _ h =>
        Handles.known_some.2 h

theorem tryTemplates (hc : c.Alike I d) (hs : s.Good I) {site : CallSite}
    (hsite : s.Knows site.args) {explicit : List TemplateArg}
    (hexplicit : s.Knows explicit) {args : List Value} (hargs : s.Knows args)
    (templates : List TemplateId) :
    Agree I Quiet s (c.tryTemplates site explicit args templates)
      (d.tryTemplates site explicit args templates) := by
  induction templates generalizing s with
  | nil => exact .pure hs Handles.known_none
  | cons template rest ih =>
      unfold Calls.tryTemplates
      refine .bind_read ?_
      cases hfound :
        Deduction.arguments? s.types s.templates template site.args
          explicit with
      | none => exact ih hs hsite hexplicit hargs
      | some targs =>
          have htargs :=
            Deduction.known_arguments? hs.closed.types hsite hexplicit
              targs hfound
          refine .bind (hc.instantiateFunction hs template htargs)
            fun id t ht _ => ?_
          refine .bind_read (.ite (fun _ => ?_) fun _ => ?_)
          · refine .map (hc.invoke id ht.good (ht.knows hargs))
              fun _ _ _ h => ?_
            exact Handles.known_some.2 h
          · exact ih ht.good (ht.knows hsite) (ht.knows hexplicit)
              (ht.knows hargs)

theorem callMethod (hc : c.Alike I d) (hs : s.Good I) {receiver : Value}
    (hreceiver : s.Knows receiver) (name : String) {args : List Value}
    (hargs : s.Knows args) :
    Agree I Quiet s (c.callMethod receiver name args)
      (d.callMethod receiver name args) := by
  have hfull : s.Knows (receiver :: args) :=
    Handles.known_cons.2 ⟨hreceiver, hargs⟩
  have hsite :
      s.Knows (CallSite.member ((receiver :: args).map Value.type)).args :=
    Handles.known_map.2 fun v hv => (hfull v hv).1
  unfold Calls.callMethod
  refine .bind (Sound.ensureInitialized hs hreceiver.1) fun _ t ht _ =>
    .bind_read (.bind_read ?_)
  cases t.functions.resolve t.types
    ((t.membersOf receiver.type).findFunction name)
      (.member ((receiver :: args).map Value.type)) with
  | some id => exact hc.invoke id ht.good (ht.knows hfull)
  | none =>
      refine .bind
        (hc.tryTemplates ht.good (ht.knows hsite) Handles.known_nil
          (ht.knows hfull) _) fun result u hu hresult => ?_
      cases result with
      | some result => exact .pure hu.good (Handles.known_some.1 hresult)
      | none => exact .inspect hu.good Handles.known_error

end Calls.Alike

end ArenaScript
