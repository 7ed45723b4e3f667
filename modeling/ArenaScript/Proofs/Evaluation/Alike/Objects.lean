import ArenaScript.Proofs.Evaluation.Primitives

/-!
# Operators, construction and destruction run alike

If the recursive operations of two evaluators agree, so does everything that is
described by them.  This module is about operators and about the life of
objects.
-/

namespace ArenaScript

open Handles (Known)
open Engine (Good Reached Lenient Steady Quiet Grows Step)

namespace Calls.Alike

variable {I : Engine → Prop} {c d : Calls} {s : Engine}

theorem noOperator {α : Type} [Handles α] (hs : s.Good I) (symbol : String)
    (args : List Value) : Sound I s (Calls.noOperator symbol args : Eval α) :=
  .inspect hs Handles.known_error

theorem dereference (hs : s.Good I) (v : Value) {d : Value} (hd : s.Knows d) :
    Sound I s (Calls.dereference v d) := by
  unfold Calls.dereference
  refine .bind_read ?_
  cases htarget : (s.types.get d.type).addressTarget? with
  | some target =>
      have htype :=
        TypeEntry.known_addressTarget? (hs.closed.types d.type) target htarget
      exact .bind_inspect hs fun addr haddr =>
        .pure hs ⟨htype, Arena.readWord_lt haddr⟩
  | none =>
      exact .ite (fun _ => .pure hs hd) fun _ => .inspect hs Handles.known_error

variable [Steady I]

/-! ## Operators -/

theorem tryOperator (hc : c.Alike I d) (hs : s.Good I) (symbol : String)
    {args : List Value} (hargs : s.Knows args) :
    Agree I Quiet s (c.tryOperator symbol args)
      (d.tryOperator symbol args) := by
  cases args with
  | nil => exact .pure hs Handles.known_none
  | cons receiver others =>
      have hreceiver := (Handles.known_cons.1 hargs).1
      unfold Calls.tryOperator
      refine .bind (Sound.ensureInitialized hs hreceiver.1) fun _ t ht _ =>
        .bind_read ?_
      cases t.operatorFor? symbol receiver (receiver :: others) with
      | none => exact .pure ht.good Handles.known_none
      | some id =>
          refine .bind (hc.invoke id ht.good (ht.knows hargs))
            fun result u hu hresult => ?_
          cases result with
          | none =>
              refine .map (.read hu.good hu.closed.knows_voidValue)
                fun v w _ hv => ?_
              exact Handles.known_some.2 hv
          | some value => exact .pure hu.good hresult

theorem binaryOperator (hc : c.Alike I d) (hs : s.Good I) (symbol : String)
    {l r : Value} (hl : s.Knows l) (hr : s.Knows r) :
    Agree I Quiet s (c.binaryOperator symbol l r)
      (d.binaryOperator symbol l r) := by
  have hpair : ∀ {t : Engine} {l r : Value}, t.Knows l → t.Knows r →
      t.Knows [l, r] :=
    fun hl hr =>
      Handles.known_cons.2 ⟨hl, Handles.known_cons.2 ⟨hr, Handles.known_nil⟩⟩
  unfold Calls.binaryOperator
  refine .bind (hc.tryOperator hs symbol (hpair hl hr))
    fun result t ht hresult => ?_
  cases result with
  | some value => exact .pure ht.good (Handles.known_some.1 hresult)
  | none =>
      refine .bind (Sound.stripRef ht.good (ht.knows hl)) fun dl u hu hdl => ?_
      refine .bind (Sound.stripRef hu.good (hu.knows (ht.knows hr)))
        fun dr v hv hdr => ?_
      refine .ite (fun _ => ?_) fun _ => noOperator hv.good symbol _
      refine .bind (hc.tryOperator hv.good symbol (hpair (hv.knows hdl) hdr))
        fun again w hw hagain => ?_
      cases again with
      | some value => exact .pure hw.good (Handles.known_some.1 hagain)
      | none => exact noOperator hw.good symbol _

theorem unaryOperator (hc : c.Alike I d) (hs : s.Good I) (symbol : String)
    {v : Value} (hv : s.Knows v) :
    Agree I Quiet s (c.unaryOperator symbol v) (d.unaryOperator symbol v) := by
  have hsingle : ∀ {t : Engine} {v : Value}, t.Knows v → t.Knows [v] :=
    fun hv => Handles.known_cons.2 ⟨hv, Handles.known_nil⟩
  unfold Calls.unaryOperator
  refine .bind (hc.tryOperator hs symbol (hsingle hv))
    fun result t ht hresult => ?_
  cases result with
  | some value => exact .pure ht.good (Handles.known_some.1 hresult)
  | none =>
      refine .bind (Sound.stripRef ht.good (ht.knows hv))
        fun place u hu hplace => ?_
      extract_lets rest
      have hrest : ∀ (again : Option Value) (w : Engine), Reached I Quiet u w →
          w.Knows again → Sound I w (rest again) := by
        intro again w hw hagain
        cases again with
        | some value => exact .pure hw.good (Handles.known_some.1 hagain)
        | none =>
            refine .ite (fun _ => ?_) fun _ => ?_
            · refine .bind (Sound.addressTo hw.good (hw.knows hplace).1)
                fun type x hx htype => ?_
              exact Sound.allocAddress hx.good htype _
            · exact .ite
                (fun _ => dereference hw.good v (hw.knows hplace)) fun _ =>
                  noOperator hw.good symbol _
      refine .ite (fun _ => ?_) fun _ => ?_
      · exact .bind (hc.tryOperator hu.good symbol (hsingle hplace)) hrest
      · exact .bind (.pure hu.good Handles.known_none) hrest

theorem assign (hc : c.Alike I d) (hs : s.Good I) {dst src : Value}
    (hdst : s.Knows dst) (hsrc : s.Knows src) :
    Agree I Quiet s (c.assign dst src) (d.assign dst src) :=
  .bind (hc.binaryOperator hs "=" hdst hsrc) fun _ _ ht _ =>
    .pure ht.good trivial

/-! ## Construction and destruction -/

theorem constructorFor (hs : s.Good I) {type : TypeId} (htype : s.Knows type)
    (args : List Value) : Sound I s (Calls.constructorFor type args) :=
  .bind (Sound.ensureInitialized hs htype) fun _ _ ht _ =>
    .read ht.good fun _ _ => trivial

theorem initField (hc : c.Alike I d) (hs : s.Good I) (classScope : ScopeId)
    (place : Value) {field : Field} (hfield : s.Knows field) :
    Agree I Quiet s (c.initField classScope place field)
      (d.initField classScope place field) := by
  have hslot : s.Knows (place.view field.type field.offset) :=
    Value.known_view hfield _
  unfold Calls.initField
  cases field.initializer with
  | none => exact hc.defaultConstruct hs hslot
  | some init =>
      have hdisciplined : Eval.Within Engine.Disciplined (do
          let value ← Eval.withTree init.tree (d.evaluate init.node)
          d.copyConstruct (place.view field.type field.offset) value) :=
        Engine.Disciplined.stable.bind
          (Engine.Disciplined.stable.tree init.tree
            (hc.disciplined.evaluate init.node))
          fun value => hc.disciplined.copyConstruct _ value
      refine hc.inFrame hs classScope rfl hdisciplined fun hpushed => .loosen ?_
      refine .bind
        (.withTree init.tree hpushed fun hinner => hc.evaluate init.node hinner)
        fun value t ht hvalue => ?_
      exact hc.copyConstruct ht.good (ht.knows hslot) hvalue

theorem initFields (hc : c.Alike I d) (hs : s.Good I) (place : Value) :
    Agree I Quiet s (c.initFields place) (d.initFields place) := by
  unfold Calls.initFields
  refine .bind_read (.bind_read (.forM hs fun field hfield t ht => ?_))
  have hknown := hs.closed.knows_classFields place.type field hfield
  exact hc.initField ht.good _ place (ht.knows hknown)

theorem runConstructor (hc : c.Alike I d) (hs : s.Good I) (id : FunctionId)
    {dst : Value} (hdst : s.Knows dst) {args : List Value}
    (hargs : s.Knows args) :
    Agree I Quiet s (c.runConstructor id dst args)
      (d.runConstructor id dst args) := by
  have hinvoke : ∀ t, Reached I Quiet s t → Agree I Quiet t
      (do let _ ← c.invoke id (dst :: args); pure ())
      (do let _ ← d.invoke id (dst :: args); pure ()) := by
    intro t ht
    refine .bind (hc.invoke id ht.good ?_) fun _ u hu _ => .pure hu.good trivial
    exact ht.knows (Handles.known_cons.2 ⟨hdst, hargs⟩)
  unfold Calls.runConstructor
  refine .bind_read (.ite (fun _ => ?_) fun _ => hinvoke s (.refl hs))
  exact .bind (hc.initFields hs dst) fun _ t ht _ => hinvoke t ht

theorem copyConstructStep (hc : c.Alike I d) (hs : s.Good I) {dst src : Value}
    (hdst : s.Knows dst) (hsrc : s.Knows src) :
    Agree I Quiet s (c.copyConstructStep dst src)
      (d.copyConstructStep dst src) := by
  unfold Calls.copyConstructStep
  refine .ite (fun _ => .pure hs trivial) fun _ => ?_
  refine .bind (constructorFor hs hdst.1 [src]) fun found t ht _ => ?_
  cases found with
  | some id =>
      refine hc.runConstructor ht.good id (ht.knows hdst) ?_
      exact Handles.known_cons.2 ⟨ht.knows hsrc, Handles.known_nil⟩
  | none => exact .inspect ht.good Handles.known_error

theorem constructNew (hc : c.Alike I d) (hs : s.Good I) {type : TypeId}
    (htype : s.Knows type) {args : List Value} (hargs : s.Knows args) :
    Agree I Quiet s (c.constructNew type args) (d.constructNew type args) := by
  unfold Calls.constructNew
  refine .ite (fun _ => ?_) fun _ => ?_
  · refine .bind (Sound.allocate hs htype) fun place t ht hplace => ?_
    refine .bind (hc.defaultConstruct ht.good hplace) fun _ u hu _ => ?_
    exact .pure hu.good (hu.knows hplace)
  · refine .bind (constructorFor hs htype args) fun found t ht _ => ?_
    cases found with
    | some id =>
        refine .bind (Sound.allocate ht.good (ht.knows htype))
          fun place u hu hplace => ?_
        refine .bind
          (hc.runConstructor hu.good id hplace (hu.knows (ht.knows hargs)))
          fun _ v hv _ => ?_
        exact .pure hv.good (hv.knows hplace)
    | none => exact .inspect ht.good Handles.known_error

theorem defaultConstructStep (hc : c.Alike I d) (hs : s.Good I) {place : Value}
    (hplace : s.Knows place) :
    Agree I Quiet s (c.defaultConstructStep place)
      (d.defaultConstructStep place) := by
  unfold Calls.defaultConstructStep
  refine .bind_read (.ite (fun _ => ?_) fun _ => .pure hs trivial)
  refine .bind (.read hs (hs.closed.knows_elements place))
    fun elements t ht helements => ?_
  cases elements with
  | some elements =>
      refine .forM ht.good fun element helement u hu =>
        hc.defaultConstruct hu.good (hu.knows ?_)
      exact Handles.known_some.1 helements element helement
  | none =>
      refine .bind (hc.initFields ht.good place) fun _ u hu _ => ?_
      have hplace' : u.Knows place := hu.knows (ht.knows hplace)
      refine .bind (constructorFor hu.good hplace'.1 []) fun found v hv _ => ?_
      cases found with
      | some id =>
          refine .bind (hc.invoke id hv.good ?_) fun _ w hw _ =>
            .pure hw.good trivial
          exact Handles.known_cons.2 ⟨hv.knows hplace', Handles.known_nil⟩
      | none => exact .pure hv.good trivial

omit [Steady I] in
theorem destroyStep (hc : c.Alike I d) (hs : s.Good I) {value : Value}
    (hvalue : s.Knows value) :
    Agree I Quiet s (c.destroyStep value) (d.destroyStep value) := by
  have hfields : ∀ t : Engine, t.Good I → Agree I Quiet t
      (do
        let fields ← Eval.read fun s => s.classFields value.type
        fields.reverse.forM fun field =>
          c.destroy (value.view field.type field.offset))
      (do
        let fields ← Eval.read fun s => s.classFields value.type
        fields.reverse.forM fun field =>
          d.destroy (value.view field.type field.offset)) := by
    intro t ht
    refine .bind_read
      (.forM ht fun field hfield u hu => hc.destroy hu.good (hu.knows ?_))
    exact Value.known_view
      (ht.closed.knows_classFields value.type field (List.mem_reverse.1 hfield))
        _
  unfold Calls.destroyStep
  refine .bind_read (.ite (fun _ => ?_) fun _ => .pure hs trivial)
  refine .bind (.read hs (hs.closed.knows_elements value))
    fun elements t ht helements => ?_
  cases elements with
  | some elements =>
      refine .forM ht.good fun element helement u hu =>
        hc.destroy hu.good (hu.knows ?_)
      exact Handles.known_some.1 helements element (List.mem_reverse.1 helement)
  | none =>
      refine .bind_read ?_
      cases t.memberFunction? value.type "destruct" [] with
      | some id =>
          refine .bind (hc.invoke id ht.good ?_) fun _ u hu _ =>
            hfields u hu.good
          exact Handles.known_cons.2 ⟨ht.knows hvalue, Handles.known_nil⟩
      | none => exact hfields t ht.good

theorem memberwise (hs : s.Good I) {f g : Value → Value → Eval Unit}
    (hfg : ∀ {t : Engine} {dst src : Value}, t.Good I → t.Knows dst →
      t.Knows src →
      Agree I Quiet t (f dst src) (g dst src)) (dst src : Value) :
    Agree I Quiet s (Calls.memberwise f dst src)
      (Calls.memberwise g dst src) := by
  unfold Calls.memberwise
  refine .bind (.read hs (hs.closed.knows_parts dst src))
    fun parts t ht hparts => ?_
  cases parts with
  | some pairs =>
      refine .forM ht.good fun pair hpair u hu => ?_
      obtain ⟨hdst, hsrc⟩ := Handles.known_some.1 hparts pair hpair
      exact hfg hu.good (hu.knows hdst) (hu.knows hsrc)
  | none => exact .bind_read (Sound.copy ht.good _ _ _)

end Calls.Alike

end ArenaScript
