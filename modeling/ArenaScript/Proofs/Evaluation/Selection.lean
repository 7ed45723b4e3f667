import ArenaScript.Proofs.Evaluation.Initialization

/-!
# Initialization and the choice of a callee

Whatever types are initialized and in whichever order, the engines that result
are the same but for the numbers of functions and of new types.  In particular a
call of a member goes to the same member in all of them.

To choose a callee among candidates may initialize some of them.  Which one is
chosen does not depend on what has been initialized before.  The candidates of a
name do not either, unless the member scope of a type is visible: a method finds
the members of its own class by name without initializing the class.
-/

namespace ArenaScript

open Handles (Known)
open Engine (Good Quiet Primed)

/-! ## Types of the same name -/

namespace Engine.Primed

variable {s w w' : Engine} {done done' : List TypeId} {p q : TypeId}

theorem eq_of_name (h : s.Primed done w) (hp : s.types.Has p)
    (hq : w.types.Has q) (hname : s.types.name p = w.types.name q) : p = q :=
  h.reached.inv.names p q (h.has hp) hq ((h.grown.name hp).trans hname)

theorem same_or_new (hs : s.catalogue.Sorted) (h : s.Primed done w)
    (h' : s.Primed done' w') (hp : w.types.Has p) (hq : w'.types.Has q)
    (hname : w.types.name p = w'.types.name q) :
    s.types.Has p ∧ p = q ∨ ¬ s.types.Has p ∧ ¬ s.types.Has q ∧
      (w.types.get p).shape = (w'.types.get q).shape := by
  by_cases hold : s.types.Has p
  · exact .inl
      ⟨hold, h'.eq_of_name hold hq ((h.grown.name hold).symm.trans hname)⟩
  · have hnew : ¬ s.types.Has q := by
      intro hold'
      obtain rfl :=
        h.eq_of_name hold' hp ((h'.grown.name hold').symm.trans hname.symm)
      exact hold hold'
    obtain ⟨kind, target, htarget, hkind, hshape, hrender, -⟩ :=
      h.spawned.fresh p hp (Nat.not_lt.1 hold)
    obtain ⟨kind', target', htarget', hkind', hshape', hrender', -⟩ :=
      h'.spawned.fresh q hq (Nat.not_lt.1 hnew)
    have hargs : ∀ {target}, s.types.Has target →
        s.types.HasArgs [.type target] := by
      intro target htarget id hid
      obtain rfl := TemplateArg.type.inj (List.mem_singleton.1 hid)
      exact htarget
    rw [hrender, hrender'] at hname
    obtain ⟨rfl, hsame⟩ :=
      TypeTable.render_inj hs.names hkind hkind' (hargs htarget)
      (hargs htarget') hname
    refine .inr ⟨hold, hnew, ?_⟩
    rw [hshape, hshape', hsame]

theorem accepts_eq (hs : s.catalogue.Sorted) (h : s.Primed done w)
    (h' : s.Primed done' w') (hp : w.types.Has p) (hq : w'.types.Has q)
    (hname : w.types.name p = w'.types.name q) {arg : TypeId}
    (harg : s.types.Has arg) :
    w.types.accepts p arg = w'.types.accepts q arg := by
  unfold TypeTable.accepts
  rcases same_or_new hs h h' hp hq hname with ⟨hold, rfl⟩ | ⟨hp', hq', hshape⟩
  · rw [h.grown.referenceTarget? hold, h'.grown.referenceTarget? hold]
  · have hnot : ∀ {type}, ¬ s.types.Has type → (type == arg) = false := by
      intro type htype
      refine beq_false_of_ne ?_
      rintro rfl
      exact htype harg
    rw [hnot hp', hnot hq', TypeEntry.referenceTarget?, hshape,
      TypeEntry.referenceTarget?]

/-! ## Functions of the same signature -/

theorem all_accepts_eq (hs : s.catalogue.Sorted) (h : s.Primed done w)
    (h' : s.Primed done' w') {params params' : List Param}
    (hparams : w.Knows params) (hparams' : w'.Knows params')
    (hnames : (params.map fun p => (p.name, w.types.name p.type)) =
      params'.map fun p => (p.name, w'.types.name p.type))
    {args : List TypeId} (hargs : s.Knows args) :
    ((params.zip args).all fun (param, arg) => w.types.accepts param.type arg) =
      (params'.zip args).all fun (param, arg) =>
        w'.types.accepts param.type arg := by
  induction params generalizing params' args with
  | nil =>
      cases params' with
      | nil => rfl
      | cons q params' => cases hnames
  | cons p params ih =>
      cases params' with
      | nil => cases hnames
      | cons q params' =>
          cases args with
          | nil => rfl
          | cons arg args =>
              obtain ⟨hp, hparams⟩ := Handles.known_cons.1 hparams
              obtain ⟨hq, hparams'⟩ := Handles.known_cons.1 hparams'
              obtain ⟨harg, hargs⟩ := Handles.known_cons.1 hargs
              obtain ⟨hfirst, hrest⟩ := List.cons.inj hnames
              have haccepts :=
                accepts_eq hs h h' hp hq (congrArg Prod.snd hfirst) harg
              simp only [List.zip_cons_cons, List.all_cons, haccepts,
                ih hparams hparams' hrest hargs]

theorem fits_eq (hs : s.catalogue.Sorted) (h : s.Primed done w)
    (h' : s.Primed done' w') {f f' : Function} (hf : w.Knows f)
    (hf' : w'.Knows f')
    (hsame : f.signature w.types.name = f'.signature w'.types.name)
    {site : CallSite} (hargs : s.Knows site.args) (hret : s.Knows site.ret) :
    f.fits w.types site = f'.fits w'.types site := by
  have htraits : f.traits = f'.traits := congrArg Signature.traits hsame
  have hparams := congrArg Signature.params hsame
  have hfixed : (f.fixedParams.map fun p => (p.name, w.types.name p.type)) =
      f'.fixedParams.map fun p => (p.name, w'.types.name p.type) := by
    unfold Function.fixedParams
    rw [htraits]
    split
    · rw [List.map_dropLast, List.map_dropLast]
      exact congrArg List.dropLast hparams
    · exact hparams
  have hlength : f.fixedParams.length = f'.fixedParams.length := by
    simpa only [List.length_map] using congrArg List.length hfixed
  have hall := all_accepts_eq hs h h' (Function.known_fixedParams hf)
    (Function.known_fixedParams hf') hfixed hargs
  have hreturns : (site.ret.isNone || site.ret == some f.ret) =
      (site.ret.isNone || site.ret == some f'.ret) := by
    cases hsite : site.ret with
    | none => rfl
    | some ret =>
        have hret' : s.types.Has ret := hret ret hsite
        rcases same_or_new hs h h' hf.2.1 hf'.2.1
          (congrArg Signature.ret hsame) with ⟨-, heq⟩ | ⟨hp, hq, -⟩
        · rw [heq]
        · have hnot : ∀ {type}, ¬ s.types.Has type →
              (some ret == some type) = false := by
            intro type htype
            refine beq_false_of_ne fun heq => htype ?_
            rwa [← Option.some.inj heq]
          rw [hnot hp, hnot hq]
  unfold Function.fits Function.acceptsCount
  rw [htraits, hreturns, hlength, hall]

theorem resolve_eq (hs : s.catalogue.Sorted) (h : s.Primed done w)
    (h' : s.Primed done' w') {ids ids' : List FunctionId}
    (hsame : (ids.map fun id => (w.functions.get id).signature w.types.name) =
      ids'.map fun id => (w'.functions.get id).signature w'.types.name)
    {site : CallSite} (hargs : s.Knows site.args) (hret : s.Knows site.ret) :
    ((w.functions.resolve w.types ids site).map fun id =>
        (w.functions.get id).signature w.types.name) =
      (w'.functions.resolve w'.types ids' site).map fun id =>
        (w'.functions.get id).signature w'.types.name := by
  unfold FunctionTable.resolve
  induction ids generalizing ids' with
  | nil =>
      cases ids' with
      | nil => rfl
      | cons id' ids' => cases hsame
  | cons id ids ih =>
      cases ids' with
      | nil => cases hsame
      | cons id' ids' =>
          obtain ⟨hfirst, hrest⟩ := List.cons.inj hsame
          have hfits := fits_eq hs h h' (h.reached.closed.functions id)
            (h'.reached.closed.functions id') hfirst hargs hret
          rw [List.find?_cons, List.find?_cons, hfits]
          split
          · exact congrArg some hfirst
          · exact ih hrest

end Engine.Primed

namespace Engine

/-- The signature of the member that a call goes to. -/
def chosen (s : Engine) (type : TypeId) (operator : Bool) (name : String)
    (site : CallSite) : Option Signature :=
  (s.functions.resolve s.types (s.catalogue.memberList type operator name)
    site).map fun id => (s.functions.get id).signature s.types.name

/-- Two engines that have come about from `s` are the same but for the numbers
of functions, and of types that `s` has not. -/
structure Matches (s t u : Engine) : Prop where
  old : ∀ type, s.types.Has type → t.types.name type = u.types.name type
  named : ∀ name, t.types.Named name ↔ u.types.Named name
  signatures : ∀ p q, t.types.Has p → u.types.Has q →
    t.types.name p = u.types.name q →
    ∀ operator name, t.signatures p operator name = u.signatures q operator name
  chosen : ∀ p q, t.types.Has p → u.types.Has q →
    t.types.name p = u.types.name q →
    ∀ operator name site, s.Knows site.args → s.Knows site.ret →
      t.chosen p operator name site = u.chosen q operator name site

theorem Primed.signatures_new {s w : Engine} {done : List TypeId}
    (hs : s.catalogue.Sorted) (h : s.Primed done w) {type : TypeId}
    (htype : w.types.Has type) (hnew : ¬ s.types.Has type) (operator : Bool)
    (name : String) : w.signatures type operator name = [] := by
  obtain ⟨-, -, -, -, -, -, hscope⟩ :=
    h.spawned.fresh type htype (Nat.not_lt.1 hnew)
  have hempty : ∀ scope : ScopeId, s.scopes.size ≤ scope.index →
      s.catalogue.overloads scope operator name = [] := by
    intro scope hscope
    have hout : ¬ scope.index < s.scopes.scopes.size := Nat.not_lt.2 hscope
    simp [Catalogue.overloads, catalogue, ScopeTable.get, hout, Scope.overloads,
      Scope.findOperator, Scope.findFunction, Overloads.get,
      Bindings.get?_empty]
  have hlists :=
    h.others (w.types.get type).members (fun other hother hsame => ?_)
      operator name
  · rw [hempty _ hscope] at hlists
    rw [Engine.signatures, Catalogue.memberList]
    exact congrArg (List.map _) hlists
  · have hplaced := hs.placed other (h.known other hother)
    rw [hsame] at hplaced
    exact absurd hplaced (Nat.not_lt.2 hscope)

theorem Primed.matches {s w w' : Engine} {done done' : List TypeId}
    (hs : s.Good fun s => s.catalogue.Sorted) (h : s.Primed done w)
    (h' : s.Primed done' w') (hdone : ∀ type, type ∈ done ↔ type ∈ done') :
    s.Matches w w' := by
  have hsignatures : ∀ p q, w.types.Has p → w'.types.Has q →
      w.types.name p = w'.types.name q →
      ∀ operator name, w.signatures p operator name =
        w'.signatures q operator name := by
    intro p q hp hq hname operator name
    rcases h.same_or_new hs.inv h' hp hq hname with ⟨hold, rfl⟩ | ⟨hp', hq', -⟩
    · by_cases hin : p ∈ done
      · rw [h.signatures p hin, h'.signatures p ((hdone p).1 hin)]
      · have hin' : p ∉ done' := fun h => hin ((hdone p).2 h)
        rw [h.signatures_eq hs hold hin, h'.signatures_eq hs hold hin']
    · rw [h.signatures_new hs.inv hp hp', h'.signatures_new hs.inv hq hq']
  refine ⟨fun type htype => ?_, fun name => ?_, hsignatures, ?_⟩
  · rw [h.grown.name htype, h'.grown.name htype]
  · rw [h.named, h'.named]
    refine or_congr_right
      (exists_congr fun type => and_congr_left fun _ => hdone type)
  · intro p q hp hq hname operator name site hargs hret
    exact h.resolve_eq hs.inv h' (hsignatures p q hp hq hname operator name)
      hargs hret

/-! ## Asking callees -/

def Offers (s : Engine) : Callee → Prop
  | .function id => id.index < s.functions.size
  | .constructor type => s.types.Has type

/-- Whatever types of `s` have been initialized before, the result is the same,
and nothing happens but that types among the callees are initialized. -/
def Unaffected {α : Type} (s : Engine) (callees : List Callee) (x : Eval α) :
    Prop :=
  ∃ a, ∀ done w, s.Primed done w → ∃ (probed : List TypeId) (t : Engine),
    (∀ type ∈ probed, .constructor type ∈ callees) ∧
      probed.forM Eval.ensureInitialized w = .ok () t ∧ x w = .ok a t

namespace Unaffected

variable {α β : Type} {s : Engine} {callees : List Callee}

theorem pure (a : α) : s.Unaffected callees (Pure.pure a) :=
  ⟨a, fun _ w _ => ⟨[], w, nofun, rfl, rfl⟩⟩

theorem bind {x : Eval α} {f : α → Eval β}
    (hs : s.Good fun s => s.catalogue.Sorted)
    (hcallees : ∀ callee ∈ callees, s.Offers callee)
    (hx : s.Unaffected callees x)
    (hf : ∀ a t, x s = .ok a t → s.Unaffected callees (f a)) :
    s.Unaffected callees (x >>= f) := by
  obtain ⟨a, hx⟩ := hx
  obtain ⟨-, t, -, -, ht⟩ := hx [] s (.refl hs)
  obtain ⟨b, hb⟩ := hf a t ht
  refine ⟨b, fun done w hw => ?_⟩
  obtain ⟨probed, t, hprobed, hrun, ht⟩ := hx done w hw
  obtain ⟨t', hrun', hprimed⟩ := hw.run hs fun type htype =>
    hcallees _ (hprobed type htype)
  rw [hrun] at hrun'
  cases hrun'
  obtain ⟨probed', u, hprobed', hrun', hu⟩ := hb _ t hprimed
  refine ⟨probed ++ probed', u, ?_, ?_, ?_⟩
  · intro type htype
    rcases List.mem_append.1 htype with htype | htype
    · exact hprobed type htype
    · exact hprobed' type htype
  · have happend : (probed ++ probed').forM Eval.ensureInitialized =
        (do
          probed.forM Eval.ensureInitialized
          probed'.forM Eval.ensureInitialized) :=
      List.forM_append
    rw [happend, Eval.bind_ok hrun, hrun']
  · rw [Eval.bind_ok ht, hu]

end Unaffected

end Engine

namespace Calls

variable {s : Engine} {callees : List Callee} {args : List Value}

theorem unaffected_accepts (hs : s.Good fun s => s.catalogue.Sorted)
    (hargs : s.Knows args) {callee : Callee} (hcallee : s.Offers callee)
    (hmem : callee ∈ callees) : s.Unaffected callees (accepts args callee) := by
  cases callee with
  | function id =>
      refine ⟨(s.functions.get id).fits s.types (.free (args.map Value.type)),
        fun done w hw => ?_⟩
      refine ⟨[], w, nofun, rfl, ?_⟩
      have hfunction :=
        (hw.reached.rel.grows.catalogue hs.inv).functions id hcallee
      have hfits := Engine.fits_grown hs.inv hw.grown hcallee hfunction
        (.free (args.map Value.type))
      exact congrArg (EStateM.Result.ok · w) hfits
  | constructor type =>
      by_cases hempty : args.isEmpty = true
      · simp only [accepts, hempty, if_true]
        exact .pure true
      · simp only [accepts, hempty, Bool.false_eq_true, if_false]
        obtain ⟨v, hv, hprimed⟩ := (Primed.refl hs).step hs hcallee
        refine ⟨(v.memberFunction? type "construct" args).isSome,
          fun done w hw => ?_⟩
        obtain ⟨t, ht, hprimed'⟩ := hw.step hs hcallee
        refine ⟨[type], t, ?_, Eval.bind_ok ht, ?_⟩
        · intro other hother
          rwa [List.mem_singleton.1 hother]
        · have hfind : constructorFor type args w =
              .ok (t.memberFunction? type "construct" args) t := Eval.bind_ok ht
          have hsame :=
            (hprimed.signatures type List.mem_cons_self false "construct").trans
            (hprimed'.signatures type List.mem_cons_self false "construct").symm
          have hknown :
              s.Knows (CallSite.member (type :: args.map Value.type)).args :=
            Handles.known_cons.2 ⟨hcallee, Handles.known_map.2 fun v hv =>
              (hargs v hv).1⟩
          have hresolved :=
            hprimed.resolve_eq hs.inv hprimed' hsame hknown Handles.known_none
          have hsome := congrArg Option.isSome hresolved
          rw [Option.isSome_map, Option.isSome_map] at hsome
          simp only [Functor.map, EStateM.map, hfind]
          exact congrArg (EStateM.Result.ok · t) hsome.symm

theorem unaffected_firstAccepting (hs : s.Good fun s => s.catalogue.Sorted)
    (hargs : s.Knows args) (hcallees : ∀ callee ∈ callees, s.Offers callee)
    {asked : List Callee} (hasked : ∀ callee ∈ asked, callee ∈ callees) :
    s.Unaffected callees (firstAccepting args asked) := by
  induction asked with
  | nil => exact .pure none
  | cons callee rest ih =>
      obtain ⟨hcallee, hrest⟩ := List.forall_mem_cons.1 hasked
      refine .bind hs hcallees
        (unaffected_accepts hs hargs (hcallees callee hcallee) hcallee)
          fun accepted _ _ => ?_
      cases accepted with
      | true => exact .pure _
      | false => exact ih hrest

theorem mem_of_firstAccepting {asked rest : List Callee} {callee : Callee}
    {s t : Engine}
    (h : firstAccepting args asked s = .ok (some (callee, rest)) t) :
    ∀ other ∈ rest, other ∈ asked := by
  induction asked generalizing s with
  | nil => cases h
  | cons first asked ih =>
      obtain ⟨accepted, u, -, h⟩ := Eval.bind_eq_ok h
      cases accepted with
      | true =>
          cases h
          exact fun other => List.mem_cons_of_mem callee
      | false =>
          exact fun other hother =>
            List.mem_cons_of_mem first (ih h other hother)

theorem unaffected_selectCallee (hs : s.Good fun s => s.catalogue.Sorted)
    (hargs : s.Knows args) (hcallees : ∀ callee ∈ callees, s.Offers callee) :
    s.Unaffected callees (selectCallee callees args) := by
  refine .bind hs hcallees
    (unaffected_firstAccepting hs hargs hcallees fun _ h => h)
    fun found t hfound => ?_
  cases found with
  | none => exact .pure none
  | some found =>
      refine .bind hs hcallees ?_ fun _ _ _ => .pure (some found.1)
      exact unaffected_firstAccepting hs hargs hcallees
        (mem_of_firstAccepting hfound)

end Calls

/-! ## The candidates of a name -/

theorem ScopeTable.closure_eq {t u : ScopeTable}
    (h : ∀ id, (u.get id).links = (t.get id).links) (id : ScopeId) :
    u.closure id = t.closure id := by
  have hparent : ∀ id, (u.get id).parent = (t.get id).parent := fun id => by
    have hlinks := congrArg Scope.parent (h id)
    exact hlinks
  have himports : ∀ id, (u.get id).imports = (t.get id).imports := fun id => by
    have hlinks := congrArg Scope.imports (h id)
    exact hlinks
  have hancestors : ∀ rounds id, u.ancestorsFrom id rounds =
      t.ancestorsFrom id rounds := by
    intro rounds
    induction rounds with
    | zero => exact fun _ => rfl
    | succ rounds ih =>
        intro id
        rw [ancestorsFrom, ancestorsFrom, hparent]
        split
        · rw [ih]
        · rfl
  simp only [closure, ancestors, hancestors, himports]

namespace Engine

theorem Primed.visibleScopes_eq {s w : Engine} {done : List TypeId}
    (h : s.Primed done w) : w.visibleScopes = s.visibleScopes := by
  have hframes := congrArg (List.map Frame.scope) h.reached.rel.frames
  rw [List.map_map, List.map_map] at hframes
  have hscopes : w.arena.frames.map Frame.scope =
      s.arena.frames.map Frame.scope := hframes
  unfold visibleScopes
  rw [hscopes, funext (ScopeTable.closure_eq h.links)]

/-- Initialization adds nothing to scopes that are not member scopes. -/
theorem Primed.functionCandidates_eq {s w : Engine} {done : List TypeId}
    (h : s.Primed done w)
    (hhidden : ∀ type ∈ done, s.catalogue.members type ∉ s.visibleScopes)
    (name : String) :
    w.functionCandidates name = s.functionCandidates name := by
  unfold functionCandidates gather
  rw [h.visibleScopes_eq, List.flatMap_def, List.flatMap_def]
  refine congrArg (fun found : List (List Callee) => found.flatten.eraseDups)
    (List.map_congr_left fun scope hscope => ?_)
  have hfunctions :
      (w.scopes.get scope).findFunction name =
        (s.scopes.get scope).findFunction name :=
    h.others scope (fun type htype hsame => hhidden type htype (hsame ▸ hscope))
      false name
  have htypes : (w.scopes.get scope).types = (s.scopes.get scope).types := by
    have hlinks := congrArg Scope.types (h.links scope)
    exact hlinks
  simp only [hfunctions, htypes]

theorem Good.offers_functionCandidates {s : Engine}
    (hs : s.Good fun s => s.catalogue.Sorted) (name : String) :
    ∀ callee ∈ s.functionCandidates name, s.Offers callee := by
  intro callee hcallee
  cases callee with
  | constructor type => exact hs.closed.knows_functionCandidates name _ hcallee
  | function id =>
      obtain ⟨scope, -, hmem⟩ :=
        List.mem_flatMap.1 (List.mem_eraseDups.1 hcallee)
      rcases List.mem_append.1 hmem with hfunction | htype
      · obtain ⟨_, hid, heq⟩ := List.mem_map.1 hfunction
        cases heq
        exact hs.inv.listed scope false name id hid
      · obtain ⟨_, -, heq⟩ :=
          Option.map_eq_some_iff.1 (Option.mem_toList.1 htype)
        cases heq

/-! ## Any order -/

structure InitializesInAnyOrder (s : Engine) : Prop where
  /-- Initialization does not fail, and a second time it changes nothing. -/
  once : ∀ type, s.types.Has type → ∃ t, Eval.ensureInitialized type s =
    .ok () t ∧
    Eval.ensureInitialized type t = .ok () t
  /-- Functions are added to the member scope of the type, after those that are
  there. -/
  own : ∀ type, s.types.Has type → ∀ scope operator name, ∃ later,
    ((Eval.ensureInitialized type).after s).catalogue.overloads scope
      operator name = s.catalogue.overloads scope operator name ++ later ∧
      (scope ≠ s.catalogue.members type → later = [])
  order : ∀ xs ys : List TypeId, (∀ type ∈ xs, s.types.Has type) →
    (∀ type, type ∈ xs ↔ type ∈ ys) → ∃ t u, xs.forM Eval.ensureInitialized s =
      .ok () t ∧
      ys.forM Eval.ensureInitialized s = .ok () u ∧ s.Matches t u
  /-- Among given candidates always the same one is chosen.  At most types among
  them are initialized on the way. -/
  choice : ∀ name args, s.Knows args → ∃ callee, ∀ types : List TypeId,
    (∀ type ∈ types, s.types.Has type) →
    ∃ (t u : Engine) (probed : List TypeId),
      types.forM Eval.ensureInitialized s = .ok () t ∧
        Calls.selectCallee (s.functionCandidates name) args t = .ok callee u ∧
        probed.forM Eval.ensureInitialized t = .ok () u ∧
        ∀ type ∈ probed, .constructor type ∈ s.functionCandidates name
  /-- The candidates of a name stay the same as well, unless members of a type
  are visible. -/
  candidates : ∀ types : List TypeId, (∀ type ∈ types, s.types.Has type) →
    (∀ type ∈ types, s.catalogue.members type ∉ s.visibleScopes) → ∃ t,
      types.forM Eval.ensureInitialized s = .ok () t ∧
        ∀ name, t.functionCandidates name = s.functionCandidates name

theorem Good.initializesInAnyOrder {s : Engine}
    (hs : s.Good fun s => s.catalogue.Sorted) : s.InitializesInAnyOrder where
  once type htype := by
    obtain ⟨t, hrun, ht⟩ := (Primed.refl hs).step hs htype
    refine ⟨t, hrun, ensureInitialized_of_not_pending ?_⟩
    rw [← Bool.not_eq_true, ht.pending type htype]
    exact fun h => h.2 List.mem_cons_self
  own type htype scope operator name := by
    obtain ⟨t, hrun, ht⟩ := (Primed.refl hs).step hs htype
    obtain ⟨later, hlists, -⟩ :=
      (ht.reached.rel.grows.catalogue hs.inv).lists scope operator name
    rw [Eval.after_ok hrun]
    refine ⟨later, hlists, fun hscope => ?_⟩
    rw [ht.others scope] at hlists
    · exact List.self_eq_append_right.1 hlists
    · intro other hother
      rw [List.mem_singleton.1 hother]
      exact hscope.symm
  order xs ys hxs hsame := by
    obtain ⟨t, hrun, ht⟩ := (Primed.refl hs).run hs hxs
    have hys : ∀ type ∈ ys, s.types.Has type := fun type htype =>
      hxs type ((hsame type).2 htype)
    obtain ⟨u, hrun', hu⟩ := (Primed.refl hs).run hs hys
    refine ⟨t, u, hrun, hrun', ht.matches hs hu fun type => ?_⟩
    simpa using hsame type
  choice name args hargs := by
    obtain ⟨callee, hcallee⟩ :=
      Calls.unaffected_selectCallee hs hargs (hs.offers_functionCandidates name)
    refine ⟨callee, fun types htypes => ?_⟩
    obtain ⟨t, hrun, ht⟩ := (Primed.refl hs).run hs htypes
    obtain ⟨probed, u, hprobed, hprobe, hselect⟩ := hcallee _ t ht
    exact ⟨t, u, probed, hrun, hselect, hprobe, hprobed⟩
  candidates types htypes hhidden := by
    obtain ⟨t, hrun, ht⟩ := (Primed.refl hs).run hs htypes
    refine ⟨t, hrun, ht.functionCandidates_eq fun type htype => hhidden type ?_⟩
    simpa using htype

end Engine

/-- In every reachable engine and at any time during a request types can be
initialized in any order, and this does not change which of the candidates of a
name is chosen. -/
theorem Reachable.initializes_in_any_order {s : Engine} (hs : Reachable s) :
    s.InitializesInAnyOrder ∧ ∀ (fuel : Nat) (request : Request),
      s.Knows request →
      Calls.Throughout Engine.InitializesInAnyOrder fuel request.perform s := by
  have hgood : s.Good fun t => t.catalogue.Sorted := hs.good
  refine ⟨hgood.initializesInAnyOrder, fun fuel request hrequest => ?_⟩
  exact hs.throughout (fun t ht => Engine.Good.initializesInAnyOrder ht)
    fuel hrequest

/-! ### A class that is found by its own method -/

namespace Revived

open Copied (node)

def call (name : String) (args : List Node) : Node :=
  node .expression "" [node .identifier name [], node .call "" args]

/-- `class A { destruct() { construct(self); } }`. -/
def declaration : Node :=
  node .classDecl "A"
    [node .function "destruct"
      [node .parameters "" [],
        node .block "" [node .expressionStatement ""
          [call "construct"
            [node .expression "" [node .identifier "self" []]]]]]]

def make : Node :=
  node .function "make"
    [node .parameters "" [], node .typeName "A" [], node .block "" []]

/-- `A(x: Int32) {}`, a function of the name of the class. -/
def namesake : Node :=
  node .function "A"
    [node .parameters "" [node .parameter "x" [node .typeName "Int32" []]],
      node .block "" []]

def use : Node := node .block "" [node .expressionStatement "" [call "make" []]]

def succeeds (s : Engine) (item : Node) : Bool :=
  match (Request.item item).perform (Calls.ofFuel 30) s with
  | .ok _ _ => true
  | .error _ _ => false

def probe : Node := call "A" [node .expression "" [node .integerLiteral "1" []]]

def engine : Engine :=
  (Engine.new { stackCapacity := 64, maxCallDepth := 4 } ⟨.buffer, ""⟩ none
    []).afterItems 30 [declaration, make, namesake]

theorem reachable : Reachable engine := .items (.new _ _ _ _ (by decide)) 30 _

end Revived

open Revived in
theorem Reachable.initializes_in_any_order_revived :
    Reachable engine ∧
      (∀ type ∈ [⟨15⟩, .int32], engine.types.Has type ∧
        engine.pending type = true) ∧
      ∃ t u, [⟨15⟩, .int32].forM Eval.ensureInitialized engine = .ok () t ∧
        [.int32, ⟨15⟩].forM Eval.ensureInitialized engine = .ok () u ∧
        engine.Matches t u := by
  have hpending : ∀ type ∈ [⟨15⟩, .int32],
      engine.types.Has type ∧ engine.pending type = true := by decide +kernel
  refine ⟨reachable, hpending, (initializes_in_any_order reachable).1.order _ _
    (fun type htype => (hpending type htype).1) fun type => ?_⟩
  simp [or_comm]

open Revived in
/-- The function `A` is called, and the class is asked after it.  From then on
the destructor of the class finds a constructor. -/
theorem Reachable.probe_reveals_member :
    let probed :=
      (Calls.selectCallee (engine.functionCandidates "A") [⟨.int32, 8⟩]).after
        engine
    Reachable engine ∧ engine.functionCandidates "A" =
      [.function ⟨4⟩, .constructor ⟨15⟩] ∧
      (engine.functions.get ⟨4⟩).fits engine.types (.free [.int32]) = true ∧
      ((Request.item use).perform (Calls.ofFuel 30)).fault? engine =
        some (.unresolvedIdentifier "construct") ∧
      succeeds probed use = true ∧ succeeds (engine.afterItems 30 [probe]) use =
        true := by
  refine ⟨reachable, ?_⟩
  decide +kernel

end ArenaScript
