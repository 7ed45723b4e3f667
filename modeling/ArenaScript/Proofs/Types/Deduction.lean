import Mathlib.Data.List.Basic
import ArenaScript.Template.Deduction

/-!
# Deduced template arguments

Matching only ever adds bindings: what a parameter is bound to stays, and what
it is newly bound to is of its kind.  So a deduced argument list begins with the
explicit arguments, has an argument for each parameter, and is admitted by the
parameters if the explicit arguments are.
-/

namespace ArenaScript

namespace Deduction

variable {params : List TemplateParam} {known known' known'' : Partial}

structure Extends (params : List TemplateParam) (known known' : Partial) :
    Prop where
  length : known'.length = known.length
  kept : ∀ (i : Nat) (arg : TemplateArg), known[i]? = some (some arg) →
    known'[i]? = some (some arg)
  added : ∀ (i : Nat) (arg : TemplateArg), known'[i]? = some (some arg) →
    known[i]? = some (some arg) ∨ ∃ param, params[i]? = some param ∧
      param.admits arg = true

namespace Extends

theorem refl (params : List TemplateParam) (known : Partial) :
    Extends params known known :=
  ⟨rfl, fun _ _ h => h, fun _ _ h => .inl h⟩

theorem trans (h : Extends params known known')
    (h' : Extends params known' known'') : Extends params known known'' where
  length := h'.length.trans h.length
  kept i arg hi := h'.kept i arg (h.kept i arg hi)
  added i arg hi := (h'.added i arg hi).elim (h.added i arg) .inr

end Extends

theorem bind_extends {i : Nat} {arg : TemplateArg} {param : TemplateParam}
    (hparam : params[i]? = some param) (hadmits : param.admits arg = true)
    (h : bind known i arg = some known') : Extends params known known' := by
  unfold bind at h
  split at h
  · split at h
    · cases h
      exact .refl params known
    · cases h
  · rename_i hunbound
    cases h
    refine ⟨List.length_set, fun j earlier hj => ?_, fun j found hj => ?_⟩
    · have hne : i ≠ j := by
        rintro rfl
        exact hunbound earlier hj
      rwa [List.getElem?_set_ne hne]
    · by_cases heq : i = j
      · subst heq
        rw [List.getElem?_set] at hj
        split at hj
        · split at hj
          · cases hj
            exact .inr ⟨param, hparam, hadmits⟩
          · cases hj
        · exact .inl hj
      · rw [List.getElem?_set_ne heq] at hj
        exact .inl hj

namespace Context

variable {c : Context} {name : String} {i : Nat}

theorem typeParam?_admits (h : c.typeParam? name = some i) (type : TypeId) :
    ∃ param, c.params[i]? = some param ∧ param.admits (.type type) = true := by
  obtain ⟨hi, hfound, -⟩ := List.findIdx?_eq_some_iff_getElem.1 h
  have hkind := (Bool.and_eq_true_iff.1 hfound).2
  refine ⟨_, List.getElem?_eq_getElem hi, ?_⟩
  simp only [TemplateParam.admits, beq_iff_eq.1 hkind]

theorem valueParam?_admits (h : c.valueParam? name = some i) (n : Int64) :
    ∃ param, c.params[i]? = some param ∧ param.admits (.int n) = true := by
  obtain ⟨hi, hfound, -⟩ := List.findIdx?_eq_some_iff_getElem.1 h
  have hkind := (Bool.and_eq_true_iff.1 hfound).2
  refine ⟨_, List.getElem?_eq_getElem hi, ?_⟩
  cases hparam : c.params[i].kind with
  | type =>
      rw [hparam] at hkind
      cases hkind
  | value type => simp only [TemplateParam.admits, hparam]

end Context

variable {c : Context}

mutual

theorem matchType_extends (known known' : Partial) :
    ∀ (pattern : Node) (type : TypeId), matchType c known pattern type =
      some known' →
      Extends c.params known known'
  | ⟨_, name, _, _, []⟩, type, h => by
      simp only [matchType] at h
      split at h
      · rename_i i hfound
        obtain ⟨param, hparam, hadmits⟩ := Context.typeParam?_admits hfound type
        exact bind_extends hparam hadmits h
      · cases h
        exact .refl _ _
  | ⟨_, name, _, _, inner :: others⟩, type, h => by
      simp only [matchType] at h
      split at h
      · exact matchType_extends known known' inner _ h
      · split at h
        · split at h
          · exact matchArgs_extends known known' (inner :: others) _ h
          · cases h
        · cases h
      · split at h
        · split at h
          · exact matchArgs_extends known known' (inner :: others) _ h
          · cases h
            exact .refl _ _
        · cases h
          exact .refl _ _

theorem matchArgs_extends (known known' : Partial) :
    ∀ (patterns : List Node) (args : List TemplateArg),
      matchArgs c known patterns args = some known' →
      Extends c.params known known'
  | [], args, h => by
      simp only [matchArgs] at h
      cases h
      exact .refl _ _
  | _ :: _, [], h => by
      simp only [matchArgs] at h
      cases h
      exact .refl _ _
  | pattern :: patterns, .type type :: args, h => by
      simp only [matchArgs] at h
      obtain ⟨next, hfirst, hrest⟩ := Option.bind_eq_some_iff.1 h
      exact (matchType_extends known next pattern type hfirst).trans
        (matchArgs_extends next known' patterns args hrest)
  | pattern :: patterns, .int n :: args, h => by
      simp only [matchArgs] at h
      split at h
      · split at h
        · rename_i i hfound
          obtain ⟨next, hfirst, hrest⟩ := Option.bind_eq_some_iff.1 h
          obtain ⟨param, hparam, hadmits⟩ := Context.valueParam?_admits hfound n
          exact (bind_extends hparam hadmits hfirst).trans
            (matchArgs_extends next known' patterns args hrest)
        · exact matchArgs_extends known known' patterns args h
      · exact matchArgs_extends known known' patterns args h

end

theorem matchParams_extends {params : List Node} {args : List TypeId}
    (h : matchParams c known params args = some known') :
    Extends c.params known known' := by
  induction params generalizing known args with
  | nil =>
      cases h
      exact .refl _ _
  | cons param params ih =>
      cases args with
      | nil =>
          cases h
          exact .refl _ _
      | cons arg args =>
          simp only [matchParams] at h
          split at h
          · cases h
            exact .refl _ _
          · split at h
            · obtain ⟨next, hfirst, hrest⟩ := Option.bind_eq_some_iff.1 h
              exact (matchType_extends _ _ _ arg hfirst).trans (ih hrest)
            · exact ih h

/-! ## Argument lists -/

variable {types : TypeTable} {templates : TemplateTable} {template : TemplateId}
  {args : List TypeId} {explicit targs : List TemplateArg}

theorem getElem?_of_mapM {known : Partial}
    (h : known.mapM (fun arg => arg) = some targs) :
    targs.length = known.length ∧
      ∀ (i : Nat) (arg : TemplateArg), targs[i]? = some arg →
        known[i]? = some (some arg) := by
  induction known generalizing targs with
  | nil =>
      cases h
      exact ⟨rfl, nofun⟩
  | cons entry known ih =>
      rw [List.mapM_cons] at h
      obtain ⟨first, hfirst, h⟩ := Option.bind_eq_some_iff.1 h
      obtain ⟨rest, hrest, h⟩ := Option.bind_eq_some_iff.1 h
      cases h
      obtain ⟨hlength, hentries⟩ := ih hrest
      refine ⟨congrArg Nat.succ hlength, fun i arg harg => ?_⟩
      cases i with
      | zero =>
          cases harg
          exact congrArg some hfirst
      | succ i => exact hentries i arg harg

structure Deduced (params : List TemplateParam)
    (explicit targs : List TemplateArg) : Prop where
  length : targs.length = params.length
  explicit_first : explicit <+: targs
  admitted : ∀ (i : Nat) (arg : TemplateArg), explicit.length ≤ i →
    targs[i]? = some arg →
    ∃ param, params[i]? = some param ∧ param.admits arg = true

theorem deduced
    (h : arguments? types templates template args explicit = some targs) :
    Deduced (templates.get template).params explicit targs := by
  unfold arguments? at h
  generalize templates.get template = d at h
  simp only at h
  split at h
  · cases h
  rename_i hshort
  obtain ⟨params, -, h⟩ := Option.bind_eq_some_iff.1 h
  obtain ⟨bound, hmatch, h⟩ := Option.bind_eq_some_iff.1 h
  obtain ⟨hlength, hentries⟩ := getElem?_of_mapM h
  have hextends : Extends d.params
      (explicit.map some ++ List.replicate (d.params.length - explicit.length)
        none) bound :=
    matchParams_extends hmatch
  have htotal : targs.length = d.params.length := by
    rw [hlength, hextends.length, List.length_append, List.length_map,
      List.length_replicate]
    omega
  refine ⟨htotal, List.prefix_iff_getElem?.2 fun i hi => ?_,
    fun i arg hi harg => ?_⟩
  · -- An explicit argument is there from the beginning, and stays.
    have hi' : i < targs.length := by omega
    have hkept : bound[i]? = some (some explicit[i]) := by
      refine hextends.kept i _ ?_
      rw [List.getElem?_append_left (by simpa using hi), List.getElem?_map,
        List.getElem?_eq_getElem hi]
      rfl
    have hsame :=
      (hentries i targs[i] (List.getElem?_eq_getElem hi')).symm.trans hkept
    rw [List.getElem?_eq_getElem hi', Option.some.inj (Option.some.inj hsame)]
  · refine (hextends.added i arg (hentries i arg harg)).resolve_left
      fun hstart => ?_
    rw [List.getElem?_append_right (by simpa using hi),
      List.getElem?_replicate] at hstart
    split at hstart
    · cases hstart
    · cases hstart

end Deduction

end ArenaScript
