import Mathlib.Data.List.Nodup
import Mathlib.Logic.Relation
import ArenaScript.Proofs.Types.Deduction

/-!
# Constraints on template arguments

A pattern that is matched against a type is taken apart together with the type.
The names of parameters that are met on the way say what the arguments have to
be, as the explicit arguments do.  Deduction succeeds exactly if this leaves one
argument for each parameter, in whatever order the constraints are collected.
-/

namespace ArenaScript

namespace Deduction

/-! ## Patterns and what they meet -/

/-- A part of a pattern, and the part of a type that it stands against. -/
abbrev Meeting := Node × TemplateArg

namespace Context

variable (c : Context)

def target (type : TypeId) : TypeId :=
  (c.types.get type).referenceTarget?.getD type

/-- The type has arguments for the parts of the pattern. -/
inductive Opens (pattern : Node) (type : TypeId) : List TemplateArg → Prop
  | kind {kind : TemplateKind} {args : List TemplateArg}
      (hkind : TemplateKind.ofName? pattern.text = some kind)
      (hother : kind ≠ .ref)
      (hshape : (c.types.get type).shape = .template kind args) :
      Opens pattern type args
  | record {origin : TemplateId} {args : List TemplateArg}
      (hkind : TemplateKind.ofName? pattern.text = none)
      (horigin : (c.types.get type).structural?.bind (·.origin) =
        some (origin, args))
      (hname : (c.templates.get origin).name = pattern.text) :
      Opens pattern type args

inductive Inside : Meeting → Meeting → Prop
  | target {pattern inner : Node} {others : List Node} (type : TypeId)
      (hkind : TemplateKind.ofName? pattern.text = some .ref)
      (hparts : pattern.children = inner :: others) :
      Inside (pattern, .type type) (inner, .type (c.target type))
  | part {pattern : Node} {type : TypeId} {args : List TemplateArg}
      {part : Meeting} (hopens : c.Opens pattern type args)
      (hpart : part ∈ pattern.children.zip args) :
      Inside (pattern, .type type) part

def Meets : Meeting → Meeting → Prop := Relation.ReflTransGen c.Inside

structure Names (m : Meeting) (i : Nat) : Prop where
  bare : m.1.children = []
  param : ∃ param, c.params[i]? = some param ∧ param.name = m.1.text ∧
    param.admits m.2 = true

structure Clashes (m : Meeting) : Prop where
  parts : m.1.children ≠ []
  other : ∃ kind type, TemplateKind.ofName? m.1.text = some kind ∧ kind ≠ .ref ∧
    m.2 = .type type ∧ ∀ args, (c.types.get type).shape ≠ .template kind args

/-- No pattern for arrays or addresses meets a type of another kind. -/
def Sound (m : Meeting) : Prop := ∀ n, c.Meets m n → ¬ c.Clashes n

def Requires (m : Meeting) (i : Nat) (arg : TemplateArg) : Prop :=
  ∃ part, c.Meets m (part, arg) ∧ c.Names (part, arg) i

variable {c} {m : Meeting} {i : Nat} {arg : TemplateArg}

theorem sound_iff : c.Sound m ↔ ¬ c.Clashes m ∧ ∀ n, c.Inside m n →
    c.Sound n := by
  constructor
  · intro h
    exact ⟨h m .refl, fun n hn part hpart => h part (.head hn hpart)⟩
  · rintro ⟨hhere, hinside⟩ n hn
    rcases Relation.ReflTransGen.cases_head hn with rfl | ⟨next, hnext, hn⟩
    · exact hhere
    · exact hinside next hnext n hn

theorem requires_iff : c.Requires m i arg ↔
    (arg = m.2 ∧ c.Names m i) ∨ ∃ n, c.Inside m n ∧ c.Requires n i arg := by
  constructor
  · rintro ⟨part, hmeets, hnames⟩
    rcases Relation.ReflTransGen.cases_head hmeets with rfl |
      ⟨next, hnext, hmeets⟩
    · exact .inl ⟨rfl, hnames⟩
    · exact .inr ⟨next, hnext, part, hmeets, hnames⟩
  · rintro (⟨rfl, hnames⟩ | ⟨next, hnext, part, hmeets, hnames⟩)
    · exact ⟨m.1, .refl, hnames⟩
    · exact ⟨part, .head hnext hmeets, hnames⟩

end Context

/-! ## Collecting -/

/-- The bindings that are asked for have been added to those there were. -/
structure Adds (asked : Nat → TemplateArg → Prop) (known known' : Partial) :
    Prop where
  length : known'.length = known.length
  entry : ∀ (i : Nat) (arg : TemplateArg),
    known'[i]? = some (some arg) ↔ known[i]? = some (some arg) ∨ asked i arg

/-- A way to add what is asked for.  It fails if there is a mismatch or a
conflict. -/
def Collects (count : Nat) (sound : Prop) (asked : Nat → TemplateArg → Prop)
    (f : Partial → Option Partial) : Prop :=
  ∀ known known', known.length = count →
    (f known = some known' ↔ sound ∧ Adds asked known known')

variable {count : Nat} {sound sound' : Prop}
  {asked asked' : Nat → TemplateArg → Prop} {f g : Partial → Option Partial}
    {known known' : Partial}

theorem Adds.unique {known'' : Partial} (h : Adds asked known known')
    (h' : Adds asked known known'') : known' = known'' := by
  refine List.ext_getElem? fun i => ?_
  have hsame : ∀ arg, known'[i]? = some (some arg) ↔
      known''[i]? = some (some arg) := fun arg => by
    rw [h.entry, h'.entry]
  have hlength : known'.length = known''.length := h.length.trans h'.length.symm
  by_cases hi : i < known'.length
  · have hi' : i < known''.length := by omega
    rw [List.getElem?_eq_getElem hi, List.getElem?_eq_getElem hi'] at hsame ⊢
    cases hentry : known'[i] with
    | some arg => exact ((hsame arg).1 (by rw [hentry])).symm
    | none =>
        cases hentry' : known''[i] with
        | none => rfl
        | some arg =>
            have := (hsame arg).2 (by rw [hentry'])
            simp [hentry] at this
  · rw [List.getElem?_eq_none (by omega), List.getElem?_eq_none (by omega)]

theorem Adds.some_eq_iff {result : Partial} (h : Adds asked known result) :
    some result = some known' ↔ True ∧ Adds asked known known' := by
  constructor
  · rintro ⟨⟩
    exact ⟨trivial, h⟩
  · rintro ⟨-, h'⟩
    rw [h.unique h']

namespace Collects

theorem nothing : Collects count True (fun _ _ => False) some := by
  intro known known' _
  have hnothing : Adds (fun _ _ => False) known known := ⟨rfl, by simp⟩
  exact hnothing.some_eq_iff

theorem mismatch (h : ¬ sound) : Collects count sound asked fun _ => none := by
  intro known known' _
  simp [h]

theorem congr (h : Collects count sound asked f) (hsound : sound ↔ sound')
    (hasked : ∀ i arg, asked i arg ↔ asked' i arg) :
    Collects count sound' asked' f := by
  obtain rfl : sound = sound' := propext hsound
  obtain rfl : asked = asked' := funext fun i => funext fun arg =>
    propext (hasked i arg)
  exact h

theorem exists_between
    (h : Adds (fun i arg => asked i arg ∨ asked' i arg) known known') :
    ∃ between, Adds asked known between ∧ Adds asked' between known' := by
  classical
  let early (i : Nat) : Prop := ∃ arg, known[i]? = some (some arg) ∨ asked i arg
  let between : Partial := known'.mapIdx fun i entry => if early i then entry
    else none
  have hentry : ∀ i arg, between[i]? = some (some arg) ↔
      known'[i]? = some (some arg) ∧ early i := by
    intro i arg
    rw [List.getElem?_mapIdx]
    cases known'[i]? with
    | none => simp
    | some entry => by_cases hearly : early i <;> simp [hearly]
  refine ⟨between, ⟨by simp [between, h.length], fun i arg => ?_⟩,
    by simp [between], fun i arg => ?_⟩
  · rw [hentry]
    constructor
    · rintro ⟨hlast, other, hother⟩
      have hlast' : known'[i]? = some (some other) :=
        (h.entry i other).2 (or_assoc.1 (.inl hother))
      obtain rfl : arg = other := by simpa [hlast] using hlast'
      exact hother
    · exact fun hfirst =>
        ⟨(h.entry i arg).2 (or_assoc.1 (.inl hfirst)), arg, hfirst⟩
  · rw [hentry, h.entry]
    constructor
    · rintro (hknown | hasked | hasked')
      · exact .inl ⟨.inl hknown, arg, .inl hknown⟩
      · exact .inl ⟨.inr (.inl hasked), arg, .inr hasked⟩
      · exact .inr hasked'
    · rintro (⟨hlast, -⟩ | hasked')
      · exact hlast
      · exact .inr (.inr hasked')

theorem bind (hf : Collects count sound asked f)
    (hg : Collects count sound' asked' g) :
    Collects count (sound ∧ sound') (fun i arg => asked i arg ∨ asked' i arg)
      fun known => (f known).bind g := by
  intro known known' hlength
  rw [Option.bind_eq_some_iff]
  constructor
  · rintro ⟨between, hfirst, hlast⟩
    obtain ⟨hsound, hadds⟩ := (hf known between hlength).1 hfirst
    obtain ⟨hsound', hadds'⟩ :=
      (hg between known' (hadds.length.trans hlength)).1 hlast
    refine ⟨⟨hsound, hsound'⟩, hadds'.length.trans hadds.length,
      fun i arg => ?_⟩
    rw [hadds'.entry, hadds.entry, or_assoc]
  · rintro ⟨⟨hsound, hsound'⟩, hadds⟩
    obtain ⟨between, hfirst, hlast⟩ := exists_between hadds
    exact ⟨between, (hf known between hlength).2 ⟨hsound, hfirst⟩,
      (hg between known' (hfirst.length.trans hlength)).2 ⟨hsound', hlast⟩⟩

theorem binding {i : Nat} (hi : i < count) (arg : TemplateArg) :
    Collects count True (fun j other => j = i ∧ other = arg) fun known =>
      Deduction.bind known i arg := by
  intro known known' hlength
  have hi : i < known.length := by omega
  unfold Deduction.bind
  cases hentry : known[i] with
  | none =>
      have hadds : Adds (fun j other => j = i ∧ other = arg) known
          (known.set i (some arg)) := by
        refine ⟨by simp, fun j other => ?_⟩
        by_cases hij : i = j
        · subst hij
          simp [hi, hentry, eq_comm]
        · simp [hij, Ne.symm hij]
      simpa [List.getElem?_eq_getElem hi, hentry] using hadds.some_eq_iff
  | some earlier =>
      have hearlier : known[i]? = some (some earlier) := by
        rw [List.getElem?_eq_getElem hi, hentry]
      simp only [hearlier]
      split
      · rename_i hsame
        subst hsame
        have hadds :
            Adds (fun j other => j = i ∧ other = earlier) known known := by
          refine ⟨rfl, fun j other => (or_iff_left_of_imp ?_).symm⟩
          rintro ⟨rfl, rfl⟩
          exact hearlier
        exact hadds.some_eq_iff
      · rename_i hconflict
        constructor
        · nofun
        · rintro ⟨-, hadds⟩
          have hkept := (hadds.entry i earlier).2 (.inl hearlier)
          have hnew := (hadds.entry i arg).2 (.inr ⟨rfl, rfl⟩)
          exact absurd (by simpa [hkept] using hnew) hconflict

end Collects

/-! ## Matching -/

theorem findIdx?_name_iff {params : List TemplateParam}
    (hnames : (params.map (·.name)).Nodup) (sort : TemplateParamKind → Bool)
    {name : String} {i : Nat} :
    params.findIdx? (fun p => p.name == name && sort p.kind) = some i ↔
      ∃ param, params[i]? = some param ∧ param.name = name ∧
        sort param.kind = true := by
  rw [List.findIdx?_eq_some_iff_getElem]
  constructor
  · rintro ⟨hi, hfound, -⟩
    exact ⟨params[i], List.getElem?_eq_getElem hi, by simpa using hfound⟩
  · rintro ⟨param, hparam, hname, hsort⟩
    obtain ⟨hi, rfl⟩ := List.getElem?_eq_some_iff.1 hparam
    refine ⟨hi, by simp [hname, hsort], fun j hj hfound => ?_⟩
    have hname' : params[j].name = name := by simp_all
    have hindex : j = i := by
      have hj' : j < params.length := by omega
      have hsame : (params.map (·.name))[j]? = (params.map (·.name))[i]? := by
        rw [List.getElem?_map, List.getElem?_map, List.getElem?_eq_getElem hi,
          List.getElem?_eq_getElem hj', Option.map_some, Option.map_some,
          hname, hname']
      exact (List.getElem?_inj (by simpa using hj') hnames).1 hsame
    omega

namespace Context

variable {c : Context} {i : Nat} {arg : TemplateArg} {pattern : Node}
  {type : TypeId}

theorem names_iff (hnames : (c.params.map (·.name)).Nodup)
    (hbare : pattern.children = []) (sort : TemplateParamKind → Bool)
    (hsort : ∀ p : TemplateParam, p.admits arg = sort p.kind) :
    c.Names (pattern, arg) i ↔
      c.params.findIdx? (fun p => p.name == pattern.text && sort p.kind) =
        some i := by
  rw [findIdx?_name_iff hnames sort]
  constructor
  · rintro ⟨-, param, hparam, hname, hadmits⟩
    exact ⟨param, hparam, hname, (hsort param).symm.trans hadmits⟩
  · rintro ⟨param, hparam, hname, hkind⟩
    exact ⟨hbare, param, hparam, hname, (hsort param).trans hkind⟩

theorem names_type_iff (hnames : (c.params.map (·.name)).Nodup)
    (hbare : pattern.children = []) :
    c.Names (pattern, .type type) i ↔ c.typeParam? pattern.text = some i := by
  refine names_iff hnames hbare (· == .type) fun p => ?_
  cases hkind : p.kind <;> simp [TemplateParam.admits, hkind]

theorem names_int_iff (hnames : (c.params.map (·.name)).Nodup)
    (hbare : pattern.children = []) {n : Int64} :
    c.Names (pattern, .int n) i ↔ c.valueParam? pattern.text = some i := by
  refine names_iff hnames hbare (· != .type) fun p => ?_
  cases hkind : p.kind <;> simp [TemplateParam.admits, hkind]

theorem not_inside_bare {next : Meeting} (hbare : pattern.children = []) :
    ¬ c.Inside (pattern, arg) next := by
  rintro (⟨_, _, hparts⟩ | ⟨_, hpart⟩) <;> simp_all

theorem sound_bare (hbare : pattern.children = []) : c.Sound (pattern, arg) :=
  sound_iff.2 ⟨fun h => h.parts hbare, fun _ h =>
    absurd h (not_inside_bare hbare)⟩

theorem inside_target_iff {inner : Node} {others : List Node} {next : Meeting}
    (hkind : TemplateKind.ofName? pattern.text = some .ref)
    (hparts : pattern.children = inner :: others) :
    c.Inside (pattern, .type type) next ↔ next = (inner,
      .type (c.target type)) := by
  constructor
  · rintro (⟨_, _, hparts'⟩ | ⟨hopens, _⟩)
    · simp_all
    · cases hopens <;> simp_all
  · rintro rfl
    exact .target type hkind hparts

theorem Opens.inside_iff {args : List TemplateArg} {next : Meeting}
    (h : c.Opens pattern type args) :
    c.Inside (pattern, .type type) next ↔ next ∈ pattern.children.zip args := by
  constructor
  · rintro (⟨_, hkind, _⟩ | ⟨hopens, hpart⟩)
    · cases h <;> simp_all
    · cases h <;> cases hopens <;> simp_all
  · exact .part h

end Context

variable {c : Context}

theorem Context.Opens.collects {pattern : Node} {type : TypeId}
    {args : List TemplateArg} (hopens : c.Opens pattern type args)
    (hparts : pattern.children ≠ [])
    (h : Collects count (∀ part ∈ pattern.children.zip args, c.Sound part)
      (fun i arg => ∃ part ∈ pattern.children.zip args,
        c.Requires part i arg) f) :
    Collects count (c.Sound (pattern, .type type))
      (c.Requires (pattern, .type type)) f := by
  refine h.congr ?_ fun i arg => ?_
  · rw [Context.sound_iff]
    simp only [hopens.inside_iff]
    refine (and_iff_right ?_).symm
    rintro ⟨-, kind, _, hkind, hother, ⟨⟩, hshape⟩
    cases hopens <;> simp_all
  · rw [Context.requires_iff]
    simp only [hopens.inside_iff]
    refine (or_iff_right ?_).symm
    exact fun hnames => hparts hnames.2.bare

theorem Collects.bare {m : Meeting} {found : Option Nat}
    (hbare : m.1.children = []) (hfound : ∀ i, c.Names m i ↔ found = some i) :
    Collects c.params.length (c.Sound m) (c.Requires m)
      fun known => found.elim (some known) fun i =>
        Deduction.bind known i m.2 := by
  have hsound : True ↔ c.Sound m :=
    (iff_true_intro (Context.sound_bare hbare)).symm
  have hrequires : ∀ i arg, c.Requires m i arg ↔ arg = m.2 ∧ found = some i :=
    fun i arg => by
    rw [Context.requires_iff, hfound]
    exact or_iff_left fun ⟨_, hinside, _⟩ =>
      Context.not_inside_bare hbare hinside
  cases found with
  | none => exact Collects.nothing.congr hsound (by simp [hrequires])
  | some i =>
      obtain ⟨param, hparam, -, -⟩ := ((hfound i).2 rfl).param
      refine (Collects.binding (List.getElem?_eq_some_iff.1 hparam).1 m.2).congr
        hsound ?_
      simp [hrequires, eq_comm, and_comm]

theorem Collects.closed {m : Meeting} (hparts : m.1.children ≠ [])
    (hclash : ¬ c.Clashes m) (hinside : ∀ next, ¬ c.Inside m next) :
    Collects count (c.Sound m) (c.Requires m) some := by
  refine Collects.nothing.congr ?_ fun i arg => ?_
  · exact (iff_true_intro
      (Context.sound_iff.2 ⟨hclash, fun n h => absurd h (hinside n)⟩)).symm
  · refine (iff_false_intro fun h => ?_).symm
    rcases Context.requires_iff.1 h with ⟨-, hnames⟩ | ⟨next, h, -⟩
    · exact hparts hnames.bare
    · exact hinside next h

theorem Collects.foreign {pattern : Node} {type : TypeId}
    (hparts : pattern.children ≠ [])
    (hkind : TemplateKind.ofName? pattern.text = none)
    (hclosed : ∀ args, ¬ c.Opens pattern type args) :
    Collects count (c.Sound (pattern, .type type))
      (c.Requires (pattern, .type type)) some := by
  refine .closed hparts ?_ ?_
  · rintro ⟨-, kind, _, hkind', -⟩
    simp_all
  · rintro next (⟨_, hkind', _⟩ | ⟨hopens, _⟩)
    · simp_all
    · exact hclosed _ hopens

theorem Collects.target {pattern inner : Node} {others : List Node}
    {type : TypeId} (hkind : TemplateKind.ofName? pattern.text = some .ref)
    (hparts : pattern.children = inner :: others)
    (h : Collects count (c.Sound (inner, .type (c.target type)))
      (c.Requires (inner, .type (c.target type))) f) :
    Collects count (c.Sound (pattern, .type type))
      (c.Requires (pattern, .type type)) f := by
  refine h.congr ?_ fun i arg => ?_
  · rw [Context.sound_iff (m := (pattern, _))]
    simp only [Context.inside_target_iff hkind hparts, forall_eq]
    refine (and_iff_right ?_).symm
    rintro ⟨-, kind, _, hkind', hother, -⟩
    simp_all
  · rw [Context.requires_iff (m := (pattern, _))]
    simp only [Context.inside_target_iff hkind hparts, exists_eq_left]
    refine (or_iff_right ?_).symm
    intro hnames
    simpa [hparts] using hnames.2.bare

/-! ## Each pattern by its kind -/

section Patterns

variable {pattern : Node} {type : TypeId}

theorem matchType_clash (h : c.Clashes (pattern, .type type)) :
    matchType c known pattern type = none := by
  obtain ⟨hparts, kind, _, hkind, hother, ⟨⟩, hshape⟩ := h
  obtain ⟨sort, name, pos, id, _ | ⟨inner, others⟩⟩ := pattern
  · exact absurd rfl hparts
  · cases kind <;> simp_all [matchType] <;> split <;> simp_all

theorem matchType_open {args : List TemplateArg}
    (hparts : pattern.children ≠ []) (h : c.Opens pattern type args) :
    matchType c known pattern type =
      matchArgs c known pattern.children args := by
  obtain ⟨sort, name, pos, id, _ | ⟨inner, others⟩⟩ := pattern
  · exact absurd rfl hparts
  cases h with
  | @kind kind _ hkind hother hshape => cases kind <;> simp_all [matchType]
  | record hkind horigin hname => simp_all [matchType]

theorem matchType_foreign (hparts : pattern.children ≠ [])
    (hkind : TemplateKind.ofName? pattern.text = none)
    (hclosed : ∀ args, ¬ c.Opens pattern type args) :
    matchType c known pattern type = some known := by
  obtain ⟨sort, name, pos, id, _ | ⟨inner, others⟩⟩ := pattern
  · exact absurd rfl hparts
  simp only at hkind
  simp only [matchType, hkind]
  split
  · rename_i origin args horigin
    rw [if_neg]
    exact fun hname =>
      hclosed args (.record hkind horigin (by simpa using hname))
  · rfl

def matchInt (c : Context) (known : Partial) (pattern : Node) (n : Int64) :
    Option Partial :=
  if pattern.children.isEmpty then
    (c.valueParam? pattern.text).elim (some known) fun i =>
      bind known i (.int n)
  else some known

theorem matchArgs_int {patterns : List Node} {n : Int64}
    {args : List TemplateArg} :
    matchArgs c known (pattern :: patterns) (.int n :: args) =
      (matchInt c known pattern n).bind fun known =>
        matchArgs c known patterns args := by
  simp only [matchArgs, matchInt]
  split
  · cases c.valueParam? pattern.text <;> rfl
  · rfl

theorem matchInt_collects (hnames : (c.params.map (·.name)).Nodup)
    (pattern : Node) (n : Int64) :
    Collects c.params.length (c.Sound (pattern, .int n))
      (c.Requires (pattern, .int n))
      fun known => matchInt c known pattern n := by
  simp only [matchInt]
  by_cases hbare : pattern.children = []
  · simpa [hbare] using Collects.bare (m := (pattern, .int n)) hbare
      fun i => Context.names_int_iff hnames hbare
  · simpa [hbare] using Collects.closed (m := (pattern, .int n)) hbare
      (by rintro ⟨-, _, _, -, -, ⟨⟩, -⟩) (by rintro _ ⟨⟩)

end Patterns

mutual

theorem matchType_collects (hnames : (c.params.map (·.name)).Nodup) :
    ∀ (pattern : Node) (type : TypeId),
      Collects c.params.length (c.Sound (pattern, .type type))
      (c.Requires (pattern, .type type)) fun known =>
        matchType c known pattern type
  | ⟨sort, name, pos, id, []⟩, type => by
      have h :=
        Collects.bare (c := c)
          (m := (⟨sort, name, pos, id, []⟩, .type type)) rfl
        fun i => Context.names_type_iff hnames rfl
      simp only [matchType]
      cases hname : c.typeParam? name <;> simpa [hname] using h
  | ⟨sort, name, pos, id, inner :: others⟩, type => by
      have hparts : (⟨sort, name, pos, id, inner :: others⟩ : Node).children ≠
          [] := nofun
      by_cases hopens : ∃ args,
        c.Opens ⟨sort, name, pos, id, inner :: others⟩ type args
      · obtain ⟨args, hopens⟩ := hopens
        simp only [matchType_open hparts hopens]
        exact hopens.collects hparts
          (matchArgs_collects hnames (inner :: others) args)
      cases hkind : TemplateKind.ofName? name with
      | none =>
          simp only [matchType_foreign hparts hkind (not_exists.1 hopens)]
          exact .foreign hparts hkind (not_exists.1 hopens)
      | some kind =>
          by_cases href : kind = .ref
          · subst href
            simp only [matchType, hkind]
            exact .target hkind rfl (matchType_collects hnames inner _)
          · have hclash :
                c.Clashes (⟨sort, name, pos, id, inner :: others⟩,
                  .type type) := by
              refine ⟨hparts, kind, type, hkind, href, rfl, fun args hshape =>
                hopens ⟨args, ?_⟩⟩
              exact .kind hkind href hshape
            simp only [matchType_clash hclash]
            exact .mismatch fun hsound => hsound _ .refl hclash

theorem matchArgs_collects (hnames : (c.params.map (·.name)).Nodup) :
    ∀ (patterns : List Node) (args : List TemplateArg), Collects c.params.length
      (∀ part ∈ patterns.zip args, c.Sound part)
      (fun i arg => ∃ part ∈ patterns.zip args, c.Requires part i arg)
      fun known => matchArgs c known patterns args
  | [], args => by
      simp only [matchArgs]
      exact Collects.nothing.congr (by simp) (by simp)
  | _ :: _, [] => by
      simp only [matchArgs]
      exact Collects.nothing.congr (by simp) (by simp)
  | pattern :: patterns, .type type :: args => by
      simp only [matchArgs]
      exact ((matchType_collects hnames pattern type).bind
        (matchArgs_collects hnames patterns args)).congr (by simp) (by simp)
  | pattern :: patterns, .int n :: args => by
      simp only [matchArgs_int]
      exact ((matchInt_collects hnames pattern n).bind
        (matchArgs_collects hnames patterns args)).congr (by simp) (by simp)

end

/-! ## Argument lists -/

/-- What the parameters stand against, up to a `...`: each type pattern with the
type given for it. -/
def meetings (params : List Node) (args : List TypeId) : List (Node × TypeId) :=
  ((params.zip args).takeWhile (·.1.text != "...")).filterMap fun met =>
    (met.1.findChild? .typeName).map (·, met.2)

def passed (item : TemplateItem) (params : Node) (args : List TypeId) :
    List TypeId :=
  match item with
  | .function (some _) => if hasExplicitSelf params then args else args.drop 1
  | _ => args

def matchAll (c : Context) (known : Partial) :
    List (Node × TypeId) → Option Partial
  | [] => some known
  | met :: rest =>
      (matchType c known met.1 met.2).bind fun known => matchAll c known rest

def argumentsIn (c : Context) (explicit : List TemplateArg)
    (order : List (Node × TypeId)) : Option (List TemplateArg) :=
  if c.params.length < explicit.length then none
  else
    (matchAll c
      (explicit.map some ++
        List.replicate (c.params.length - explicit.length) none)
      order).bind (·.mapM fun arg => arg)

/-- The parameter has to be bound to the argument, which is explicit or asked
for by a pattern. -/
def Context.Constrains (c : Context) (explicit : List TemplateArg)
    (order : List (Node × TypeId)) (i : Nat) (arg : TemplateArg) : Prop :=
  explicit[i]? = some arg ∨ ∃ met ∈ order, c.Requires (met.1, .type met.2) i arg

structure Context.Binding (c : Context) (explicit : List TemplateArg)
    (order : List (Node × TypeId)) (targs : List TemplateArg) : Prop where
  few : explicit.length ≤ c.params.length
  sound : ∀ met ∈ order, c.Sound (met.1, .type met.2)
  total : targs.length = c.params.length
  exact : ∀ i arg, targs[i]? = some arg ↔ c.Constrains explicit order i arg

variable {explicit targs : List TemplateArg} {order : List (Node × TypeId)}

theorem matchAll_collects (hnames : (c.params.map (·.name)).Nodup)
    (order : List (Node × TypeId)) :
    Collects c.params.length (∀ met ∈ order, c.Sound (met.1, .type met.2))
      (fun i arg => ∃ met ∈ order, c.Requires (met.1, .type met.2) i arg)
      fun known => matchAll c known order := by
  induction order with
  | nil => exact Collects.nothing.congr (by simp) (by simp)
  | cons met rest ih =>
      exact ((matchType_collects hnames met.1 met.2).bind ih).congr (by simp)
        (by simp)

theorem meetings_cons (param : Node) (params : List Node) (arg : TypeId)
    (args : List TypeId) :
    meetings (param :: params) (arg :: args) =
      if param.text = "..." then []
      else ((param.findChild? .typeName).map (·, arg)).toList ++
        meetings params args := by
  unfold meetings
  by_cases htail : param.text = "..."
  · simp [htail]
  · cases hpattern : param.findChild? .typeName <;> simp [htail, hpattern]

theorem matchParams_eq (known : Partial) (params : List Node)
    (args : List TypeId) :
    matchParams c known params args =
      matchAll c known (meetings params args) := by
  induction params generalizing known args with
  | nil => rfl
  | cons param params ih =>
      cases args with
      | nil => rfl
      | cons arg args =>
          rw [matchParams, meetings_cons]
          by_cases htail : param.text = "..."
          · simp [htail, matchAll]
          · cases hpattern : param.findChild? .typeName <;>
              simp [htail, matchAll, ih]

theorem mapM_eq_some {known : Partial} :
    known.mapM (fun arg => arg) = some targs ↔ known = targs.map some := by
  induction known generalizing targs with
  | nil => cases targs <;> simp
  | cons entry known ih =>
      cases targs <;> cases entry <;>
        simp [List.mapM_cons, Option.bind_eq_some_iff, ih, and_comm]

theorem explicit_entry (explicit : List TemplateArg) (others i : Nat)
    (arg : TemplateArg) :
    (explicit.map some ++ List.replicate others none)[i]? = some (some arg) ↔
      explicit[i]? = some arg := by
  by_cases hi : i < explicit.length
  · simp [List.getElem?_append_left, hi]
  · rw [List.getElem?_append_right (by simpa using hi), List.getElem?_replicate]
    simp [List.getElem?_eq_none (Nat.le_of_not_lt hi)]

theorem argumentsIn_eq_some (hnames : (c.params.map (·.name)).Nodup) :
    argumentsIn c explicit order = some targs ↔
    c.Binding explicit order targs := by
  unfold argumentsIn
  split
  · rename_i hmany
    exact iff_of_false nofun fun h => absurd h.few (by omega)
  · rename_i hfew
    have hlength : (explicit.map some ++
        List.replicate (c.params.length - explicit.length) none).length =
          c.params.length := by
      simp
      omega
    rw [Option.bind_eq_some_iff]
    simp only [mapM_eq_some, exists_eq_right]
    rw [matchAll_collects hnames order _ _ hlength]
    constructor
    · rintro ⟨hsound, hadds⟩
      refine ⟨by omega, hsound, by simpa [hlength] using hadds.length,
        fun i arg => ?_⟩
      simpa [explicit_entry, Context.Constrains] using hadds.entry i arg
    · intro h
      refine ⟨h.sound, by rw [hlength, List.length_map, h.total],
        fun i arg => ?_⟩
      simpa [explicit_entry, Context.Constrains] using h.exact i arg

theorem Context.Constrains.lt {i : Nat} {arg : TemplateArg}
    (h : c.Constrains explicit order i arg)
    (hfew : explicit.length ≤ c.params.length) : i < c.params.length := by
  rcases h with h | ⟨met, -, part, -, hnames⟩
  · exact Nat.lt_of_lt_of_le (List.getElem?_eq_some_iff.1 h).1 hfew
  · obtain ⟨param, hparam, -⟩ := hnames.param
    exact (List.getElem?_eq_some_iff.1 hparam).1

/-- The constraints can be met if there is one for each parameter and no two
differ. -/
theorem exists_binding_iff : (∃ targs, c.Binding explicit order targs) ↔
    explicit.length ≤ c.params.length ∧
    (∀ met ∈ order, c.Sound (met.1, .type met.2)) ∧
      (∀ i arg other, c.Constrains explicit order i arg →
        c.Constrains explicit order i other →
        arg = other) ∧
      ∀ i < c.params.length, ∃ arg, c.Constrains explicit order i arg := by
  constructor
  · rintro ⟨targs, h⟩
    refine ⟨h.few, h.sound, fun i arg other harg hother => ?_, fun i hi => ?_⟩
    · simpa [(h.exact i arg).2 harg] using (h.exact i other).2 hother
    · have hi' : i < targs.length := by rwa [h.total]
      exact ⟨targs[i], (h.exact i _).1 (List.getElem?_eq_getElem hi')⟩
  · rintro ⟨hfew, hsound, hsame, htotal⟩
    choose arg harg using htotal
    refine ⟨List.ofFn fun i : Fin c.params.length => arg i i.2, hfew, hsound,
      by simp, ?_⟩
    intro i other
    rw [List.getElem?_ofFn]
    split
    · rename_i hi
      constructor
      · rintro ⟨⟩
        exact harg i hi
      · exact fun hother => congrArg some (hsame i _ _ (harg i hi) hother)
    · rename_i hi
      exact iff_of_false nofun fun hother => hi (hother.lt hfew)

theorem argumentsIn_congr (hnames : (c.params.map (·.name)).Nodup)
    {other : List (Node × TypeId)} (h : ∀ met, met ∈ other ↔ met ∈ order) :
    argumentsIn c explicit other = argumentsIn c explicit order := by
  refine Option.ext fun targs => ?_
  rw [argumentsIn_eq_some hnames, argumentsIn_eq_some hnames]
  have hconstrains : c.Constrains explicit other =
      c.Constrains explicit order := by
    funext i arg
    simp [Context.Constrains, h]
  constructor
  · exact fun hb =>
      ⟨hb.few, fun met hmet => hb.sound met ((h met).2 hmet), hb.total,
        hconstrains ▸ hb.exact⟩
  · exact fun hb =>
      ⟨hb.few, fun met hmet => hb.sound met ((h met).1 hmet), hb.total,
        hconstrains ▸ hb.exact⟩

variable {types : TypeTable} {templates : TemplateTable} {template : TemplateId}
  {args : List TypeId} {params : Node}

theorem arguments?_eq
    (hparams : (templates.get template).node.findChild? .parameters =
      some params) :
    arguments? types templates template args explicit =
      argumentsIn ⟨types, templates, (templates.get template).params⟩ explicit
        (meetings params.children
          (passed (templates.get template).item params args)) := by
  unfold arguments? argumentsIn
  simp only [hparams, Option.bind_eq_bind, Option.bind_some, matchParams_eq]
  rfl

/-- The deduced arguments are the only ones that meet all constraints.  There
are such arguments if there are not too many explicit ones, no pattern for
arrays or addresses meets a type of another kind, no two constraints on a
parameter differ and each parameter has one.  It does not matter in which order
the parameters are looked at. -/
theorem deduces_only_binding
    (hnames : ((templates.get template).params.map (·.name)).Nodup)
    (hparams : (templates.get template).node.findChild? .parameters =
      some params) :
    let c : Context := ⟨types, templates, (templates.get template).params⟩
    let order :=
      meetings params.children
        (passed (templates.get template).item params args)
    (∀ targs, arguments? types templates template args explicit = some targs ↔
      c.Binding explicit order targs) ∧
    ((∃ targs, arguments? types templates template args explicit = some targs) ↔
      explicit.length ≤ c.params.length ∧
      (∀ met ∈ order, c.Sound (met.1, .type met.2)) ∧
        (∀ i arg other, c.Constrains explicit order i arg →
          c.Constrains explicit order i other →
          arg = other) ∧
        ∀ i < c.params.length, ∃ arg, c.Constrains explicit order i arg) ∧
    ∀ other, (∀ met, met ∈ other ↔ met ∈ order) →
      argumentsIn c explicit other =
        arguments? types templates template args explicit := by
  intro c order
  have hbinding : ∀ targs, arguments? types templates template args explicit =
      some targs ↔
      c.Binding explicit order targs := fun targs => by
    rw [arguments?_eq hparams, argumentsIn_eq_some hnames]
  refine ⟨hbinding, ?_, fun other h => ?_⟩
  · rw [← exists_binding_iff]
    simp only [hbinding]
  · rw [arguments?_eq hparams, argumentsIn_congr hnames h]

/-! ### A template of two parameters -/

namespace Sized

def node (kind : NodeKind) (text : String) (children : List Node) : Node :=
  ⟨kind, text, .dummy, 0, children⟩

/-- `(a: Array<Ref<T>, N>, b: T, ...)` -/
def parameters : Node :=
  node .parameters "" [
    node .parameter "a" [node .typeName "Array" [
      node .typeName "Ref" [node .typeName "T" []], node .typeName "N" []]],
    node .parameter "b" [node .typeName "T" []],
    node .parameter "..." []]

def declared : TemplateTable :=
  ⟨#[{ name := "f", params := [⟨"T", .type⟩, ⟨"N", .value .int32⟩], tree := ⟨0⟩
       node := node .function "f" [parameters], scope := .universe,
       item := .function none }], []⟩

def arrays : TypeTable :=
  ⟨#[{ name := "Int32", shape := .core .int32, size := 4, members := .universe,
       aggregate := false
       initialized := true },
     { name := "Array<Int32, 4>", shape := .template .array [.type ⟨0⟩, .int 4],
       size := 16
       members := .universe, aggregate := false, initialized := true }]⟩

end Sized

open Sized in
/-- An array, an integer, and one argument more. -/
theorem deduces_only_binding_sized :
    let c : Context := ⟨arrays, declared, (declared.get ⟨0⟩).params⟩
    let order := meetings parameters.children [⟨1⟩, ⟨0⟩, ⟨1⟩]
    ((declared.get ⟨0⟩).params.map (·.name)).Nodup ∧
      (declared.get ⟨0⟩).node.findChild? .parameters = some parameters ∧
      c.Binding [] order [.type ⟨0⟩, .int 4] ∧
      argumentsIn c [] order.reverse = some [.type ⟨0⟩, .int 4] := by
  have hnames : ((declared.get ⟨0⟩).params.map (·.name)).Nodup := by decide
  have hparams : (declared.get ⟨0⟩).node.findChild? .parameters =
      some parameters := rfl
  have harguments : arguments? arrays declared ⟨0⟩ [⟨1⟩, ⟨0⟩, ⟨1⟩] [] =
      some [.type ⟨0⟩, .int 4] := by decide
  obtain ⟨hbinding, -, horder⟩ := deduces_only_binding hnames hparams
  exact ⟨hnames, hparams, (hbinding _).1 harguments,
    (horder _ fun met => List.mem_reverse).trans harguments⟩

end Deduction

end ArenaScript
