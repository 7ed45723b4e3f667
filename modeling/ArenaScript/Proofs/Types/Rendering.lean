import ArenaScript.Types.Table

/-!
# Rendered names

An instance of a built-in template is identified by its rendered name.  In a
table in which no name is given out twice, the name determines the template and
its arguments: an integer contains no blank, so the last separator is the one
between the two arguments of an array.
-/

namespace ArenaScript

/-! ## Integers as text -/

theorem not_mem_digits {c : Char} (hc : c.isDigit = false) (n : Nat) :
    c ∉ n.repr.toList := by
  intro h
  rw [Nat.toList_repr] at h
  have hdigit := Nat.isDigit_of_mem_toDigits (by decide) (by decide) h
  simp [hc] at hdigit

theorem blank_not_mem_int (n : Int) : ' ' ∉ n.repr.toList := by
  have hdigits := not_mem_digits (c := ' ') (by decide)
  rw [Int.repr_eq_if]
  split
  · exact hdigits _
  · simpa using hdigits _

theorem digits_inj {m n : Nat} (h : m.repr.toList = n.repr.toList) : m = n := by
  rw [Nat.toList_repr, Nat.toList_repr] at h
  have hvalue := congrArg (fun ds => Nat.ofDigitChars 10 ds 0) h
  simpa using hvalue

theorem int_repr_inj {m n : Int} (h : m.repr.toList = n.repr.toList) :
    m = n := by
  have hm := not_mem_digits (c := '-') (by decide) m.toNat
  have hn := not_mem_digits (c := '-') (by decide) n.toNat
  rw [Int.repr_eq_if, Int.repr_eq_if] at h
  split at h
  · split at h
    · have hdigits := digits_inj h
      omega
    · rw [h] at hm
      simp at hm
  · split at h
    · rw [← h] at hn
      simp at hn
    · have hdigits := digits_inj (by simpa using h)
      omega

/-! ## Separators -/

theorem separated_inj {front front' back back' : List Char} (hback : ' ' ∉ back)
    (hback' : ' ' ∉ back')
    (h : front ++ [',', ' '] ++ back = front' ++ [',', ' '] ++ back') :
    front = front' ∧ back = back' := by
  -- Read from the end: the first part may contain separators itself, as in
  -- `Array<Array<A, 1>, 2>`.
  have hread : ∀ {xs ys : List Char}, ' ' ∉ ys →
      ((xs ++ [',', ' '] ++ ys).reverse.takeWhile (· != ' ')) = ys.reverse := by
    intro xs ys hys
    have hall : ∀ c ∈ ys.reverse, (c != ' ') = true := by
      intro c hc
      simp only [List.mem_reverse] at hc
      simp only [bne_iff_ne, ne_eq]
      rintro rfl
      exact hys hc
    simp [List.takeWhile_append_of_pos hall]
  have hsame : back.reverse = back'.reverse := by
    rw [← hread hback, ← hread hback', h]
  have hbacks : back = back' := by simpa using hsame
  subst hbacks
  simpa using h

namespace TypeTable

def Has (t : TypeTable) (id : TypeId) : Prop := id.index < t.size

instance (t : TypeTable) (id : TypeId) : Decidable (t.Has id) :=
  inferInstanceAs (Decidable (id.index < t.size))

def HasArgs (t : TypeTable) (args : List TemplateArg) : Prop :=
  ∀ id, TemplateArg.type id ∈ args → t.Has id

def DistinctNames (t : TypeTable) : Prop :=
  ∀ id id', t.Has id → t.Has id' → t.name id = t.name id' → id = id'

end TypeTable

inductive WellShaped : TemplateKind → List TemplateArg → Prop
  | ref (target : TypeId) : WellShaped .ref [.type target]
  | address (target : TypeId) : WellShaped .address [.type target]
  | array (elem : TypeId) (len : Int64) :
      WellShaped .array [.type elem, .int len]

def reserved (name : String) : Bool :=
  ["Ref<", "Address<", "Array<"].any fun start =>
    start.toList.isPrefixOf name.toList

namespace TypeTable

variable {t : TypeTable}

theorem toList_render (t : TypeTable) (kind : TemplateKind)
    (args : List TemplateArg) :
    (t.render kind args).toList =
      kind.name.toList ++ '<' :: ((t.renderArgs args).toList ++ ['>']) := by
  simp [render]

theorem reserved_render (t : TypeTable) (kind : TemplateKind)
    (args : List TemplateArg) : reserved (t.render kind args) = true := by
  rw [reserved, toList_render]
  cases kind <;> simp [TemplateKind.name]

theorem renderArgs_pair (t : TypeTable) (elem : TypeId) (len : Int64) :
    (t.renderArgs [.type elem, .int len]).toList =
      (t.name elem).toList ++ [',', ' '] ++ len.toInt.repr.toList := by
  simp [renderArgs, renderArg]

theorem renderArgs_single (t : TypeTable) (target : TypeId) :
    t.renderArgs [.type target] = t.name target := by
  simp [renderArgs, renderArg]

/-- The template can be read off a rendered name, and so can the text of the
arguments. -/
theorem render_kind_inj {kind kind' : TemplateKind}
    {args args' : List TemplateArg}
    (h : t.render kind args = t.render kind' args') :
    kind = kind' ∧ t.renderArgs args = t.renderArgs args' := by
  have hlist := congrArg String.toList h
  rw [toList_render, toList_render] at hlist
  have htext : kind = kind' ∧ (t.renderArgs args).toList =
      (t.renderArgs args').toList := by
    cases kind <;> cases kind' <;> simp_all [TemplateKind.name]
  exact ⟨htext.1, String.toList_inj.1 htext.2⟩

theorem render_inj (ht : t.DistinctNames) {kind kind' : TemplateKind}
    {args args' : List TemplateArg} (hshape : WellShaped kind args)
    (hshape' : WellShaped kind' args') (hargs : t.HasArgs args)
    (hargs' : t.HasArgs args') (h : t.render kind args = t.render kind' args') :
    kind = kind' ∧ args = args' := by
  obtain ⟨rfl, htext⟩ := render_kind_inj h
  refine ⟨rfl, ?_⟩
  cases hshape with
  | ref target =>
      cases hshape' with
      | ref target' =>
          rw [renderArgs_single, renderArgs_single] at htext
          rw [ht target target' (hargs target (by simp))
            (hargs' target' (by simp)) htext]
  | address target =>
      cases hshape' with
      | address target' =>
          rw [renderArgs_single, renderArgs_single] at htext
          rw [ht target target' (hargs target (by simp))
            (hargs' target' (by simp)) htext]
  | array elem len =>
      cases hshape' with
      | array elem' len' =>
          have hlist := congrArg String.toList htext
          rw [renderArgs_pair, renderArgs_pair] at hlist
          have hparts :=
            separated_inj (blank_not_mem_int _) (blank_not_mem_int _) hlist
          have hname : t.name elem = t.name elem' :=
            String.toList_inj.1 hparts.1
          have hlen : len = len' := Int64.toInt_inj.1 (int_repr_inj hparts.2)
          rw [ht elem elem' (hargs elem (by simp)) (hargs' elem' (by simp))
            hname, hlen]

end TypeTable

end ArenaScript
