import ArenaScript.Proofs.Types.Growth

/-!
# Names that can be read back

The name of an instance lists the names of its arguments.  If brackets are
balanced in each of these and no comma stands outside of brackets, the list can
be taken apart again in one way only: an argument ends at the first comma that
no bracket is open for.  A name that also does not begin like a number tells
types from integers.
-/

namespace ArenaScript

/-! ## Texts in brackets -/

/-- The text closes `depth` brackets and all it opens, and has no comma outside
of brackets. -/
def closes : Nat → List Char → Bool
  | depth, [] => depth == 0
  | depth, '<' :: cs => closes (depth + 1) cs
  | 0, '>' :: _ => false
  | depth + 1, '>' :: cs => closes depth cs
  | 0, ',' :: _ => false
  | depth, _ :: cs => closes depth cs

def Separated (rest : List Char) : Prop := rest = [] ∨ ∃ cs, rest = ',' :: cs

theorem closes_cons_ne {c : Char} (hopen : c ≠ '<') (hclose : c ≠ '>')
    (hcomma : c ≠ ',') (depth : Nat) (cs : List Char) :
    closes depth (c :: cs) = closes depth cs := by
  cases depth <;> simp [closes, hclose, hcomma]

theorem closes_of_plain {cs : List Char} (hopen : '<' ∉ cs) (hclose : '>' ∉ cs)
    (hcomma : ',' ∉ cs) : closes 0 cs = true := by
  induction cs with
  | nil => rfl
  | cons c cs ih =>
      simp only [List.mem_cons, not_or] at hopen hclose hcomma
      rw [closes_cons_ne (Ne.symm hopen.1) (Ne.symm hclose.1)
        (Ne.symm hcomma.1)]
      exact ih hopen.2 hclose.2 hcomma.2

theorem exists_closes_of_cons {depth : Nat} {c : Char} {cs ds : List Char}
    (hcs : closes depth (c :: cs) = true)
    (hds : closes depth (c :: ds) = true) :
    ∃ depth', closes depth' cs = true ∧ closes depth' ds = true := by
  by_cases hopen : c = '<'
  · subst hopen
    exact ⟨depth + 1, hcs, hds⟩
  · by_cases hclose : c = '>'
    · subst hclose
      cases depth with
      | zero => cases hcs
      | succ depth => exact ⟨depth, hcs, hds⟩
    · by_cases hcomma : c = ','
      · subst hcomma
        cases depth with
        | zero => cases hcs
        | succ depth => exact ⟨depth + 1, hcs, hds⟩
      · rw [closes_cons_ne hopen hclose hcomma] at hcs hds
        exact ⟨depth, hcs, hds⟩

theorem append_inj_of_closes {depth : Nat} {xs ys rest rest' : List Char}
    (hxs : closes depth xs = true) (hys : closes depth ys = true)
    (hrest : Separated rest) (hrest' : Separated rest')
    (h : xs ++ rest = ys ++ rest') : xs = ys ∧ rest = rest' := by
  induction xs generalizing depth ys with
  | nil =>
      have hdepth : depth = 0 := by simpa [closes] using hxs
      subst hdepth
      cases ys with
      | nil => exact ⟨rfl, h⟩
      | cons y ys =>
          rcases hrest with rfl | ⟨cs, rfl⟩
          · cases h
          · cases h
            cases hys
  | cons x xs ih =>
      cases ys with
      | nil =>
          have hdepth : depth = 0 := by simpa [closes] using hys
          subst hdepth
          rcases hrest' with rfl | ⟨cs, rfl⟩
          · cases h
          · cases h
            cases hxs
      | cons y ys =>
          obtain ⟨rfl, htail⟩ := List.cons.inj h
          obtain ⟨depth', hxs', hys'⟩ := exists_closes_of_cons hxs hys
          obtain ⟨rfl, hrests⟩ := ih hxs' hys' htail
          exact ⟨rfl, hrests⟩

theorem append_bracket_inj {xs ys rest rest' : List Char} (hxs : '<' ∉ xs)
    (hys : '<' ∉ ys) (h : xs ++ '<' :: rest = ys ++ '<' :: rest') :
    xs = ys ∧ rest = rest' := by
  have hread : ∀ {zs : List Char}, '<' ∉ zs → ∀ rest : List Char,
      (zs ++ '<' :: rest).takeWhile (· != '<') = zs := by
    intro zs hzs rest
    have hall : ∀ c ∈ zs, (c != '<') = true := by
      intro c hc
      simp only [bne_iff_ne, ne_eq]
      rintro rfl
      exact hzs hc
    simp [List.takeWhile_append_of_pos hall]
  have hsame : xs = ys := by
    rw [← hread hxs rest, ← hread hys rest', h]
  subst hsame
  simpa using h

/-! ## Lists of texts -/

def following : List (List Char) → List Char
  | [] => []
  | t :: ts => ',' :: ' ' :: [',', ' '].intercalate (t :: ts)

theorem intercalate_cons (t : List Char) (ts : List (List Char)) :
    [',', ' '].intercalate (t :: ts) = t ++ following ts := by
  cases ts <;> simp [following]

theorem separated_following (ts : List (List Char)) :
    Separated (following ts) := by
  cases ts with
  | nil => exact .inl rfl
  | cons t ts => exact .inr ⟨_, rfl⟩

theorem intercalate_of_following {ts us : List (List Char)}
    (h : following ts = following us) :
    [',', ' '].intercalate ts = [',', ' '].intercalate us := by
  cases ts <;> cases us <;> simp_all [following]

theorem intercalate_ne_nil {t : List Char} (ht : t ≠ [])
    (ts : List (List Char)) : [',', ' '].intercalate (t :: ts) ≠ [] := by
  rw [intercalate_cons]
  simp [ht]

theorem intercalate_inj {ts us : List (List Char)}
    (hts : ∀ t ∈ ts, t ≠ [] ∧ closes 0 t = true)
    (hus : ∀ u ∈ us, u ≠ [] ∧ closes 0 u = true)
    (h : [',', ' '].intercalate ts = [',', ' '].intercalate us) : ts = us := by
  induction ts generalizing us with
  | nil =>
      cases us with
      | nil => rfl
      | cons u us =>
          exact absurd h.symm (intercalate_ne_nil (hus u (by simp)).1 us)
  | cons t ts ih =>
      cases us with
      | nil => exact absurd h (intercalate_ne_nil (hts t (by simp)).1 ts)
      | cons u us =>
          obtain ⟨ht, hts'⟩ := List.forall_mem_cons.1 hts
          obtain ⟨hu, hus'⟩ := List.forall_mem_cons.1 hus
          rw [intercalate_cons, intercalate_cons] at h
          obtain ⟨rfl, hrest⟩ :=
            append_inj_of_closes ht.2 hu.2 (separated_following ts)
            (separated_following us) h
          rw [ih hts' hus' (intercalate_of_following hrest)]

/-! ## Names of types -/

/-- Whether a name can be told from what follows it and from an integer. -/
def legible (name : String) : Bool :=
  match name.toList with
  | [] => false
  | c :: cs => !c.isDigit && c != '-' && closes 0 (c :: cs)

theorem legible_iff {name : String} : legible name = true ↔
    ∃ c cs, name.toList = c :: cs ∧ c.isDigit = false ∧ c ≠ '-' ∧
      closes 0 (c :: cs) = true := by
  unfold legible
  split
  · simp_all
  · simp_all [and_assoc]

theorem int_repr_eq_cons (n : Int) :
    ∃ c cs, n.repr.toList = c :: cs ∧ (c.isDigit = true ∨ c = '-') := by
  rw [Int.repr_eq_if]
  split
  · cases hdigits : n.toNat.repr.toList with
    | nil => simp [Nat.toList_repr] at hdigits
    | cons c cs =>
        refine ⟨c, cs, rfl, .inl ?_⟩
        have hmem : c ∈ Nat.toDigits 10 n.toNat := by
          rw [← Nat.toList_repr, hdigits]
          exact List.mem_cons_self
        exact Nat.isDigit_of_mem_toDigits (by decide) (by decide) hmem
  · exact ⟨'-', _, by simp; rfl, .inr rfl⟩

theorem closes_int (n : Int) : closes 0 n.repr.toList = true := by
  have hmem : ∀ c ∈ ['<', '>', ','], c ∉ n.repr.toList := by
    intro c hc
    have hdigit : c.isDigit = false := by
      simp only [List.mem_cons, List.not_mem_nil, or_false] at hc
      rcases hc with rfl | rfl | rfl <;> decide
    have hminus : c ≠ '-' := by
      simp only [List.mem_cons, List.not_mem_nil, or_false] at hc
      rcases hc with rfl | rfl | rfl <;> decide
    have hdigits := not_mem_digits hdigit
    rw [Int.repr_eq_if]
    split
    · exact hdigits _
    · simpa [hminus] using hdigits _
  exact closes_of_plain (hmem '<' (by simp)) (hmem '>' (by simp))
    (hmem ',' (by simp))

namespace TypeTable

variable {t : TypeTable}

def Legible (t : TypeTable) : Prop :=
  ∀ id, t.Has id → legible (t.name id) = true

theorem closes_renderArg (hl : t.Legible) {args : List TemplateArg}
    (hargs : t.HasArgs args) {arg : TemplateArg} (harg : arg ∈ args) :
    (t.renderArg arg).toList ≠ [] ∧ closes 0 (t.renderArg arg).toList =
      true := by
  cases arg with
  | type id =>
      obtain ⟨c, cs, hname, -, -, hcloses⟩ :=
        legible_iff.1 (hl id (hargs id harg))
      simp only [renderArg, hname]
      exact ⟨List.cons_ne_nil c cs, hcloses⟩
  | int n =>
      obtain ⟨c, cs, htext, -⟩ := int_repr_eq_cons n.toInt
      refine ⟨?_, closes_int n.toInt⟩
      change n.toInt.repr.toList ≠ []
      simp [htext]

theorem renderArg_type_ne_int (hl : t.Legible) {id : TypeId} (hid : t.Has id)
    (n : Int64) : t.renderArg (.type id) ≠ t.renderArg (.int n) := by
  intro h
  obtain ⟨c, cs, hname, hdigit, hminus, -⟩ := legible_iff.1 (hl id hid)
  obtain ⟨d, ds, htext, hd⟩ := int_repr_eq_cons n.toInt
  have hlist : c :: cs = d :: ds := by
    rw [← hname, ← htext]
    exact congrArg String.toList h
  cases hlist
  rcases hd with hd | hd
  · simp [hdigit] at hd
  · exact hminus hd

theorem renderArg_inj (ht : t.DistinctNames) (hl : t.Legible)
    {args args' : List TemplateArg} (hargs : t.HasArgs args)
    (hargs' : t.HasArgs args') {arg arg' : TemplateArg} (harg : arg ∈ args)
    (harg' : arg' ∈ args') (h : t.renderArg arg = t.renderArg arg') :
    arg = arg' := by
  cases arg with
  | type id =>
      cases arg' with
      | type id' => rw [ht id id' (hargs id harg) (hargs' id' harg') h]
      | int n => exact absurd h (renderArg_type_ne_int hl (hargs id harg) n)
  | int n =>
      cases arg' with
      | type id' =>
          exact absurd h.symm (renderArg_type_ne_int hl (hargs' id' harg') n)
      | int n' =>
          have htext : n.toInt.repr.toList = n'.toInt.repr.toList :=
            congrArg String.toList h
          rw [Int64.toInt_inj.1 (int_repr_inj htext)]

theorem map_renderArg_inj (ht : t.DistinctNames) (hl : t.Legible)
    {args args' : List TemplateArg} (hargs : t.HasArgs args)
    (hargs' : t.HasArgs args')
    (h : args.map t.renderArg = args'.map t.renderArg) : args = args' := by
  induction args generalizing args' with
  | nil => exact (List.map_eq_nil_iff.1 h.symm).symm
  | cons arg args ih =>
      cases args' with
      | nil => cases h
      | cons arg' args' =>
          obtain ⟨hhead, htail⟩ := List.cons.inj h
          have harg :=
            renderArg_inj ht hl hargs hargs' List.mem_cons_self
              List.mem_cons_self hhead
          have hrest :=
            ih (fun id hid => hargs id (List.mem_cons_of_mem arg hid))
            (fun id hid => hargs' id (List.mem_cons_of_mem arg' hid)) htail
          rw [harg, hrest]

theorem renderArgs_inj (ht : t.DistinctNames) (hl : t.Legible)
    {args args' : List TemplateArg} (hargs : t.HasArgs args)
    (hargs' : t.HasArgs args') (h : t.renderArgs args = t.renderArgs args') :
    args = args' := by
  have hlist := congrArg String.toList h
  simp only [renderArgs, String.toList_intercalate] at hlist
  have htexts := intercalate_inj ?_ ?_ hlist
  · refine map_renderArg_inj ht hl hargs hargs' ?_
    exact (List.map_inj_right fun _ _ => String.toList_inj.1).1 htexts
  · simp only [List.mem_map, forall_exists_index, and_imp]
    rintro _ _ arg harg rfl rfl
    exact closes_renderArg hl hargs harg
  · simp only [List.mem_map, forall_exists_index, and_imp]
    rintro _ _ arg harg rfl rfl
    exact closes_renderArg hl hargs' harg

end TypeTable

end ArenaScript
