import ArenaScript.Types.Layout

/-!
# Fields in their places

The layout of fields is computed with words.  As long as the exact size fits in
a word it is the layout one would write down: each field of a class stands at
the least suitable offset behind the one before it, the fields of a union share
offset 0, and the whole is padded to the largest alignment.
-/

namespace ArenaScript

def Field.declared (field : Field) : Field := { field with offset := 0 }

namespace Layout

structure Padded (low step n : Nat) : Prop where
  multiple : step ∣ n
  above : low ≤ n
  least : ∀ m, step ∣ m → low ≤ m → n ≤ m

/-! ## Rounding -/

def roundUp (n step : Nat) : Nat :=
  if n % step = 0 then n else n + (step - n % step)

theorem le_roundUp (n step : Nat) : n ≤ roundUp n step := by
  unfold roundUp
  split
  · exact Nat.le_refl n
  · exact Nat.le_add_right n _

theorem padded_roundUp (n : Nat) {step : Nat} (hstep : 0 < step) :
    Padded n step (roundUp n step) := by
  have hmod := Nat.mod_lt n hstep
  have hsplit := Nat.div_add_mod n step
  by_cases hexact : n % step = 0
  · have hround : roundUp n step = n := by simp [roundUp, hexact]
    rw [hround]
    exact ⟨Nat.dvd_of_mod_eq_zero hexact, Nat.le_refl n, fun m _ hm => hm⟩
  · have hround : roundUp n step = step * (n / step + 1) := by
      rw [roundUp, if_neg hexact, Nat.mul_add, Nat.mul_one]
      omega
    refine ⟨?_, le_roundUp n step, ?_⟩
    · rw [hround]
      exact Nat.dvd_mul_right step _
    · rintro m ⟨k, rfl⟩ hm
      have hk : n / step < k := by
        apply Nat.lt_of_mul_lt_mul_left (a := step)
        omega
      rw [hround]
      exact Nat.mul_le_mul_left step hk

theorem roundUp_word {n step : Nat} (hfits : roundUp n step < Word.modulus) :
    Word.roundUp n step = roundUp n step := by
  unfold roundUp at hfits ⊢
  unfold Word.roundUp
  split
  · rfl
  · rename_i hpad
    rw [if_neg hpad] at hfits
    exact Word.add_of_lt hfits

/-! ## Exact layout -/

def largest (of : TypeId → Nat) (start : Nat) (fields : List Field) : Nat :=
  fields.foldl (fun n field => max n (of field.type)) start

variable (measure : TypeId → Extent)

def alignment (align : Nat) (fields : List Field) : Nat :=
  largest (fun type => (measure type).align) align fields

def bulk (size : Nat) (fields : List Field) : Nat :=
  largest (fun type => (measure type).size) size fields

def finish (low : Nat) : List Field → Nat
  | [] => low
  | field :: rest =>
      finish (roundUp low (measure field.type).align +
        (measure field.type).size) rest

/-- The size of a type with these fields. -/
def exactSize : StructKind → List Field → Nat
  | .classKind, fields =>
      roundUp (finish measure 0 fields) (alignment measure 1 fields)
  | .unionKind, fields =>
      roundUp (bulk measure 0 fields) (alignment measure 1 fields)
  | .enumKind, _ => 4

/-- The fields follow each other from `low` to `finish`, each at the least
offset that suits it. -/
inductive Consecutive : Nat → List Field → Nat → Prop
  | nil (low : Nat) : Consecutive low [] low
  | cons {low finish : Nat} {field : Field} {rest : List Field}
      (hfirst : Padded low (measure field.type).align field.offset)
      (hrest : Consecutive (field.offset + (measure field.type).size) rest
        finish) :
      Consecutive low (field :: rest) finish

structure ClassLayout (fields : List Field) (whole : Extent) : Prop where
  align : whole.align = alignment measure 1 fields
  placed : ∃ finish, Consecutive measure 0 fields finish ∧
    Padded finish whole.align whole.size

structure UnionLayout (fields : List Field) (whole : Extent) : Prop where
  align : whole.align = alignment measure 1 fields
  offset : ∀ field ∈ fields, field.offset = 0
  size : Padded (bulk measure 0 fields) whole.align whole.size

variable {measure}

theorem le_finish (fields : List Field) (low : Nat) :
    low ≤ finish measure low fields := by
  induction fields generalizing low with
  | nil => exact Nat.le_refl low
  | cons field rest ih =>
      have hround := le_roundUp low (measure field.type).align
      have hrest :=
        ih (roundUp low (measure field.type).align + (measure field.type).size)
      rw [finish]
      omega

theorem le_largest {of : TypeId → Nat} (fields : List Field) (start : Nat) :
    start ≤ largest of start fields := by
  induction fields generalizing start with
  | nil => exact Nat.le_refl start
  | cons field rest ih =>
      have hrest := ih (max start (of field.type))
      simp only [largest, List.foldl_cons] at hrest ⊢
      omega

theorem le_largest_of_mem (of : TypeId → Nat) {fields : List Field}
    (start : Nat) {field : Field} (hfield : field ∈ fields) : of field.type ≤
    largest of start fields := by
  induction fields generalizing start with
  | nil => cases hfield
  | cons first rest ih =>
      rcases List.mem_cons.1 hfield with rfl | hrest
      · exact Nat.le_trans (Nat.le_max_right start _) (le_largest rest _)
      · exact ih (max start (of first.type)) hrest

theorem largest_congr {of of' : TypeId → Nat} {fields fields' : List Field}
    (start : Nat) (htypes : fields'.map Field.type = fields.map Field.type)
    (hsame : ∀ field ∈ fields, of' field.type = of field.type) :
    largest of' start fields' = largest of start fields := by
  have hfold : ∀ (of : TypeId → Nat) (fields : List Field),
      largest of start fields =
      ((fields.map Field.type).map of).foldl max start := by
    intro of fields
    rw [largest, List.foldl_map, List.foldl_map]
  rw [hfold, hfold, htypes]
  congr 1
  apply List.map_congr_left
  intro type htype
  obtain ⟨field, hfield, rfl⟩ := List.mem_map.1 htype
  exact hsame field hfield

/-- The words that are computed for a class are the exact numbers if the last of
them is one. -/
theorem inOrder_exact {fields : List Field} {low align : Nat}
    (haligned : ∀ field ∈ fields, 0 < (measure field.type).align)
    (hfits : roundUp (finish measure low fields)
      (alignment measure align fields) < Word.modulus) :
    Consecutive measure low (inOrder measure low align fields).1
      (finish measure low fields) ∧
      (inOrder measure low align fields).1.map Field.declared =
        fields.map Field.declared ∧
      (inOrder measure low align fields).2 =
        ⟨roundUp (finish measure low fields) (alignment measure align fields),
          alignment measure align fields⟩ := by
  induction fields generalizing low align with
  | nil =>
      refine ⟨.nil low, rfl, ?_⟩
      simp only [inOrder, finish, alignment, largest, List.foldl_nil] at hfits ⊢
      rw [roundUp_word hfits]
  | cons field rest ih =>
      have hend : roundUp low (measure field.type).align +
          (measure field.type).size ≤
          finish measure low (field :: rest) := le_finish rest _
      have hlast := le_roundUp (finish measure low (field :: rest))
        (alignment measure align (field :: rest))
      have hstart : Word.roundUp low (measure field.type).align =
          roundUp low (measure field.type).align := roundUp_word (by omega)
      have hnext : Word.add (roundUp low (measure field.type).align)
          (measure field.type).size =
          roundUp low (measure field.type).align + (measure field.type).size :=
        Word.add_of_lt (by omega)
      obtain ⟨hplaced, hdeclared, hwhole⟩ :=
        ih (fun other hother =>
          haligned other (List.mem_cons_of_mem field hother)) hfits
      simp only [inOrder, hstart, hnext]
      refine ⟨.cons ?_ hplaced, ?_, hwhole⟩
      · exact padded_roundUp low (haligned field List.mem_cons_self)
      · simp only [List.map_cons, hdeclared]
        rfl

theorem overlaid_exact {fields : List Field} {size align : Nat}
    (hfits : roundUp (bulk measure size fields)
      (alignment measure align fields) < Word.modulus) :
    (∀ field ∈ (overlaid measure size align fields).1, field.offset = 0) ∧
      (overlaid measure size align fields).1.map Field.declared =
        fields.map Field.declared ∧
      (overlaid measure size align fields).2 =
        ⟨roundUp (bulk measure size fields) (alignment measure align fields),
          alignment measure align fields⟩ := by
  induction fields generalizing size align with
  | nil =>
      refine ⟨by simp [overlaid], rfl, ?_⟩
      simp only [overlaid, bulk, alignment, largest, List.foldl_nil] at hfits ⊢
      rw [roundUp_word hfits]
  | cons field rest ih =>
      obtain ⟨hoffset, hdeclared, hwhole⟩ := ih hfits
      simp only [overlaid]
      refine ⟨?_, ?_, hwhole⟩
      · intro other hother
        rcases List.mem_cons.1 hother with rfl | hrest
        · rfl
        · exact hoffset other hrest
      · simp only [List.map_cons, hdeclared]
        rfl

theorem map_type_of_declared {placed fields : List Field}
    (h : placed.map Field.declared = fields.map Field.declared) :
    placed.map Field.type = fields.map Field.type := by
  have htypes := congrArg (List.map Field.type) h
  simpa [Function.comp_def, Field.declared] using htypes

theorem alignment_congr {measure' : TypeId → Extent}
    {fields fields' : List Field} (align : Nat)
    (htypes : fields'.map Field.type = fields.map Field.type)
    (hsame : ∀ field ∈ fields, measure' field.type = measure field.type) :
    alignment measure' align fields' = alignment measure align fields :=
  largest_congr align htypes fun field hfield => by rw [hsame field hfield]

theorem bulk_congr {measure' : TypeId → Extent} {fields fields' : List Field}
    (size : Nat) (htypes : fields'.map Field.type = fields.map Field.type)
    (hsame : ∀ field ∈ fields, measure' field.type = measure field.type) :
    bulk measure' size fields' = bulk measure size fields :=
  largest_congr size htypes fun field hfield => by rw [hsame field hfield]

theorem classLayout {fields : List Field}
    (haligned : ∀ field ∈ fields, 0 < (measure field.type).align)
    (hfits : exactSize measure .classKind fields < Word.modulus) :
    ClassLayout measure (ofFields measure .classKind fields).1
      (ofFields measure .classKind fields).2 := by
  obtain ⟨hplaced, hdeclared, hwhole⟩ := inOrder_exact haligned hfits
  have hpositive : 1 ≤ alignment measure 1 fields := le_largest fields 1
  have htypes := map_type_of_declared hdeclared
  simp only [ofFields, hwhole]
  refine ⟨?_, _, hplaced, padded_roundUp _ hpositive⟩
  exact (alignment_congr 1 htypes fun _ _ => rfl).symm

theorem unionLayout {fields : List Field}
    (hfits : exactSize measure .unionKind fields < Word.modulus) :
    UnionLayout measure (ofFields measure .unionKind fields).1
      (ofFields measure .unionKind fields).2 := by
  obtain ⟨hoffset, hdeclared, hwhole⟩ := overlaid_exact hfits
  have hpositive : 1 ≤ alignment measure 1 fields := le_largest fields 1
  have htypes := map_type_of_declared hdeclared
  simp only [ofFields, hwhole]
  refine ⟨(alignment_congr 1 htypes fun _ _ => rfl).symm, hoffset, ?_⟩
  rw [bulk_congr 0 htypes fun _ _ => rfl]
  exact padded_roundUp _ hpositive

theorem ofFields_declared {kind : StructKind} {fields : List Field}
    (haligned : ∀ field ∈ fields, 0 < (measure field.type).align)
    (hfits : exactSize measure kind fields < Word.modulus) :
    (ofFields measure kind fields).1.map Field.declared =
      fields.map Field.declared := by
  cases kind with
  | classKind => exact (inOrder_exact haligned hfits).2.1
  | unionKind => exact (overlaid_exact hfits).2.1
  | enumKind => rfl

theorem declared_ofFields (measure : TypeId → Extent) (kind : StructKind)
    (fields : List Field) :
    (ofFields measure kind fields).1.map Field.declared =
      fields.map Field.declared := by
  have hordered : ∀ (offset align : Nat) (fields : List Field),
      (inOrder measure offset align fields).1.map Field.declared =
        fields.map Field.declared := by
    intro offset align fields
    induction fields generalizing offset align with
    | nil => rfl
    | cons field rest ih =>
        simp only [inOrder, List.map_cons, ih, Field.declared]
  have hoverlaid : ∀ (size align : Nat) (fields : List Field),
      (overlaid measure size align fields).1.map Field.declared =
        fields.map Field.declared := by
    intro size align fields
    induction fields generalizing size align with
    | nil => rfl
    | cons field rest ih =>
        simp only [overlaid, List.map_cons, ih, Field.declared]
  cases kind with
  | classKind => exact hordered 0 1 fields
  | unionKind => exact hoverlaid 0 1 fields
  | enumKind => rfl

section Measures

variable {measure' : TypeId → Extent} {fields : List Field}
  (hsame : ∀ field ∈ fields, measure' field.type = measure field.type)
include hsame

theorem inOrder_congr (offset align : Nat) :
    inOrder measure' offset align fields =
      inOrder measure offset align fields := by
  induction fields generalizing offset align with
  | nil => rfl
  | cons field rest ih =>
      obtain ⟨hfield, hrest⟩ := List.forall_mem_cons.1 hsame
      simp only [inOrder, hfield, ih hrest]

theorem overlaid_congr (size align : Nat) :
    overlaid measure' size align fields =
      overlaid measure size align fields := by
  induction fields generalizing size align with
  | nil => rfl
  | cons field rest ih =>
      obtain ⟨hfield, hrest⟩ := List.forall_mem_cons.1 hsame
      simp only [overlaid, hfield, ih hrest]

theorem ofFields_congr (kind : StructKind) :
    ofFields measure' kind fields = ofFields measure kind fields := by
  cases kind with
  | classKind => exact inOrder_congr hsame 0 1
  | unionKind => exact overlaid_congr hsame 0 1
  | enumKind => rfl

end Measures

theorem ofFields_placed (measure : TypeId → Extent) (kind : StructKind)
    (fields : List Field) :
    ofFields measure kind (ofFields measure kind fields).1 =
      ofFields measure kind fields := by
  have hordered : ∀ (offset align : Nat) (fields : List Field),
      inOrder measure offset align (inOrder measure offset align fields).1 =
        inOrder measure offset align fields := by
    intro offset align fields
    induction fields generalizing offset align with
    | nil => rfl
    | cons field rest ih => simp only [inOrder, ih]
  have hoverlaid : ∀ (size align : Nat) (fields : List Field),
      overlaid measure size align (overlaid measure size align fields).1 =
        overlaid measure size align fields := by
    intro size align fields
    induction fields generalizing size align with
    | nil => rfl
    | cons field rest ih => simp only [overlaid, ih]
  cases kind with
  | classKind => exact hordered 0 1 fields
  | unionKind => exact hoverlaid 0 1 fields
  | enumKind => rfl

theorem ofFields_aligned (measure : TypeId → Extent) (kind : StructKind)
    (fields : List Field) : 0 < (ofFields measure kind fields).2.align := by
  have hordered : ∀ (offset align : Nat) (fields : List Field),
      align ≤ (inOrder measure offset align fields).2.align := by
    intro offset align fields
    induction fields generalizing offset align with
    | nil => exact Nat.le_refl align
    | cons field rest ih => exact Nat.le_trans (Nat.le_max_left ..) (ih ..)
  have hoverlaid : ∀ (size align : Nat) (fields : List Field),
      align ≤ (overlaid measure size align fields).2.align := by
    intro size align fields
    induction fields generalizing size align with
    | nil => exact Nat.le_refl align
    | cons field rest ih => exact Nat.le_trans (Nat.le_max_left ..) (ih ..)
  cases kind with
  | classKind => exact hordered 0 1 fields
  | unionKind => exact hoverlaid 0 1 fields
  | enumKind => exact Nat.succ_pos 3

/-! ## Ranges of fields -/

namespace Consecutive

variable {low last : Nat} {fields : List Field}

theorem low_le (h : Consecutive measure low fields last) : low ≤ last := by
  induction h with
  | nil low => exact Nat.le_refl low
  | cons hfirst hrest ih =>
      have habove := hfirst.above
      omega

theorem bounds (h : Consecutive measure low fields last) {field : Field}
    (hfield : field ∈ fields) :
    low ≤ field.offset ∧ field.offset + (measure field.type).size ≤ last := by
  induction h with
  | nil low => simp at hfield
  | cons hfirst hrest ih =>
      have habove := hfirst.above
      have hlast := hrest.low_le
      rcases List.mem_cons.1 hfield with rfl | hmem
      · omega
      · have hbounds := ih hmem
        omega

theorem ordered (h : Consecutive measure low fields last) :
    fields.Pairwise fun f g => f.offset + (measure f.type).size ≤ g.offset := by
  induction h with
  | nil low => exact .nil
  | cons hfirst hrest ih =>
      exact .cons (fun other hother => (hrest.bounds hother).1) ih

end Consecutive

theorem ClassLayout.inside {fields : List Field} {whole : Extent}
    (h : ClassLayout measure fields whole) {field : Field}
    (hfield : field ∈ fields) :
    field.offset + (measure field.type).size ≤ whole.size := by
  obtain ⟨last, hplaced, hsize⟩ := h.placed
  have hbounds := hplaced.bounds hfield
  have habove := hsize.above
  omega

theorem UnionLayout.inside {fields : List Field} {whole : Extent}
    (h : UnionLayout measure fields whole) {field : Field}
    (hfield : field ∈ fields) :
    field.offset + (measure field.type).size ≤ whole.size := by
  have hoffset := h.offset field hfield
  have hbulk : (measure field.type).size ≤ bulk measure 0 fields :=
    le_largest_of_mem (fun id => (measure id).size) 0 hfield
  have habove := h.size.above
  omega

theorem ClassLayout.ordered {fields : List Field} {whole : Extent}
    (h : ClassLayout measure fields whole) :
    fields.Pairwise fun f g => f.offset + (measure f.type).size ≤ g.offset := by
  obtain ⟨last, hplaced, -⟩ := h.placed
  exact hplaced.ordered

/-! ## Layouts over other measures -/

section Congr

variable {measure' : TypeId → Extent} {fields : List Field} {whole : Extent}

theorem Consecutive.congr {low last : Nat}
    (h : Consecutive measure low fields last)
    (hsame : ∀ field ∈ fields, measure' field.type = measure field.type) :
    Consecutive measure' low fields last := by
  induction h with
  | nil low => exact .nil low
  | cons hfirst hrest ih =>
      rename_i field rest
      have hfield := hsame field List.mem_cons_self
      refine .cons (by rw [hfield]; exact hfirst) ?_
      rw [hfield]
      exact ih fun other hother =>
        hsame other (List.mem_cons_of_mem field hother)

theorem ClassLayout.congr (h : ClassLayout measure fields whole)
    (hsame : ∀ field ∈ fields, measure' field.type = measure field.type) :
    ClassLayout measure' fields whole := by
  obtain ⟨last, hplaced, hsize⟩ := h.placed
  refine ⟨?_, last, hplaced.congr hsame, hsize⟩
  rw [h.align]
  exact (alignment_congr 1 rfl hsame).symm

theorem UnionLayout.congr (h : UnionLayout measure fields whole)
    (hsame : ∀ field ∈ fields, measure' field.type = measure field.type) :
    UnionLayout measure' fields whole := by
  refine ⟨?_, h.offset, by rw [bulk_congr 0 rfl hsame]; exact h.size⟩
  rw [h.align]
  exact (alignment_congr 1 rfl hsame).symm

end Congr

end Layout

/-! ## Regular extents -/

structure Extent.Regular (e : Extent) : Prop where
  align : e.align = 1 ∨ e.align = 2 ∨ e.align = 4 ∨ e.align = 8
  multiple : e.align ∣ e.size

namespace Layout

variable {measure : TypeId → Extent}

theorem alignment_regular {fields : List Field} {align : Nat}
    (halign : align = 1 ∨ align = 2 ∨ align = 4 ∨ align = 8)
    (hfields : ∀ field ∈ fields, (measure field.type).Regular) :
    let whole := alignment measure align fields
    whole = 1 ∨ whole = 2 ∨ whole = 4 ∨ whole = 8 := by
  unfold alignment largest
  induction fields generalizing align with
  | nil => exact halign
  | cons field rest ih =>
      have hfield := (hfields field List.mem_cons_self).align
      rw [List.foldl_cons]
      apply ih
      · dsimp only
        omega
      · intro other hother
        exact hfields other (List.mem_cons_of_mem field hother)

theorem ClassLayout.regular {fields : List Field} {whole : Extent}
    (h : ClassLayout measure fields whole)
    (hfields : ∀ field ∈ fields, (measure field.type).Regular) :
    whole.Regular := by
  obtain ⟨last, -, hsize⟩ := h.placed
  refine ⟨?_, hsize.multiple⟩
  rw [h.align]
  exact alignment_regular (Or.inl rfl) hfields

theorem UnionLayout.regular {fields : List Field} {whole : Extent}
    (h : UnionLayout measure fields whole)
    (hfields : ∀ field ∈ fields, (measure field.type).Regular) :
    whole.Regular := by
  refine ⟨?_, h.size.multiple⟩
  rw [h.align]
  exact alignment_regular (Or.inl rfl) hfields

end Layout

end ArenaScript
