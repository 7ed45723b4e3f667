import ArenaScript.Proofs.Types.Extents

/-!
# Layouts in words

The size of an array is multiplied with care: an array that would not fit in the
address space is refused.  The fields of a class are added up without such care.
All alignments divide the number of words, so rounding a wrapped offset is as
good as wrapping the rounded one; hence every offset and every size is the exact
one modulo that number.  All of them are the exact ones if, and only if, the
exact size is a word, and then no step on the way has been cut.
-/

namespace ArenaScript

def Word.IsAlignment (n : Nat) : Prop := n = 1 ∨ n = 2 ∨ n = 4 ∨ n = 8

theorem Word.IsAlignment.dvd {n : Nat} (h : IsAlignment n) :
    n ∣ Word.modulus := by
  rcases h with rfl | rfl | rfl | rfl <;> decide

namespace Layout

/-! ## Exact places and the sums on the way -/

section Exact

variable (measure : TypeId → Extent)

def starts (low : Nat) : List Field → List Nat
  | [] => []
  | field :: rest =>
      let start := roundUp low (measure field.type).align
      start :: starts (start + (measure field.type).size) rest

def exactOffsets : StructKind → List Field → List Nat
  | .classKind, fields => starts measure 0 fields
  | .unionKind, fields => fields.map fun _ => 0
  | .enumKind, fields => fields.map Field.offset

/-- What the roundings and additions of `inOrder` give before they are cut to
words. -/
def sumsInOrder (offset align : Nat) : List Field → List Nat
  | [] => [roundUp offset align]
  | field :: rest =>
      let extent := measure field.type
      let start := Word.roundUp offset extent.align
      roundUp offset extent.align :: (start + extent.size) ::
        sumsInOrder (Word.add start extent.size) (max align extent.align) rest

def sums : StructKind → List Field → List Nat
  | .classKind, fields => sumsInOrder measure 0 1 fields
  | .unionKind, fields =>
      [roundUp (bulk measure 0 fields) (alignment measure 1 fields)]
  | .enumKind, _ => []

end Exact

variable {measure : TypeId → Extent}

theorem roundUp_mod (n : Nat) {step : Nat} (hstep : step ∣ Word.modulus) :
    Word.roundUp (n % Word.modulus) step = roundUp n step % Word.modulus := by
  have hmod : n % Word.modulus % step = n % step := Nat.mod_mod_of_dvd n hstep
  unfold Word.roundUp roundUp
  rw [hmod]
  split
  · rfl
  · rw [Word.add, Word.wrap_eq_mod, Nat.mod_add_mod]

theorem largest_eq (of : TypeId → Nat) (fields : List Field) (start : Nat) :
    largest of start fields = start ∨ ∃ field ∈ fields,
      largest of start fields = of field.type := by
  induction fields generalizing start with
  | nil => exact Or.inl rfl
  | cons field rest ih =>
      rcases ih (max start (of field.type)) with h | ⟨other, hother, h⟩
      · rcases Nat.le_total start (of field.type) with hle | hle
        · refine Or.inr
            ⟨field, List.mem_cons_self, h.trans (Nat.max_eq_right hle)⟩
        · exact Or.inl (h.trans (Nat.max_eq_left hle))
      · exact Or.inr ⟨other, List.mem_cons_of_mem field hother, h⟩

theorem isAlignment_alignment {fields : List Field}
    (haligned : ∀ field ∈ fields, Word.IsAlignment (measure field.type).align) :
    Word.IsAlignment (alignment measure 1 fields) := by
  unfold alignment
  rcases largest_eq (fun type => (measure type).align) fields 1 with h |
    ⟨field, hfield, h⟩
  · exact Or.inl h
  · rw [h]
    exact haligned field hfield

theorem bulk_lt {fields : List Field}
    (hsizes : ∀ field ∈ fields, (measure field.type).size < Word.modulus) :
    bulk measure 0 fields < Word.modulus := by
  unfold bulk
  rcases largest_eq (fun type => (measure type).size) fields 0 with h |
    ⟨field, hfield, h⟩
  · rw [h]
    decide
  · rw [h]
    exact hsizes field hfield

/-- A class in words is the exact class modulo the number of words. -/
theorem inOrder_mod {fields : List Field} {align : Nat} (low : Nat)
    (haligned : ∀ field ∈ fields, Word.IsAlignment (measure field.type).align)
    (hwhole : alignment measure align fields ∣ Word.modulus) :
    (inOrder measure (low % Word.modulus) align fields).1.map Field.offset =
        (starts measure low fields).map (· % Word.modulus) ∧
      (inOrder measure (low % Word.modulus) align fields).2 =
        ⟨roundUp (finish measure low fields) (alignment measure align fields) %
          Word.modulus,
          alignment measure align fields⟩ := by
  induction fields generalizing low align with
  | nil => exact ⟨rfl, congrArg (Extent.mk · align) (roundUp_mod low hwhole)⟩
  | cons field rest ih =>
      have hstart := roundUp_mod low (haligned field List.mem_cons_self).dvd
      have hnext :
          Word.add (roundUp low (measure field.type).align % Word.modulus)
          (measure field.type).size =
          (roundUp low (measure field.type).align + (measure field.type).size) %
            Word.modulus := by
        rw [Word.add, Word.wrap_eq_mod, Nat.mod_add_mod]
      obtain ⟨hoffsets, hextent⟩ :=
        ih (roundUp low (measure field.type).align + (measure field.type).size)
          (fun other hother =>
            haligned other (List.mem_cons_of_mem field hother)) hwhole
      simp only [inOrder, hstart, hnext]
      refine ⟨?_, hextent⟩
      simp only [List.map_cons, hoffsets, starts]

theorem overlaid_mod {fields : List Field} {size align : Nat}
    (hbulk : bulk measure size fields < Word.modulus)
    (hwhole : alignment measure align fields ∣ Word.modulus) :
    (overlaid measure size align fields).1.map Field.offset =
      fields.map (fun _ => 0) ∧
      (overlaid measure size align fields).2 =
        ⟨roundUp (bulk measure size fields) (alignment measure align fields) %
          Word.modulus,
          alignment measure align fields⟩ := by
  induction fields generalizing size align with
  | nil =>
      have hround := roundUp_mod size hwhole
      rw [show size % Word.modulus = size from Nat.mod_eq_of_lt hbulk] at hround
      exact ⟨rfl, congrArg (Extent.mk · align) hround⟩
  | cons field rest ih =>
      obtain ⟨hoffsets, hextent⟩ := ih hbulk hwhole
      simp only [overlaid]
      exact ⟨by simp only [List.map_cons, hoffsets], hextent⟩

theorem sumsInOrder_lt_iff {fields : List Field} {low align : Nat} :
    (∀ n ∈ sumsInOrder measure low align fields, n < Word.modulus) ↔
      roundUp (finish measure low fields) (alignment measure align fields) <
        Word.modulus := by
  induction fields generalizing low align with
  | nil => simp [sumsInOrder, finish, alignment, largest]
  | cons field rest ih =>
      have hend : roundUp low (measure field.type).align +
          (measure field.type).size ≤
          finish measure low (field :: rest) := le_finish rest _
      have hlast := le_roundUp (finish measure low (field :: rest))
        (alignment measure align (field :: rest))
      simp only [sumsInOrder, List.forall_mem_cons]
      constructor
      · rintro ⟨hstart, hnext, hrest⟩
        rw [roundUp_word hstart] at hnext hrest
        rw [Word.add_of_lt hnext] at hrest
        exact ih.1 hrest
      · intro hfits
        have hstart : roundUp low (measure field.type).align <
            Word.modulus := by omega
        have hnext : roundUp low (measure field.type).align +
            (measure field.type).size <
            Word.modulus := by omega
        rw [roundUp_word hstart, Word.add_of_lt hnext]
        exact ⟨hstart, hnext, ih.2 hfits⟩

theorem sums_lt_iff {kind : StructKind} {fields : List Field} :
    (∀ n ∈ sums measure kind fields, n < Word.modulus) ↔
      exactSize measure kind fields < Word.modulus := by
  cases kind with
  | classKind => exact sumsInOrder_lt_iff
  | unionKind => simp [sums, exactSize]
  | enumKind =>
      exact ⟨fun _ => (by decide : 4 < Word.modulus), fun _ n h =>
        absurd h List.not_mem_nil⟩

theorem starts_le_finish {fields : List Field} {low : Nat} :
    ∀ n ∈ starts measure low fields, n ≤ finish measure low fields := by
  induction fields generalizing low with
  | nil => exact fun n hn => absurd hn List.not_mem_nil
  | cons field rest ih =>
      intro n hn
      rcases List.mem_cons.1 hn with rfl | hrest
      · exact Nat.le_trans (Nat.le_add_right _ _) (le_finish rest _)
      · exact ih n hrest

theorem exactOffsets_le {kind : StructKind} {fields : List Field}
    (hkind : kind ≠ .enumKind) :
    ∀ n ∈ exactOffsets measure kind fields,
      n ≤ exactSize measure kind fields := by
  cases kind with
  | classKind =>
      exact fun n hn => Nat.le_trans (starts_le_finish n hn) (le_roundUp _ _)
  | unionKind =>
      intro n hn
      obtain ⟨-, -, rfl⟩ := List.mem_map.1 hn
      exact Nat.zero_le _
  | enumKind => exact absurd rfl hkind

structure InWords (measure : TypeId → Extent) (kind : StructKind)
    (fields : List Field) (body : Structural) (size : Nat) : Prop where
  same : body.kind = kind
  done : body.complete = true
  declared : body.fields.map Field.declared = fields.map Field.declared
  aligned : body.align = alignment measure 1 fields
  placed : body.fields.map Field.offset =
    (exactOffsets measure kind fields).map (· % Word.modulus)
  whole : size = exactSize measure kind fields % Word.modulus
  /-- No step exceeds a word if, and only if, the exact size does not. -/
  bounded : (∀ n ∈ sums measure kind fields, n < Word.modulus) ↔
    exactSize measure kind fields < Word.modulus
  exact : exactSize measure kind fields < Word.modulus →
    body.fields.map Field.offset = exactOffsets measure kind fields ∧
      (∀ n ∈ exactOffsets measure kind fields, n < Word.modulus) ∧
      size = exactSize measure kind fields ∧
      (Shape.structural body).Measured measure ⟨size, body.align⟩

theorem inWords {body : Structural} {fields : List Field}
    (variants : List (String × Int64)) (hkind : body.kind ≠ .enumKind)
    (haligned : ∀ field ∈ fields, Word.IsAlignment (measure field.type).align)
    (hsizes : ∀ field ∈ fields, (measure field.type).size < Word.modulus) :
    let placed := ofFields measure body.kind fields
    InWords measure body.kind fields
      { body with
        fields := placed.1, variants, align := placed.2.align,
        complete := true }
      placed.2.size := by
  have hwhole : alignment measure 1 fields ∣ Word.modulus :=
    (isAlignment_alignment haligned).dvd
  -- Alignments divide the modulus, so that rounding up may be done before or
  -- after wrapping.
  have hmod : (ofFields measure body.kind fields).1.map Field.offset =
        (exactOffsets measure body.kind fields).map (· % Word.modulus) ∧
      (ofFields measure body.kind fields).2 =
        ⟨exactSize measure body.kind fields % Word.modulus,
          alignment measure 1 fields⟩ := by
    cases hbody : body.kind with
    | classKind => exact inOrder_mod 0 haligned hwhole
    | unionKind =>
        obtain ⟨hoffsets, hextent⟩ := overlaid_mod (bulk_lt hsizes) hwhole
        refine ⟨?_, hextent⟩
        rw [exactOffsets, List.map_map]
        exact hoffsets
    | enumKind => exact absurd hbody hkind
  have hpositive : ∀ field ∈ fields, 0 < (measure field.type).align := by
    intro field hfield
    rcases haligned field hfield with h | h | h | h <;> omega
  refine ⟨rfl, rfl, declared_ofFields measure body.kind fields,
    congrArg Extent.align hmod.2,
    hmod.1, congrArg Extent.size hmod.2, sums_lt_iff, fun hfits => ?_⟩
  have hoffsets : ∀ n ∈ exactOffsets measure body.kind fields,
      n < Word.modulus :=
    fun n hn => Nat.lt_of_le_of_lt (exactOffsets_le hkind n hn) hfits
  refine ⟨?_, hoffsets, ?_, ?_⟩
  · rw [hmod.1]
    refine (List.map_congr_left fun n hn => ?_).trans (List.map_id _)
    exact Nat.mod_eq_of_lt (hoffsets n hn)
  · rw [hmod.2]
    exact Nat.mod_eq_of_lt hfits
  · cases hbody : body.kind with
    | classKind =>
        rw [hbody] at hfits
        exact .classType rfl (classLayout hpositive hfits)
    | unionKind =>
        rw [hbody] at hfits
        exact .unionType rfl (unionLayout hfits)
    | enumKind => exact absurd hbody hkind

end Layout

/-! ## Tables -/

structure TypeTable.Wordly (t : TypeTable) : Prop where
  sizes : ∀ id, t.sizeOf id < Word.modulus
  bodies : ∀ id body, (t.get id).shape = .structural body →
    body.complete = true →
    Word.IsAlignment body.align
  elements : ∀ id elem len, (t.get id).array? = some (elem, len) →
    t.Has elem ∧ (t.get elem).isComplete = true

namespace TypeTable

variable {t u : TypeTable}

theorem findOrCreate_created {scopes scopes' : ScopeTable} {kind : TemplateKind}
    {args : List TemplateArg} {id : TypeId}
    (h : t.findOrCreate scopes kind args = .ok ((id, true), u, scopes')) :
    id = ⟨t.size⟩ ∧ ∃ e : TypeEntry,
      t.instanceSize kind args = .ok (e.size, e.aggregate) ∧
      u = (t.push e).2 := by
  unfold findOrCreate at h
  simp only at h
  split at h
  · cases h
  · split at h
    · cases h
    · rename_i hsize
      cases h
      exact ⟨rfl, _, hsize, rfl⟩

namespace Wordly

theorem aligned (ht : t.Wordly) {id : TypeId}
    (hcomplete : (t.get id).isComplete = true) :
    Word.IsAlignment (t.extentOf id).align := by
  have hrounds : ∀ (rounds : Nat) (id : TypeId), (t.get id).isComplete = true →
      Word.IsAlignment (t.alignFrom id rounds) := by
    intro rounds
    induction rounds with
    | zero => exact fun _ _ => Or.inl rfl
    | succ rounds ih =>
        intro id hcomplete
        rw [alignFrom]
        cases hshape : (t.get id).shape with
        | core kind => cases kind <;> simp [Word.IsAlignment, CoreKind.size]
        | callable kind => simp [Word.IsAlignment]
        | structural body =>
            refine ht.bodies id body hshape ?_
            simpa only [TypeEntry.isComplete, hshape] using hcomplete
        | template kind args =>
            cases harray : (t.get id).array? with
            | none => simp [Word.IsAlignment]
            | some parts =>
                exact ih parts.1 (ht.elements id parts.1 parts.2 harray).2
  exact hrounds _ id hcomplete

theorem push {e : TypeEntry} (ht : t.Wordly) (hsize : e.size < Word.modulus)
    (hbody : ∀ body, e.shape = .structural body → body.complete = false)
    (harray : ∀ elem len, e.array? = some (elem, len) →
      t.Has elem ∧ (t.get elem).isComplete = true) : (t.push e).2.Wordly := by
  have hkept : ∀ elem, t.Has elem ∧ (t.get elem).isComplete = true →
      (t.push e).2.Has elem ∧ ((t.push e).2.get elem).isComplete = true := by
    rintro elem ⟨hhas, hcomplete⟩
    rw [get_push_old hhas]
    exact ⟨has_push.2 (Or.inl hhas), hcomplete⟩
  constructor
  · intro id
    rw [sizeOf, get_push]
    split
    · exact hsize
    · exact ht.sizes id
  · intro id body hshape hcomplete
    rw [get_push] at hshape
    split at hshape
    · rw [hbody body hshape] at hcomplete
      cases hcomplete
    · exact ht.bodies id body hshape hcomplete
  · intro id elem len h
    rw [get_push] at h
    split at h
    · exact hkept elem (harray elem len h)
    · exact hkept elem (ht.elements id elem len h)

theorem builtin (scopes : ScopeTable) : (builtin scopes).1.Wordly := by
  have hentries : ∀ (entries : List (String × Shape × Nat)) (t : TypeTable)
      (scopes : ScopeTable),
      (∀ entry ∈ entries, entry.2.2 < Word.modulus ∧
        (∀ body, entry.2.1 ≠ .structural body) ∧ ∀ kind args,
          entry.2.1 ≠ .template kind args) →
      t.Wordly → (entries.foldl addEntry (t, scopes)).1.Wordly := by
    intro entries
    induction entries with
    | nil => exact fun _ _ _ ht => ht
    | cons entry rest ih =>
        intro t scopes hentries ht
        obtain ⟨⟨hsize, hbody, htemplate⟩, hrest⟩ :=
          List.forall_mem_cons.1 hentries
        rw [List.foldl_cons]
        refine ih _ _ hrest
          (ht.push hsize (fun body h => absurd h (hbody body)) ?_)
        intro elem len h
        obtain ⟨n, hshape⟩ := TypeEntry.array?_eq_some h
        exact absurd hshape (htemplate _ _)
  rw [builtin_eq]
  apply hentries
  · intro entry hentry
    simp only [builtins, List.mem_append, List.mem_map] at hentry
    rcases hentry with ⟨k, -, rfl⟩ | ⟨k, -, rfl⟩
    · refine ⟨?_, by simp, by simp⟩
      cases k <;> decide
    · refine ⟨?_, by simp, by simp⟩
      cases k <;> decide
  · have hnone : ∀ id, (⟨#[]⟩ : TypeTable).get id = default :=
      fun id => get_of_not_has (by simp [Has, size])
    constructor
    · intro id
      rw [sizeOf, hnone]
      decide
    · intro id body hshape
      rw [hnone] at hshape
      cases hshape
    · intro id elem len harray
      rw [hnone] at harray
      cases harray

theorem register {name : String} {body : Structural} {members : ScopeId}
    {id : TypeId} (ht : t.Wordly) (hbody : body.complete = false)
    (h : t.register name body members = .ok (id, u)) : u.Wordly := by
  unfold TypeTable.register at h
  split at h
  · cases h
  · cases h
    refine ht.push (Nat.zero_lt_succ _) ?_ ?_
    · rintro body' hshape
      cases hshape
      exact hbody
    · intro elem len harray
      cases harray

/-- The size of an instance is exact, or there is no instance. -/
theorem instanceSize_lt {kind : TemplateKind} {args : List TemplateArg}
    {size : Nat} {aggregate : Bool}
    (h : t.instanceSize kind args = .ok (size, aggregate)) :
    size < Word.modulus := by
  unfold instanceSize at h
  simp only at h
  split at h
  · split at h <;> cases h
    decide
  · cases h
    decide
  · split at h <;> cases h
    rename_i hsized
    simp only [Bool.and_eq_true, decide_eq_true_eq] at hsized
    exact hsized.1.2
  · cases h

theorem findOrCreate {scopes scopes' : ScopeTable} {kind : TemplateKind}
    {args : List TemplateArg} {result : TypeId × Bool} (ht : t.Wordly)
    (hargs : t.HasArgs args)
    (h : t.findOrCreate scopes kind args = .ok (result, u, scopes')) :
    u.Wordly := by
  rcases findOrCreate_push h with rfl | ⟨e, hshape, hsize, rfl⟩
  · exact ht
  · refine ht.push (instanceSize_lt hsize) ?_ ?_
    · intro body hbody
      rw [hshape] at hbody
      cases hbody
    · intro elem len harray
      apply (instanceSize_measured hargs hsize).1
      rw [← hshape]
      exact TypeEntry.mem_parts_of_array harray

theorem complete_inWords {id : TypeId} {body : Structural} {fields : List Field}
    (ht : t.Wordly) (hid : t.Has id)
    (hshape : (t.get id).shape = .structural body)
    (hkind : body.kind ≠ .enumKind)
    (hsized : ∀ field ∈ fields, t.isSized field.type = true)
    (variants : List (String × Int64)) :
    ∃ u, t.complete id fields variants = .ok u ∧ ∃ done,
      (u.get id).shape = .structural done ∧
        Layout.InWords t.extentOf body.kind fields done (u.sizeOf id) := by
  have hnone : (fields.find? fun field => !t.isSized field.type) = none := by
    rw [List.find?_eq_none]
    intro field hfield
    simp [hsized field hfield]
  obtain ⟨u, hu⟩ : ∃ u, t.complete id fields variants = .ok u := by
    simp only [TypeTable.complete, hshape, hnone]
    exact ⟨_, rfl⟩
  obtain ⟨body', hsame, -, -, hentry, -⟩ := complete_eq_ok hid hu
  cases hshape.symm.trans hsame
  refine ⟨u, hu, _, congrArg TypeEntry.shape hentry, ?_⟩
  rw [sizeOf, hentry]
  refine Layout.inWords variants hkind (fun field hfield => ?_) fun field _ =>
    ht.sizes field.type
  have hfield := hsized field hfield
  simp only [isSized, Bool.and_eq_true] at hfield
  exact ht.aligned hfield.1

theorem complete {id : TypeId} {fields : List Field}
    {variants : List (String × Int64)} (ht : t.Wordly) (hid : t.Has id)
    (h : t.complete id fields variants = .ok u) : u.Wordly := by
  obtain ⟨body, hshape, hparts, hsize, hentry, hothers⟩ := complete_eq_ok hid h
  have hkept : ∀ elem, t.Has elem ∧ (t.get elem).isComplete = true →
      u.Has elem ∧ (u.get elem).isComplete = true := by
    rintro elem ⟨hhas, hcomplete⟩
    refine ⟨by simpa [Has, hsize] using hhas, ?_⟩
    by_cases hsame : elem = id
    · rw [hsame, hentry]
      rfl
    · rw [hothers elem hsame]
      exact hcomplete
  have hextent : (t.completed id body fields variants).size < Word.modulus ∧
      Word.IsAlignment (Layout.ofFields t.extentOf body.kind
        fields).2.align := by
    by_cases hkind : body.kind = .enumKind
    · simp only [completed, hkind, Layout.ofFields]
      exact ⟨by decide, Or.inr (Or.inr (Or.inl rfl))⟩
    · have haligned : ∀ field ∈ fields,
          Word.IsAlignment (t.extentOf field.type).align :=
        fun field hfield => ht.aligned (hparts field hfield)
      have hwords := Layout.inWords variants hkind haligned
        fun field _ => ht.sizes field.type
      refine ⟨?_, ?_⟩
      · rw [completed, hwords.whole]
        exact Nat.mod_lt _ (by decide)
      · have hwhole := Layout.isAlignment_alignment haligned
        rwa [← hwords.aligned] at hwhole
  constructor
  · intro other
    by_cases hsame : other = id
    · rw [sizeOf, hsame, hentry]
      exact hextent.1
    · rw [sizeOf, hothers other hsame]
      exact ht.sizes other
  · intro other body' hshape' hcomplete
    by_cases hsame : other = id
    · rw [hsame, hentry] at hshape'
      cases hshape'
      exact hextent.2
    · rw [hothers other hsame] at hshape'
      exact ht.bodies other body' hshape' hcomplete
  · intro other elem len harray
    by_cases hsame : other = id
    · rw [hsame, hentry] at harray
      cases harray
    · rw [hothers other hsame] at harray
      exact hkept elem (ht.elements other elem len harray)

end Wordly

end TypeTable

/-! ## Histories -/

namespace Registry

variable {hash : String → UInt64} {r : Registry}

def Operation.RegistersShells : Operation → Prop
  | .register _ body _ => body.IsShell
  | _ => True

inductive Evolves (hash : String → UInt64) (r : Registry) : Registry → Prop
  | refl : Evolves hash r r
  | step {s : Registry} (op : Operation) (h : Evolves hash r s)
      (hop : op.Valid s.types) (hshell : op.RegistersShells) :
      Evolves hash r (op.after hash s)

theorem onTables_wordly {t u : TypeTable} {scopes scopes' : ScopeTable}
    {op : Operation} {answer : Answer} (ht : t.Wordly) (hop : op.Valid t)
    (hshell : op.RegistersShells)
    (h : op.onTables t scopes = .ok (answer, u, scopes')) : u.Wordly := by
  cases op with
  | findOrCreate kind args =>
      obtain ⟨⟨result, v, w⟩, hcreate, heq⟩ := map_eq_ok h
      cases heq
      exact ht.findOrCreate hop hcreate
  | register name body members =>
      obtain ⟨⟨id, v⟩, hregister, heq⟩ := map_eq_ok h
      cases heq
      exact ht.register hshell.1 hregister
  | complete id fields variants =>
      obtain ⟨v, hcomplete, heq⟩ := map_eq_ok h
      cases heq
      exact ht.complete hop.1 hcomplete
  | referenceTo target =>
      obtain ⟨⟨result, v, w⟩, hcreate, heq⟩ := map_eq_ok h
      cases heq
      exact ht.findOrCreate (hasArgs_single hop) hcreate
  | addressOf target =>
      obtain ⟨⟨result, v, w⟩, hcreate, heq⟩ := map_eq_ok h
      cases heq
      exact ht.findOrCreate (hasArgs_single hop) hcreate

theorem Evolves.wordly {scopes : ScopeTable}
    (h : Evolves hash (new hash scopes) r) : r.Sound hash ∧ r.types.Wordly := by
  induction h with
  | refl =>
      refine ⟨new_sound hash scopes, ?_⟩
      rw [new_eq]
      exact .builtin scopes
  | step op h hop hshell ih =>
      rename_i s
      obtain ⟨hs, hwordly⟩ := ih
      refine ⟨(hs.after hop).1, ?_⟩
      rw [Operation.after, hs.perform_eq]
      cases htables : op.onTables s.types s.scopes with
      | error e => exact hwordly
      | ok result => exact onTables_wordly hwordly hop hshell htables

theorem Evolves.complete {scopes : ScopeTable}
    (h : Evolves hash (new hash scopes) r) {id : TypeId} {body : Structural}
    {fields : List Field} {variants : List (String × Int64)}
    (hop : (Operation.complete id fields variants).Valid r.types)
    (hshape : (r.types.get id).shape = .structural body)
    (hkind : body.kind ≠ .enumKind)
    (hsized : ∀ field ∈ fields, r.types.isSized field.type = true) :
    ∃ s done, (Operation.complete id fields variants).perform hash r =
      .ok .done s ∧
      (s.types.get id).shape = .structural done ∧
      Layout.InWords r.types.extentOf body.kind fields done
        (s.types.sizeOf id) := by
  obtain ⟨hr, hwordly⟩ := h.wordly
  obtain ⟨u, hcomplete, done, hdone, hlayout⟩ :=
    hwordly.complete_inWords hop.1 hshape hkind hsized variants
  refine ⟨indexed hash u r.scopes, done, ?_, hdone, hlayout⟩
  rw [hr.perform_eq, Operation.onTables, hcomplete]
  rfl

/-- The fields of a class or union can always be laid out in words, and an array
is as large as its elements or refused. -/
theorem layout_in_words (hash : String → UInt64) (scopes : ScopeTable)
    (r : Registry) (h : Evolves hash (new hash scopes) r) :
    (∀ id body fields variants,
      (Operation.complete id fields variants).Valid r.types →
      (r.types.get id).shape = .structural body → body.kind ≠ .enumKind →
      (∀ field ∈ fields, r.types.isSized field.type = true) →
        ∃ s done, (Operation.complete id fields variants).perform hash r =
          .ok .done s ∧
          (s.types.get id).shape = .structural done ∧
          Layout.InWords r.types.extentOf body.kind fields done
            (s.types.sizeOf id)) ∧
    ∀ elem len id s, r.types.Has elem →
      (Operation.findOrCreate .array [.type elem, .int len]).perform hash r =
        .ok (.interned id true) s →
      s.types.sizeOf id = len.toInt.toNat * r.types.sizeOf elem ∧
        s.types.sizeOf id < Word.modulus := by
  refine ⟨fun id body fields variants => h.complete, ?_⟩
  intro elem len id s helem hperform
  rw [h.wordly.1.perform_eq] at hperform
  obtain ⟨u, scopes', htables, rfl⟩ := settle_eq_ok hperform
  obtain ⟨⟨⟨id', created⟩, v, w⟩, hcreate, heq⟩ := map_eq_ok htables
  cases heq
  obtain ⟨rfl, e, hsize, rfl⟩ := TypeTable.findOrCreate_created hcreate
  rw [indexed_types, TypeTable.sizeOf, TypeTable.get_push_new]
  have hargs : r.types.HasArgs [.type elem, .int len] := by
    intro id hid
    obtain rfl : id = elem := by simpa using hid
    exact helem
  obtain ⟨-, hmeasured⟩ := TypeTable.instanceSize_measured hargs hsize
  exact ⟨congrArg Extent.size hmeasured.arrayExtent.2,
    TypeTable.Wordly.instanceSize_lt hsize⟩

theorem layout_in_words_paired :
    let fields : List Field :=
      [⟨"first", .bool, 0, none⟩, ⟨"second", .int64, 0, none⟩]
    Evolves (fun _ => 0) (new (fun _ => 0) .empty) shellOnly ∧
      (∃ s done,
        (Operation.complete ⟨15⟩ fields []).perform (fun _ => 0) shellOnly =
          .ok .done s ∧
        (s.types.get ⟨15⟩).shape = .structural done ∧
        Layout.InWords shellOnly.types.extentOf .classKind fields done
          (s.types.sizeOf ⟨15⟩)) ∧
      Layout.exactSize shellOnly.types.extentOf .classKind fields = 16 ∧
      Layout.exactOffsets shellOnly.types.extentOf .classKind fields =
        [0, 8] := by
  intro fields
  have hevolves : Evolves (fun _ => 0) (new (fun _ => 0) .empty) shellOnly :=
    .step _ .refl trivial ⟨rfl, rfl⟩
  have hvalid : (Operation.complete ⟨15⟩ fields []).Valid shellOnly.types := by
    simp only [Operation.Valid, fields, List.forall_mem_cons]
    exact ⟨by change (_ : Nat) < _; decide +kernel,
      by change (_ : Nat) < _; decide +kernel,
      by change (_ : Nat) < _; decide +kernel, nofun⟩
  have hsized : ∀ field ∈ fields, shellOnly.types.isSized field.type =
      true := by
    decide +kernel
  refine ⟨hevolves, ?_, by decide +kernel, by decide +kernel⟩
  exact (layout_in_words _ _ shellOnly hevolves).1 ⟨15⟩
    (.shell .classKind) fields [] hvalid rfl nofun hsized

def brimming : Registry :=
  (Operation.register "A" (.shell .classKind) ⟨0⟩).after (fun _ => 0) <|
    (Operation.findOrCreate .array
        [.type CoreKind.uint8.typeId, .int 9223372036854775807]).after
          (fun _ => 0) <| new (fun _ => 0) .empty

/-- Two of the arrays and two bytes need one byte more than the largest word
tells: the class is completed all the same, and its size is 0. -/
theorem layout_exceeds_words :
    let fields : List Field :=
      [⟨"a", ⟨15⟩, 0, none⟩, ⟨"b", ⟨15⟩, 0, none⟩,
        ⟨"c", CoreKind.uint8.typeId, 0, none⟩,
        ⟨"d", CoreKind.uint8.typeId, 0, none⟩]
    Evolves (fun _ => 0) (new (fun _ => 0) .empty) brimming ∧
      (Operation.complete ⟨16⟩ fields []).Valid brimming.types ∧
      (brimming.types.get ⟨16⟩).shape = .structural (.shell .classKind) ∧
      (∀ field ∈ fields, brimming.types.isSized field.type = true) ∧
      Layout.exactSize brimming.types.extentOf .classKind fields =
        Word.modulus ∧
      (¬ ∀ n ∈ Layout.sums brimming.types.extentOf .classKind fields,
        n < Word.modulus) ∧
      ∃ s, (Operation.complete ⟨16⟩ fields []).perform (fun _ => 0) brimming =
        .ok .done s ∧
        s.types.sizeOf ⟨16⟩ = 0 := by
  intro fields
  have hevolves : Evolves (fun _ => 0) (new (fun _ => 0) .empty) brimming := by
    refine .step _ (.step _ .refl ?_ trivial) trivial ⟨rfl, rfl⟩
    intro id hid
    obtain rfl : id = CoreKind.uint8.typeId := by simpa using hid
    change (_ : Nat) < _
    decide +kernel
  have hvalid : (Operation.complete ⟨16⟩ fields []).Valid brimming.types := by
    simp only [Operation.Valid, fields, List.forall_mem_cons]
    exact ⟨by change (_ : Nat) < _; decide +kernel,
      by change (_ : Nat) < _; decide +kernel,
      by change (_ : Nat) < _; decide +kernel, by
        change (_ : Nat) < _; decide +kernel,
      by change (_ : Nat) < _; decide +kernel, nofun⟩
  have hshape : (brimming.types.get ⟨16⟩).shape =
      .structural (.shell .classKind) := by rfl
  have hsized : ∀ field ∈ fields, brimming.types.isSized field.type = true := by
    decide +kernel
  have hexact : Layout.exactSize brimming.types.extentOf .classKind fields =
      Word.modulus := by
    decide +kernel
  obtain ⟨s, done, hperform, -, hlayout⟩ :=
    hevolves.complete hvalid hshape nofun hsized
  refine ⟨hevolves, hvalid, hshape, hsized, hexact, ?_, s, hperform, ?_⟩
  · exact fun hsums =>
      absurd (Layout.sums_lt_iff.1 hsums)
        (Nat.not_lt.2 (Nat.le_of_eq hexact.symm))
  · rw [hlayout.whole]
    exact hexact ▸ Nat.mod_self Word.modulus

end Registry

end ArenaScript
