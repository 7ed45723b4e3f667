import ArenaScript.Engine.Evaluator

/-!
# Paths of modules

A normal path is written in one way only: two normal paths that mean the same
are equal as texts.  Modules are looked for under normal paths, so the table
finds a module exactly if its path is in it.
-/

namespace ArenaScript

namespace Path

/-! ## Pieces -/

theorem separator_not_mem {separator : Char} {cs piece : List Char}
    (h : piece ∈ pieces separator cs) : separator ∉ piece := by
  induction cs generalizing piece with
  | nil =>
      obtain rfl := List.mem_singleton.1 h
      exact List.not_mem_nil
  | cons c rest ih =>
      unfold pieces at h
      split at h
      · rcases List.mem_cons.1 h with rfl | h
        · exact List.not_mem_nil
        · exact ih h
      · rename_i hc
        split at h
        · obtain rfl := List.mem_singleton.1 h
          simpa using Ne.symm hc
        · rename_i first others hrest
          have hfirst :
              separator ∉ first := ih (by rw [hrest]; exact List.mem_cons_self)
          rcases List.mem_cons.1 h with rfl | h
          · simpa using ⟨Ne.symm hc, hfirst⟩
          · exact ih (by rw [hrest]; exact List.mem_cons_of_mem first h)

theorem pieces_append {separator : Char} {piece : List Char} (rest : List Char)
    (h : separator ∉ piece) :
    pieces separator (piece ++ separator :: rest) =
      piece :: pieces separator rest := by
  induction piece with
  | nil => simp [pieces]
  | cons c cs ih =>
      rw [List.mem_cons, not_or] at h
      rw [List.cons_append, pieces, if_neg (Ne.symm h.1), ih h.2]

theorem pieces_of_not_mem {separator : Char} {piece : List Char}
    (h : separator ∉ piece) : pieces separator piece = [piece] := by
  induction piece with
  | nil => rfl
  | cons c cs ih =>
      rw [List.mem_cons, not_or] at h
      rw [pieces, if_neg (Ne.symm h.1), ih h.2]

theorem pieces_glue {separator : Char} {ps : List (List Char)} (hne : ps ≠ [])
    (h : ∀ p ∈ ps, separator ∉ p) :
    pieces separator (glue separator ps) = ps := by
  induction ps with
  | nil => exact absurd rfl hne
  | cons p rest ih =>
      obtain ⟨hp, hrest⟩ := List.forall_mem_cons.1 h
      cases rest with
      | nil => exact pieces_of_not_mem hp
      | cons q others =>
          rw [glue, pieces_append _ hp, ih (List.cons_ne_nil q others) hrest]
          exact List.cons_ne_nil q others

/-! ## Normal paths -/

structure IsName (text : String) : Prop where
  component : component? text = some (.name text)
  separator : '/' ∉ text.toList

theorem component?_eq_name {part text : String}
    (h : component? part = some (.name text)) : part = text := by
  unfold component? at h
  split at h
  · cases h
  · split at h
    · cases h
    · cases h
      rfl

theorem isName_of_mem_components {path text : String}
    (h : .name text ∈ components path) : IsName text := by
  have hnamed : Component.name text ∈ (parts path).filterMap component? := by
    unfold components at h
    split at h
    · simpa using h
    · split at h
      · simpa using h
      · exact h
  obtain ⟨part, hpart, hcomponent⟩ := List.mem_filterMap.1 hnamed
  obtain rfl := component?_eq_name hcomponent
  refine ⟨hcomponent, ?_⟩
  obtain ⟨piece, hpiece, rfl⟩ := List.mem_map.1 hpart
  rw [String.toList_ofList]
  exact separator_not_mem hpiece

theorem isName_of_mem_resolve {cs : List Component}
    (hcs : ∀ text, .name text ∈ cs → IsName text) {names : List String}
    (hnames : ∀ name ∈ names, IsName name) :
    ∀ name ∈ resolve names cs, IsName name := by
  induction cs generalizing names with
  | nil => exact hnames
  | cons component rest ih =>
      have hrest : ∀ text, .name text ∈ rest → IsName text := fun text h =>
        hcs text (List.mem_cons_of_mem component h)
      cases component with
      | root => exact ih hrest hnames
      | current => exact ih hrest hnames
      | parent =>
          exact ih hrest fun name h =>
            hnames name (List.dropLast_subset names h)
      | name text =>
          refine ih hrest fun name h => ?_
          rcases List.mem_append.1 h with h | h
          · exact hnames name h
          · obtain rfl := List.mem_singleton.1 h
            exact hcs name List.mem_cons_self

theorem filterMap_component? {names : List String}
    (h : ∀ name ∈ names, IsName name) :
    names.filterMap component? = names.map .name := by
  induction names with
  | nil => rfl
  | cons name rest ih =>
      obtain ⟨hname, hrest⟩ := List.forall_mem_cons.1 h
      simp [hname.component, ih hrest]

theorem components_ofNames {names : List String}
    (h : ∀ name ∈ names, IsName name) :
    components (ofNames names) = .root :: names.map .name := by
  have habsolute : isAbsolute (ofNames names) = true := by
    simp [isAbsolute, ofNames, String.toList_ofList]
  have hparts : (parts (ofNames names)).filterMap component? =
      names.map .name := by
    unfold parts ofNames
    rw [String.toList_ofList, pieces, if_pos rfl, List.map_cons,
      List.filterMap_cons]
    cases names with
    | nil => rfl
    | cons name rest =>
        have hsplit : pieces '/' (glue '/' ((name :: rest).map String.toList)) =
            (name :: rest).map String.toList := by
          refine pieces_glue (by simp) fun p hp => ?_
          obtain ⟨text, htext, rfl⟩ := List.mem_map.1 hp
          exact (h text htext).separator
        have hid : (String.ofList ∘ String.toList) = id :=
          funext fun _ => String.ofList_toList
        rw [hsplit, List.map_map, hid, List.map_id, filterMap_component? h]
        rfl
  rw [components, habsolute]
  simp [hparts]

/-- A path without anything that could be written in another way. -/
def Normal (path : String) : Prop := ∃ other, path = normalize other

theorem normalize_isName (path : String) :
    ∀ name ∈ resolve [] (components path), IsName name :=
  isName_of_mem_resolve (fun _ => isName_of_mem_components) fun _ h =>
    (List.not_mem_nil h).elim

theorem Normal.same_iff {a b : String} (ha : Normal a) (hb : Normal b) :
    same a b = true ↔ a = b := by
  obtain ⟨p, rfl⟩ := ha
  obtain ⟨q, rfl⟩ := hb
  refine ⟨fun h => ?_, fun h => ?_⟩
  · unfold same normalize at h
    rw [components_ofNames (normalize_isName p),
      components_ofNames (normalize_isName q)] at h
    have hnames : resolve [] (components p) = resolve [] (components q) := by
      have htails := (List.cons.inj (eq_of_beq h)).2
      exact (List.map_inj_right fun _ _ => Component.name.inj).1 htails
    rw [normalize, hnames, ← normalize]
  · rw [h]
    exact beq_self_eq_true _

end Path

/-! ## The table of modules -/

namespace Engine

variable {s : Engine}

structure HasModule (s : Engine) (path : String) : Prop where
  normal : Path.Normal path
  contains : ∃ source, s.source = some source ∧ source.contains path = true

theorem findModulePath_hasModule {request path : String}
    {importer : Option String}
    (h : s.findModulePath request importer = .ok path) : s.HasModule path := by
  unfold findModulePath at h
  cases hsource : s.source with
  | none =>
      rw [hsource] at h
      cases h
  | some source =>
      rw [hsource] at h
      simp only at h
      split at h
      · rename_i found hfound
        cases h
        refine ⟨?_, source, hsource, List.find?_some hfound⟩
        obtain ⟨dir, -, hcandidate⟩ :=
          List.mem_flatMap.1 (List.mem_of_find?_eq_some hfound)
        obtain ⟨candidate, -, hnormal⟩ := List.mem_map.1 hcandidate
        exact ⟨candidate, hnormal.symm⟩
      · cases h

/-- If all modules have normal paths, the table knows exactly those. -/
theorem find?_eq_none_iff {path : String} (hpath : Path.Normal path)
    (hnormal : ∀ e ∈ s.modules.modules.toList, Path.Normal e.path) :
    s.modules.find? path = none ↔
    path ∉ s.modules.modules.toList.map ModuleEntry.path := by
  unfold ModuleTable.find?
  rw [Option.map_eq_none_iff, Array.findIdx?_eq_none_iff]
  refine ⟨fun h hmem => ?_, fun h e he => ?_⟩
  · obtain ⟨e, he, rfl⟩ := List.mem_map.1 hmem
    have hsame := h e (Array.mem_def.2 he)
    rw [((hnormal e he).same_iff (hnormal e he)).2 rfl] at hsame
    cases hsame
  · have he := Array.mem_def.1 he
    refine Bool.eq_false_iff.2 fun hsame => h ?_
    rw [← ((hnormal e he).same_iff hpath).1 hsame]
    exact List.mem_map_of_mem he

end Engine

end ArenaScript
