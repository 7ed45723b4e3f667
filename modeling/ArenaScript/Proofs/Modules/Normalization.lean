import Mathlib.Data.List.Forall2
import Mathlib.Logic.Relation
import ArenaScript.Proofs.Modules.Paths

/-!
# One key for each file

Leaving out empty parts and `.`, and taking back a name before `..`, leads to
the same file.  Every path has one spelling in which nothing is left to be done,
its normal form: two paths have the same normal form exactly if one can be had
from the other by such steps, forwards or backwards.  Since modules are kept
under normal paths, a module is loaded once however it is asked for.
-/

namespace ArenaScript

namespace Path

/-! ## Spellings -/

def Leads (part : String) : Prop := part ≠ "" ∧ part ≠ "." ∧ part ≠ ".."

/-- One step that makes the parts of a path, seen from the root, fewer. -/
inductive Shortens : List String → List String → Prop
  | blank (before after : List String) :
      Shortens (before ++ "" :: after) (before ++ after)
  | current (before after : List String) :
      Shortens (before ++ "." :: after) (before ++ after)
  | back {name : String} (hname : Leads name) (before after : List String) :
      Shortens (before ++ name :: ".." :: after) (before ++ after)
  | top (after : List String) : Shortens (".." :: after) after

/-- The two texts are spellings of one path from the root. -/
def SameFile (p q : String) : Prop :=
  Relation.EqvGen Shortens (parts p) (parts q)

structure Canonical (path : String) : Prop where
  absolute : isAbsolute path = true
  parts : path = "/" ∨ ∀ part ∈ (parts path).tail, Leads part

/-- The components that the parts of a path stand for. -/
def steps (ps : List String) : List Component := ps.filterMap component?

def namesOf (path : String) : List String := resolve [] (steps (parts path))

/-! ## Steps -/

@[simp] theorem steps_nil : steps [] = [] := rfl

@[simp] theorem steps_append (ps qs : List String) :
    steps (ps ++ qs) = steps ps ++ steps qs := by
  simp [steps]

@[simp] theorem steps_blank (ps : List String) :
    steps ("" :: ps) = steps ps := by
  simp [steps, component?]

@[simp] theorem steps_current (ps : List String) :
    steps ("." :: ps) = steps ps := by
  simp [steps, component?]

@[simp] theorem steps_parent (ps : List String) :
    steps (".." :: ps) = .parent :: steps ps := by
  simp [steps, component?]

theorem component?_of_leads {part : String} (h : Leads part) :
    component? part = some (.name part) := by
  simp [component?, h.1, h.2.1, h.2.2]

theorem leads_of_component? {part text : String}
    (h : component? part = some (.name text)) : Leads part := by
  obtain rfl := component?_eq_name h
  refine ⟨?_, ?_, ?_⟩ <;> rintro rfl <;> simp [component?] at h

theorem steps_name {name : String} (h : Leads name) (ps : List String) :
    steps (name :: ps) = .name name :: steps ps := by
  simp [steps, component?_of_leads h]

@[simp] theorem resolve_append (names : List String) (cs ds : List Component) :
    resolve names (cs ++ ds) = resolve (resolve names cs) ds := by
  induction cs generalizing names with
  | nil => rfl
  | cons c cs ih => cases c <;> simp [resolve, ih]

theorem resolve_components (names : List String) (path : String) :
    resolve names (components path) = resolve names (steps (parts path)) := by
  simp only [components, steps]
  split
  · rfl
  · split <;> rfl

theorem normalize_eq (path : String) :
    normalize path = ofNames (namesOf path) := by
  rw [normalize, resolve_components, namesOf]

theorem isName_namesOf (path : String) :
    ∀ name ∈ namesOf path, IsName name := by
  rw [namesOf, ← resolve_components]
  exact normalize_isName path

/-! ## Canonical form -/

theorem parts_ofNames {names : List String} (h : ∀ name ∈ names, IsName name)
    (hne : names ≠ []) : parts (ofNames names) = "" :: names := by
  have hsplit : pieces '/' (glue '/' (names.map String.toList)) =
      names.map String.toList := by
    refine pieces_glue (by simpa using hne) fun p hp => ?_
    obtain ⟨name, hname, rfl⟩ := List.mem_map.1 hp
    exact (h name hname).separator
  simp [parts, ofNames, pieces, hsplit, Function.comp_def]

theorem steps_parts_ofNames {names : List String}
    (h : ∀ name ∈ names, IsName name) :
    steps (parts (ofNames names)) = names.map .name := by
  cases names with
  | nil => rfl
  | cons name rest =>
      rw [parts_ofNames h (List.cons_ne_nil name rest), steps_blank]
      exact filterMap_component? h

theorem resolve_names (start names : List String) :
    resolve start (names.map .name) = start ++ names := by
  induction names generalizing start with
  | nil => simp [resolve]
  | cons name names ih => simp [resolve, ih]

@[simp] theorem namesOf_normalize (path : String) :
    namesOf (normalize path) = namesOf path := by
  rw [normalize_eq, namesOf, steps_parts_ofNames (isName_namesOf path),
    resolve_names, List.nil_append]

theorem normalize_inj {p q : String} :
    normalize p = normalize q ↔ namesOf p = namesOf q := by
  constructor
  · intro h
    rw [← namesOf_normalize p, h, namesOf_normalize]
  · intro h
    rw [normalize_eq, h, normalize_eq]

theorem canonical_normalize (path : String) : Canonical (normalize path) := by
  rw [normalize_eq]
  constructor
  · simp [isAbsolute, ofNames]
  · by_cases hne : namesOf path = []
    · left
      rw [hne]
      rfl
    · right
      rw [parts_ofNames (isName_namesOf path) hne]
      intro name hname
      exact leads_of_component? (isName_namesOf path name hname).component

theorem normalize_idempotent (path : String) :
    normalize (normalize path) = normalize path :=
  normalize_inj.2 (namesOf_normalize path)

/-! ## Joining -/

theorem pieces_join (separator : Char) (cs ds : List Char) :
    pieces separator (cs ++ separator :: ds) =
      pieces separator cs ++ pieces separator ds := by
  induction cs with
  | nil => simp [pieces]
  | cons c cs ih =>
      rw [List.cons_append, pieces, pieces]
      split
      · rw [ih, List.cons_append]
      · rw [ih]
        cases hpieces : pieces separator cs with
        | nil => exact absurd hpieces (pieces_ne_nil separator cs)
        | cons piece others => rfl

@[simp] theorem parts_empty : parts "" = [""] := rfl

theorem parts_join (p q : String) :
    parts (p ++ "/" ++ q) = parts p ++ parts q := by
  simp [parts, pieces_join]

theorem steps_join {dir path : String} (h : isAbsolute path = false) :
    steps (parts (join dir path)) =
      steps (parts dir) ++ steps (parts path) := by
  unfold join
  rw [h]
  simp only [Bool.false_eq_true, if_false]
  split
  · rename_i hempty
    obtain rfl : dir = "" := by simpa using hempty
    simp
  · rename_i hslash
    obtain ⟨cs, hcs⟩ : ∃ cs, dir.toList = cs ++ ['/'] := by
      exact List.getLast?_eq_some_iff.1 hslash
    obtain rfl : dir = String.ofList cs ++ "/" := by
      rw [← String.toList_inj]
      simpa using hcs
    rw [parts_join]
    have hend : parts (String.ofList cs ++ "/") = parts (String.ofList cs) ++
        [""] := by
      simpa using parts_join (String.ofList cs) ""
    simp [hend]
  · rw [parts_join, steps_append]

theorem namesOf_join {dir path : String} (h : isAbsolute path = false) :
    namesOf (join dir path) = resolve (namesOf dir) (steps (parts path)) := by
  rw [namesOf, steps_join h, resolve_append, namesOf]

theorem normalize_join (dir path : String) :
    normalize (join dir path) = normalize (join (normalize dir) path) := by
  rw [normalize_inj]
  cases h : isAbsolute path with
  | true => simp [join, h]
  | false => rw [namesOf_join h, namesOf_join h, namesOf_normalize]

/-! ## One normal form for all spellings -/

theorem Shortens.resolve {ps qs : List String} (h : Shortens ps qs) :
    resolve [] (steps ps) = resolve [] (steps qs) := by
  cases h with
  | blank before after => simp
  | current before after => simp
  | back hname before after => simp [steps_name hname, Path.resolve]
  | top after => simp [Path.resolve]

theorem shortens_to_names (names ps : List String)
    (h : ∀ name ∈ names, Leads name) :
    Relation.ReflTransGen Shortens (names ++ ps)
      (resolve names (steps ps)) := by
  induction ps generalizing names with
  | nil => simpa [steps, resolve] using .refl
  | cons part ps ih =>
      by_cases hblank : part = ""
      · subst hblank
        simpa using (ih names h).head (.blank names ps)
      by_cases hcurrent : part = "."
      · subst hcurrent
        simpa using (ih names h).head (.current names ps)
      by_cases hparent : part = ".."
      · subst hparent
        rcases List.eq_nil_or_concat names with rfl | ⟨init, name, rfl⟩
        · simpa [resolve] using (ih [] h).head (.top ps)
        · have hname : Leads name := h name (by simp)
          have hinit : ∀ name ∈ init, Leads name :=
            fun other hother => h other (by simp [hother])
          simpa [resolve] using (ih init hinit).head (.back hname init ps)
      · have hleads : Leads part := ⟨hblank, hcurrent, hparent⟩
        rw [steps_name hleads, resolve]
        simpa using ih (names ++ [part])
          (by simpa [or_imp, forall_and, hleads] using h)

theorem same_names (ps : List String) :
    Relation.EqvGen Shortens ps (resolve [] (steps ps)) :=
  Relation.reflTransGen_le_of_equivalence_of_le (Relation.EqvGen.is_equivalence
    Shortens) .rel
    _ _ (shortens_to_names [] ps (by simp))

theorem resolve_of_same {ps qs : List String}
    (h : Relation.EqvGen Shortens ps qs) :
    resolve [] (steps ps) = resolve [] (steps qs) := by
  induction h with
  | rel _ _ h => exact h.resolve
  | refl _ => rfl
  | symm _ _ _ ih => exact ih.symm
  | trans _ _ _ _ _ ih ih' => exact ih.trans ih'

theorem normalize_eq_iff {p q : String} :
    normalize p = normalize q ↔ SameFile p q := by
  rw [normalize_inj]
  constructor
  · intro h
    have hp := same_names (parts p)
    have hq := same_names (parts q)
    rw [← namesOf, h] at hp
    exact hp.trans _ _ _ (hq.symm _ _)
  · exact resolve_of_same

/-! ## Files of a request -/

theorem namesOf_eq_components (path : String) :
    namesOf path = resolve [] (components path) := by
  rw [resolve_components, namesOf]

theorem fileName?_eq_some {path name : String}
    (h : fileName? path = some name) :
    ∃ init, components path = init ++ [.name name] := by
  unfold fileName? at h
  split at h
  · rename_i text hlast
    cases h
    exact List.getLast?_eq_some_iff.1 hlast
  · cases h

/-- The last name of a path that ends in one is the name of a file. -/
theorem namesOf_of_fileName {path name : String} {init : List Component}
    (h : components path = init ++ [.name name]) :
    namesOf path = resolve [] init ++ [name] := by
  simp [namesOf_eq_components, h, resolve]

theorem glue_append (separator : Char) (ps : List (List Char))
    (piece ending : List Char) :
    glue separator (ps ++ [piece]) ++ ending =
      glue separator (ps ++ [piece ++ ending]) := by
  induction ps with
  | nil => rfl
  | cons p ps ih =>
      cases ps with
      | nil => simp [glue]
      | cons q qs =>
          simp only [List.cons_append, glue, List.append_assoc] at ih ⊢
          rw [ih]

theorem render_eq {init : List Component} {name : String} :
    render (init ++ [Component.name name]) =
      String.ofList (glue '/'
        ((init ++ [Component.name name]).map renderComponent)) := by
  unfold render
  split
  · rename_i hroot
    cases init <;> simp at hroot
  · rfl

def textOf (c : Component) : String := String.ofList (renderComponent c)

/-- Writing components and reading them again leads to the same place. -/
theorem resolve_textOf {cs : List Component}
    (hcs : ∀ text, .name text ∈ cs → IsName text) (names : List String) :
    resolve names (steps (cs.map textOf)) = resolve names cs := by
  induction cs generalizing names with
  | nil => rfl
  | cons c cs ih =>
      have hrest := ih fun text h => hcs text (List.mem_cons_of_mem c h)
      cases c with
      | root => simpa [textOf, renderComponent, resolve] using hrest names
      | current => simpa [textOf, renderComponent, resolve] using hrest names
      | parent =>
          simpa [textOf, renderComponent, resolve] using hrest names.dropLast
      | name text =>
          have hleads :=
            leads_of_component? (hcs text List.mem_cons_self).component
          simpa [textOf, renderComponent, steps_name hleads, resolve]
            using hrest (names ++ [text])

theorem separator_not_mem_renderComponent {c : Component}
    (h : ∀ text, c = .name text → IsName text) : '/' ∉ renderComponent c := by
  cases c with
  | root => simp [renderComponent]
  | current => simp [renderComponent]
  | parent => simp [renderComponent]
  | name text => exact (h text rfl).separator

theorem parts_withEnding {init : List Component} {name ending : String}
    (hnames : ∀ text, Component.name text ∈ init ++ [.name name] → IsName text)
    (hending : '/' ∉ ending.toList) :
    parts (render (init ++ [Component.name name]) ++ ending) =
      init.map textOf ++ [name ++ ending] := by
  have hname : '/' ∉ name.toList := (hnames name (by simp)).separator
  have hpieces : ∀ piece ∈ init.map renderComponent ++
      [name.toList ++ ending.toList],
      '/' ∉ piece := by
    intro piece hpiece
    rcases List.mem_append.1 hpiece with hpiece | hpiece
    · obtain ⟨c, hc, rfl⟩ := List.mem_map.1 hpiece
      refine separator_not_mem_renderComponent fun text htext => hnames text ?_
      exact List.mem_append_left _ (htext ▸ hc)
    · simp_all
  rw [render_eq, parts, String.toList_append, String.toList_ofList,
    List.map_append, List.map_singleton, glue_append, renderComponent,
    pieces_glue (by simp) hpieces]
  simp [textOf, Function.comp_def]

theorem leads_withEnding (name : String) : Leads (name ++ ".vx") := by
  have hshort : ∀ text : String, name ++ ".vx" = text →
      3 ≤ text.toList.length := by
    rintro text rfl
    simp
  refine ⟨fun h => ?_, fun h => ?_, fun h => ?_⟩ <;> simpa using hshort _ h

theorem namesOf_withExtension {path name : String} {init : List Component}
    (h : components path = init ++ [.name name]) :
    namesOf (withExtension path "vx") = resolve [] init ++ [name ++ ".vx"] := by
  have hnames : ∀ text, .name text ∈ init ++ [.name name] → IsName text := by
    rw [← h]
    exact fun text => isName_of_mem_components
  have hfile : fileName? path = some name := by simp [fileName?, h]
  have hending : render (components path) ++ "." ++ "vx" =
      render (init ++ [.name name]) ++ ".vx" := by
    rw [h, String.append_assoc]
    rfl
  rw [withExtension, hfile]
  simp only [hending]
  rw [namesOf, parts_withEnding hnames (by decide), steps_append,
    steps_name (leads_withEnding name), resolve_append,
    resolve_textOf fun text htext => hnames text (List.mem_append_left _ htext)]
  rfl

structure Alike (p q : String) : Prop where
  same : SameFile p q
  named : (fileName? p).isSome = (fileName? q).isSome

theorem Alike.withExtension {p q : String} (h : Alike p q) :
    fileName? p = fileName? q ∧
      normalize (withExtension p "vx") = normalize (withExtension q "vx") := by
  have hnames := normalize_inj.1 (normalize_eq_iff.2 h.same)
  have hnamed := h.named
  cases hp : fileName? p with
  | none =>
      have hq : fileName? q = none := by simpa [hp] using hnamed
      simp [Path.withExtension, hp, hq, normalize_inj.2 hnames]
  | some name =>
      obtain ⟨name', hq⟩ : ∃ name', fileName? q = some name' := by
        rw [← Option.isSome_iff_exists, ← hnamed, hp, Option.isSome_some]
      obtain ⟨init, hinit⟩ := fileName?_eq_some hp
      obtain ⟨init', hinit'⟩ := fileName?_eq_some hq
      rw [namesOf_of_fileName hinit, namesOf_of_fileName hinit'] at hnames
      obtain ⟨hdir, hlast⟩ := List.append_inj' hnames rfl
      obtain rfl : name = name' := by simpa using hlast
      refine ⟨hq.symm, ?_⟩
      rw [normalize_inj, namesOf_withExtension hinit,
        namesOf_withExtension hinit', hdir]

theorem Alike.candidates {dir request dir' request' : String}
    (h : Alike (join dir request) (join dir' request')) :
    (candidates request dir).map normalize =
      (candidates request' dir').map normalize := by
  have hnormal := normalize_eq_iff.2 h.same
  obtain ⟨hname, hwith⟩ := h.withExtension
  have hextension : extension? (join dir request) =
      extension? (join dir' request') := by
    simp [extension?, hname]
  have hmod : normalize (join (join dir request) "mod.vx") =
      normalize (join (join dir' request') "mod.vx") := by
    rw [normalize_join, hnormal, ← normalize_join]
  unfold Path.candidates
  simp only [hextension]
  split <;> simp [hnormal, hwith, hmod]

end Path

/-! ## Requests -/

namespace Engine

variable {s : Engine} {request request' file file' path path' : String}
  {importer importer' : Option String}

def directories (s : Engine) (request : String) (importer : Option String) :
    List String :=
  (importer.bind Path.parent?).getD "." :: if Path.isAbsolute request then []
    else s.searchPaths

def files (s : Engine) (request : String) (importer : Option String) :
    List String :=
  (s.directories request importer).flatMap (Path.candidates request)

/-- The request stands for this file: the first one that the source has. -/
def Locates (s : Engine) (request : String) (importer : Option String)
    (file : String) : Prop :=
  ∃ source, s.source = some source ∧
    (s.files request importer).find?
      (fun file => source.contains (Path.normalize file)) = some file

theorem normalized_files : (s.directories request importer).flatMap
      (fun dir => (Path.candidates request dir).map Path.normalize) =
    (s.files request importer).map Path.normalize := by
  rw [files, List.map_flatMap]

theorem findModulePath_eq_ok : s.findModulePath request importer = .ok path ↔
    ∃ file, s.Locates request importer file ∧ path = Path.normalize file := by
  unfold findModulePath Locates
  cases s.source with
  | none => simp
  | some source =>
      dsimp only
      rw [← directories, normalized_files, List.find?_map, Function.comp_def]
      cases hfile : (s.files request importer).find?
          fun file => source.contains (Path.normalize file) with
      | none => simp [hfile]
      | some file => simpa [hfile] using eq_comm

theorem files_of_alike
    (h : List.Forall₂
      (fun dir dir' =>
        Path.Alike (Path.join dir request) (Path.join dir' request'))
          (s.directories request importer) (s.directories request' importer')) :
    (s.files request importer).map Path.normalize =
      (s.files request' importer').map Path.normalize := by
  unfold files
  generalize s.directories request importer = dirs at h ⊢
  generalize s.directories request' importer' = dirs' at h ⊢
  induction h with
  | nil => rfl
  | cons hdir _ ih => simp [hdir.candidates, ih]

theorem findModulePath_toOption : (s.findModulePath request importer).toOption =
    s.source.bind fun source =>
      ((s.files request importer).map Path.normalize).find?
        source.contains := by
  unfold findModulePath
  cases s.source with
  | none => rfl
  | some source =>
      dsimp only
      rw [← directories, normalized_files, Option.bind_some]
      cases ((s.files request importer).map Path.normalize).find?
        source.contains <;> rfl

structure OneKey (s : Engine) : Prop where
  keyed : ∀ {request importer path}, s.findModulePath request importer =
    .ok path ↔
    ∃ file, s.Locates request importer file ∧ path = Path.normalize file
  same : ∀ {request importer file request' importer' file'},
    s.Locates request importer file →
    s.Locates request' importer' file' →
      (Path.SameFile file file' ↔
        s.findModulePath request importer = s.findModulePath request' importer')
  loaded : ∀ {request importer file request' importer' file'},
    s.Locates request importer file →
    s.Locates request' importer' file' → Path.SameFile file file' →
      ∀ c : Calls, c.loadModuleStep request importer s =
        c.loadModuleStep request' importer' s
  spelled : ∀ {request importer request' importer'},
    List.Forall₂ (fun dir dir' =>
      Path.Alike (Path.join dir request) (Path.join dir' request'))
      (s.directories request importer) (s.directories request' importer') →
        (s.findModulePath request importer).toOption =
          (s.findModulePath request' importer').toOption

theorem Locates.findModulePath (h : s.Locates request importer file) :
    s.findModulePath request importer = .ok (Path.normalize file) :=
  findModulePath_eq_ok.2 ⟨file, h, rfl⟩

theorem loadModuleStep_congr (c : Calls)
    (h : s.findModulePath request importer =
      s.findModulePath request' importer') :
    c.loadModuleStep request importer s =
      c.loadModuleStep request' importer' s := by
  unfold Calls.loadModuleStep
  simp only [bind, EStateM.bind, Eval.inspect, h]

theorem oneKey (s : Engine) : s.OneKey where
  keyed := findModulePath_eq_ok
  same hfile hfile' := by
    rw [hfile.findModulePath, hfile'.findModulePath, Except.ok.injEq,
      Path.normalize_eq_iff]
  loaded hfile hfile' hsame c := by
    refine loadModuleStep_congr c ?_
    rw [hfile.findModulePath, hfile'.findModulePath,
      Path.normalize_eq_iff.2 hsame]
  spelled hdirs := by
    rw [findModulePath_toOption, findModulePath_toOption, files_of_alike hdirs]

end Engine

/-- Normal paths are absolute, have nothing to be left out and stay as they are,
also when the directory of a path is made normal first.  So modules have one key
each. -/
theorem one_key_for_each_file :
    (∀ path, Path.Canonical (Path.normalize path) ∧
      Path.normalize (Path.normalize path) = Path.normalize path) ∧
    (∀ dir path, Path.normalize (Path.join dir path) =
      Path.normalize (Path.join (Path.normalize dir) path)) ∧
    (∀ p q, Path.normalize p = Path.normalize q ↔ Path.SameFile p q) ∧
    ∀ s : Engine, s.OneKey :=
  ⟨fun path => ⟨Path.canonical_normalize path, Path.normalize_idempotent path⟩,
    Path.normalize_join, fun _ _ => Path.normalize_eq_iff, Engine.oneKey⟩

example :
    Path.normalize "/project/src/../lib/./x.vx" =
      "/project/lib/x.vx" := by decide

/-- Two ways to ask for the only module there is. -/
theorem one_key_for_each_file_dotted :
    let source : ModuleSource := ⟨(· == "/lib/x.vx"), fun _ => .error ""⟩
    let s := Engine.new {} ⟨.silent, ""⟩ (some source) []
    s.Locates "lib/./x" none "./lib/x.vx" ∧
    s.Locates "lib//y/../x" none "./lib/y/../x.vx" ∧
      s.findModulePath "lib/./x" none =
        s.findModulePath "lib//y/../x" none := by
  intro source s
  have hone : s.Locates "lib/./x" none "./lib/x.vx" := ⟨source, rfl, by decide⟩
  have hother : s.Locates "lib//y/../x" none "./lib/y/../x.vx" :=
    ⟨source, rfl, by decide⟩
  have hsame : Path.SameFile "./lib/x.vx" "./lib/y/../x.vx" :=
    (one_key_for_each_file.2.2.1 _ _).1 (by decide)
  exact ⟨hone, hother,
    ((one_key_for_each_file.2.2.2 s).same hone hother).1 hsame⟩

end ArenaScript
