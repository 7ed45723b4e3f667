import ArenaScript.Proofs.Evaluation.Construction
import ArenaScript.Proofs.Evaluation.Elements
import ArenaScript.Proofs.Evaluation.Separation
import ArenaScript.Proofs.Evaluation.Teardown

/-!
# Addresses of parts

The address of a part is the sum of the address of the whole and an offset,
modulo the size of a word.  If the whole ends before the addresses do, and the
layout of its type has not been wrapped around, then the sum is exact and the
part lies in the whole, so that the same holds for the parts of the part.  What
the engine has allocated is such a whole.  What a program makes of a word that
it has stored as an address need not be one, and its parts may be anywhere.
-/

namespace ArenaScript

open Engine (Good Stocked)

/-- The place of a part by an exact sum. -/
def Value.part (v : Value) (type : TypeId) (offset : Nat) : Value :=
  ⟨type, v.addr + offset⟩

namespace Value

variable {v : Value} {type : TypeId} {offset : Nat}

theorem view_addr (v : Value) (type : TypeId) (offset : Nat) :
    (v.view type offset).addr = (v.addr + offset) % Word.modulus :=
  Word.wrap_eq_mod _

theorem view_eq_part (h : v.addr + offset < Word.modulus) :
    v.view type offset = v.part type offset := by
  rw [view, part, Word.add_of_lt h]

end Value

namespace Arena

structure Bars (a : Arena) (addr len : Nat) : Prop where
  read : a.read addr len = .error (Failure.invalidMemoryAccess addr len)
  write : ∀ contents : List UInt8, contents.length = len →
    Arena.write addr contents a =
      .error (Failure.invalidMemoryAccess addr len) a

theorem bars_above {a : Arena} {addr len : Nat} (h : a.mark ≤ addr)
    (hlen : 0 < len) : a.Bars addr len := by
  have hout : a.inBounds addr len = false := by
    have hlt : ¬ addr + len ≤ a.mark := by omega
    simp [inBounds, hlt]
  refine ⟨?_, fun contents hcontents => ?_⟩
  · rw [Arena.read, hout]
    rfl
  · subst hcontents
    rw [Arena.write, hout]
    rfl

end Arena

namespace Engine

variable {s t u : Engine} {v w x dst src : Value} {type piece elem : TypeId}
  {offset len i : Nat}

theorem element_addr (s : Engine) (v : Value) (elem : TypeId) (i : Nat) :
    (s.element v elem i).addr = (v.addr + i * s.types.sizeOf elem) %
      Word.modulus := by
  rw [element, Value.view_addr, Word.mul, Word.wrap_eq_mod, Nat.add_mod_mod]

theorem element_eq_part (h : v.addr + i * s.types.sizeOf elem < Word.modulus) :
    s.element v elem i = v.part elem (i * s.types.sizeOf elem) := by
  have hmul : Word.mul i (s.types.sizeOf elem) = i * s.types.sizeOf elem :=
    Word.wrap_of_lt (Nat.lt_of_le_of_lt (Nat.le_add_left _ _) h)
  rw [element, hmul, Value.view_eq_part h]

/-! ## Parts of types -/

/-- A field of a class or union, or an element of an array. -/
inductive HasPart (s : Engine) (type : TypeId) : TypeId → Nat → Prop
  | field {body : Structural} {field : Field}
      (hbody : (s.types.get type).structural? = some body)
      (hfield : field ∈ body.fields) : HasPart s type field.type field.offset
  | element {elem : TypeId} {len i : Nat}
      (hparts : (s.types.get type).array? = some (elem, len)) (hi : i < len) :
      HasPart s type elem (i * s.types.sizeOf elem)

def Encloses (s : Engine) (type : TypeId) : Prop :=
  ∀ piece offset, s.HasPart type piece offset →
    offset + s.types.sizeOf piece ≤ s.types.sizeOf type

def LaidOut (s : Engine) (type : TypeId) : Prop :=
  ∀ body, (s.types.get type).structural? = some body →
    Layout.exactSize s.types.extentOf body.kind body.fields < Word.modulus ∧
      (body.kind = .enumKind → body.fields = [])

inductive Comprises (s : Engine) (type : TypeId) : TypeId → Prop
  | self : Comprises s type type
  | part {inner piece : TypeId} {offset : Nat} (h : Comprises s type inner)
      (hpart : s.HasPart inner piece offset) : Comprises s type piece

/-- No layout of what the type is made of has been wrapped around. -/
def Exact (s : Engine) (type : TypeId) : Prop :=
  ∀ piece, s.Comprises type piece → s.LaidOut piece

theorem Comprises.trans {inner : TypeId} (h : s.Comprises type inner)
    (h' : s.Comprises inner piece) : s.Comprises type piece := by
  induction h' with
  | self => exact h
  | part _ hpart ih => exact .part ih hpart

theorem Exact.part (h : s.Exact type) (hpart : s.HasPart type piece offset) :
    s.Exact piece :=
  fun inner hinner => h inner ((Comprises.part .self hpart).trans hinner)

theorem Stocked.encloses_array (hs : s.Stocked)
    (hparts : (s.types.get type).array? = some (elem, len)) (hi : i < len) :
    i * s.types.sizeOf elem + s.types.sizeOf elem ≤ s.types.sizeOf type := by
  obtain ⟨-, -, hsize, -⟩ := (hs.formed type).array elem len hparts
  have htotal : s.types.sizeOf type = s.types.sizeOf elem * len := hsize
  rw [htotal, ← Nat.succ_mul, Nat.mul_comm]
  exact Nat.mul_le_mul_left _ hi

theorem LaidOut.encloses (hs : s.Stocked) (h : s.LaidOut type) :
    s.Encloses type := by
  intro piece offset hpart
  cases hpart with
  | element hparts hi => exact hs.encloses_array hparts hi
  | @field body field hbody hfield =>
      obtain ⟨hfits, henum⟩ := h body hbody
      have hshape := TypeEntry.shape_of_structural? hbody
      cases hcomplete : body.complete with
      | false =>
          rw [(hs.formed type).bare body hshape hcomplete] at hfield
          cases hfield
      | true =>
          cases hkind : body.kind with
          | classKind =>
              rw [hkind] at hfits
              exact (hs.formed.classLayout hshape hcomplete hkind hfits).inside
                hfield
          | unionKind =>
              rw [hkind] at hfits
              exact (hs.formed.unionLayout hshape hcomplete hkind hfits).inside
                hfield
          | enumKind =>
              rw [henum hkind] at hfield
              cases hfield

theorem Exact.encloses (hs : s.Stocked) (h : s.Exact type) : s.Encloses type :=
  (h type .self).encloses hs

/-! ## Wholes -/

def Spans (s : Engine) (v : Value) : Prop :=
  v.addr + s.types.sizeOf v.type < Word.modulus

theorem Good.spans {I : Engine → Prop} (hs : s.Good I)
    (hlive : s.arena.inBounds v.addr (s.types.sizeOf v.type) = true) :
    s.Spans v :=
  Nat.lt_of_le_of_lt (hs.closed.wellFormed.range_le hlive).1 hs.closed.arena.1

theorem Spans.part (h : s.Spans v)
    (hinside : offset + s.types.sizeOf piece ≤ s.types.sizeOf v.type) :
    v.view piece offset = v.part piece offset ∧
    s.Spans (v.part piece offset) := by
  have hwhole : v.addr + s.types.sizeOf v.type < Word.modulus := h
  refine ⟨Value.view_eq_part (by omega), ?_⟩
  change v.addr + offset + s.types.sizeOf piece < Word.modulus
  omega

theorem Spans.parts (hs : s.Stocked) (h : s.Spans v) (hlaid : s.LaidOut v.type)
    (hpart : s.HasPart v.type piece offset) :
    v.view piece offset = v.part piece offset ∧ s.Spans (v.part piece offset) ∧
      offset + s.types.sizeOf piece ≤ s.types.sizeOf v.type := by
  have hinside := hlaid.encloses hs _ _ hpart
  exact ⟨(h.part hinside).1, (h.part hinside).2, hinside⟩

theorem Spans.element (hs : s.Stocked) (h : s.Spans v)
    (hparts : (s.types.get v.type).array? = some (elem, len)) (hi : i < len) :
    s.element v elem i = v.part elem (i * s.types.sizeOf elem) := by
  have hwhole : v.addr + s.types.sizeOf v.type < Word.modulus := h
  have hinside := hs.encloses_array hparts hi
  exact element_eq_part (by omega)

theorem mem_classFields {field : Field} (hfield : field ∈ s.classFields type) :
    ∃ body, (s.types.get type).structural? = some body ∧
      body.kind = .classKind ∧
      field ∈ body.fields := by
  unfold classFields at hfield
  split at hfield
  · rename_i body hbody
    split at hfield
    · exact ⟨body, hbody, eq_of_beq ‹_›, hfield⟩
    · cases hfield
  · cases hfield

/-! ## Members -/

def PlacesField (s : Engine) (object : Value) (name : String) (w : Value) :
    Prop :=
  ∃ field, (s.types.get object.type).structural?.bind (·.field? name) =
    some field ∧
    w.type = field.type ∧ w.addr = (object.addr + field.offset) % Word.modulus ∧
      (s.Spans object → s.LaidOut object.type →
        w.addr = object.addr + field.offset)

theorem placesField {name : String} {field : Field} (hs : s.Stocked)
    (object : Value)
    (hfield : (s.types.get object.type).structural?.bind (·.field? name) =
      some field) :
    s.PlacesField object name (object.view field.type field.offset) := by
  refine ⟨field, hfield, rfl, Value.view_addr .., fun hspans hlaid => ?_⟩
  obtain ⟨body, hbody, hmem⟩ := Option.bind_eq_some_iff.1 hfield
  have hpart :=
    hspans.parts hs hlaid (.field hbody (List.mem_of_find?_eq_some hmem))
  exact congrArg Value.addr hpart.1

theorem memberFrom_eq_ok {name : String} {depth : Nat}
    (h : Calls.memberFrom name v depth s = .ok (.value w) t) :
    ∃ x field, (x = v ∨ ∃ u ref, Engine.stripRef u ref = .ok x) ∧
      (t.types.get x.type).structural?.bind (·.field? name) = some field ∧
        w = x.view field.type field.offset := by
  induction depth generalizing v s with
  | zero => cases h
  | succ depth ih =>
      unfold Calls.memberFrom at h
      rw [Eval.bind_read] at h
      cases hfield : (s.types.get v.type).structural?.bind (·.field? name) with
      | some field =>
          rw [hfield] at h
          cases h
          exact ⟨v, field, .inl rfl, hfield, rfl⟩
      | none =>
          rw [hfield] at h
          obtain ⟨_, u, -, h⟩ := Eval.bind_eq_ok h
          rw [Eval.bind_read] at h
          split at h
          · cases h
          · rw [Eval.bind_read] at h
            split at h
            · obtain ⟨target, u', hstrip, h⟩ := Eval.bind_eq_ok h
              obtain ⟨x, field, hx, hmember⟩ := ih h
              refine ⟨x, field, .inr ?_, hmember⟩
              rcases hx with rfl | hx
              · exact ⟨u, v, (Eval.inspect_eq_ok hstrip).1⟩
              · exact hx
            · cases h

theorem fieldThroughSelf_eq_ok {frame : Frame} {name : String}
    (h : s.fieldThroughSelf frame name = .ok (some w)) :
    ∃ owner slot x field, frame.call.bind CallRecord.owner = some owner ∧
      frame.local? "self" = some slot ∧
      s.stripRef (frame.resolve slot) = .ok x ∧
        (s.types.get owner).structural?.bind (·.field? name) = some field ∧
          w = x.view field.type field.offset := by
  unfold fieldThroughSelf at h
  split at h
  · rename_i owner slot howner hslot
    split at h
    · rename_i field hfield
      cases hstrip : s.stripRef (frame.resolve slot) with
      | error e =>
          rw [hstrip] at h
          cases h
      | ok x =>
          rw [hstrip] at h
          cases h
          exact ⟨owner, slot, x, field, howner, hslot, hstrip, hfield, rfl⟩
    · cases h
  · cases h

/-! ## Copying and showing -/

def exactParts (s : Engine) (dst src : Value) : Option (List (Value × Value)) :=
  let entry := s.types.get dst.type
  match entry.structural?.filter (·.kind == .classKind) with
  | some body =>
      some (body.fields.map fun f =>
        (dst.part f.type f.offset, src.part f.type f.offset))
  | none =>
      entry.array?.map fun (elem, len) =>
        (List.range len).map fun i =>
          (dst.part elem (i * s.types.sizeOf elem),
            src.part elem (i * s.types.sizeOf elem))

theorem parts_eq (hs : s.Stocked) (hdst : s.Spans dst)
    (hsrc : s.Spans ⟨dst.type, src.addr⟩) (hlaid : s.LaidOut dst.type) :
    s.parts dst src = s.exactParts dst src := by
  cases hfilter :
    (s.types.get dst.type).structural?.filter (·.kind == .classKind) with
  | some body =>
      obtain ⟨hbody, -⟩ := Option.filter_eq_some_iff.1 hfilter
      simp only [parts, exactParts, hfilter]
      refine congrArg some (List.map_congr_left fun field hfield => ?_)
      have hinside := hlaid.encloses hs _ _ (.field hbody hfield)
      exact Prod.ext (hdst.part hinside).1 (hsrc.part hinside).1
  | none =>
      cases hparts : (s.types.get dst.type).array? with
      | none => simp only [parts, exactParts, hfilter, hparts, Option.map_none]
      | some pair =>
          obtain ⟨elem, len⟩ := pair
          simp only [parts, exactParts, hfilter, hparts, Option.map_some]
          refine congrArg some (List.map_congr_left fun i hi => ?_)
          have hi := List.mem_range.1 hi
          have hother : s.element src elem i =
              src.part elem (i * s.types.sizeOf elem) :=
            Spans.element (v := ⟨dst.type, src.addr⟩) hs hsrc hparts hi
          exact Prod.ext (hdst.element hs hparts hi) hother

theorem elementTexts_congr {text text' : Nat → Except Failure String}
    {index count : Nat} (h : ∀ i, i < index + count → text i = text' i) :
    elementTexts text index count = elementTexts text' index count := by
  induction count generalizing index with
  | zero => rfl
  | succ count ih =>
      have hrest : elementTexts text (index + 1) count =
          elementTexts text' (index + 1) count :=
        ih fun i hi => h i (by omega)
      rw [elementTexts, elementTexts, h index (by omega), hrest]

theorem textOf_array (hs : s.Stocked) (h : s.Spans v)
    (hparts : (s.types.get v.type).array? = some (elem, len)) (depth : Nat) :
    s.textOf v (depth + 1) = (do
      let texts ← elementTexts
        (fun i => s.textOf (v.part elem (i * s.types.sizeOf elem)) depth) 0 len
      pure ("[" ++ ", ".intercalate texts ++ "]")) := by
  obtain ⟨n, hshape⟩ := TypeEntry.array?_eq_some hparts
  have htexts :
      elementTexts (fun i => s.textOf (s.element v elem i) depth) 0 len =
      elementTexts (fun i =>
        s.textOf (v.part elem (i * s.types.sizeOf elem)) depth) 0 len :=
    elementTexts_congr fun i hi => by rw [h.element hs hparts (by omega)]
  rw [textOf]
  simp only [hshape, hparts]
  exact congrArg (· >>= _) htexts

/-! ## Temporaries -/

theorem isFreshTemporary_iff {mark : Nat} :
    s.isFreshTemporary v type mark = true ↔ v.type = type ∧ mark ≤ v.addr ∧
      (v.addr + s.types.sizeOf type) % Word.modulus = s.arena.mark := by
  simp only [isFreshTemporary, Bool.and_eq_true, beq_iff_eq, decide_eq_true_eq,
    Word.add, Word.wrap_eq_mod, and_assoc]

/-! ## Construction and destruction -/

/-- The value and all that it is made of lie between the two addresses. -/
structure Lies (s : Engine) (low high : Nat) (v : Value) : Prop where
  has : s.types.Has v.type
  exact : s.Exact v.type
  low : low ≤ v.addr
  high : v.addr + s.types.sizeOf v.type ≤ high

section Lying

variable {b : Engine} {low high : Nat} (hb : b.Good Stocked)
  (hhigh : high < Word.modulus)

theorem Lies.self (hhas : b.types.Has v.type) (hexact : b.Exact v.type) :
    b.Lies v.addr (v.addr + b.types.sizeOf v.type) v :=
  ⟨hhas, hexact, Nat.le_refl _, Nat.le_refl _⟩

theorem Lies.known (h : b.Lies low high v) (hhigh : high < Word.modulus) :
    b.Knows v := by
  have hlast := h.high
  exact ⟨h.has, by omega⟩

include hb hhigh

theorem Lies.part (h : b.Lies low high v)
    (hpart : b.HasPart v.type piece offset) (hhas : b.types.Has piece) :
    v.view piece offset = v.part piece offset ∧
    b.Lies low high (v.part piece offset) := by
  have hinside := h.exact.encloses hb.inv _ _ hpart
  have hlow := h.low
  have hlast := h.high
  have hspans : b.Spans v := Nat.lt_of_le_of_lt hlast hhigh
  refine ⟨(hspans.part hinside).1, hhas, h.exact.part hpart, ?_, ?_⟩
  · exact Nat.le_trans hlow (Nat.le_add_right _ _)
  · change v.addr + offset + b.types.sizeOf piece ≤ high
    omega

theorem Lies.element (h : b.Lies low high v)
    (hparts : (b.types.get v.type).array? = some (elem, len)) (hi : i < len) :
    b.Lies low high (b.element v elem i) := by
  have hspans : b.Spans v := Nat.lt_of_le_of_lt h.high hhigh
  have hhas := (TypeEntry.known_array? (hb.closed.types v.type) _ hparts).1
  rw [hspans.element hb.inv hparts hi]
  exact (h.part hb hhigh (.element hparts hi) hhas).2

theorem Lies.slot {field : Field} (h : b.Lies low high v)
    (hfield : field ∈ b.classFields v.type) :
    b.Lies low high (field.slot v) := by
  obtain ⟨body, hbody, -, hmem⟩ := mem_classFields hfield
  have hhas := hb.closed.knows_classFields v.type field hfield
  obtain ⟨hslot, hlies⟩ := h.part hb hhigh (.field hbody hmem) hhas
  rw [Field.slot, hslot]
  exact hlies

theorem Unrolls.lies {values objects pending : List Value}
    (h : b.Unrolls values objects pending)
    (hall : ∀ v ∈ values, b.Lies low high v) :
    (∀ v ∈ objects, b.Lies low high v) ∧ ∀ v ∈ pending, b.Lies low high v := by
  induction h with
  | stop values => exact ⟨nofun, hall⟩
  | plain _ _ ih => exact ih (List.forall_mem_cons.1 hall).2
  | @array v elem len rest objects pending _ hparts _ ih =>
      obtain ⟨hv, hrest⟩ := List.forall_mem_cons.1 hall
      refine ih fun w hw => ?_
      rcases List.mem_append.1 hw with hw | hw
      · obtain ⟨i, hi, rfl⟩ := List.mem_map.1 (List.mem_reverse.1 hw)
        exact hv.element hb hhigh hparts (List.mem_range.1 hi)
      · exact hrest w hw
  | @object v rest objects pending _ _ _ ih =>
      obtain ⟨hv, hrest⟩ := List.forall_mem_cons.1 hall
      obtain ⟨hobjects, hpending⟩ := ih fun w hw => by
        rcases List.mem_append.1 hw with hw | hw
        · obtain ⟨field, hfield, rfl⟩ := List.mem_map.1 hw
          exact hv.slot hb hhigh (List.mem_reverse.1 hfield)
        · exact hrest w hw
      exact ⟨List.forall_mem_cons.2 ⟨hv, hobjects⟩, hpending⟩

end Lying

theorem Follows.initializes {b : Engine} {scope : ScopeId} {field : Field}
    {init : Initializer} (h : b.Follows t) (hfield : t.Knows field.type)
    (hinit : field.initializer = some init)
    (hrun : t.Initializes scope (field.slot v) init u) : b.Follows u := by
  obtain ⟨fuel, hrun⟩ := hrun
  have halike : (Calls.watched (pure ()) fuel).Alike (fun _ => True)
      (Calls.ofFuel fuel) :=
    .watched (fun _ _ => rfl) fuel
  have hsame : (Calls.ofFuel fuel).initField scope v field t = .ok () u := by
    rw [← hrun]
    simp only [Calls.initField, hinit, Field.slot, Calls.runInitializer]
  have hreached := (halike.initField ⟨h.closed, trivial⟩ scope v hfield).reached
  rw [Eval.after_ok hsame] at hreached
  exact h.quiet hreached.closed hreached.rel

theorem Follows.chooses {b : Engine} {args : List Value}
    {choice : Option FunctionId} (h : b.Follows t) (htype : t.Knows type)
    (hrun : t.Chooses type args choice u) : b.Follows u := by
  have hgood : t.Good fun _ => True := ⟨h.closed, trivial⟩
  have hreached := (Calls.Alike.constructorFor hgood htype args).reached
  rw [Eval.after_ok hrun] at hreached
  exact h.quiet hreached.closed hreached.rel

theorem Spans.isFreshTemporary_iff {mark : Nat} (h : s.Spans v) :
    s.isFreshTemporary v type mark = true ↔ v.type = type ∧ mark ≤ v.addr ∧
      v.addr + s.types.sizeOf type = s.arena.mark := by
  rw [Engine.isFreshTemporary_iff]
  refine and_congr_right fun htype => and_congr_right fun _ => ?_
  rw [← htype, Nat.mod_eq_of_lt h]

end Engine

inductive Job.Lies (b : Engine) (low high : Nat) : Job → Prop
  | construct {v : Value} (h : b.Lies low high v) :
      Lies b low high (.construct v)
  | field {scope : ScopeId} {v : Value} {field : Field} (h : b.Lies low high v)
      (hfield : field ∈ b.classFields v.type) :
      Lies b low high (.field scope v field)
  | finish {v : Value} (h : b.Lies low high v) : Lies b low high (.finish v)
  | body {id : FunctionId} {v : Value} (h : b.Lies low high v) :
      Lies b low high (.body id v [])

def Beginning.object : Beginning → Value
  | .field object _ _ => object
  | .body _ object _ _ => object

namespace Engine

variable {b s t : Engine} {low high : Nat} {job : Job} {jobs pending : List Job}
  {events : List Beginning} (hb : b.Good Stocked) (hhigh : high < Word.modulus)
include hb hhigh

/-- What one job leaves to be done lies where the job does. -/
theorem Lies.step (hs : b.Follows s) (hjob : job.Lies b low high)
    (hstep : job.Step s events jobs t) :
    b.Follows t ∧ (∀ job ∈ jobs, job.Lies b low high) ∧ ∀ e ∈ events,
      b.Lies low high e.object := by
  cases hjob with
  | @construct v h =>
      cases hstep with
      | scalar _ => exact ⟨hs, nofun, nofun⟩
      | @array _ elem len _ hparts =>
          -- The type has the same parts in `s`, since types that are known keep
          -- their sizes.
          rw [hs.types.array? h.has] at hparts
          have helem :=
            (TypeEntry.known_array? (hb.closed.types v.type) _ hparts).1
          refine ⟨hs, fun job hjob => ?_, nofun⟩
          obtain ⟨w, hw, rfl⟩ := List.mem_map.1 hjob
          obtain ⟨i, hi, rfl⟩ := List.mem_map.1 hw
          have hsame : s.element v elem i = b.element v elem i := by
            rw [Engine.element, Engine.element, hs.types.sizeOf elem helem]
          rw [hsame]
          exact .construct (h.element hb hhigh hparts (List.mem_range.1 hi))
      | object _ =>
          refine ⟨hs, fun job hjob => ?_, nofun⟩
          rcases List.mem_append.1 hjob with hjob | hjob
          · obtain ⟨field, hfield, rfl⟩ := List.mem_map.1 hjob
            rw [classFields_of_grown hs.types h.has] at hfield
            exact .field h hfield
          · rw [List.mem_singleton.1 hjob]
            exact .finish h
  | @field scope v field h hfield =>
      have hknown : s.Knows field.type :=
        hs.knows (hb.closed.knows_classFields v.type field hfield)
      have hevent : ∀ e ∈ [Beginning.field v field s],
          b.Lies low high e.object := fun e he => by
        rw [List.mem_singleton.1 he]
        exact h
      cases hstep with
      | initializer hinit hrun =>
          exact ⟨hs.initializes hknown hinit hrun, nofun, hevent⟩
      | byDefault _ =>
          refine ⟨hs, fun job hjob => ?_, hevent⟩
          rw [List.mem_singleton.1 hjob]
          exact .construct (h.slot hb hhigh hfield)
  | @finish v h =>
      have hknown : s.Knows v.type := (hs.knows (h.known hhigh)).1
      cases hstep with
      | bodiless hchosen => exact ⟨hs.chooses hknown hchosen, nofun, nofun⟩
      | finish hchosen =>
          refine ⟨hs.chooses hknown hchosen, fun job hjob => ?_, nofun⟩
          rw [List.mem_singleton.1 hjob]
          exact .body h
  | @body id v h =>
      cases hstep with
      | body hrun =>
          obtain ⟨fuel, result, hrun⟩ := hrun
          refine ⟨hs.invoke (h.known hhigh) hrun, nofun, fun e he => ?_⟩
          rw [List.mem_singleton.1 he]
          exact h

theorem Builds.lies (h : s.Builds jobs events pending t) (hs : b.Follows s)
    (hall : ∀ job ∈ jobs, job.Lies b low high) :
    (∀ job ∈ pending, job.Lies b low high) ∧ ∀ e ∈ events,
      b.Lies low high e.object := by
  induction h with
  | stop s jobs => exact ⟨hall, nofun⟩
  | step hstep _ ih =>
      obtain ⟨hjob, hrest⟩ := List.forall_mem_cons.1 hall
      obtain ⟨ht, hjobs, hevents⟩ := Lies.step hb hhigh hs hjob hstep
      obtain ⟨hpending, hlater⟩ := ih ht fun job hjob => by
        rcases List.mem_append.1 hjob with hjob | hjob
        · exact hjobs job hjob
        · exact hrest job hjob
      refine ⟨hpending, fun e he => ?_⟩
      rcases List.mem_append.1 he with he | he
      · exact hevents e he
      · exact hlater e he

end Engine

def Teardown.turns {α : Type} (x : Teardown α) (s : Engine) : List Turn :=
  match x (s, []) with
  | .ok _ st | .error _ st => st.2

namespace Engine

variable {s t : Engine} {v : Value} {elem : TypeId} {len : Nat}

/-! ## Main statement -/

structure PlacesParts (s : Engine) : Prop where
  live : ∀ {v}, s.arena.inBounds v.addr (s.types.sizeOf v.type) = true →
    s.Spans v
  denoted : ∀ {x f v}, s.Denotes x f v → s.Spans v
  /-- The parts of what spans its bytes are where the exact sums say, and lie in
  it. -/
  parts : ∀ {v piece offset}, s.Spans v → s.LaidOut v.type →
    s.HasPart v.type piece offset →
    v.view piece offset = v.part piece offset ∧ s.Spans (v.part piece offset) ∧
      offset + s.types.sizeOf piece ≤ s.types.sizeOf v.type
  /-- If it lies above the mark, so do they, and they are out of bounds. -/
  astray : ∀ {v piece offset len}, s.Spans v → s.LaidOut v.type →
    s.HasPart v.type piece offset → s.arena.mark ≤ v.addr → 0 < len →
    (v.view piece offset).addr = v.addr + offset ∧
    s.arena.Bars (v.addr + offset) len
  /-- A field of the receiver, or of what it leads to. -/
  member : ∀ {v w name t}, s.Knows v →
    Calls.memberOf v name s = .ok (.value w) t →
    ∃ x, (x = v ∨ ∃ u ref, Engine.stripRef u ref = .ok x) ∧
      t.PlacesField x name w
  /-- A field of the object that a method runs on. -/
  own : ∀ {frame name w}, s.fieldThroughSelf frame name = .ok (some w) →
    ∃ owner slot x, frame.call.bind CallRecord.owner = some owner ∧
      frame.local? "self" = some slot ∧
      s.stripRef (frame.resolve slot) = .ok x ∧
      s.PlacesField ⟨owner, x.addr⟩ name w
  index : ∀ {a i : Value} {elem len n} {kind : CoreKind},
    s.PlainArray a.type elem len →
    kind ∈ [CoreKind.int32, .int64] → i.type = kind.typeId → s.ReadsAs i n →
    0 ≤ n ∧ n < len →
    ∃ addr t,
      (∀ fuel, (Calls.ofFuel (fuel + 1)).binaryOperator "[]" a i s =
        .ok ⟨elem, addr⟩ t) ∧
      addr = (a.addr + n.toNat * s.types.sizeOf elem) % Word.modulus ∧
      (s.Spans a → addr = a.addr + n.toNat * s.types.sizeOf elem)
  copies : ∀ {dst src}, s.Spans dst → s.Spans ⟨dst.type, src.addr⟩ →
    s.LaidOut dst.type →
    s.parts dst src = s.exactParts dst src
  texts : ∀ {v elem len}, s.Spans v → (s.types.get v.type).array? =
    some (elem, len) → ∀ depth,
    s.textOf v (depth + 1) = (do
      let texts ← elementTexts
        (fun i => s.textOf (v.part elem (i * s.types.sizeOf elem)) depth) 0 len
      pure ("[" ++ ", ".intercalate texts ++ "]"))
  /-- The end of what may be a temporary. -/
  fresh : ∀ {v type mark},
    (s.isFreshTemporary v type mark = true ↔ v.type = type ∧
      mark ≤ v.addr ∧ (v.addr + s.types.sizeOf type) % Word.modulus =
        s.arena.mark) ∧
    (s.Spans v →
      (s.isFreshTemporary v type mark = true ↔ v.type = type ∧ mark ≤ v.addr ∧
        v.addr + s.types.sizeOf type = s.arena.mark))
  /-- All objects that are constructed from nothing along with a value lie in
  it. -/
  constructs : ∀ {v}, s.types.Has v.type → s.Exact v.type → s.Spans v →
    (∀ fuel, Concludes s [.construct v]
      ((Calls.ofFuel fuel).defaultConstruct v s)) ∧
      ∀ events pending t, s.Builds [.construct v] events pending t →
        ∀ e ∈ events, s.Lies v.addr (v.addr + s.types.sizeOf v.type) e.object
  destroys : ∀ {v}, s.types.Has v.type → s.Exact v.type → s.Spans v → ∀ fuel,
    Teardown.Erases (Teardown.destroy fuel v) ((Calls.ofFuel fuel).destroy v) ∧
      ∀ turn ∈ (Teardown.destroy fuel v).turns s,
        s.Lies v.addr (v.addr + s.types.sizeOf v.type) turn.object

theorem Fenced.spans (hs : s.Good Fenced) {x : Variable} {f : Frame}
    (h : s.Denotes x f v) : s.Spans v := by
  cases h with
  | intro hf hslot =>
      have hmark := hs.closed.mark_lt
      have hfinish := ArenaScript.Fenced.finish_le hs.inv hf hslot
      have hspan := congrArg (·.finish) (Fenced.span_resolve hs hf hslot)
      exact Nat.lt_of_le_of_lt (Nat.le_of_eq hspan)
        (Nat.lt_of_le_of_lt hfinish hmark)

section Placing

variable (hs : s.Good Stocked)
include hs

theorem member_placed {w : Value} {name : String} (hv : s.Knows v)
    (h : Calls.memberOf v name s = .ok (.value w) t) :
    ∃ x, (x = v ∨ ∃ u ref, Engine.stripRef u ref = .ok x) ∧
      t.PlacesField x name w := by
  obtain ⟨x, field, hx, hfield, rfl⟩ := memberFrom_eq_ok h
  have hreached : Reached Stocked Quiet s ((Calls.memberOf v name).after s) :=
    (Calls.Alike.memberFrom hs name hv (v.type.index + 1)).reached
  rw [Eval.after_ok h] at hreached
  exact ⟨x, hx, placesField hreached.good.inv x hfield⟩

theorem own_placed {frame : Frame} {name : String} {w : Value}
    (h : s.fieldThroughSelf frame name = .ok (some w)) :
    ∃ owner slot x, frame.call.bind CallRecord.owner = some owner ∧
      frame.local? "self" = some slot ∧
      s.stripRef (frame.resolve slot) = .ok x ∧
      s.PlacesField ⟨owner, x.addr⟩ name w := by
  obtain ⟨owner, slot, x, field, howner, hslot, hstrip, hfield, rfl⟩ :=
    fieldThroughSelf_eq_ok h
  exact ⟨owner, slot, x, howner, hslot, hstrip,
    placesField hs.inv ⟨owner, x.addr⟩ hfield⟩

theorem index_placed {a i : Value} {n : Int} {kind : CoreKind}
    (h : s.PlainArray a.type elem len) (hkind : kind ∈ [CoreKind.int32, .int64])
    (htype : i.type = kind.typeId) (hn : s.ReadsAs i n)
    (hbounds : 0 ≤ n ∧ n < len) :
    ∃ addr t,
      (∀ fuel, (Calls.ofFuel (fuel + 1)).binaryOperator "[]" a i s =
        .ok ⟨elem, addr⟩ t) ∧
      addr = (a.addr + n.toNat * s.types.sizeOf elem) % Word.modulus ∧
      (s.Spans a → addr = a.addr + n.toNat * s.types.sizeOf elem) := by
  obtain ⟨type, i⟩ := i
  obtain rfl : type = kind.typeId := htype
  have hinteger : kind.isInteger = true := by
    simp only [List.mem_cons, List.not_mem_nil, or_false] at hkind
    rcases hkind with rfl | rfl <;> rfl
  obtain ⟨scalar, hread, hscalar⟩ := hn.represents (hs.inv.core kind) hinteger
  obtain ⟨t, hrun⟩ := h.exists_index hs hkind hread hscalar a.addr
  have haddr : elementAddress a.addr n len (s.types.sizeOf elem) =
      .ok (s.element a elem n.toNat).addr := by
    rw [elementAddress, if_pos (by simpa using hbounds)]
    rfl
  refine ⟨(s.element a elem n.toNat).addr, t, fun fuel => ?_, element_addr ..,
    fun hspans => ?_⟩
  · exact (hrun fuel).trans (Eval.bind_inspect haddr)
  · exact congrArg Value.addr (hspans.element hs.inv h.parts (by omega))

theorem constructs_placed {events : List Beginning} {pending : List Job}
    (hhas : s.types.Has v.type) (hexact : s.Exact v.type) (h : s.Spans v)
    (hbuilds : s.Builds [.construct v] events pending t) :
    ∀ e ∈ events, s.Lies v.addr (v.addr + s.types.sizeOf v.type) e.object := by
  refine (Builds.lies hs h hbuilds (.refl hs.closed) fun job hjob => ?_).2
  rw [List.mem_singleton.1 hjob]
  exact .construct (.self hhas hexact)

theorem destroys_placed (hhas : s.types.Has v.type) (hexact : s.Exact v.type)
    (h : s.Spans v) (fuel : Nat) : ∀ turn ∈ (Teardown.destroy fuel v).turns s,
      s.Lies v.addr (v.addr + s.types.sizeOf v.type) turn.object := by
  have hv := Lies.self hhas hexact
  have hall : ∀ w ∈ [v], s.Lies v.addr (v.addr + s.types.sizeOf v.type) w :=
    fun w hw => by
    rw [List.mem_singleton.1 hw]
    exact hv
  have hturns : ∀ {turns : List Turn} {pending},
      s.Unrolls [v] (turns.map Turn.object) pending →
      ∀ turn ∈ turns,
        s.Lies v.addr (v.addr + s.types.sizeOf v.type) turn.object :=
    fun hunrolls turn hturn =>
      (hunrolls.lies hs h hall).1 turn.object (List.mem_map_of_mem hturn)
  have hends : Teardown.Ends s [v] [] (Teardown.destroy fuel v (s, [])) :=
    Teardown.destroy_ends hs.closed fuel (hv.known h) (.refl hs.closed)
  cases hends with
  | done t turns hresult _ hunrolls _ =>
      rw [Teardown.turns, hresult]
      exact hturns hunrolls
  | stopped e t turns pending hresult hunrolls _ =>
      rw [Teardown.turns, hresult]
      exact hturns hunrolls

end Placing

theorem placesParts (hs : s.Good fun s => s.Stocked ∧ s.Fenced) :
    s.PlacesParts := by
  have hstocked : s.Good Stocked := ⟨hs.closed, hs.inv.1⟩
  have hfenced : s.Good Fenced := ⟨hs.closed, hs.inv.2⟩
  exact {
    live := hs.spans
    denoted := Fenced.spans hfenced
    parts := fun hspans hlaid hpart => hspans.parts hstocked.inv hlaid hpart
    astray := fun hspans hlaid hpart habove hlen =>
      ⟨congrArg Value.addr (hspans.parts hstocked.inv hlaid hpart).1,
        Arena.bars_above (Nat.le_trans habove (Nat.le_add_right _ _)) hlen⟩
    member := member_placed hstocked
    own := own_placed hstocked
    index := index_placed hstocked
    copies := fun hdst hsrc hlaid => parts_eq hstocked.inv hdst hsrc hlaid
    texts := fun hspans hparts => textOf_array hstocked.inv hspans hparts
    fresh := ⟨isFreshTemporary_iff, Spans.isFreshTemporary_iff⟩
    constructs := fun hhas hexact hspans =>
      ⟨fun fuel => (Calls.ofFuel_concludes fuel).1 _ s,
        fun _ _ _ => constructs_placed hstocked hhas hexact hspans⟩
    destroys := fun hhas hexact hspans fuel =>
      ⟨Teardown.Erases.destroy fuel _,
        destroys_placed hstocked hhas hexact hspans fuel⟩ }

end Engine

/-- Addresses are exact sums for all that spans its bytes and whose layout is
exact, in every reachable engine and at any time during a request.  For other
values they are the sums modulo the size of a word. -/
theorem Reachable.parts_placed {s : Engine} (hs : Reachable s) :
    s.PlacesParts ∧ ∀ (fuel : Nat) (request : Request), s.Knows request →
      Calls.Throughout Engine.PlacesParts fuel request.perform s :=
  ⟨Engine.placesParts hs.good, fun fuel _ hrequest =>
    hs.throughout (fun _ => Engine.placesParts) fuel hrequest⟩

/-! ### An array of cells, and a reference to nowhere -/

namespace Strays

open Cells (node variableOf run)
open Elements (number)

variable {s : Engine} {type : TypeId} {types : List TypeId}

def measured (s : Engine) (types : List TypeId) : Bool :=
  types.all fun type =>
    (s.types.get type).structural?.all (fun body =>
      decide (Layout.exactSize s.types.extentOf body.kind body.fields <
        Word.modulus) && (body.kind != .enumKind || body.fields.isEmpty) &&
          body.fields.all fun field => types.contains field.type) &&
    (s.types.get type).array?.all fun parts => types.contains parts.1

theorem exact (h : measured s types = true) (htype : type ∈ types) :
    s.Exact type := by
  have hall := List.all_eq_true.1 h
  have hmem : ∀ {inner}, s.Comprises type inner → inner ∈ types := by
    intro inner hinner
    induction hinner with
    | self => exact htype
    | part _ hpart ih =>
        have hentry := hall _ ih
        cases hpart with
        | field hbody hfield =>
            simp only [hbody, Option.all_some, Bool.and_eq_true,
              List.all_eq_true] at hentry
            exact List.contains_iff_mem.1 (hentry.1.2 _ hfield)
        | element hparts _ =>
            simp only [hparts, Option.all_some, Bool.and_eq_true] at hentry
            exact List.contains_iff_mem.1 hentry.2
  intro inner hinner body hbody
  have hentry := hall _ (hmem hinner)
  simp only [hbody, Option.all_some, Bool.and_eq_true, decide_eq_true_eq,
    Bool.or_eq_true, bne_iff_ne, List.isEmpty_iff] at hentry
  obtain ⟨⟨⟨hfits, hkind⟩, -⟩, -⟩ := hentry
  exact ⟨hfits, fun henum => hkind.resolve_left fun hnot => hnot henum⟩

theorem checked :
    measured Cells.engine [⟨16⟩, ⟨15⟩, ⟨4⟩, ⟨1⟩] = true ∧
      Cells.engine.types.Has ⟨16⟩ ∧
      Cells.engine.types.sizeOf ⟨16⟩ = 16 ∧
      Cells.engine.arena.inBounds 8 (Cells.engine.types.sizeOf ⟨16⟩) =
        true := by
  decide +kernel

def dotted (names : List String) : List Node :=
  (names.map fun name => node .identifier name []).intersperse
    (node .operator "." [])

/-- `union U { r: Ref<C>; k: Int64 }`. -/
def union : Node :=
  node .unionDecl "U"
    [node .variableDefinition "r"
      [node .typeName "Ref" [node .typeName "C" []]],
      variableOf "k" "Int64"]

def assignment (left right : List Node) : Node :=
  node .expression "" (left ++ node .operator "=" [] :: right)

def engine : Engine :=
  run [number "n" "42",
    node .classDecl "C" [variableOf "x" "Int64", variableOf "p" "Int16",
      variableOf "q" "Int16"],
    union, variableOf "u" "U",
    assignment (dotted ["u", "k"])
      [node .integerLiteral "9223372036854775807" []],
    assignment (dotted ["u", "k"])
      (dotted ["u", "k"] ++ node .operator "+" [] :: dotted ["u", "k"])]

def evaluated (nodes : List Node) : Option Value :=
  ((Calls.ofFuel 9).evaluate (node .expression "" nodes)).value? engine

end Strays

open Strays in
theorem Reachable.parts_placed_cells :
    Reachable Cells.engine ∧ Cells.engine.Exact ⟨16⟩ ∧
    Cells.engine.Spans ⟨⟨16⟩, 8⟩ ∧
      (∀ events pending t,
        Cells.engine.Builds [.construct ⟨⟨16⟩, 8⟩] events pending t →
        ∀ e ∈ events, Cells.engine.Lies 8 24 e.object) ∧
      ∀ fuel, ∀ turn ∈ (Teardown.destroy fuel ⟨⟨16⟩, 8⟩).turns Cells.engine,
        Cells.engine.Lies 8 24 turn.object := by
  have hplaces : Cells.engine.PlacesParts :=
    (parts_placed (Cells.reachable _)).1
  obtain ⟨hmeasured, hhas, hsize, hlive⟩ := checked
  have hexact : Cells.engine.Exact ⟨16⟩ := exact hmeasured (by simp)
  have hspans : Cells.engine.Spans ⟨⟨16⟩, 8⟩ := hplaces.live hlive
  have hconstructs := (hplaces.constructs hhas hexact hspans).2
  have hdestroys := fun fuel => (hplaces.destroys hhas hexact hspans fuel).2
  rw [hsize] at hconstructs hdestroys
  exact ⟨Cells.reachable _, hexact, hspans, hconstructs, hdestroys⟩

open Strays in
/-- The object would go beyond the end of the addresses, and one of its fields
is found in a variable at the other end. -/
theorem stray_field_found :
    Reachable engine ∧ engine.lookupVariable "n" = .ok (some ⟨.int32, 8⟩) ∧
      evaluated (dotted ["u", "r"]) = some ⟨⟨17⟩, 12⟩ ∧
      engine.stripRef ⟨⟨17⟩, 12⟩ = .ok ⟨⟨15⟩, 18446744073709551614⟩ ∧
      ((engine.types.get ⟨15⟩).structural?.bind (·.field? "q")).map (·.offset) =
        some 10 ∧
      engine.types.sizeOf ⟨15⟩ = 16 ∧ engine.arena.capacity = 128 ∧
      evaluated (dotted ["u", "r", "q"]) = some ⟨CoreKind.int16.typeId, 8⟩ ∧
      engine.readScalar ⟨CoreKind.int16.typeId, 8⟩ = .ok (.int 42) :=
  ⟨Cells.reachable _, by decide +kernel⟩

end ArenaScript
