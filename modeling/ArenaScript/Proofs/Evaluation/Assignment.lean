import ArenaScript.Proofs.Evaluation.Copying

/-!
# Assignment

Assignment is a recursion of its own: it chooses an operator for each part of a
value, where copying chooses a constructor.  Both are shown to do what one
operation on the arena does, and therefore the same, also where they fail.  The
operation keeps to the place that is assigned to, if no class in it is too big
for a word.

A reference is assigned through: its target is assigned to, and the reference
itself is left as it is.
-/

namespace ArenaScript

open Engine (Good Stocked)

/-! ## Operations that keep to their target -/

namespace Arena

variable {a : Arena} {size : Nat}

structure ChangedIn (a : Arena) (addr len : Nat) (b : Arena) : Prop where
  capacity : b.capacity = a.capacity
  mark : b.mark = a.mark
  frames : b.frames = a.frames
  stored : b.bytes.size = a.bytes.size
  outside : ∀ i, i < addr ∨ addr + len ≤ i → b.byteAt i = a.byteAt i

namespace ChangedIn

variable {b c : Arena} {addr len other part : Nat}

theorem refl (a : Arena) (addr len : Nat) : a.ChangedIn addr len a :=
  ⟨rfl, rfl, rfl, rfl, fun _ _ => rfl⟩

theorem trans (hab : a.ChangedIn addr len b) (hbc : b.ChangedIn addr len c) :
    a.ChangedIn addr len c where
  capacity := hbc.capacity.trans hab.capacity
  mark := hbc.mark.trans hab.mark
  frames := hbc.frames.trans hab.frames
  stored := hbc.stored.trans hab.stored
  outside i hi := (hbc.outside i hi).trans (hab.outside i hi)

theorem widen (h : a.ChangedIn other part b) (hlow : addr ≤ other)
    (hhigh : other + part ≤ addr + len) : a.ChangedIn addr len b :=
  { h with outside := fun i hi => h.outside i (by omega) }

theorem wellFormed (h : a.ChangedIn addr len b) (ha : a.WellFormed) :
    b.WellFormed where
  bounds := by
    rw [bases, h.capacity, h.mark, h.frames]
    exact ha.bounds
  stored := by
    rw [h.mark, h.stored]
    exact ha.stored

theorem readWord (h : a.ChangedIn addr len b) {word : Nat}
    (hword : word + 8 ≤ addr ∨ addr + len ≤ word) :
    b.readWord word = a.readWord word := by
  have hload : load b.bytes word 8 = load a.bytes word 8 :=
    load_congr fun i _ hi => h.outside i (by omega)
  rw [Arena.readWord, Arena.readWord, Arena.read, Arena.read,
    inBounds_congr h.mark, hload]

end ChangedIn

/-- On live places of this size the operation succeeds, and it changes nothing
but the first. -/
def Confined (size : Nat) (op : Nat → Nat → Op Unit) : Prop :=
  ∀ a : Arena, a.WellFormed → a.mark < Word.modulus → ∀ dst src,
    a.inBounds dst size = true →
    a.inBounds src size = true → ∃ b, op dst src a = .ok () b ∧
      a.ChangedIn dst size b

theorem confined_copy (size : Nat) :
    Confined size fun dst src => Arena.copy src dst size := by
  intro a ha _ dst src hdst hsrc
  refine ⟨{ a with bytes := store a.bytes dst (load a.bytes src size) }, ?_,
    rfl, rfl, rfl,
    size_store _ _ _, fun i hi => ?_⟩
  · simp only [Arena.copy, hdst, hsrc, if_true]
  have hroom : (load a.bytes src size).length = 0 ∨
      dst + (load a.bytes src size).length ≤ a.bytes.size := by
    rw [length_load]
    exact (ha.range_le hdst).2
  refine (getD_store _ _ _ _ hroom).trans (if_neg ?_)
  rw [length_load]
  omega

theorem confined_forM (sizeOf : TypeId → Nat) {total dst src : Nat}
    {op : TypeId → Nat → Nat → Op Unit} {pairs : List (Value × Value)}
    (hop : ∀ pair ∈ pairs, Confined (sizeOf pair.1.type) (op pair.1.type))
    (hplaced : ∀ pair ∈ pairs, ∃ offset, pair.1.addr = dst + offset ∧
      pair.2.addr = src + offset ∧
      offset + sizeOf pair.1.type ≤ total)
    (ha : a.WellFormed) (hmark : a.mark < Word.modulus)
    (hdst : a.inBounds dst total = true) (hsrc : a.inBounds src total = true) :
    ∃ b, pairs.forM (fun pair => op pair.1.type pair.1.addr pair.2.addr) a =
      .ok () b ∧
      a.ChangedIn dst total b := by
  induction pairs generalizing a with
  | nil => exact ⟨a, rfl, .refl a dst total⟩
  | cons pair rest ih =>
      obtain ⟨hpair, hrest⟩ := List.forall_mem_cons.1 hop
      obtain ⟨⟨offset, hfirst, hsecond, hle⟩, hplaced⟩ :=
        List.forall_mem_cons.1 hplaced
      obtain ⟨b, hb, hab⟩ := hpair a ha hmark pair.1.addr pair.2.addr
        (hfirst ▸ inBounds_piece hdst hle) (hsecond ▸ inBounds_piece hsrc hle)
      have hchanged : a.ChangedIn dst total b := hab.widen (by omega) (by omega)
      obtain ⟨c, hc, hbc⟩ :=
        ih hrest hplaced (hchanged.wellFormed ha) (hchanged.mark ▸ hmark)
        (inBounds_congr hchanged.mark .. ▸ hdst)
          (inBounds_congr hchanged.mark .. ▸ hsrc)
      refine ⟨c, ?_, hchanged.trans hbc⟩
      change (op pair.1.type pair.1.addr pair.2.addr >>= fun _ =>
        rest.forM fun pair => op pair.1.type pair.1.addr pair.2.addr) a = _
      simp only [Bind.bind, EStateM.bind, hb, hc]

end Arena

namespace Engine

variable {base s t : Engine} {type ref : TypeId} {n dst src : Nat}

/-! ## Computations that do what an operation does -/

/-- Run in any engine that `base` leads to, `x` does to the arena what `op`
does. -/
structure Performs (base : Engine) (x : Eval Unit) (op : Arena.Op Unit) :
    Prop where
  ok : ∀ {s arena}, base.Prepares s → s.Good Stocked →
    op s.arena = .ok () arena →
    ∃ t, x s = .ok () t ∧ s.Prepares t ∧ t.Good Stocked ∧ t.arena = arena
  error : ∀ {s e arena}, base.Prepares s → s.Good Stocked →
    op s.arena = .error e arena →
    ∃ t, x s = .error (.failed e) t ∧ t.arena = arena

namespace Performs

variable {x y : Eval Unit} {op op' : Arena.Op Unit}

theorem pure (base : Engine) : base.Performs (Pure.pure ()) (Pure.pure ()) where
  ok hs hgood h := by
    cases h
    exact ⟨_, rfl, .refl _, hgood, rfl⟩
  error _ _ h := by cases h

theorem seq (hx : base.Performs x op) (hy : base.Performs y op') :
    base.Performs (x >>= fun _ => y) (op >>= fun _ => op') where
  ok {s _} hs hgood h := by
    cases hop : op s.arena with
    | error e a =>
        simp only [Bind.bind, EStateM.bind, hop] at h
        cases h
    | ok _ a =>
        simp only [Bind.bind, EStateM.bind, hop] at h
        obtain ⟨t, hxt, hst, ht, rfl⟩ := hx.ok hs hgood hop
        obtain ⟨u, hyu, htu, hu, rfl⟩ := hy.ok (hs.trans hst) ht h
        exact ⟨u, (Eval.bind_ok hxt).trans hyu, hst.trans htu, hu, rfl⟩
  error {s _ _} hs hgood h := by
    cases hop : op s.arena with
    | error e a =>
        simp only [Bind.bind, EStateM.bind, hop] at h
        cases h
        obtain ⟨t, hxt, rfl⟩ := hx.error hs hgood hop
        exact ⟨t, Eval.bind_error hxt, rfl⟩
    | ok _ a =>
        simp only [Bind.bind, EStateM.bind, hop] at h
        obtain ⟨t, hxt, hst, ht, rfl⟩ := hx.ok hs hgood hop
        obtain ⟨u, hyu, rfl⟩ := hy.error (hs.trans hst) ht h
        exact ⟨u, (Eval.bind_ok hxt).trans hyu, rfl⟩

theorem forM {α : Type} {f : α → Eval Unit} {g : α → Arena.Op Unit}
    {list : List α} (h : ∀ a ∈ list, base.Performs (f a) (g a)) :
    base.Performs (list.forM f) (list.forM g) := by
  induction list with
  | nil => exact .pure base
  | cons a rest ih =>
      obtain ⟨ha, hrest⟩ := List.forall_mem_cons.1 h
      exact ha.seq (ih hrest)

theorem copy (base : Engine) (src dst len : Nat) :
    base.Performs (Eval.onArena (Arena.copy src dst len))
      (Arena.copy src dst len) where
  ok {s arena} hs hgood h := by
    have hrun : Eval.onArena (Arena.copy src dst len) s =
        .ok () { s with arena } :=
      Eval.onArena_ok h
    have hreached := (Sound.copy hgood src dst len).reached
    rw [Eval.after_ok hrun] at hreached
    obtain ⟨-, rfl⟩ := Arena.copy_eq_ok h
    exact ⟨_, hrun, ⟨hreached.rel, rfl, fun _ h => h, fun _ _ h => h⟩,
      hreached.good, rfl⟩
  error _ _ h := ⟨_, Eval.onArena_error h, rfl⟩

theorem prepared (hy : base.Performs y op)
    (h : ∀ s : Engine, base.Prepares s → s.Good Stocked →
      ∃ t, s.Prepares t ∧ t.Good Stocked ∧ t.arena = s.arena ∧ x s = y t) :
    base.Performs x op where
  ok {s _} hs hgood hop := by
    obtain ⟨t, hst, ht, harena, hrun⟩ := h s hs hgood
    obtain ⟨u, hyu, htu, hu, rfl⟩ := hy.ok (hs.trans hst) ht (harena ▸ hop)
    exact ⟨u, hrun.trans hyu, hst.trans htu, hu, rfl⟩
  error {s _ _} hs hgood hop := by
    obtain ⟨t, hst, ht, harena, hrun⟩ := h s hs hgood
    obtain ⟨u, hyu, rfl⟩ := hy.error (hs.trans hst) ht (harena ▸ hop)
    exact ⟨u, hrun.trans hyu, rfl⟩

end Performs

/-! ## What the operator does -/

def DeclaresAssigning (s : Engine) (type : TypeId) : Prop :=
  s.Declares type true "=" [type, type]

theorem assign_of_binaryOperator {c : Calls} {left right : Value}
    {x : Eval (Option Value)} (h : c.binaryOperator "=" left right s =
      (do
        match ← x with
        | some value => pure value
        | none => Eval.read voidValue) t) :
    c.assign left right s =
      (do
        let _ ← x
        pure ()) t := by
  simp only [Calls.assign, Bind.bind, EStateM.bind, h]
  cases x t with
  | ok result u => cases result <;> rfl
  | error e u => rfl

theorem exists_assign {copying native : Native} (hs : s.Good Stocked)
    (htype : s.types.Has type)
    (hcomplete : (s.types.get type).isComplete = true) (hvoid : type ≠ .void)
    (hundeclared : ¬ s.DeclaresAssigning type)
    (hreferable : s.types.Referable type)
    (hvalue : (s.types.get type).referenceTarget? = none)
    (hcopying : (s.types.get type).copying? s.types = some copying)
    (hnative : copying.assigning? = some native) (dst src : Nat) :
    ∃ t, s.Prepares t ∧ t.Good Stocked ∧ t.arena = s.arena ∧ ∀ n,
      (Calls.ofFuel (n + 1)).assign ⟨type, dst⟩ ⟨type, src⟩ s =
        (do
          let _ ← (Calls.ofFuel n).runNative native [⟨type, dst⟩, ⟨type, src⟩]
          pure ()) t := by
  let m (ref : TypeId) : Member := .update "=" ref type type native
  have hlabel : ∀ ref, (m ref).isOperator = true ∧ (m ref).name = "=" :=
    fun _ => ⟨rfl, rfl⟩
  obtain ⟨ref, t, hst, ht, harena, htarget, -, hrun⟩ :=
    exists_binaryOperator dst ⟨type, src⟩ hs
    htype hcomplete hvoid hlabel (fun _ => rfl) hundeclared hreferable
    fun _ => .assign hcopying hnative
  have hadapted : t.adaptArgs (m ref).params [⟨type, dst⟩, ⟨type, src⟩] =
      .ok [⟨type, dst⟩, ⟨type, src⟩] := by
    refine adaptArgs_place htarget (adaptArgs_value ?_ rfl)
    rw [hst.quiet.grows.types.referenceTarget? htype, hvalue]
  exact ⟨t, hst, ht, harena,
    fun n => assign_of_binaryOperator (hrun _ hadapted n)⟩

/-! ## What copying and assignment do -/

/-- Values of the type are assigned by the operator that the engine provides,
which takes them as they are. -/
structure TakesOver (s : Engine) (type : TypeId) : Prop where
  referable : s.types.Referable type
  value : (s.types.get type).referenceTarget? = none
  undeclared : ¬ s.DeclaresAssigning type

/-- A type that is copied and assigned without a constructor or an operator of
its own, and none of its parts is a reference. -/
structure Assignable (s : Engine) (type : TypeId) : Prop where
  plain : s.PlainType type
  parts : ∀ part, s.Visits type part → s.TakesOver part

theorem Assignable.takesOver (h : s.Assignable type) : s.TakesOver type :=
  h.parts type (.self type)

structure Transfers (base : Engine) (type : TypeId) (n : Nat)
    (op : Nat → Nat → Arena.Op Unit) : Prop where
  copies : ∀ dst src,
    base.Performs ((Calls.ofFuel n).copyConstruct ⟨type, dst⟩ ⟨type, src⟩)
      (op dst src)
  assigns : ∀ dst src,
    base.Performs ((Calls.ofFuel n).assign ⟨type, dst⟩ ⟨type, src⟩) (op dst src)

def FitsWords (s : Engine) (type : TypeId) : Prop :=
  ∀ part, s.Visits type part → s.FitsWord part

def Transferable (base : Engine) (type : TypeId) : Prop :=
  ∃ op depth, (∀ n, depth ≤ n → base.Transfers type n op) ∧
    (base.FitsWords type → Arena.Confined (base.types.sizeOf type) op)

theorem copying_cases {native : Native}
    (hvalue : (s.types.get type).referenceTarget? = none)
    (hnative : (s.types.get type).copying? s.types = some native) :
    native = .copyBytes (s.types.sizeOf type) ∨ native = .copyMembers := by
  unfold TypeEntry.copying? at hnative
  split at hnative
  · cases hnative
  · cases hnative
    exact .inl rfl
  · cases hnative
    exact .inl rfl
  · split at hnative
    · cases hnative
      exact .inl rfl
    · cases hnative
      exact .inr rfl
  · rw [hvalue] at hnative
    cases hnative
  · obtain ⟨target, -, rfl⟩ := Option.map_eq_some_iff.1 hnative
    exact .inl rfl
  · obtain ⟨parts, -, rfl⟩ := Option.map_eq_some_iff.1 hnative
    split
    · exact .inr rfl
    · exact .inl rfl

theorem Prepares.parts (h : s.Prepares t) (hs : s.Closed)
    (htype : s.types.Has type) (dst src : Nat) :
    t.parts ⟨type, dst⟩ ⟨type, src⟩ = s.parts ⟨type, dst⟩ ⟨type, src⟩ := by
  have hgrown := h.quiet.grows.types
  have hfixed := h.fixed htype
  have hnone : (s.types.get type).structural? = none →
      (t.types.get type).structural? = none := by
    intro hnone
    cases hshape : (t.types.get type).shape with
    | structural body =>
        obtain ⟨body', hshape', -⟩ :=
          TypeEntry.structural_of_fixed hfixed hshape
        simp [TypeEntry.structural?, hshape'] at hnone
    | core | callable | template => simp only [TypeEntry.structural?, hshape]
  have helements : ∀ elem len, (s.types.get type).array? = some (elem, len) →
      t.types.sizeOf elem = s.types.sizeOf elem := fun elem len hparts =>
    hgrown.sizeOf elem (TypeEntry.known_array? (hs.types type) _ hparts).1
  cases hstructural : (s.types.get type).structural? with
  | none =>
      simp only [Engine.parts, hstructural, hnone hstructural, Option.filter,
        hgrown.array? htype]
      cases harray : (s.types.get type).array? with
      | none => rfl
      | some parts => simp only [Option.map_some, element, helements _ _ harray]
  | some body =>
      have hshape := TypeEntry.shape_of_structural? hstructural
      obtain ⟨body', hshape', hkind, hfields, -⟩ :=
        TypeEntry.structural_of_fixed hfixed.symm hshape
      have harray : (s.types.get type).array? = none := by
        simp only [TypeEntry.array?, hshape]
      have hlater : (t.types.get type).structural? = some body' := by
        simp only [TypeEntry.structural?, hshape']
      cases hclass : body'.kind == .classKind with
      | true =>
          simp [Engine.parts, hstructural, hlater, Option.filter, hkind,
            hclass, hfields]
      | false =>
          simp [Engine.parts, hstructural, hlater, Option.filter, hkind, hclass,
            hgrown.array? htype, harray]

def partwise (base : Engine) (type : TypeId)
    (op : TypeId → Nat → Nat → Arena.Op Unit) (dst src : Nat) : Arena.Op Unit :=
  match base.parts ⟨type, dst⟩ ⟨type, src⟩ with
  | some pairs => pairs.forM fun pair => op pair.1.type pair.1.addr pair.2.addr
  | none => Arena.copy src dst (base.types.sizeOf type)

theorem performs_memberwise {f : Value → Value → Eval Unit}
    {op : TypeId → Nat → Nat → Arena.Op Unit} (hbase : base.Closed)
    (htype : base.types.Has type)
    (hpairs : ∀ pairs, base.parts ⟨type, dst⟩ ⟨type, src⟩ = some pairs →
      ∀ pair ∈ pairs,
      base.Performs (f pair.1 pair.2)
        (op pair.1.type pair.1.addr pair.2.addr)) :
    base.Performs (Calls.memberwise f ⟨type, dst⟩ ⟨type, src⟩)
      (base.partwise type op dst src) := by
  -- The parts and the size are the same in any engine that `base` leads to.
  have hsame : ∀ s : Engine, base.Prepares s →
      Calls.memberwise f ⟨type, dst⟩ ⟨type, src⟩ s =
        (match base.parts ⟨type, dst⟩ ⟨type, src⟩ with
        | some pairs => pairs.forM fun pair => f pair.1 pair.2
        | none =>
            Eval.onArena (Arena.copy src dst (base.types.sizeOf type))) s := by
    intro s hs
    rw [Calls.memberwise, Eval.bind_read, hs.parts hbase htype]
    cases base.parts ⟨type, dst⟩ ⟨type, src⟩ with
    | some pairs => rfl
    | none =>
        change (Eval.read (fun s => s.types.sizeOf type) >>= fun size =>
          Eval.onArena (Arena.copy src dst size)) s = _
        rw [Eval.bind_read, hs.quiet.grows.types.sizeOf type htype]
  refine Performs.prepared ?_ fun s hs hgood =>
    ⟨s, .refl s, hgood, rfl, hsame s hs⟩
  unfold partwise
  cases hparts : base.parts ⟨type, dst⟩ ⟨type, src⟩ with
  | some pairs => exact .forM fun pair hpair => hpairs pairs hparts pair hpair
  | none => exact .copy base src dst _

theorem Assignable.exists_operator {copying native : Native}
    (h : base.Assignable type)
    (hcopying : (base.types.get type).copying? base.types = some copying)
    (hnative : copying.assigning? = some native) (hbase : base.Closed)
    (hs : base.Prepares s) (hgood : s.Good Stocked) (dst src : Nat) :
    ∃ t, s.Prepares t ∧ t.Good Stocked ∧ t.arena = s.arena ∧ ∀ n,
      (Calls.ofFuel (n + 1)).assign ⟨type, dst⟩ ⟨type, src⟩ s =
        (do
          let _ ← (Calls.ofFuel n).runNative native [⟨type, dst⟩, ⟨type, src⟩]
          pure ()) t := by
  have hhas := h.plain.has
  have hgrown := hs.quiet.grows.types
  refine exists_assign hgood (Nat.lt_of_lt_of_le hhas hgrown.size) ?_
    h.plain.ne_void (hs.undeclared hhas h.takesOver.undeclared)
    (hs.referable type hhas h.takesOver.referable) ?_ ?_ hnative dst src
  · rw [hgrown.isComplete hhas, h.plain.isComplete]
  · rw [hgrown.referenceTarget? hhas, h.takesOver.value]
  · rw [hs.copying hbase hhas, hcopying]

theorem bind_ignored (x : Eval Unit) (result : Option Value) (s : Engine) :
    (do
      let _ ← (do
        x
        pure result : Eval (Option Value))
      pure ()) s = x s := by
  simp only [Bind.bind, EStateM.bind]
  cases x s <;> rfl

theorem Assignable.transfers_bytes (h : base.Assignable type)
    (hbase : base.Closed) (hnative : (base.types.get type).copying? base.types =
      some (.copyBytes (base.types.sizeOf type))) (n : Nat) :
    base.Transfers type (n + 2) fun dst src =>
      Arena.copy src dst (base.types.sizeOf type) where
  copies dst src := by
    refine (Performs.copy base src dst _).prepared fun s hs hgood => ?_
    obtain ⟨t, hst, ht, harena, hcopy⟩ :=
      h.plain.exists_native hbase h.takesOver.referable hnative hs hgood dst src
    exact ⟨t, hst, ht, harena, (hcopy n).trans (bind_ignored _ _ t)⟩
  assigns dst src := by
    refine (Performs.copy base src dst _).prepared fun s hs hgood => ?_
    obtain ⟨t, hst, ht, harena, hassign⟩ :=
      h.exists_operator hnative rfl hbase hs hgood dst src
    exact ⟨t, hst, ht, harena, (hassign (n + 1)).trans (bind_ignored _ _ t)⟩

theorem Assignable.transfers_members {parts : List TypeId}
    {op : TypeId → Nat → Nat → Arena.Op Unit} (h : base.Assignable type)
    (hbase : base.Closed)
    (hnative : (base.types.get type).copying? base.types = some .copyMembers)
    (htyped : ∀ dst src pairs, base.parts ⟨type, dst⟩ ⟨type, src⟩ = some pairs →
      ∀ pair ∈ pairs, pair.1.type ∈ parts ∧ pair.2.type = pair.1.type)
    (hparts : ∀ part ∈ parts, ∀ m, n ≤ m → base.Transfers part m (op part)) :
    base.Transfers type (n + 2) (base.partwise type op) where
  copies dst src := by
    have hpairs : ∀ pairs, base.parts ⟨type, dst⟩ ⟨type, src⟩ = some pairs →
        ∀ pair ∈ pairs,
        base.Performs ((Calls.ofFuel n).copyConstruct pair.1 pair.2)
          (op pair.1.type pair.1.addr pair.2.addr) := by
      rintro pairs hpairs ⟨⟨part, _⟩, ⟨_, _⟩⟩ hpair
      obtain ⟨hpart, heq⟩ := htyped dst src pairs hpairs _ hpair
      cases heq
      exact (hparts part hpart n (Nat.le_refl n)).copies _ _
    refine (performs_memberwise hbase h.plain.has hpairs).prepared
      fun s hs hgood => ?_
    obtain ⟨t, hst, ht, harena, hcopy⟩ :=
      h.plain.exists_native hbase h.takesOver.referable hnative hs hgood dst src
    exact ⟨t, hst, ht, harena, (hcopy n).trans (bind_ignored _ _ t)⟩
  assigns dst src := by
    have hpairs : ∀ pairs, base.parts ⟨type, dst⟩ ⟨type, src⟩ = some pairs →
        ∀ pair ∈ pairs,
        base.Performs ((Calls.ofFuel (n + 1)).assign pair.1 pair.2)
          (op pair.1.type pair.1.addr pair.2.addr) := by
      rintro pairs hpairs ⟨⟨part, _⟩, ⟨_, _⟩⟩ hpair
      obtain ⟨hpart, heq⟩ := htyped dst src pairs hpairs _ hpair
      cases heq
      exact (hparts part hpart (n + 1) (Nat.le_succ n)).assigns _ _
    refine (performs_memberwise hbase h.plain.has hpairs).prepared
      fun s hs hgood => ?_
    obtain ⟨t, hst, ht, harena, hassign⟩ :=
      h.exists_operator hnative rfl hbase hs hgood dst src
    exact ⟨t, hst, ht, harena, (hassign (n + 1)).trans (bind_ignored _ _ t)⟩

/-- The place of the whole is left if each part keeps to its own place. -/
theorem confined_partwise {op : TypeId → Nat → Nat → Arena.Op Unit}
    {pieces : List (Nat × TypeId)} (hmade : base.MadeOf type pieces)
    (hpieces : ∀ piece ∈ pieces,
      Arena.Confined (base.types.sizeOf piece.2) (op piece.2)) :
    Arena.Confined (base.types.sizeOf type) (base.partwise type op) := by
  intro a ha hmark dst src hdst hsrc
  have hword : ∀ {addr}, a.inBounds addr (base.types.sizeOf type) = true →
      addr + base.types.sizeOf type < Word.modulus := by
    intro addr hin
    simp only [Arena.inBounds, Bool.and_eq_true, decide_eq_true_eq] at hin
    omega
  simp only [partwise,
    hmade.parts base (.refl base) dst src (hword hdst) (hword hsrc)]
  refine Arena.confined_forM base.types.sizeOf (fun pair hpair => ?_)
    (fun pair hpair => ?_) ha hmark hdst hsrc
  · obtain ⟨piece, hpiece, rfl⟩ := List.mem_map.1 hpair
    exact hpieces piece hpiece
  · obtain ⟨piece, hpiece, rfl⟩ := List.mem_map.1 hpair
    exact ⟨piece.1, rfl, rfl, hmade.inside piece hpiece⟩

theorem Assignable.transferable_bytes (h : base.Assignable type)
    (hbase : base.Closed) (hnative : (base.types.get type).copying? base.types =
      some (.copyBytes (base.types.sizeOf type))) : base.Transferable type := by
  refine ⟨_, 2, fun n hn => ?_, fun _ => Arena.confined_copy _⟩
  obtain ⟨m, rfl⟩ := Nat.exists_eq_add_of_le' hn
  exact h.transfers_bytes hbase hnative m

theorem Assignable.transferable_members (h : base.Assignable type)
    (parts : List TypeId) (hbase : base.Closed)
    (hnative : (base.types.get type).copying? base.types = some .copyMembers)
    (htyped : ∀ dst src pairs, base.parts ⟨type, dst⟩ ⟨type, src⟩ = some pairs →
      ∀ pair ∈ pairs, pair.1.type ∈ parts ∧ pair.2.type = pair.1.type)
    (hparts : ∀ part ∈ parts, base.Transferable part ∧ ∀ p, base.Visits part p →
      base.Visits type p)
    (hconfined : base.FitsWords type →
      ∀ op : TypeId → Nat → Nat → Arena.Op Unit,
      (∀ part ∈ parts, Arena.Confined (base.types.sizeOf part) (op part)) →
        Arena.Confined (base.types.sizeOf type) (base.partwise type op)) :
    base.Transferable type := by
  have hchoice : ∀ part, ∃ op depth, part ∈ parts →
      (∀ n, depth ≤ n → base.Transfers part n op) ∧
      (base.FitsWords part → Arena.Confined (base.types.sizeOf part) op) := by
    intro part
    by_cases hpart : part ∈ parts
    · obtain ⟨op, depth, htransfers⟩ := (hparts part hpart).1
      exact ⟨op, depth, fun _ => htransfers⟩
    · exact ⟨fun _ _ => pure (), 0, fun h => absurd h hpart⟩
  obtain ⟨op, hop⟩ := Classical.skolem.1 hchoice
  obtain ⟨depthOf, hdepthOf⟩ := Classical.skolem.1 hop
  obtain ⟨depth, hdepth⟩ := exists_bound depthOf parts
  refine ⟨base.partwise type op, depth + 2, fun n hn => ?_, fun hfits => ?_⟩
  · obtain ⟨m, rfl⟩ :=
      Nat.exists_eq_add_of_le' (Nat.le_trans (Nat.le_add_left 2 depth) hn)
    refine h.transfers_members hbase hnative htyped fun part hpart k hk => ?_
    have hle := hdepth part hpart
    exact (hdepthOf part hpart).1 k (by omega)
  · refine hconfined hfits op fun part hpart => (hdepthOf part hpart).2
      fun p hp => ?_
    exact hfits p ((hparts part hpart).2 p hp)

theorem transferable_whole (h : base.Assignable type)
    (hbase : base.Good Stocked)
    (hwhole : (base.types.get type).isWhole = true) :
    base.Transferable type := by
  obtain ⟨native, hnative⟩ :=
    TypeEntry.exists_copying (hbase.inv.formed type) hwhole
  rcases copying_cases h.takesOver.value hnative with rfl | rfl
  · exact h.transferable_bytes hbase.closed hnative
  · refine h.transferable_members [] hbase.closed hnative ?_ nofun
      fun _ op _ => ?_
    · intro dst src pairs hpairs
      cases (parts_whole hwhole dst src).symm.trans hpairs
    · have hcopy : base.partwise type op = fun dst src =>
          Arena.copy src dst (base.types.sizeOf type) := by
        funext dst src
        rw [partwise, parts_whole hwhole]
      rw [hcopy]
      exact Arena.confined_copy _

theorem transferable_array {elem : TypeId} {len : Nat}
    (h : base.Assignable type) (hbase : base.Good Stocked)
    (hparts : (base.types.get type).array? = some (elem, len))
    (helem : 0 < len → (base.types.get elem).aggregate = true →
      base.Transferable elem) : base.Transferable type := by
  have hnative := copying?_array hparts
  cases haggregate : (base.types.get elem).aggregate with
  | false =>
      rw [haggregate] at hnative
      exact h.transferable_bytes hbase.closed hnative
  | true =>
      rw [haggregate] at hnative
      refine h.transferable_members (.replicate len elem) hbase.closed
        hnative ?_ ?_ ?_
      · intro dst src pairs hpairs pair hpair
        cases (parts_elements dst src hparts).symm.trans hpairs
        obtain ⟨i, hi, rfl⟩ := List.mem_map.1 hpair
        have hlen : len ≠ 0 := by
          have hlt := List.mem_range.1 hi
          omega
        exact ⟨List.mem_replicate.2 ⟨hlen, rfl⟩, rfl⟩
      · intro part hpart
        obtain ⟨hlen, rfl⟩ := List.mem_replicate.1 hpart
        have hpos := Nat.pos_of_ne_zero hlen
        exact ⟨helem hpos haggregate, fun p hp =>
          .element hparts hpos haggregate hp⟩
      · intro _ op hop
        refine confined_partwise
          (madeOf_array h.plain hbase hparts haggregate) ?_
        intro piece hpiece
        obtain ⟨i, hi, rfl⟩ := List.mem_map.1 hpiece
        have hlt := List.mem_range.1 hi
        exact hop elem (List.mem_replicate.2 ⟨by omega, rfl⟩)

theorem transferable_class {body : Structural} (h : base.Assignable type)
    (hbase : base.Good Stocked)
    (hshape : (base.types.get type).shape = .structural body)
    (hcomplete : body.complete = true) (hkind : body.kind = .classKind)
    (hfields : ∀ field ∈ body.fields, base.Transferable field.type) :
    base.Transferable type := by
  have hnative : (base.types.get type).copying? base.types =
      some .copyMembers := by
    simp [TypeEntry.copying?, hshape, hkind]
  refine h.transferable_members (body.fields.map Field.type) hbase.closed
    hnative ?_ ?_ ?_
  · intro dst src pairs hpairs pair hpair
    cases (parts_record dst src hshape hkind).symm.trans hpairs
    obtain ⟨field, hfield, rfl⟩ := List.mem_map.1 hpair
    exact ⟨List.mem_map_of_mem hfield, rfl⟩
  · intro part hpart
    obtain ⟨field, hfield, rfl⟩ := List.mem_map.1 hpart
    exact ⟨hfields field hfield, fun p hp => .field hshape hkind hfield hp⟩
  · intro hfits op hop
    refine confined_partwise
      (madeOf_class h.plain hbase hshape hcomplete hkind
        (hfits type (.self type))) ?_
    intro piece hpiece
    obtain ⟨field, hfield, rfl⟩ := List.mem_map.1 hpiece
    exact hop field.type (List.mem_map_of_mem hfield)

theorem PlainType.transferable (h : base.PlainType type)
    (hbase : base.Good Stocked)
    (hparts : ∀ part, base.Visits type part → base.TakesOver part) :
    base.Transferable type := by
  induction h with
  | whole hvoid hwhole hundeclared =>
      exact transferable_whole ⟨.whole hvoid hwhole hundeclared, hparts⟩
        hbase hwhole
  | array hvoid harray helem hundeclared ih =>
      refine transferable_array ⟨.array hvoid harray helem hundeclared, hparts⟩
        hbase harray fun hlen haggregate => ih fun part hpart => ?_
      exact hparts part (.element harray hlen haggregate hpart)
  | record hvoid hshape hcomplete hkind hfields hundeclared ih =>
      refine transferable_class
        ⟨.record hvoid hshape hcomplete hkind hfields hundeclared, hparts⟩
        hbase hshape hcomplete hkind fun field hfield =>
          ih field hfield fun part hpart => ?_
      exact hparts part (.field hshape hkind hfield hpart)

/-! ## Assignment through a reference -/

inductive StandsFor (s : Engine) (type ref : TypeId) (src : Nat) : Value → Prop
  | place : StandsFor s type ref src ⟨type, src⟩
  | reference {addr : Nat} (hword : s.arena.readWord addr = .ok src) :
      StandsFor s type ref src ⟨ref, addr⟩

/-- The program declares no assignment to the reference, and the type that goes
by the name of references to it is one. -/
structure OwnReference (s : Engine) (type ref : TypeId) : Prop where
  target : (s.types.get ref).referenceTarget? = some type
  referable : s.types.Referable ref
  undeclared : ∀ rhs ∈ [type, ref], ¬ s.Declares ref true "=" [ref, rhs]

theorem OwnReference.shape (h : s.OwnReference type ref) :
    ∃ args, (s.types.get ref).shape = .template .ref args := by
  have htarget := h.target
  unfold TypeEntry.referenceTarget? at htarget
  split at htarget
  · exact ⟨_, ‹_›⟩
  · cases htarget

theorem OwnReference.has (h : s.OwnReference type ref) : s.types.Has ref := by
  refine Classical.byContradiction fun hnot => ?_
  obtain ⟨args, hshape⟩ := h.shape
  rw [TypeTable.get_of_not_has hnot] at hshape
  cases hshape

theorem exists_assignThrough {addr : Nat} {v : Value} (hs : s.Good Stocked)
    (h : s.OwnReference type ref)
    (hvalue : (s.types.get type).referenceTarget? = none)
    (haddr : s.arena.readWord addr = .ok dst)
    (hv : s.StandsFor type ref src v) :
    ∃ t, s.Prepares t ∧ t.Good Stocked ∧ t.arena = s.arena ∧ ∀ n,
      (Calls.ofFuel (n + 1)).assign ⟨ref, addr⟩ v s =
        (Calls.ofFuel n).assign ⟨type, dst⟩ ⟨type, src⟩ t := by
  obtain ⟨args, hshape⟩ := h.shape
  have hcomplete : (s.types.get ref).isComplete = true := by
    simp only [TypeEntry.isComplete, hshape]
  have hvoid : ref ≠ .void := hs.inv.ne_void (by simp [hshape])
  have htype : s.types.Has type :=
    TypeEntry.known_referenceTarget? (hs.closed.types ref) type h.target
  have hrun : ∀ t : Engine, t.arena = s.arena → ∀ n,
      (do
        let _ ← (Calls.ofFuel n).runNative (.assignThrough type)
          [⟨ref, addr⟩, ⟨type, src⟩]
        pure ()) t = (Calls.ofFuel n).assign ⟨type, dst⟩ ⟨type, src⟩ t := by
    intro t harena n
    have hread : Eval.inspect (fun s => s.arena.readWord addr) t =
        .ok dst t := by
      simp only [Eval.inspect, harena, haddr]
    have hnative : (Calls.ofFuel n).runNative (.assignThrough type)
        [⟨ref, addr⟩, ⟨type, src⟩] t =
        ((Calls.ofFuel n).assign ⟨type, dst⟩ ⟨type, src⟩ >>= fun _ =>
          pure (some ⟨type, dst⟩)) t := Eval.bind_ok hread
    exact (Eval.bind_congr hnative).trans (bind_ignored _ _ t)
  let m (rhs self : TypeId) : Member :=
    .update "=" self rhs type (.assignThrough type)
  have hlabel : ∀ rhs self, (m rhs self).isOperator = true ∧
      (m rhs self).name = "=" :=
    fun _ _ => ⟨rfl, rfl⟩
  cases hv with
  | place =>
      obtain ⟨self, t, hst, ht, harena, hself, -, hoperator⟩ :=
        exists_binaryOperator addr
        ⟨type, src⟩ hs h.has hcomplete hvoid (hlabel type) (fun _ => rfl)
        (h.undeclared type (by simp)) h.referable fun _ =>
          .assignThrough h.target
      have hadapted :
          t.adaptArgs (m type self).params [⟨ref, addr⟩, ⟨type, src⟩] =
          .ok [⟨ref, addr⟩, ⟨type, src⟩] := by
        refine adaptArgs_place hself (adaptArgs_value ?_ rfl)
        rw [hst.quiet.grows.types.referenceTarget? htype, hvalue]
      exact ⟨t, hst, ht, harena, fun n =>
        (assign_of_binaryOperator (hoperator _ hadapted n)).trans
          (hrun t harena n)⟩
  | @reference word hword =>
      have hother : ref ≠ type := by
        rintro rfl
        cases hvalue.symm.trans h.target
      have hrefuses : s.types.accepts type ref = false := by
        simp [TypeTable.accepts, hvalue, hother.symm]
      obtain ⟨self, t, hst, ht, harena, hself, -, hoperator⟩ :=
        exists_binaryOperator addr
        ⟨ref, word⟩ hs h.has hcomplete hvoid (hlabel ref) (fun _ => rfl)
        (h.undeclared ref (by simp)) h.referable fun _ =>
          .assignAcross h.target hrefuses
      have hadapted :
          t.adaptArgs (m ref self).params [⟨ref, addr⟩, ⟨ref, word⟩] =
          .ok [⟨ref, addr⟩, ⟨type, src⟩] := by
        refine adaptArgs_place hself
          (adaptArgs_reference ?_ hother (harena ▸ hword) rfl)
        rw [hst.quiet.grows.types.referenceTarget? h.has, h.target]
      exact ⟨t, hst, ht, harena, fun n =>
        (assign_of_binaryOperator (hoperator _ hadapted n)).trans
          (hrun t harena n)⟩

/-! ## Assignments in reachable engines -/

def outcome (x : Eval Unit) (s : Engine) : Option Stop × Arena :=
  match x s with
  | .ok _ t => (none, t.arena)
  | .error e t => (some e, t.arena)

theorem Performs.outcome_eq {x y : Eval Unit} {op : Arena.Op Unit}
    (hx : base.Performs x op) (hy : base.Performs y op)
    (hbase : base.Good Stocked) : outcome x base = outcome y base := by
  cases hop : op base.arena with
  | ok _ a =>
      obtain ⟨t, hrun, -, -, rfl⟩ := hx.ok (.refl base) hbase hop
      obtain ⟨u, hrun', -, -, harena⟩ := hy.ok (.refl base) hbase hop
      simp only [outcome, hrun, hrun', harena]
  | error e a =>
      obtain ⟨t, hrun, rfl⟩ := hx.error (.refl base) hbase hop
      obtain ⟨u, hrun', harena⟩ := hy.error (.refl base) hbase hop
      simp only [outcome, hrun, hrun', harena]

structure Assigns (s : Engine) (type : TypeId) (fuel : Nat) : Prop where
  /-- Assignment ends as copying does, and leaves the same arena. -/
  agrees : ∀ dst src,
    outcome ((Calls.ofFuel fuel).assign ⟨type, dst⟩ ⟨type, src⟩) s =
    outcome ((Calls.ofFuel fuel).copyConstruct ⟨type, dst⟩ ⟨type, src⟩) s
  /-- A live place is assigned to, and nothing but its bytes has changed. -/
  confined : s.FitsWords type → ∀ dst src,
    s.arena.inBounds dst (s.types.sizeOf type) = true →
    s.arena.inBounds src (s.types.sizeOf type) = true →
      ∃ t, (Calls.ofFuel fuel).assign ⟨type, dst⟩ ⟨type, src⟩ s = .ok () t ∧
        s.arena.ChangedIn dst (s.types.sizeOf type) t.arena
  /-- What is assigned to a reference to a live place is assigned to the place.
  The reference is not bound to another place, unless it is overwritten
  itself. -/
  through : s.FitsWords type → ∀ ref, s.OwnReference type ref →
    ∀ addr dst src v,
    s.arena.readWord addr = .ok dst → s.StandsFor type ref src v →
      s.arena.inBounds dst (s.types.sizeOf type) = true →
        s.arena.inBounds src (s.types.sizeOf type) = true →
          ∃ t u, (Calls.ofFuel fuel).assign ⟨ref, addr⟩ v s = .ok () t ∧
            (Calls.ofFuel fuel).assign ⟨type, dst⟩ ⟨type, src⟩ s = .ok () u ∧
              t.arena = u.arena ∧
              s.arena.ChangedIn dst (s.types.sizeOf type) t.arena ∧
                (addr + 8 ≤ dst ∨ dst + s.types.sizeOf type ≤ addr →
                  t.arena.readWord addr = .ok dst)

def AssignsValues (s : Engine) : Prop :=
  ∀ type, s.Assignable type → ∃ depth, ∀ fuel, depth ≤ fuel →
    s.Assigns type fuel

theorem assigns_of_transfers {op : Nat → Nat → Arena.Op Unit}
    (h : base.Transfers type n op) (hnext : base.Transfers type (n + 1) op)
    (hbase : base.Good Stocked)
    (hvalue : (base.types.get type).referenceTarget? = none)
    (hconfined : base.FitsWords type →
      Arena.Confined (base.types.sizeOf type) op) :
    base.Assigns type (n + 1) where
  agrees dst src :=
    (hnext.assigns dst src).outcome_eq (hnext.copies dst src) hbase
  confined hfits dst src hdst hsrc := by
    obtain ⟨b, hb, hchanged⟩ :=
      hconfined hfits _ hbase.closed.wellFormed hbase.closed.mark_lt dst src
        hdst hsrc
    obtain ⟨t, hrun, -, -, rfl⟩ :=
      (hnext.assigns dst src).ok (.refl base) hbase hb
    exact ⟨t, hrun, hchanged⟩
  through hfits ref href addr dst src v haddr hv hdst hsrc := by
    obtain ⟨b, hb, hchanged⟩ :=
      hconfined hfits _ hbase.closed.wellFormed hbase.closed.mark_lt dst src
        hdst hsrc
    obtain ⟨u, hu, -, -, rfl⟩ :=
      (hnext.assigns dst src).ok (.refl base) hbase hb
    obtain ⟨s, hs, hgood, harena, hassign⟩ :=
      exists_assignThrough hbase href hvalue haddr hv
    obtain ⟨t, ht, -, -, htu⟩ := (h.assigns dst src).ok hs hgood (harena ▸ hb)
    rw [← htu] at hchanged
    refine ⟨t, u, (hassign n).trans ht, hu, htu, hchanged, fun hapart => ?_⟩
    rw [hchanged.readWord hapart, haddr]

theorem assignsValues (hs : s.Good Stocked) : s.AssignsValues := by
  intro type h
  obtain ⟨op, depth, htransfers, hconfined⟩ := h.plain.transferable hs h.parts
  refine ⟨depth + 1, fun fuel hfuel => ?_⟩
  obtain ⟨n, rfl⟩ :=
    Nat.exists_eq_add_of_le' (Nat.le_trans (Nat.le_add_left 1 depth) hfuel)
  exact assigns_of_transfers (htransfers n (by omega))
    (htransfers (n + 1) (by omega)) hs h.takesOver.value hconfined

end Engine

/-- In every reachable engine, and at any time during a request, values without
references are assigned as they are copied, and through references, unless there
is a type that goes by the name of a reference and is none. -/
theorem Reachable.values_assigned {s : Engine} (hs : Reachable s) :
    s.AssignsValues ∧ ∀ (fuel : Nat) (request : Request), s.Knows request →
      Calls.Throughout Engine.AssignsValues fuel request.perform s :=
  ⟨Engine.assignsValues hs.good, fun fuel _ hrequest =>
    hs.throughout (fun _ => Engine.assignsValues) fuel hrequest⟩

/-! ### A reference to a padded value -/

namespace Cells

variable {s : Engine} {type : TypeId}

def assigns (s : Engine) (type : TypeId) : Bool :=
  provides s true "=" type && refers s type

theorem takesOver (h : assigns s type = true)
    (hvalue : (s.types.get type).referenceTarget? = none) : s.TakesOver type :=
  have ⟨hown, hrefers⟩ := Bool.and_eq_true_iff.1 h
  ⟨referable hrefers, hvalue, undeclared hown⟩

theorem ownReference {ref : TypeId} (h : assigns s ref = true)
    (htarget : (s.types.get ref).referenceTarget? = some type) :
    s.OwnReference type ref :=
  have ⟨hown, hrefers⟩ := Bool.and_eq_true_iff.1 h
  ⟨htarget, referable hrefers, fun _ _ => undeclared hown⟩

def referring : Engine :=
  run [node .classDecl "Cell"
    [variableOf "flag" "Bool", variableOf "number" "Int32"],
    variableOf "a" "Cell", variableOf "b" "Cell",
    node .variableDefinition "r"
      [node .typeName "Ref" [node .typeName "Cell" []],
        node .identifier "a" []]]

theorem checked_referring :
    describes referring ⟨15⟩ [(0, ⟨1⟩), (4, ⟨4⟩)] 8 = true ∧
    (∀ type ∈ [⟨1⟩, ⟨4⟩], (referring.types.get type).isWhole = true) ∧
    (∀ type ∈ [⟨1⟩, ⟨4⟩, ⟨15⟩],
      provides referring false "construct" type = true ∧
      (referring.types.get type).referenceTarget? = none) ∧
    (∀ type ∈ [⟨1⟩, ⟨4⟩, ⟨15⟩, ⟨16⟩], assigns referring type = true) ∧
    (referring.types.get ⟨16⟩).referenceTarget? = some ⟨15⟩ ∧
    referring.arena.readWord 24 = .ok 8 ∧ referring.types.sizeOf ⟨15⟩ = 8 ∧
    [referring.arena.inBounds 8 8, referring.arena.inBounds 16 8] =
      [true, true] := by
  decide +kernel

theorem cell_subset : [⟨1⟩, ⟨4⟩, ⟨15⟩] ⊆ [(⟨1⟩ : TypeId), ⟨4⟩, ⟨15⟩, ⟨16⟩] := by
  decide

theorem assignable_cell : referring.Assignable ⟨15⟩ := by
  obtain ⟨hcell, hwhole, hown, hassigns, -⟩ := checked_referring
  obtain ⟨body, hbody⟩ := exists_holds hcell
  refine ⟨hbody.plain (by decide) (hown _ (by simp)).1 fun part hpart => ?_,
    fun part hpart => ?_⟩
  · simp only [List.map_cons, List.map_nil, List.mem_cons, List.not_mem_nil,
      or_false] at hpart
    rcases hpart with rfl | rfl
    · exact .whole (by decide) (hwhole _ (by simp))
        (undeclared (hown _ (by simp)).1)
    · exact .whole (by decide) (hwhole _ (by simp))
        (undeclared (hown _ (by simp)).1)
  · have hmem : part ∈ [⟨1⟩, ⟨4⟩, ⟨15⟩] := by
      rcases Engine.visits_record hbody.shape hpart with rfl |
        ⟨field, hfield, hpart⟩
      · simp
      · have htype := hbody.types hfield
        rw [Engine.visits_whole (hwhole _ htype) hpart]
        exact List.mem_append_left [⟨15⟩] htype
    exact takesOver (hassigns _ (cell_subset hmem)) (hown _ hmem).2

theorem fits_cell : referring.FitsWords ⟨15⟩ := by
  obtain ⟨hcell, hwhole, -⟩ := checked_referring
  obtain ⟨body, hbody⟩ := exists_holds hcell
  intro part hpart other hother hkind
  rcases Engine.visits_record hbody.shape hpart with rfl |
    ⟨field, hfield, hpart⟩
  · rw [hbody.shape] at hother
    cases hother
    rw [hbody.size]
    decide
  · obtain rfl := Engine.visits_whole (hwhole _ (hbody.types hfield)) hpart
    have hpart := hwhole _ (hbody.types hfield)
    simp [TypeEntry.isWhole, hother, hkind] at hpart

end Cells

open Cells in
theorem Reachable.values_assigned_cell :
    Reachable referring ∧ referring.Assignable ⟨15⟩ ∧ referring.FitsWords ⟨15⟩ ∧
      referring.OwnReference ⟨15⟩ ⟨16⟩ ∧ ∃ depth, ∀ fuel, depth ≤ fuel →
        ∃ t, (Calls.ofFuel fuel).assign ⟨⟨16⟩, 24⟩ ⟨⟨15⟩, 16⟩ referring =
          .ok () t ∧
          referring.arena.ChangedIn 8 8 t.arena ∧
          t.arena.readWord 24 = .ok 8 := by
  obtain ⟨-, -, -, hassigns, htarget, hword, hsize, hinside⟩ :=
    checked_referring
  simp only [List.cons.injEq, and_true] at hinside
  obtain ⟨hdst, hsrc⟩ := hinside
  have href : referring.OwnReference ⟨15⟩ ⟨16⟩ :=
    ownReference (hassigns _ (by simp)) htarget
  have hreachable : Reachable referring := reachable _
  obtain ⟨depth, hdepth⟩ := (values_assigned hreachable).1 ⟨15⟩ assignable_cell
  refine ⟨hreachable, assignable_cell, fits_cell, href, depth,
    fun fuel hfuel => ?_⟩
  obtain ⟨t, -, hrun, -, -, hchanged, hkept⟩ :=
    (hdepth fuel hfuel).through fits_cell ⟨16⟩ href 24
    8 16 _ hword .place (by rw [hsize, hdst]) (by rw [hsize, hsrc])
  rw [hsize] at hchanged hkept
  exact ⟨t, hrun, hchanged, hkept (.inr (by decide))⟩

/-! ### An assignment that does something else -/

namespace Cells

/-- Before `A` has been initialized, the name `Ref<A>` has been taken.  There is
an operator for any operands, which sets `count` to one. -/
def counting : Engine :=
  run [node .classDecl "Ref<A>" [],
    node .classDecl "A" [variableOf "x" "Int32"], variableOf "count" "Int32",
    node .function "operator=" [node .parameters "" [node .parameter "..." []],
      node .block ""
        [node .expression ""
          [node .identifier "count" [], node .operator "=" [],
            node .integerLiteral "1" []]]],
    variableOf "a" "A", variableOf "b" "A"]

def copied : Option Stop × Arena :=
  Engine.outcome ((Calls.ofFuel 12).copyConstruct ⟨⟨16⟩, 16⟩ ⟨⟨16⟩, 12⟩)
    counting

def assigned : Option Stop × Arena :=
  Engine.outcome ((Calls.ofFuel 12).assign ⟨⟨16⟩, 16⟩ ⟨⟨16⟩, 12⟩) counting

theorem checked_counting :
    describes counting ⟨16⟩ [(0, ⟨4⟩)] 4 = true ∧
    (counting.types.get ⟨4⟩).isWhole = true ∧
    (∀ type ∈ [⟨4⟩, ⟨16⟩], provides counting false "construct" type = true ∧
      provides counting true "=" type = true ∧
      (counting.types.get type).referenceTarget? = none) ∧
    counting.types.sizeOf ⟨16⟩ = 4 ∧
    [counting.arena.inBounds 16 4, counting.arena.inBounds 12 4] =
      [true, true] ∧
    copied.1 = some (.failed (Failure.typeConversion "A" "A")) ∧
    assigned.1 = none ∧
    [copied.2.byteAt 8, assigned.2.byteAt 8] = [0, 1] := by
  decide +kernel

end Cells

open Cells in
/-- No constructor accepts another instance of `A`, but the operator for any
operands does. -/
theorem Reachable.values_assigned_otherwise :
    Reachable counting ∧ counting.PlainType ⟨16⟩ ∧
      (∀ part, counting.Visits ⟨16⟩ part →
        (counting.types.get part).referenceTarget? = none ∧
        ¬ counting.DeclaresAssigning part) ∧
      counting.arena.Apart 16 12 (counting.types.sizeOf ⟨16⟩) ∧
      copied.1 = some (.failed (Failure.typeConversion "A" "A")) ∧
      assigned.1 = none ∧
      assigned.2.byteAt 8 ≠ copied.2.byteAt 8 := by
  obtain ⟨hrecord, hwhole, hown, hsize, hinside, hfails, hends, hbytes⟩ :=
    checked_counting
  simp only [List.cons.injEq, and_true] at hinside hbytes
  obtain ⟨body, hbody⟩ := exists_holds hrecord
  refine ⟨reachable _, ?_, fun part hpart => ?_, ?_, hfails, hends, ?_⟩
  · refine hbody.plain (by decide) (hown _ (by simp)).1 fun part hpart => ?_
    rw [List.mem_singleton.1 hpart]
    exact .whole (by decide) hwhole (undeclared (hown _ (by simp)).1)
  · have hmem : part ∈ [⟨4⟩, ⟨16⟩] := by
      rcases Engine.visits_record hbody.shape hpart with rfl |
        ⟨field, hfield, hpart⟩
      · simp
      · have htype := List.mem_singleton.1 (hbody.types hfield)
        rw [htype] at hpart
        rw [Engine.visits_whole hwhole hpart]
        simp
    exact ⟨(hown part hmem).2.2, undeclared (hown part hmem).2.1⟩
  · rw [hsize]
    exact ⟨hinside.1, hinside.2, .inr (by decide)⟩
  · rw [hbytes.1, hbytes.2]
    decide

end ArenaScript
