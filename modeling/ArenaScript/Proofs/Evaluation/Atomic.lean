import ArenaScript.Proofs.Evaluation.Within

/-!
# Single steps

The computations that evaluations are made of change the engine by at most one
move, or fail and leave it as it was.  None of them declares code, changes what
a type or the scope of an instance is, or leaves a new type without its members,
and none fails because of an import: all this is left to a few places of the
evaluator, which are treated on their own.
-/

namespace ArenaScript

/-! ## Ordinary failures -/

def Fault.isNestedImport : Fault → Bool
  | .nestedImport _ => true
  | _ => false

namespace Failure

variable {e : Failure}

def isPlain (e : Failure) : Bool :=
  !e.fault.isNestedImport && e.pos.isNone && e.file.isNone

theorem isNestedImport_of_isPlain (h : e.isPlain = true) :
    e.fault.isNestedImport = false := by
  simp only [isPlain, Bool.and_eq_true, Bool.not_eq_true'] at h
  exact h.1.1

theorem file_of_isPlain (h : e.isPlain = true) : e.file = none := by
  simp only [isPlain, Bool.and_eq_true, Option.isNone_iff_eq_none] at h
  exact h.2

end Failure

def Ordinary {α : Type} (x : Except Failure α) : Prop :=
  ∀ e, x = .error e → e.isPlain = true

namespace Ordinary

variable {α β : Type}

theorem ok (a : α) : Ordinary (.ok a) := nofun

theorem pure (a : α) : Ordinary (Pure.pure a) := nofun

theorem error_iff {e : Failure} :
    Ordinary (.error e : Except Failure α) ↔ e.isPlain = true := by
  simp [Ordinary]

theorem bind {x : Except Failure α} {f : α → Except Failure β} (hx : Ordinary x)
    (hf : ∀ a, Ordinary (f a)) : Ordinary (x >>= f) := by
  cases x with
  | ok a => exact hf a
  | error e => exact error_iff.2 (hx e rfl)

theorem map {x : Except Failure α} (f : α → β) (hx : Ordinary x) :
    Ordinary (x.map f) := by
  cases x with
  | ok a => exact ok (f a)
  | error e => exact error_iff.2 (hx e rfl)

theorem ite {p : Prop} [Decidable p] {x y : Except Failure α} (hx : Ordinary x)
    (hy : Ordinary y) : Ordinary (if p then x else y) := by
  split
  · exact hx
  · exact hy

theorem mapM {f : α → Except Failure β} (hf : ∀ a, Ordinary (f a))
    (l : List α) : Ordinary (l.mapM f) := by
  induction l with
  | nil => exact ok []
  | cons a l ih =>
      rw [List.mapM_cons]
      exact (hf a).bind fun b => ih.bind fun bs => ok _

end Ordinary

namespace Failure

theorem isNestedImport_withLocation (e : Failure) (pos : Position)
    (file : Option String) :
    (e.withLocation pos file).fault.isNestedImport =
      e.fault.isNestedImport := by
  unfold withLocation
  split <;> rfl

end Failure

/-! ### Reading memory -/

namespace Arena

theorem ordinary_read (a : Arena) (addr len : Nat) :
    Ordinary (a.read addr len) := by
  unfold read
  split
  · exact .ok _
  · exact Ordinary.error_iff.2 rfl

theorem ordinary_readWord (a : Arena) (addr : Nat) :
    Ordinary (a.readWord addr) :=
  (a.ordinary_read addr 8).map _

theorem ordinary_readScalar (a : Arena) (addr : Nat) (kind : CoreKind) :
    Ordinary (a.readScalar addr kind) :=
  (a.ordinary_read addr kind.size).map _

end Arena

namespace Arith

variable (op : Arith)

theorem ordinary_onFloats (kind : CoreKind) (a b : Number.Double) :
    Ordinary (op.onFloats kind a b) := by
  cases op with
  | add | sub | mul | div | rem => exact .ok _
  | _ => exact Ordinary.error_iff.2 rfl

theorem ordinary_onSigned (a b : Int64) : Ordinary (op.onSigned a b) := by
  cases op with
  | div | rem => exact .ite (Ordinary.error_iff.2 rfl) (.ok _)
  | _ => exact .ok _

theorem ordinary_onUnsigned (a b : UInt64) : Ordinary (op.onUnsigned a b) := by
  cases op with
  | div | rem => exact .ite (Ordinary.error_iff.2 rfl) (.ok _)
  | _ => exact .ok _

theorem ordinary_apply (kind : CoreKind) (l r : Scalar) :
    Ordinary (op.apply kind l r) :=
  .ite ((op.ordinary_onFloats kind _ _).map _)
    (.ite ((op.ordinary_onSigned _ _).map _)
      ((op.ordinary_onUnsigned _ _).map _))

end Arith

namespace Engine

variable (s : Engine)

theorem ordinary_scalarKind (type : TypeId) : Ordinary (s.scalarKind type) := by
  unfold scalarKind
  split
  · exact .ok _
  · exact Ordinary.error_iff.2 rfl

theorem ordinary_readScalar (v : Value) : Ordinary (s.readScalar v) :=
  (s.ordinary_scalarKind v.type).bind fun kind =>
    s.arena.ordinary_readScalar v.addr kind

theorem ordinary_readBool (v : Value) : Ordinary (s.readBool v) := by
  unfold readBool
  split
  · exact (s.ordinary_readScalar v).map _
  · exact Ordinary.error_iff.2 rfl

theorem ordinary_readStr (v : Value) : Ordinary (s.readStr v) := by
  unfold readStr
  split
  · refine (s.ordinary_readScalar v).bind fun scalar => ?_
    simp only
    split
    · exact .ok _
    · exact Ordinary.error_iff.2 rfl
  · exact Ordinary.error_iff.2 rfl

theorem ordinary_stripRef (v : Value) : Ordinary (s.stripRef v) := by
  unfold stripRef
  split
  · exact (s.arena.ordinary_readWord v.addr).map _
  · exact .ok _

theorem ordinary_placeOf (v : Value) (type : TypeId) :
    Ordinary (s.placeOf v type) := by
  unfold placeOf
  split
  · exact .ok _
  · split
    · exact s.ordinary_stripRef v
    · exact Ordinary.error_iff.2 rfl

theorem ordinary_adaptArgs (params : List Param) (args : List Value) :
    Ordinary (s.adaptArgs params args) := by
  induction params generalizing args with
  | nil => cases args <;> exact .ok _
  | cons param params ih =>
      cases args with
      | nil => exact .ok _
      | cons arg args =>
          have hrest : ∀ adapted : Value,
              Ordinary (s.adaptArgs params args >>= fun rest =>
                Pure.pure (adapted :: rest)) :=
            fun adapted => (ih args).bind fun rest => .ok _
          unfold adaptArgs
          split
          · split
            · exact (s.ordinary_placeOf arg _).bind hrest
            · exact hrest arg
          · split
            · exact (s.ordinary_stripRef arg).bind hrest
            · exact hrest arg

theorem ordinary_fieldThroughSelf (f : Frame) (name : String) :
    Ordinary (s.fieldThroughSelf f name) := by
  unfold fieldThroughSelf
  split
  · split
    · exact (s.ordinary_stripRef _).bind fun receiver => .ok _
    · exact .ok _
  · exact .ok _

theorem ordinary_lookupVariable (name : String) :
    Ordinary (s.lookupVariable name) := by
  unfold lookupVariable
  simp only
  split
  · exact .ok _
  · split
    · refine (s.ordinary_fieldThroughSelf _ name).bind fun field => ?_
      cases field <;> exact .ok _
    · exact .ok _

/-! ### Printing -/

theorem ordinary_elementTexts {text : Nat → Except Failure String}
    (h : ∀ i, Ordinary (text i)) (index count : Nat) :
    Ordinary (elementTexts text index count) := by
  induction count generalizing index with
  | zero => exact .ok _
  | succ count ih =>
      exact (h index).bind fun first => (ih (index + 1)).bind fun rest => .ok _

theorem ordinary_coreText (v : Value) (kind : CoreKind) :
    Ordinary (s.coreText v kind) := by
  unfold coreText
  split
  · exact .ok _
  · exact s.ordinary_readStr v
  · exact (s.ordinary_readBool v).map _
  · exact (s.ordinary_readScalar v).map _

theorem ordinary_textOf (v : Value) (depth : Nat) :
    Ordinary (s.textOf v depth) := by
  induction depth generalizing v with
  | zero => exact .ok _
  | succ depth ih =>
      unfold textOf
      simp only
      split
      · exact s.ordinary_coreText v _
      · split
        · exact (s.ordinary_readScalar v).map _
        · exact .ok _
      · refine (s.ordinary_stripRef v).bind fun target => ?_
        split
        · exact .ok _
        · exact ih target
      · exact (s.arena.ordinary_readWord _).map _
      · split
        · exact (ordinary_elementTexts (fun i => ih _) 0 _).bind
            fun texts => .ok _
        · exact .ok _
      · exact (s.arena.ordinary_readWord _).map _

theorem ordinary_formatAll (values : List Value) :
    Ordinary (s.formatAll values) :=
  (Ordinary.mapM (fun v => s.ordinary_textOf v _) values).map _

/-! ### Natives -/

theorem ordinary_readInt (v : Value) : Ordinary (s.readInt v) :=
  (s.ordinary_readScalar v).map _

theorem ordinary_constantOrder (l r : Value) : Ordinary (s.constantOrder l r) :=
  (s.ordinary_readScalar l).bind fun _ => (s.ordinary_readScalar r).bind
    fun _ => .ok _

theorem ordinary_arithAt (op : Arith) (kind : CoreKind) (l r : Value) :
    Ordinary (s.arithAt op kind l r) :=
  (s.arena.ordinary_readScalar _ _).bind fun a =>
    (s.arena.ordinary_readScalar _ _).bind fun b => op.ordinary_apply kind a b

theorem ordinary_orderAt (kind : CoreKind) (l r : Value) :
    Ordinary (s.orderAt kind l r) :=
  (s.arena.ordinary_readScalar _ _).bind fun _ =>
    (s.arena.ordinary_readScalar _ _).bind fun _ => .ok _

theorem ordinary_stringOrder (l r : Value) : Ordinary (s.stringOrder l r) :=
  (s.ordinary_readStr l).bind fun _ => (s.ordinary_readStr r).bind
    fun _ => .ok _

theorem ordinary_addressOrder (l r : Value) : Ordinary (s.addressOrder l r) :=
  (s.arena.ordinary_readWord _).bind fun _ => (s.arena.ordinary_readWord _).bind
    fun _ => .ok _

theorem ordinary_offsetAddress (base : Nat) (n : Int) (size : Nat) :
    Ordinary (offsetAddress base n size) := by
  unfold offsetAddress
  extract_lets fits delta addr
  generalize (fits (Int.ofNat size) && fits delta && fits (Int.ofNat base) &&
    fits addr &&
    decide (0 ≤ addr)) = inRange
  cases inRange with
  | true => exact .ok _
  | false => exact Ordinary.error_iff.2 rfl

theorem ordinary_shifted (v offset : Value) (size : Nat) (backwards : Bool) :
    Ordinary (s.shifted v offset size backwards) := by
  unfold shifted
  refine (s.arena.ordinary_readWord _).bind fun base => ?_
  refine (s.ordinary_readInt _).bind fun n => ?_
  exact ordinary_offsetAddress base _ size

/-! ### Modules -/

theorem ordinary_findModulePath (request : String) (importer : Option String) :
    Ordinary (s.findModulePath request importer) := by
  unfold findModulePath
  split
  · exact Ordinary.error_iff.2 rfl
  · simp only
    split
    · exact .ok _
    · exact Ordinary.error_iff.2 rfl

end Engine

theorem ordinary_elementAddress (base : Nat) (index : Int) (len size : Nat) :
    Ordinary (elementAddress base index len size) := by
  unfold elementAddress
  split
  · exact .ok _
  · exact Ordinary.error_iff.2 rfl

/-! ### Tables -/

namespace TypeTable

variable (t : TypeTable)

theorem ordinary_instanceSize (kind : TemplateKind) (args : List TemplateArg) :
    Ordinary (t.instanceSize kind args) := by
  unfold instanceSize
  simp only
  split
  · split
    · exact Ordinary.error_iff.2 rfl
    · exact .ok _
  · exact .ok _
  · split
    · exact .ok _
    · exact Ordinary.error_iff.2 rfl
  · exact Ordinary.error_iff.2 rfl

theorem ordinary_findOrCreate (scopes : ScopeTable) (kind : TemplateKind)
    (args : List TemplateArg) : Ordinary (t.findOrCreate scopes kind args) := by
  unfold findOrCreate
  simp only
  split
  · exact .ok _
  · split
    · rename_i hsize
      exact Ordinary.error_iff.2 (t.ordinary_instanceSize kind args _ hsize)
    · exact .ok _

theorem ordinary_register (name : String) (body : Structural)
    (members : ScopeId) : Ordinary (t.register name body members) := by
  unfold register
  split
  · exact Ordinary.error_iff.2 rfl
  · exact .ok _

theorem ordinary_complete (id : TypeId) (fields : List Field)
    (variants : List (String × Int64)) :
    Ordinary (t.complete id fields variants) := by
  unfold complete
  split
  · split
    · exact Ordinary.error_iff.2 rfl
    · exact .ok _
  · exact Ordinary.error_iff.2 rfl

end TypeTable

/-! ## Code -/

theorem getD_push {α : Type} (a : Array α) (x d : α) (i : Nat) :
    (a.push x).getD i d = x ∨ (a.push x).getD i d = a.getD i d := by
  by_cases hi : i = a.size
  · simp [Array.getD_eq_getD_getElem?, hi]
  · simp [Array.getD_eq_getD_getElem?, Array.getElem?_push, hi]

theorem FunctionTable.get_add (t : FunctionTable) (f : Function)
    (id : FunctionId) :
    (t.add f).2.get id = f ∨ (t.add f).2.get id = t.get id :=
  getD_push t.functions f default id.index

theorem TemplateTable.get_add (t : TemplateTable) (d : TemplateDef)
    (id : TemplateId) :
    (t.add d).2.get id = d ∨ (t.add d).2.get id = t.get id :=
  getD_push t.defs d default id.index

namespace Engine

variable {s t u : Engine}

/-- The code that an engine keeps: bodies of functions and declarations of
templates. -/
inductive Holds (s : Engine) : TreeId → Node → Prop
  | function {id : FunctionId} {tree : TreeId} {node : Node} {scope : ScopeId}
      (h : (s.functions.get id).body = .interpreted tree node scope) :
      Holds s tree node
  | template (id : TemplateId) :
      Holds s (s.templates.get id).tree (s.templates.get id).node

/-- All code of `t` is code of `s`. -/
def NoNewCode (s t : Engine) : Prop :=
  ∀ tree node, t.Holds tree node → s.Holds tree node

theorem NoNewCode.of_tables (hfunctions : t.functions = s.functions)
    (htemplates : t.templates.defs = s.templates.defs) : s.NoNewCode t := by
  have hget : t.templates.get = s.templates.get := by
    funext id
    rw [TemplateTable.get, TemplateTable.get, htemplates]
  rintro tree node (h | id)
  · rw [hfunctions] at h
    exact .function h
  · rw [hget]
    exact .template id

theorem Holds.of_addFunction {f : Function} {tree : TreeId} {node : Node}
    (h : ({ s with functions := (s.functions.add f).2 } : Engine).Holds
      tree node) :
    (∃ scope, f.body = .interpreted tree node scope) ∨ s.Holds tree node := by
  cases h with
  | @function id _ _ scope hbody =>
      rcases s.functions.get_add f id with hget | hget
      · exact .inl ⟨scope, hget ▸ hbody⟩
      · exact .inr (.function (hget ▸ hbody))
  | template id => exact .inr (.template id)

theorem Holds.of_addTemplate {d : TemplateDef} {tree : TreeId} {node : Node}
    (h : ({ s with templates := (s.templates.add d).2 } : Engine).Holds
      tree node) : (d.tree = tree ∧ d.node = node) ∨ s.Holds tree node := by
  cases h with
  | function hbody => exact .inr (.function hbody)
  | template id =>
      rcases s.templates.get_add d id with hget | hget
      · simp [hget]
      · exact .inr (by simpa only [hget] using Holds.template (s := s) id)

theorem NoNewCode.addFunction {f : Function} {native : Native}
    (hf : f.body = .native native) :
    s.NoNewCode { s with functions := (s.functions.add f).2 } := by
  intro tree node h
  rcases h.of_addFunction with ⟨scope, hbody⟩ | hold
  · rw [hf] at hbody
    cases hbody
  · exact hold

/-- No code is declared, types and scopes stay what they are, and no new type is
without its members. -/
structure Tame (s t : Engine) : Prop where
  code : s.NoNewCode t
  types : s.types.Grown t.types
  shells : s.types.NoNewShell t.types
  scopes : s.scopes.Keeps t.scopes

namespace Tame

theorem of_tables (hfunctions : t.functions = s.functions)
    (htemplates : t.templates.defs = s.templates.defs)
    (htypes : t.types = s.types) (hscopes : t.scopes = s.scopes) :
    s.Tame t where
  code := .of_tables hfunctions htemplates
  types := htypes ▸ .refl _
  shells := htypes ▸ .refl _
  scopes := hscopes ▸ .refl _

theorem of_types {types : TypeTable} (hgrown : s.types.Grown types)
    (hshells : s.types.NoNewShell types) : s.Tame { s with types } :=
  ⟨.of_tables rfl rfl, hgrown, hshells, .refl _⟩

theorem of_scopes {scopes : ScopeTable} (h : s.scopes.Keeps scopes) :
    s.Tame { s with scopes } :=
  ⟨.of_tables rfl rfl, .refl _, .refl _, h⟩

end Tame

/-- One move at most, and a tame one. -/
def Alters (s t : Engine) : Prop := t = s ∨ s.Move t ∧ s.Tame t

end Engine

/-! ## Atomic computations -/

def Stop.Plain : Stop → Prop
  | .failed e => e.isPlain = true
  | .outOfFuel => True

def Stop.Ordinary : Stop → Prop
  | .failed e => e.fault.isNestedImport = false
  | .outOfFuel => True

theorem Stop.Plain.ordinary {e : Stop} (h : e.Plain) : e.Ordinary := by
  cases e with
  | failed e => exact Failure.isNestedImport_of_isPlain h
  | outOfFuel => trivial

namespace Eval

variable {α : Type}

inductive Atomically (s : Engine) : EStateM.Result Stop Engine α → Prop
  | ok (a : α) {t : Engine} (h : s.Alters t) : Atomically s (.ok a t)
  | stop {e : Stop} (h : e.Plain) : Atomically s (.error e s)

/-- The computation does one thing or stops. -/
def Atomic (x : Eval α) : Prop := ∀ s, Atomically s (x s)

namespace Atomic

theorem alters_after {x : Eval α} (hx : Atomic x) (s : Engine) :
    s.Alters (x.after s) := by
  have hs := hx s
  cases hrun : x s with
  | ok a t =>
      rw [hrun] at hs
      rw [after_ok hrun]
      cases hs with
      | ok _ h => exact h
  | error e t =>
      rw [hrun] at hs
      rw [after_error hrun]
      cases hs with
      | stop h => exact .inl rfl

theorem within {R : Engine → Engine → Prop} (hR : Local R) {x : Eval α}
    (hx : Atomic x) : Within R x := by
  intro s
  rcases hx.alters_after s with hsame | ⟨hmove, -⟩
  · rw [hsame]
    exact hR.refl s
  · exact hR.move hmove

theorem pure (a : α) : Atomic (Pure.pure a) := fun _ => .ok a (.inl rfl)

theorem read (f : Engine → α) : Atomic (Eval.read f) :=
  fun s => .ok (f s) (.inl rfl)

theorem map {β : Type} (f : α → β) {x : Eval α} (hx : Atomic x) :
    Atomic (f <$> x) := by
  intro s
  have hs := hx s
  simp only [Functor.map, EStateM.map]
  cases hrun : x s with
  | ok a t =>
      rw [hrun] at hs
      cases hs with
      | ok _ h => exact .ok (f a) h
  | error e t =>
      rw [hrun] at hs
      cases hs with
      | stop h => exact .stop h

theorem exhausted : Atomic (Eval.exhausted : Eval α) := fun _ => .stop trivial

theorem inspect {f : Engine → Except Failure α}
    (h : ∀ s, ArenaScript.Ordinary (f s)) : Atomic (Eval.inspect f) := by
  intro s
  unfold Eval.inspect
  cases hf : f s with
  | ok a => exact .ok a (.inl rfl)
  | error e => exact .stop (h s e hf)

theorem fail {e : Failure} (h : e.isPlain = true) :
    Atomic (Eval.fail e : Eval α) := fun _ => .stop h

theorem alters {f : Engine → α × Engine} (h : ∀ s : Engine, s.Alters (f s).2) :
    Atomic (modifyGet f : Eval α) :=
  fun s => .ok _ (h s)

theorem modifyGet {f : Engine → α × Engine} (h : ∀ s : Engine, s.Move (f s).2)
    (htame : ∀ s : Engine, s.Tame (f s).2) :
    Atomic (modifyGet f : Eval α) :=
  alters fun s => .inr ⟨h s, htame s⟩

theorem modify {f : Engine → Engine} (h : ∀ s : Engine, s.Move (f s))
    (htame : ∀ s : Engine, s.Tame (f s)) : Atomic (modify f : Eval Unit) :=
  fun s => .ok _ (.inr ⟨h s, htame s⟩)

theorem createScope (kind : ScopeKind) (parent : Option ScopeId) :
    Atomic (Eval.createScope kind parent) :=
  modifyGet (fun _ => .createScope kind parent) fun s =>
    .of_scopes (.create s.scopes kind parent)

theorem scopeFor (node : Node) (kind : ScopeKind) (parent : ScopeId) :
    Atomic (Eval.scopeFor node kind parent) :=
  modifyGet (fun s => .scopeFor ⟨s.currentTree, node.id⟩ kind parent) fun s =>
    .of_scopes (.scopeFor s.scopes ⟨s.currentTree, node.id⟩ kind parent)

theorem addNative {f : Function} {native : Native}
    (hf : f.body = .native native) : Atomic (Eval.addFunction f) :=
  modifyGet (fun _ => .addFunction f) fun _ =>
    ⟨.addFunction hf, .refl _, .refl _, .refl _⟩

theorem instantiateBuiltin (kind : TemplateKind) (args : List TemplateArg) :
    Atomic (Eval.instantiateBuiltin kind args) := by
  intro s
  unfold Eval.instantiateBuiltin
  cases hresult : s.types.findOrCreate s.scopes kind args with
  | ok result =>
      exact .ok _
        (.inr ⟨.instantiate hresult, .of_tables rfl rfl, .findOrCreate hresult,
          TypeTable.findOrCreate_noNewShell hresult, .findOrCreate hresult⟩)
  | error e =>
      exact .stop (s.types.ordinary_findOrCreate s.scopes kind args e hresult)

theorem markDeclared (node : Node) : Atomic (Eval.markDeclared node) := by
  refine alters fun s => ?_
  simp only
  split
  · exact .inl rfl
  · rename_i hkey
    exact .inr ⟨.markDeclared _ (by simpa using hkey),
      .of_tables rfl rfl rfl rfl⟩

theorem registerTypeName (scope : ScopeId) (name : String) (type : TypeId) :
    Atomic (Eval.registerTypeName scope name type) := by
  intro s
  unfold Eval.registerTypeName
  cases hresult : (s.scopes.get scope).registerType name type with
  | ok changed =>
      have hcontext := ScopeTable.Keeps.registerType hresult
      exact .ok _ (.inr ⟨.registerType hresult, .of_scopes (.replace hcontext)⟩)
  | error other => exact .stop rfl

theorem registerTemplateName (scope : ScopeId) (name : String)
    (id : TemplateId) : Atomic (Eval.registerTemplateName scope name id) := by
  intro s
  unfold Eval.registerTemplateName
  cases hresult : (s.scopes.get scope).registerTemplateType name id with
  | ok changed =>
      have hcontext := ScopeTable.Keeps.registerTemplateType hresult
      exact .ok _
        (.inr ⟨.registerTemplateType hresult, .of_scopes (.replace hcontext)⟩)
  | error other => exact .stop rfl

theorem bindTemplateScope (d : TemplateDef) (args : List TemplateArg) :
    Atomic (Eval.bindTemplateScope d args) := by
  intro s
  cases htakes : d.takes args with
  | true =>
      rw [Eval.bindTemplateScope_ok htakes]
      exact .ok _
        (.inr ⟨.bindTemplateScope d args,
          .of_scopes (.bindTemplate s.scopes d args)⟩)
  | false =>
      rw [Eval.bindTemplateScope_error htakes]
      exact .stop rfl

/-! ### Memory -/

theorem onArena {op : Arena.Op α} {s : Engine}
    (hok : ∀ a arena, op s.arena = .ok a arena → s.Move { s with arena })
    (herror : ∀ e arena, op s.arena = .error e arena →
      arena = s.arena ∧ e.isPlain = true) :
    Atomically s (Eval.onArena op s) := by
  unfold Eval.onArena
  simp only
  cases hop : op s.arena with
  | ok a arena =>
      exact .ok a (.inr ⟨hok a arena hop, .of_tables rfl rfl rfl rfl⟩)
  | error e arena =>
      obtain ⟨rfl, he⟩ := herror e arena hop
      exact .stop he

theorem allocate_ordinary {types : TypeTable} {type : TypeId}
    {source : Option Nat} {a b : Arena} {e : Failure}
    (h : Arena.allocate types type source a = .error e b) :
    e.isPlain = true := by
  unfold Arena.allocate at h
  simp only at h
  split at h
  · split at h
    · cases h
    · split at h
      · cases h
      · cases h
        rfl
  · cases h
    rfl

theorem allocate (type : TypeId) : Atomic (Eval.allocate type) :=
  fun _ => onArena (fun _ _ h => .allocate h) fun _ _ h =>
    ⟨Arena.allocate_eq_error h, allocate_ordinary h⟩

theorem allocateResult (ret : TypeId) : Atomic (Calls.allocateResult ret) := by
  unfold Calls.allocateResult
  split
  · exact pure none
  · exact (allocate ret).map some

theorem reserve_ordinary {types : TypeTable} {type : TypeId} {lookBack : Bool}
    {a b : Arena} {e : Failure}
    (h : Arena.reserve types type lookBack a = .error e b) :
    e.isPlain = true := by
  unfold Arena.reserve at h
  simp only at h
  split at h
  · split at h
    · cases h
    · cases h
      rfl
  · split at h
    · cases h
    · rename_i hallocate
      cases h
      exact allocate_ordinary hallocate

theorem reserve (type : TypeId) (lookBack : Bool) :
    Atomic (Eval.reserve type lookBack) :=
  fun _ => onArena (fun _ _ h => .reserve h) fun _ _ h =>
    ⟨Arena.reserve_eq_error h, reserve_ordinary h⟩

theorem write (addr : Nat) (contents : List UInt8) :
    Atomic (Eval.onArena (Arena.write addr contents)) := by
  refine fun _ => onArena (fun _ _ h => .write h) fun _ _ h =>
    ⟨Arena.write_eq_error h, ?_⟩
  unfold Arena.write at h
  split at h
  · cases h
  · cases h
    rfl

theorem copy (src dst len : Nat) :
    Atomic (Eval.onArena (Arena.copy src dst len)) := by
  refine fun _ => onArena (fun _ _ h => .copy h) fun _ _ h =>
    ⟨Arena.copy_eq_error h, ?_⟩
  unfold Arena.copy at h
  split at h
  · split at h
    · cases h
    · cases h
      rfl
  · cases h
    rfl

theorem bindLocal (name : String) (slot : Slot) :
    Atomic (Eval.updateArena (·.modifyTop (·.bind name slot))) :=
  fun _ => .ok () (.inr ⟨.bindLocal name slot, .of_tables rfl rfl rfl rfl⟩)

end Atomic

end Eval

end ArenaScript
