import ArenaScript.Proofs.Arena.Operation
import ArenaScript.Proofs.Evaluation.Parameters

/-!
# What an evaluation can do

Every change of an engine is one of a fixed list of moves, or is made inside a
tree, a call, a frame or a module.  A relation between engines that holds of the
moves and of the first three ways of nesting is called local, and stable if it
also holds of modules.  A computation stays within a relation if all its runs,
successful or not, lead to related engines; the rules below follow how
computations are put together.
-/

namespace ArenaScript

namespace Engine

/-- Whether modules may be loaded: there is no frame, or the innermost one is a
root frame. -/
def atRoot (s : Engine) : Bool := s.arena.top?.all (·.kind.isRoot)

def beginModule (s : Engine) (scope : ScopeId) (tree : TreeId) : Engine :=
  { s with
    arena := s.arena.pushFrame scope .moduleFrame none, currentTree := tree }

/-- A single change of an engine. -/
inductive Move (s : Engine) : Engine → Prop
  | instantiate {kind : TemplateKind} {args : List TemplateArg}
      {result : TypeId × Bool} {types : TypeTable} {scopes : ScopeTable}
      (h : s.types.findOrCreate s.scopes kind args =
        .ok (result, types, scopes)) :
      Move s { s with types, scopes }
  | registerShell {name : String} {kind : StructKind} {members : ScopeId}
      {id : TypeId} {types : TypeTable}
      (h : s.types.register name (.shell kind) members = .ok (id, types)) :
      Move s { s with types }
  | completeType {type : TypeId} {fields : List Field}
      {variants : List (String × Int64)} {types : TypeTable}
      (h : s.types.complete type fields variants = .ok types) :
      Move s { s with types }
  | setOrigin (type : TypeId) (template : TemplateId)
      (args : List TemplateArg) :
      Move s { s with types := s.types.setOrigin type template args }
  | markInitialized (type : TypeId) :
      Move s { s with types := s.types.markInitialized type }
  | createScope (kind : ScopeKind) (parent : Option ScopeId) :
      Move s { s with scopes := (s.scopes.create kind parent).2 }
  | scopeFor (key : NodeKey) (kind : ScopeKind) (parent : ScopeId) :
      Move s { s with scopes := (s.scopes.scopeFor key kind parent).2 }
  | addImport (scope id : ScopeId) :
      Move s { s with scopes := s.scopes.modify scope (·.addImport id) }
  | setOwner (scope : ScopeId) (type : TypeId) :
      Move s { s with
        scopes := s.scopes.modify scope fun x => { x with owner := some type } }
  | registerFunction (scope : ScopeId) (name : String) (id : FunctionId) :
      Move s { s with
        scopes := s.scopes.modify scope (·.registerFunction name id) }
  | registerOperator (scope : ScopeId) (symbol : String) (id : FunctionId) :
      Move s { s with
        scopes := s.scopes.modify scope (·.registerOperator symbol id) }
  | registerTemplateFunction (scope : ScopeId) (name : String)
      (id : TemplateId) :
      Move s { s with
        scopes := s.scopes.modify scope (·.registerTemplateFunction name id) }
  | bindTemplateScope (d : TemplateDef) (args : List TemplateArg) :
      Move s { s with scopes := s.scopes.bindTemplate d args }
  | registerType {scope : ScopeId} {name : String} {type : TypeId}
      {changed : Scope}
      (h : (s.scopes.get scope).registerType name type = .ok changed) :
      Move s { s with scopes := s.scopes.modify scope fun _ => changed }
  | registerTemplateType {scope : ScopeId} {name : String} {id : TemplateId}
      {changed : Scope}
      (h : (s.scopes.get scope).registerTemplateType name id = .ok changed) :
      Move s { s with scopes := s.scopes.modify scope fun _ => changed }
  | addFunction (f : Function) :
      Move s { s with functions := (s.functions.add f).2 }
  | addTemplate (d : TemplateDef) :
      Move s { s with templates := (s.templates.add d).2 }
  | addInstance (template : TemplateId) (args : List TemplateArg)
      (id : FunctionId) :
      Move s { s with templates := s.templates.addInstance template args id }
  | intern (text : String) :
      Move s { s with strings := (s.strings.intern text).2 }
  | print (text : String) (newline : Bool) :
      Move s { s with
        sink := if newline then s.sink.println text else s.sink.print text }
  | setPos (pos : Position) : Move s { s with lastPos := pos }
  | markDeclared (key : NodeKey) (h : s.declared.contains key = false) :
      Move s { s with declared := key :: s.declared }
  | adoptTree : Move s { s with nextTree := s.nextTree + 1 }
  | allocate {type : TypeId} {value : Value} {arena : Arena}
      (h : Arena.allocate s.types type none s.arena = .ok value arena) :
      Move s { s with arena }
  | reserve {type : TypeId} {lookBack : Bool} {slot : Slot} {arena : Arena}
      (h : Arena.reserve s.types type lookBack s.arena = .ok slot arena) :
      Move s { s with arena }
  | write {addr : Nat} {contents : List UInt8} {arena : Arena}
      (h : Arena.write addr contents s.arena = .ok () arena) :
      Move s { s with arena }
  | copy {src dst len : Nat} {arena : Arena}
      (h : Arena.copy src dst len s.arena = .ok () arena) :
      Move s { s with arena }
  | bindLocal (name : String) (slot : Slot) :
      Move s { s with arena := s.arena.modifyTop (·.bind name slot) }

end Engine

namespace Eval

/-- The engine a computation leaves, whether it succeeds or not. -/
def after {α : Type} (x : Eval α) (s : Engine) : Engine :=
  match x s with
  | .ok _ t => t
  | .error _ t => t

def Within {α : Type} (R : Engine → Engine → Prop) (x : Eval α) : Prop :=
  ∀ s, R s (x.after s)

structure Composable (R : Engine → Engine → Prop) : Prop where
  refl : ∀ s, R s s
  trans : ∀ {s t u}, R s t → R t u → R s u

/-- A relation that single moves stay within, and what is done inside a tree, a
call or a frame. -/
structure Local (R : Engine → Engine → Prop) : Prop extends Composable R where
  move : ∀ {s t : Engine}, s.Move t → R s t
  root : ∀ {s t}, R s t → t.atRoot = s.atRoot
  tree : ∀ {α : Type} {x : Eval α} (id : TreeId), Within R x →
    Within R (withTree id x)
  call : ∀ {α : Type} {x : Eval α}, Within R x → Within R (Calls.deeper x)
  frame : ∀ {α : Type} {x : Eval α} {c : Calls} (scope : ScopeId)
    {kind : FrameKind}
    (record : Option CallRecord), kind.isRoot = false →
    (∀ v, Within R (c.destroy v)) →
      Within R x → Within R (c.withFrame scope kind record x)

structure Stable (R : Engine → Engine → Prop) : Prop extends Local R where
  enter : ∀ {s} (path : String) (tree : TreeId), s.atRoot = true →
    R s ((addModule path tree).after s)
  start : ∀ {s t u} (path : String) (scope : ScopeId) (tree : TreeId),
    s.atRoot = true →
    R ((addModule path tree).after s) t → R (t.beginModule scope tree) u →
      R s { u with currentTree := t.currentTree }

/-! ## Putting computations together -/

theorem after_ok {α : Type} {x : Eval α} {s t : Engine} {a : α}
    (h : x s = .ok a t) : x.after s = t := by
  simp only [after, h]

theorem after_error {α : Type} {x : Eval α} {s t : Engine} {e : Stop}
    (h : x s = .error e t) : x.after s = t := by
  simp only [after, h]

theorem bind_ok {α β : Type} {x : Eval α} {f : α → Eval β}
    {s t : Engine} {a : α} (h : x s = .ok a t) : (x >>= f) s = f a t := by
  simp only [bind, EStateM.bind, h]

theorem bind_error {α β : Type} {x : Eval α} {f : α → Eval β} {s t : Engine}
    {e : Stop} (h : x s = .error e t) : (x >>= f) s = .error e t := by
  simp only [bind, EStateM.bind, h]

theorem bind_congr {α β : Type} {x y : Eval α} {f : α → Eval β} {s t : Engine}
    (h : x s = y t) : (x >>= f) s = (y >>= f) t := by
  simp only [bind, EStateM.bind, h]

theorem bind_eq_ok {α β : Type} {x : Eval α} {f : α → Eval β}
    {s u : Engine} {b : β} (h : (x >>= f) s = .ok b u) :
    ∃ a t, x s = .ok a t ∧ f a t = .ok b u := by
  cases hrun : x s with
  | ok a t => exact ⟨a, t, rfl, by rwa [bind_ok hrun] at h⟩
  | error e t =>
      rw [bind_error hrun] at h
      cases h

theorem bind_eq_error {α β : Type} {x : Eval α} {f : α → Eval β} {s u : Engine}
    {e : Stop} (h : (x >>= f) s = .error e u) :
    x s = .error e u ∨ ∃ a t, x s = .ok a t ∧ f a t = .error e u := by
  cases hrun : x s with
  | ok a t => exact .inr ⟨a, t, rfl, by rwa [bind_ok hrun] at h⟩
  | error e' t =>
      rw [bind_error hrun] at h
      cases h
      exact .inl rfl

def value? {α : Type} (x : Eval α) (s : Engine) : Option α :=
  match x s with
  | .ok a _ => some a
  | .error .. => none

theorem eq_ok_of_value? {α : Type} {x : Eval α} {s : Engine} {a : α}
    (h : x.value? s = some a) : x s = .ok a (x.after s) := by
  cases hrun : x s with
  | ok b t =>
      simp only [value?, hrun, Option.some.injEq] at h
      rw [after_ok hrun, h]
  | error e t => simp [value?, hrun] at h

theorem bind_read {α β : Type} (f : Engine → α) (k : α → Eval β) (s : Engine) :
    (read f >>= k) s = k (f s) s := rfl

theorem bind_inspect {α β : Type} {f : Engine → Except Failure α}
    {k : α → Eval β} {s : Engine} {a : α} (h : f s = .ok a) :
    (inspect f >>= k) s = k a s :=
  bind_ok (by simp only [inspect, h])

theorem inspect_eq_ok {α : Type} {f : Engine → Except Failure α}
    {s t : Engine} {a : α} (h : inspect f s = .ok a t) :
    f s = .ok a ∧ t = s := by
  unfold inspect at h
  split at h <;> cases h
  exact ⟨‹_›, rfl⟩

theorem inspect_eq_error {α : Type} {f : Engine → Except Failure α}
    {s t : Engine} {e : Stop} (h : inspect f s = .error e t) : t = s := by
  unfold inspect at h
  split at h <;> cases h
  rfl

theorem onArena_ok {α : Type} {op : Arena.Op α} {s : Engine} {a : α}
    {arena : Arena} (h : op s.arena = .ok a arena) :
    onArena op s = .ok a { s with arena } := by
  simp only [onArena, h]

theorem onArena_error {α : Type} {op : Arena.Op α} {s : Engine} {e : Failure}
    {arena : Arena} (h : op s.arena = .error e arena) :
    onArena op s = .error (.failed e) { s with arena } := by
  simp only [onArena, h]

theorem onArena_eq_ok {α : Type} {op : Arena.Op α} {s t : Engine} {a : α}
    (h : onArena op s = .ok a t) : ∃ arena, op s.arena = .ok a arena ∧
    t = { s with arena } := by
  cases hop : op s.arena with
  | ok b arena =>
      rw [onArena_ok hop] at h
      cases h
      exact ⟨arena, rfl, rfl⟩
  | error e arena =>
      rw [onArena_error hop] at h
      cases h

theorem onArena_eq_error {α : Type} {op : Arena.Op α} {s t : Engine} {e : Stop}
    (h : onArena op s = .error e t) :
    ∃ failure arena, op s.arena = .error failure arena ∧
      t = { s with arena } := by
  cases hop : op s.arena with
  | ok b arena =>
      rw [onArena_ok hop] at h
      cases h
  | error failure arena =>
      rw [onArena_error hop] at h
      cases h
      exact ⟨failure, arena, rfl, rfl⟩

theorem after_bind {α β : Type} (x : Eval α) (f : α → Eval β) (s : Engine) :
    (x >>= f).after s =
      match x s with
      | .ok a t => (f a).after t
      | .error _ t => t := by
  simp only [after, bind, EStateM.bind]
  cases x s <;> rfl

theorem after_bind_ok {α β : Type} {x : Eval α} {f : α → Eval β}
    {s t : Engine} {a : α} (h : x s = .ok a t) :
    (x >>= f).after s = (f a).after t := by
  rw [after_bind, h]

theorem after_bind_error {α β : Type} {x : Eval α} {f : α → Eval β}
    {s t : Engine} {e : Stop} (h : x s = .error e t) :
    (x >>= f).after s = t := by
  rw [after_bind, h]

theorem after_bind_pure {α β : Type} (x : Eval α) (f : α → β) (s : Engine) :
    (x >>= fun a => Pure.pure (f a)).after s = x.after s := by
  cases hrun : x s with
  | ok a t =>
      rw [after_bind_ok hrun, after_ok hrun]
      rfl
  | error e t => rw [after_bind_error hrun, after_error hrun]

theorem after_congr {α : Type} {x y : Eval α} {s t : Engine} (h : x s = y t) :
    x.after s = y.after t := by
  simp only [after, h]

theorem after_mapFailure {α : Type} (f : Engine → Failure → Failure)
    (x : Eval α) (s : Engine) : (mapFailure f x).after s = x.after s := by
  simp only [after, mapFailure]
  cases x s with
  | ok a t => rfl
  | error e t => cases e <;> rfl

theorem onStop_ok {α : Type} {x : Eval α} {s t : Engine} {a : α}
    (g : Engine → Engine) (h : x s = .ok a t) : onStop g x s = .ok a t := by
  simp only [onStop, h]

theorem onStop_error {α : Type} {x : Eval α} {s t : Engine} {e : Stop}
    (g : Engine → Engine) (h : x s = .error e t) :
    onStop g x s = .error e (g t) := by
  simp only [onStop, h]

theorem onStop_eq_ok {α : Type} {x : Eval α} {s t : Engine} {a : α}
    {g : Engine → Engine} (h : onStop g x s = .ok a t) : x s = .ok a t := by
  cases hrun : x s with
  | ok b u => rwa [onStop_ok g hrun] at h
  | error e u =>
      rw [onStop_error g hrun] at h
      cases h

theorem after_withTree {α : Type} (tree : TreeId) (x : Eval α) (s : Engine) :
    (withTree tree x).after s =
      { x.after { s with currentTree := tree } with
        currentTree := s.currentTree } := by
  simp only [after, withTree]
  cases x { s with currentTree := tree } <;> rfl

theorem withTree_eq_ok {α : Type} {tree : TreeId} {x : Eval α}
    {s t : Engine} {a : α} (h : withTree tree x s = .ok a t) :
    ∃ u, x { s with currentTree := tree } = .ok a u ∧
      t = { u with currentTree := s.currentTree } := by
  unfold withTree at h
  simp only at h
  split at h
  · rename_i hrun
    cases h
    exact ⟨_, hrun, rfl⟩
  · cases h

theorem withTree_eq_error {α : Type} {tree : TreeId} {x : Eval α} {s t : Engine}
    {e : Stop} (h : withTree tree x s = .error e t) :
    ∃ u, x { s with currentTree := tree } = .error e u ∧
      t = { u with currentTree := s.currentTree } := by
  unfold withTree at h
  simp only at h
  split at h
  · cases h
  · rename_i hrun
    cases h
    exact ⟨_, hrun, rfl⟩

theorem after_map {α β : Type} (f : α → β) (x : Eval α) (s : Engine) :
    (f <$> x).after s = x.after s := by
  simp only [after, Functor.map, EStateM.map]
  cases x s <;> rfl

theorem Within.map {R : Engine → Engine → Prop} {α β : Type} {x : Eval α}
    (f : α → β) (hx : Within R x) : Within R (f <$> x) := by
  intro s
  rw [after_map]
  exact hx s

theorem Within.of_ok {R : Engine → Engine → Prop} {α : Type} {x : Eval α}
    {s t : Engine} {a : α} (hx : Within R x) (h : x s = .ok a t) : R s t := by
  have hs := hx s
  rwa [after_ok h] at hs

theorem Within.of_error {R : Engine → Engine → Prop} {α : Type} {x : Eval α}
    {s t : Engine} {e : Stop} (hx : Within R x) (h : x s = .error e t) :
    R s t := by
  have hs := hx s
  rwa [after_error h] at hs

namespace Composable

variable {R : Engine → Engine → Prop} {α β : Type}

theorem bind_at (hR : Composable R) {x : Eval α} {f : α → Eval β} {s : Engine}
    (hx : R s (x.after s)) (hf : ∀ a t, x s = .ok a t → R t ((f a).after t)) :
    R s ((x >>= f).after s) := by
  cases hrun : x s with
  | ok a t =>
      rw [after_ok hrun] at hx
      rw [after_bind_ok hrun]
      exact hR.trans hx (hf a t hrun)
  | error e t =>
      rw [after_error hrun] at hx
      rw [after_bind_error hrun]
      exact hx

theorem bind (hR : Composable R) {x : Eval α} {f : α → Eval β} (hx : Within R x)
    (hf : ∀ a, Within R (f a)) : Within R (x >>= f) :=
  fun s => hR.bind_at (hx s) fun a t _ => hf a t

theorem pure (hR : Composable R) (a : α) : Within R (Pure.pure a) :=
  fun s => hR.refl s

theorem read (hR : Composable R) (f : Engine → α) : Within R (Eval.read f) :=
  fun s => hR.refl s

theorem fail (hR : Composable R) (e : Failure) :
    Within R (Eval.fail e : Eval α) :=
  fun s => hR.refl s

theorem exhausted (hR : Composable R) : Within R (Eval.exhausted : Eval α) :=
  fun s => hR.refl s

theorem inspect (hR : Composable R) (f : Engine → Except Failure α) :
    Within R (Eval.inspect f) := by
  intro s
  simp only [after, Eval.inspect]
  cases f s with
  | ok a => exact hR.refl s
  | error e => exact hR.refl s

theorem forM (hR : Composable R) {f : α → Eval Unit} (hf : ∀ a, Within R (f a))
    (l : List α) : Within R (l.forM f) := by
  induction l with
  | nil => exact hR.pure ()
  | cons a l ih => exact hR.bind (hf a) fun _ => ih

end Composable

namespace Local

variable {R : Engine → Engine → Prop} {α : Type}

/-! ## Moves -/

theorem modify (hR : Local R) {f : Engine → Engine}
    (h : ∀ s : Engine, s.Move (f s)) : Within R (modify f : Eval Unit) :=
  fun s => hR.move (h s)

theorem modifyGet (hR : Local R) {f : Engine → α × Engine}
    (h : ∀ s : Engine, s.Move (f s).2) : Within R (modifyGet f : Eval α) :=
  fun s => hR.move (h s)

theorem scopeFor (hR : Local R) (node : Node) (kind : ScopeKind)
    (parent : ScopeId) : Within R (Eval.scopeFor node kind parent) :=
  hR.modifyGet fun s => .scopeFor ⟨s.currentTree, node.id⟩ kind parent

theorem addFunction (hR : Local R) (f : Function) :
    Within R (Eval.addFunction f) :=
  hR.modifyGet fun _ => .addFunction f

theorem registerShell (hR : Local R) (name : String) (kind : StructKind)
    (members : ScopeId) : Within R (Eval.registerShell name kind members) := by
  intro s
  cases hresult : s.types.register name (.shell kind) members with
  | ok result =>
      have hrun : Eval.registerShell name kind members s =
          .ok result.1 { s with types := result.2 } := by
        simp only [Eval.registerShell, hresult]
      rw [after_ok hrun]
      exact hR.move (.registerShell hresult)
  | error e =>
      have hrun : Eval.registerShell name kind members s =
          .error (.failed e) s := by
        simp only [Eval.registerShell, hresult]
      rw [after_error hrun]
      exact hR.refl s

theorem completeType (hR : Local R) (type : TypeId) (fields : List Field)
    (variants : List (String × Int64)) :
    Within R (Eval.completeType type fields variants) := by
  intro s
  cases hresult : s.types.complete type fields variants with
  | ok types =>
      have hrun : Eval.completeType type fields variants s =
          .ok () { s with types } := by
        simp only [Eval.completeType, hresult]
      rw [after_ok hrun]
      exact hR.move (.completeType hresult)
  | error e =>
      have hrun : Eval.completeType type fields variants s =
          .error (.failed e) s := by
        simp only [Eval.completeType, hresult]
      rw [after_error hrun]
      exact hR.refl s

end Local

end Eval

end ArenaScript
