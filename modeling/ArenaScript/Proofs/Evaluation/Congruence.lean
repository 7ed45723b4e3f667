import ArenaScript.Proofs.Evaluation.Anchoring

/-!
# Congruences of computations

Two evaluators are compared computation by computation.  A congruence relates
computations, for each world that they may run in, and is kept by the ways in
which computations are put together.  A world tells which tree is executing, and
which code may run: a body of a function and a declaration of a template are
code when they are met again if they were code when they were kept.  A declared
type is a shell until its members are known, so registering and completing it
count as one step.  New scopes are made below scopes that are in use, and what
has been made or looked up is in use from then on.

Staying within a local relation is a congruence that looks at one of the two
computations only, and for which everything is code.
-/

namespace ArenaScript

open Eval (Within Local Atomic Elementary Scoping)

def Eval.declareType (name : String) (kind : StructKind) (scope : ScopeId)
    (x : TypeId → Eval (List Field × List (String × Int64))) : Eval TypeId := do
  let type ← registerShell name kind scope
  let members ← x type
  completeType type members.1 members.2
  pure type

namespace Eval

/-- Computations stay related when they follow each other or drop frames early,
and looking at the engine or shedding frames is related to itself. -/
structure Threading (Rel : ∀ {α : Type}, Eval α → Eval α → Prop) : Prop where
  read : ∀ {α : Type} (f : Engine → α), Rel (read f) (read f)
  updateArena : ∀ f : Arena → Arena, (∀ a : Arena, a.Sheds (f a)) →
    Rel (updateArena f) (updateArena f)
  onStop : ∀ {α : Type} {x y : Eval α} (depth : Nat), Rel x y →
    Rel (onStop (·.unwindTo depth) x) (onStop (·.unwindTo depth) y)
  bind : ∀ {α β : Type} {x y : Eval α} {f g : α → Eval β}, Rel x y →
    (∀ a, Rel (f a) (g a)) → Rel (x >>= f) (y >>= g)

namespace Threading

variable {Rel : ∀ {α : Type}, Eval α → Eval α → Prop} {α : Type}

theorem pure (h : Threading Rel) (a : α) : Rel (Pure.pure a) (Pure.pure a) :=
  h.read fun _ => a

theorem forM (h : Threading Rel) {f g : α → Eval Unit}
    (hf : ∀ a, Rel (f a) (g a)) (l : List α) : Rel (l.forM f) (l.forM g) := by
  induction l with
  | nil => exact h.pure ()
  | cons a l ih => exact h.bind (hf a) fun _ => ih

section Frames

variable {c d : Calls} (h : Threading Rel)
  (hdestroy : ∀ v, Rel (c.destroy v) (d.destroy v))
include h hdestroy

theorem popFrame (depth : Nat) : Rel (c.popFrame depth) (d.popFrame depth) := by
  have htake : Rel Calls.takeDestructibles Calls.takeDestructibles :=
    h.bind (h.read _) fun doomed =>
      h.bind (h.updateArena _ (.modifyTop fun _ => rfl)) fun _ => h.pure doomed
  refine h.bind htake fun doomed => ?_
  exact h.bind (h.onStop depth (h.forM hdestroy doomed)) fun _ =>
    h.updateArena _ .popFrame

theorem popFrames (depth rounds : Nat) :
    Rel (c.popFrames depth rounds) (d.popFrames depth rounds) := by
  induction rounds with
  | zero => exact h.pure ()
  | succ rounds ih =>
      unfold Calls.popFrames
      refine h.bind (h.read _) fun current => ?_
      split
      · exact h.bind (h.popFrame hdestroy depth) fun _ => ih
      · exact h.pure ()

theorem popFramesTo (depth : Nat) :
    Rel (c.popFramesTo depth) (d.popFramesTo depth) :=
  h.bind (h.read _) fun rounds => h.popFrames hdestroy depth rounds

theorem withFrame {scope : ScopeId} {kind : FrameKind}
    {record : Option CallRecord}
    (hpush : Rel (Eval.updateArena (·.pushFrame scope kind record))
      (Eval.updateArena (·.pushFrame scope kind record))) {x y : Eval α}
        (hx : Rel x y) :
    Rel (c.withFrame scope kind record x)
      (d.withFrame scope kind record y) := by
  unfold Calls.withFrame
  refine h.bind (h.read _) fun depth => ?_
  refine h.bind hpush fun _ => ?_
  refine h.bind (h.onStop depth hx) fun a => ?_
  exact h.bind (h.popFramesTo hdestroy depth) fun _ => h.pure a

end Frames

end Threading

end Eval

/-- Runs `x` in the frame of a call of `f`, as code of the tree `home`. -/
def Calls.calling (c : Calls) (id : FunctionId) (f : Function) (home : TreeId)
    (scope : ScopeId) (x : Eval Unit) : Eval (Option Value) := do
  Eval.inspect fun s =>
    if s.maxCallDepth ≤ s.callDepth then
      .error (Failure.callDepthExceeded s.maxCallDepth)
    else .ok ()
  let returnSlot ← allocateResult f.ret
  let call : CallRecord := { function := id, owner := f.owner, returnSlot }
  deeper <| Eval.withTree home <| c.withFrame scope .function (some call) x
  pure returnSlot

structure Congruence.Later {World : Type} (inTree : World → TreeId → World)
    (inCall : World → World) (Code : World → Node → Prop)
    (InUse : World → ScopeId → Prop) (w v : World) : Prop where
  code : ∀ {node : Node}, Code w node → Code v node
  callable : ∀ {node : Node}, Code (inCall w) node → Code (inCall v) node
  called : ∀ {home : TreeId} {node : Node}, Code (inCall (inTree w home)) node →
    Code (inCall (inTree v home)) node
  inUse : ∀ {scope : ScopeId}, InUse w scope → InUse v scope

structure Congruence where
  /-- What is known while code is executing. -/
  World : Type
  inTree : World → TreeId → World
  inBlock : World → World
  inCall : World → World
  Rel : ∀ {α : Type}, World → Eval α → Eval α → Prop
  /-- What may be executed. -/
  Code : World → Node → Prop
  /-- The scopes that are in use. -/
  InUse : World → ScopeId → Prop
  code_nested : ∀ {w : World} {node child : Node}, Code w node →
    child ∈ node.children →
    Code (inBlock (inBlock w)) child
  code_outer : ∀ {w : World} {node : Node}, Code (inBlock w) node → Code w node
  code_callable : ∀ {w : World} {node : Node}, Code w node →
    Code (inCall w) node
  inUse_inTree : ∀ {w : World} {scope : ScopeId} (id : TreeId), InUse w scope →
    InUse (inTree w id) scope
  inUse_inBlock : ∀ {w : World} {scope : ScopeId}, InUse w scope →
    InUse (inBlock w) scope
  atomic : ∀ {α : Type} {w : World} {x : Eval α}, Elementary x → Rel w x x
  /-- A scope that is found or made is in use in some later world. -/
  withScope : ∀ {α : Type} {w : World} {x : Eval ScopeId}
    {k l : ScopeId → Eval α},
    Scoping (InUse w) x →
      (∀ (v : World) (scope : ScopeId),
        Congruence.Later inTree inCall Code InUse w v →
        InUse v scope → Rel v (k scope) (l scope)) →
      Rel w (x >>= k) (x >>= l)
  link : ∀ {w : World} {other : ScopeId} (scope : ScopeId), InUse w other →
    Rel w (Eval.updateScope scope (·.addImport other))
      (Eval.updateScope scope (·.addImport other))
  bind : ∀ {α β : Type} {w : World} {x y : Eval α} {f g : α → Eval β},
    Rel w x y → (∀ a, Rel w (f a) (g a)) → Rel w (x >>= f) (y >>= g)
  withTree : ∀ {α : Type} {w : World} {x y : Eval α} (id : TreeId),
    Rel (inTree w id) x y →
    Rel w (Eval.withTree id x) (Eval.withTree id y)
  block : ∀ {α : Type} {w : World} {x y : Eval α} {c d : Calls} {node : Node}
    {scope : ScopeId},
    InUse w scope → Code w node →
    (∀ v, Rel (inBlock w) (c.destroy v) (d.destroy v)) → Rel (inBlock w) x y →
      Rel w (c.withFrame scope .block none x) (d.withFrame scope .block none y)
  initializer : ∀ {α : Type} {w : World} {x y : Eval α} {c d : Calls}
    {scope : ScopeId},
    InUse w scope → (∀ v, Rel (inCall w) (c.destroy v) (d.destroy v)) →
    Rel (inCall w) x y →
      Rel w (c.withFrame scope .function none x)
        (d.withFrame scope .function none y)
  call : ∀ {w : World} {x y : Eval Unit} {c d : Calls} (id : FunctionId)
    (f : Function) (home : TreeId) {scope : ScopeId}, InUse w scope →
      (∀ v, Rel (inCall (inTree w home)) (c.destroy v) (d.destroy v)) →
        Rel (inCall (inTree w home)) x y →
          Rel w (c.calling id f home scope x) (d.calling id f home scope y)
  function : ∀ {α : Type} {w : World} {k l : Function → Eval α}
    (id : FunctionId),
    (∀ (v : World) (f : Function),
      (∀ home node scope, f.body = .interpreted home node scope →
        Code (inCall (inTree v home)) node ∧ InUse v scope) →
        Rel v (k f) (l f)) →
      Rel w (Eval.read (fun s => s.functions.get id) >>= k)
        (Eval.read (fun s => s.functions.get id) >>= l)
  template : ∀ {α : Type} {w : World} {k l : TemplateDef → Eval α}
    (id : TemplateId),
    (∀ (v : World) (d : TemplateDef), Code (inCall (inTree v d.tree)) d.node →
      InUse v d.scope → Rel v (k d) (l d)) →
      Rel w (Eval.read (fun s => s.templates.get id) >>= k)
        (Eval.read (fun s => s.templates.get id) >>= l)
  shell : ∀ {w : World}
    {x y : TypeId → Eval (List Field × List (String × Int64))}
    (name : String) (kind : StructKind) {scope : ScopeId}, InUse w scope →
      (∀ type, Rel w (x type) (y type)) →
        Rel w (Eval.declareType name kind scope x)
          (Eval.declareType name kind scope y)
  addFunction : ∀ {w : World} {node : Node} {scope : ScopeId}
    {f : TreeId → Function},
    Code (inCall w) node → InUse w scope →
      (∀ home, (f home).body = .interpreted home node scope) →
      Rel w (Eval.read Engine.currentTree >>= fun home =>
        Eval.addFunction (f home))
        (Eval.read Engine.currentTree >>= fun home => Eval.addFunction (f home))
  addTemplate : ∀ {w : World} {node : Node} {scope : ScopeId}
    {d : TreeId → TemplateDef},
    Code (inCall w) node → InUse w scope →
      (∀ home, (d home).tree = home ∧ (d home).node = node ∧
        (d home).scope = scope) →
      Rel w
        (modifyGet fun s => ((s.templates.add (d s.currentTree)).1,
          { s with templates := (s.templates.add (d s.currentTree)).2 }))
        (modifyGet fun s => ((s.templates.add (d s.currentTree)).1,
          { s with templates := (s.templates.add (d s.currentTree)).2 }))

structure Congruence.Uniform where
  World : Type
  inTree : World → TreeId → World
  Rel : ∀ {α : Type}, World → Eval α → Eval α → Prop
  Code : World → Node → Prop
  code_child : ∀ {w : World} {node child : Node}, Code w node →
    child ∈ node.children →
    Code w child
  atomic : ∀ {α : Type} {w : World} {x : Eval α}, Atomic x → Rel w x x
  bind : ∀ {α β : Type} {w : World} {x y : Eval α} {f g : α → Eval β},
    Rel w x y → (∀ a, Rel w (f a) (g a)) → Rel w (x >>= f) (y >>= g)
  withTree : ∀ {α : Type} {w : World} {x y : Eval α} (id : TreeId),
    Rel (inTree w id) x y →
    Rel w (Eval.withTree id x) (Eval.withTree id y)
  deeper : ∀ {α : Type} {w : World} {x y : Eval α}, Rel w x y →
    Rel w (Calls.deeper x) (Calls.deeper y)
  withFrame : ∀ {α : Type} {w : World} {x y : Eval α} {c d : Calls}
    (scope : ScopeId)
    {kind : FrameKind} (record : Option CallRecord), kind.isRoot = false →
      (∀ v, Rel w (c.destroy v) (d.destroy v)) → Rel w x y →
        Rel w (c.withFrame scope kind record x)
          (d.withFrame scope kind record y)
  function : ∀ {α : Type} {w : World} {k l : Function → Eval α}
    (id : FunctionId),
    (∀ (v : World) (f : Function),
      (∀ home node scope, f.body = .interpreted home node scope →
        Code (inTree v home) node) →
        Rel v (k f) (l f)) →
      Rel w (Eval.read (fun s => s.functions.get id) >>= k)
        (Eval.read (fun s => s.functions.get id) >>= l)
  template : ∀ {α : Type} {w : World} {k l : TemplateDef → Eval α}
    (id : TemplateId),
    (∀ (v : World) (d : TemplateDef), Code (inTree v d.tree) d.node →
      Rel v (k d) (l d)) →
      Rel w (Eval.read (fun s => s.templates.get id) >>= k)
        (Eval.read (fun s => s.templates.get id) >>= l)
  shell : ∀ {w : World}
    {x y : TypeId → Eval (List Field × List (String × Int64))}
    (name : String) (kind : StructKind) (scope : ScopeId),
      (∀ type, Rel w (x type) (y type)) →
        Rel w (Eval.declareType name kind scope x)
          (Eval.declareType name kind scope y)
  addFunction : ∀ {w : World} {node : Node} {scope : ScopeId}
    {f : TreeId → Function},
    Code w node → (∀ home, (f home).body = .interpreted home node scope) →
      Rel w (Eval.read Engine.currentTree >>= fun home =>
        Eval.addFunction (f home))
        (Eval.read Engine.currentTree >>= fun home => Eval.addFunction (f home))
  addTemplate : ∀ {w : World} {node : Node} {d : TreeId → TemplateDef},
    Code w node → (∀ home, (d home).tree = home ∧ (d home).node = node) →
      Rel w
        (modifyGet fun s => ((s.templates.add (d s.currentTree)).1,
          { s with templates := (s.templates.add (d s.currentTree)).2 }))
        (modifyGet fun s => ((s.templates.add (d s.currentTree)).1,
          { s with templates := (s.templates.add (d s.currentTree)).2 }))

namespace Congruence

theorem ordinary_callDepth (s : Engine) :
    Ordinary (if s.maxCallDepth ≤ s.callDepth then
      .error (Failure.callDepthExceeded s.maxCallDepth) else
        .ok () : Except Failure Unit) :=
  .ite (Ordinary.error_iff.2 rfl) (.ok ())

theorem atomic_link (scope other : ScopeId) :
    Atomic (Eval.updateScope scope (·.addImport other)) := by
  refine .modify (fun _ => .addImport scope other) fun _ =>
    .of_scopes (.modify (fun x => ?_) scope)
  unfold Scope.addImport
  split <;> rfl

def Uniform.congruence (U : Uniform) : Congruence where
  World := U.World
  inTree := U.inTree
  inBlock w := w
  inCall w := w
  Rel := U.Rel
  Code := U.Code
  InUse _ _ := True
  code_nested := U.code_child
  code_outer h := h
  code_callable h := h
  inUse_inTree _ _ := trivial
  inUse_inBlock _ := trivial
  atomic hx := U.atomic hx.atomic
  withScope {_ w _ _ _} hx h :=
    U.bind (U.atomic hx.atomic) fun scope => h w scope ⟨id, id, id, id⟩ trivial
  link {_ other} scope _ := U.atomic (atomic_link scope other)
  bind := U.bind
  withTree := U.withTree
  block _ _ hdestroy hx := U.withFrame _ none rfl hdestroy hx
  initializer _ hdestroy hx := U.withFrame _ none rfl hdestroy hx
  call {w _ _ _ _} id f home scope _ hdestroy hx := by
    refine U.bind (U.atomic (.inspect ordinary_callDepth)) fun _ => ?_
    refine U.bind (U.atomic (.allocateResult f.ret)) fun returnSlot => ?_
    refine U.bind (U.deeper (U.withTree home ?_)) fun _ =>
      U.atomic (.pure returnSlot)
    exact U.withFrame scope _ rfl hdestroy hx
  function id h := U.function id fun v f hf =>
    h v f fun home node scope hbody => ⟨hf home node scope hbody, trivial⟩
  template id h := U.template id fun v d hd => h v d hd trivial
  shell name kind _ _ hx := U.shell name kind _ hx
  addFunction hnode _ hf := U.addFunction hnode hf
  addTemplate hnode _ hd := U.addTemplate hnode fun home =>
    ⟨(hd home).1, (hd home).2.1⟩

/-- Computations stay related if their failures are changed on the way out. -/
def MapsFailures (K : Congruence) : Prop :=
  ∀ {α : Type} {w : K.World} {x y : Eval α} {f : Engine → Failure → Failure},
    (∀ s e, (f s e).fault.isNestedImport = e.fault.isNestedImport) →
    K.Rel w x y →
      K.Rel w (Eval.mapFailure f x) (Eval.mapFailure f y)

variable {K : Congruence} {w : K.World} {α β : Type}

abbrev Keeps (K : Congruence) (w : K.World) (x : Eval α) : Prop := K.Rel w x x

/-! ## Putting computations together -/

theorem pure (K : Congruence) {w : K.World} (a : α) : K.Keeps w (Pure.pure a) :=
  K.atomic (.pure a)

theorem read (K : Congruence) {w : K.World} (f : Engine → α) :
    K.Keeps w (Eval.read f) :=
  K.atomic (.read f)

theorem exhausted (K : Congruence) {w : K.World} :
    K.Keeps w (Eval.exhausted : Eval α) :=
  K.atomic .exhausted

theorem inspect (K : Congruence) {w : K.World} {f : Engine → Except Failure α}
    (h : ∀ s, Ordinary (f s)) : K.Keeps w (Eval.inspect f) :=
  K.atomic (.inspect h)

theorem fail (K : Congruence) {w : K.World} {e : Failure}
    (h : e.isPlain = true) : K.Keeps w (Eval.fail e : Eval α) :=
  K.atomic (.fail h)

theorem refuse (K : Congruence) {w : K.World} {e : Engine → Failure}
    (h : ∀ s, (e s).isPlain = true) :
    K.Keeps w (Eval.inspect fun s => .error (e s) : Eval α) :=
  K.inspect fun s => Ordinary.error_iff.2 (h s)

theorem setPos (K : Congruence) {w : K.World} (pos : Position) :
    K.Keeps w (modify (fun s => { s with lastPos := pos }) : Eval Unit) :=
  K.atomic (.modify (fun _ => .setPos pos) (fun _ => .of_tables rfl rfl rfl rfl)
    fun _ hs => { hs with })

theorem modify (K : Congruence) {w : K.World} {f : Engine → Engine}
    (h : ∀ s : Engine, s.Move (f s)) (htame : ∀ s : Engine, s.Tame (f s))
    (hanchored : ∀ s : Engine, s.Anchored → (f s).Anchored) :
    K.Keeps w (modify f : Eval Unit) :=
  K.atomic (.modify h htame hanchored)

theorem updateScope (K : Congruence) {w : K.World} {scope : ScopeId}
    {f : Scope → Scope}
    (h : ∀ s : Engine, s.Move { s with scopes := s.scopes.modify scope f })
    (hf : ∀ x, (f x).context = x.context ∧ (f x).imports = x.imports) :
    K.Keeps w (Eval.updateScope scope f) := by
  refine K.modify h (fun _ => .of_scopes (.modify (fun x => (hf x).1) scope))
    fun s hs => ?_
  refine hs.modifyScope (congrArg Prod.fst (hf _).1) fun other hother => .inl ?_
  rwa [(hf _).2] at hother

theorem map (K : Congruence) {w : K.World} {x y : Eval α} (f : α → β)
    (h : K.Rel w x y) : K.Rel w (f <$> x) (f <$> y) := by
  rw [map_eq_pure_bind, map_eq_pure_bind]
  exact K.bind h fun a => K.pure (f a)

theorem forM_mem (K : Congruence) {w : K.World} {f g : α → Eval Unit}
    {l : List α} (h : ∀ a ∈ l, K.Rel w (f a) (g a)) :
    K.Rel w (l.forM f) (l.forM g) := by
  induction l with
  | nil => exact K.pure ()
  | cons a l ih =>
      obtain ⟨ha, hl⟩ := List.forall_mem_cons.1 h
      exact K.bind ha fun _ => ih hl

theorem forM (K : Congruence) {w : K.World} {f g : α → Eval Unit}
    (h : ∀ a, K.Rel w (f a) (g a)) (l : List α) :
    K.Rel w (l.forM f) (l.forM g) :=
  K.forM_mem fun a _ => h a

theorem mapM (K : Congruence) {w : K.World} {f g : α → Eval β}
    (h : ∀ a, K.Rel w (f a) (g a)) (l : List α) :
    K.Rel w (l.mapM f) (l.mapM g) := by
  induction l with
  | nil => exact K.pure []
  | cons a l ih =>
      rw [List.mapM_cons, List.mapM_cons]
      refine K.bind (h a) fun b => ?_
      exact K.bind ih fun bs => K.pure (b :: bs)

theorem code_child (K : Congruence) {w : K.World} {node child : Node}
    (h : K.Code w node) (hchild : child ∈ node.children) : K.Code w child :=
  K.code_outer (K.code_outer (K.code_nested h hchild))

theorem findChild? {node child : Node} {kind : NodeKind} (h : K.Code w node)
    (hchild : node.findChild? kind = some child) : K.Code w child :=
  K.code_child h (List.mem_of_find?_eq_some hchild)

theorem child? {node child : Node} {index : Nat} (h : K.Code w node)
    (hchild : node.child? index = some child) : K.Code w child :=
  K.code_child h (List.mem_of_getElem? hchild)

/-! ## Values -/

theorem referenceTo (K : Congruence) {w : K.World} (type : TypeId) :
    K.Keeps w (Eval.referenceTo type) :=
  K.atomic (.instantiateBuiltin .ref [.type type])

theorem addressTo (K : Congruence) {w : K.World} (type : TypeId) :
    K.Keeps w (Eval.addressTo type) :=
  K.atomic (.instantiateBuiltin .address [.type type])

theorem allocate (K : Congruence) {w : K.World} (type : TypeId) :
    K.Keeps w (Eval.allocate type) :=
  K.atomic (.allocate type)

theorem writeScalar (K : Congruence) {w : K.World} (value : Value)
    (scalar : Scalar) : K.Keeps w (Eval.writeScalar value scalar) := by
  unfold Eval.writeScalar
  refine K.bind (K.inspect fun s => s.ordinary_scalarKind _) fun kind => ?_
  exact K.atomic (.write value.addr (scalar.encode kind))

theorem allocScalar (K : Congruence) {w : K.World} (type : TypeId)
    (scalar : Scalar) : K.Keeps w (Eval.allocScalar type scalar) := by
  unfold Eval.allocScalar
  refine K.bind (K.allocate type) fun value => ?_
  exact K.bind (K.writeScalar value scalar) fun _ => K.pure value

theorem allocBool (K : Congruence) {w : K.World} (b : Bool) :
    K.Keeps w (Eval.allocBool b) :=
  K.allocScalar .bool (.bool b)

theorem allocStr (K : Congruence) {w : K.World} (text : String) :
    K.Keeps w (Eval.allocStr text) := by
  unfold Eval.allocStr
  refine K.bind (K.atomic ?_) fun index => K.allocScalar _ _
  exact .alters
    (.modifyGet (fun _ => .intern text) fun _ => .of_tables rfl rfl rfl rfl)
    fun _ hs => { hs with }

theorem allocAddress (K : Congruence) {w : K.World} (type : TypeId)
    (addr : Nat) : K.Keeps w (Eval.allocAddress type addr) := by
  unfold Eval.allocAddress
  refine K.bind (K.allocate type) fun value => ?_
  exact K.bind (K.atomic (.writeWord value.addr addr)) fun _ => K.pure value

theorem stripRef (K : Congruence) {w : K.World} (value : Value) :
    K.Keeps w (Eval.stripRef value) :=
  K.inspect fun s => s.ordinary_stripRef value

/-! ## Members of types -/

theorem addMember (K : Congruence) {w : K.World} (owner : TypeId) (m : Member) :
    K.Keeps w (Eval.addMember owner m) := by
  unfold Eval.addMember
  refine K.bind (K.atomic (.addNative rfl)) fun id => ?_
  refine K.bind (K.read _) fun scope => ?_
  cases m.isOperator with
  | true =>
      exact K.updateScope (fun _ => .registerOperator scope m.name id) fun _ =>
        ⟨rfl, rfl⟩
  | false =>
      exact K.updateScope (fun _ => .registerFunction scope m.name id) fun _ =>
        ⟨rfl, rfl⟩

theorem elementAddress (K : Congruence) {w : K.World} (type : TypeId) :
    K.Keeps w (Eval.elementAddress type) := by
  unfold Eval.elementAddress
  refine K.bind (K.read _) fun array => ?_
  cases array with
  | some parts => exact K.addressTo parts.1
  | none => exact K.pure _

theorem ensureInitialized (K : Congruence) {w : K.World} (type : TypeId) :
    K.Keeps w (Eval.ensureInitialized type) := by
  unfold Eval.ensureInitialized
  refine K.bind (K.read _) fun entry => ?_
  split
  · exact K.pure ()
  · refine K.bind (K.modify (fun _ => .markInitialized type) (fun s => ?_)
      fun _ hs => ?_) fun _ => ?_
    · exact .of_types (.markInitialized s.types type)
        (s.types.markInitialized_noNewShell type)
    · exact hs.markInitialized type
    refine K.bind (K.referenceTo type) fun ref => ?_
    refine K.bind (K.elementAddress type) fun address => ?_
    refine K.bind (K.read _) fun members => ?_
    exact K.forM (K.addMember type) members

/-! ## Local relations -/

def within {R : Engine → Engine → Prop} (hR : Local R) : Congruence :=
  Uniform.congruence {
    World := Unit
    inTree _ _ := ()
    Rel _ x _ := Within R x
    Code _ _ := True
    code_child _ _ := trivial
    atomic hx := hx.within hR
    bind hx hf := hR.bind hx hf
    withTree id hx := hR.tree id hx
    deeper hx := hR.call hx
    withFrame scope _ record hkind hdestroy hx :=
      hR.frame scope record hkind hdestroy hx
    function id h := hR.bind (hR.read _) fun f => h () f fun _ _ _ _ => trivial
    template id h := hR.bind (hR.read _) fun d => h () d trivial
    shell name kind scope hx := by
      refine hR.bind (hR.registerShell name kind scope) fun type => ?_
      refine hR.bind (hx type) fun members => ?_
      exact hR.bind (hR.completeType type _ _) fun _ => hR.pure type
    addFunction _ _ := hR.bind (hR.read _) fun home => hR.addFunction _
    addTemplate _ _ := hR.modifyGet fun _ => .addTemplate _ }

theorem within_mapsFailures {R : Engine → Engine → Prop} (hR : Local R) :
    (within hR).MapsFailures := by
  intro α w x y f _ hx
  change Within R (Eval.mapFailure f x)
  intro s
  rw [Eval.after_mapFailure]
  exact hx s

end Congruence

end ArenaScript
