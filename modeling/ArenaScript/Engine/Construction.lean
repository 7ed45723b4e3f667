import ArenaScript.Engine.Operators
/-!
# Construction and destruction

Objects are constructed in zeroed memory.  A constructor that a program declares
finds the fields of its object initialized already.  Destruction runs the
declared destructor and then goes through the fields in reverse order; array
elements go last to first.
-/

namespace ArenaScript

namespace Engine

/-- The member function `name` of `type` that takes a receiver of that type and
`args`. -/
def memberFunction? (s : Engine) (type : TypeId) (name : String)
    (args : List Value) : Option FunctionId :=
  s.functions.resolve s.types ((s.membersOf type).findFunction name)
    (.member (type :: args.map Value.type))

def classFields (s : Engine) (type : TypeId) : List Field :=
  match (s.types.get type).structural? with
  | some body => if body.kind == .classKind then body.fields else []
  | none => []

def element (s : Engine) (place : Value) (elem : TypeId) (i : Nat) : Value :=
  place.view elem (Word.mul i (s.types.sizeOf elem))

/-- The parts of a class or array that are copied one by one, as pairs of places
in `dst` and `src`; none for a type that is copied as a whole. -/
def parts (s : Engine) (dst src : Value) : Option (List (Value × Value)) :=
  let entry := s.types.get dst.type
  match entry.structural?.filter (·.kind == .classKind) with
  | some body =>
      some (body.fields.map fun f =>
        (dst.view f.type f.offset, src.view f.type f.offset))
  | none =>
      entry.array?.map fun (elem, len) =>
        (List.range len).map fun i =>
          (s.element dst elem i, s.element src elem i)

end Engine

namespace Calls

def constructorFor (type : TypeId) (args : List Value) :
    Eval (Option FunctionId) := do
  Eval.ensureInitialized type
  Eval.read fun s => s.memberFunction? type "construct" args

/-- Initializes one field: by its initializer, which runs in the scope of
the class and sees no locals of the constructing code, or by default. -/
def initField (c : Calls) (classScope : ScopeId) (place : Value)
    (field : Field) : Eval Unit :=
  let slot := place.view field.type field.offset
  match field.initializer with
  | some init =>
      c.withFrame classScope .function none do
        let value ← Eval.withTree init.tree (c.evaluate init.node)
        c.copyConstruct slot value
  | none => c.defaultConstruct slot

def initFields (c : Calls) (place : Value) : Eval Unit := do
  let classScope ← Eval.read fun s => (s.types.get place.type).members
  let fields ← Eval.read fun s => s.classFields place.type
  fields.forM (c.initField classScope place)

def runConstructor (c : Calls) (id : FunctionId) (dst : Value)
    (args : List Value) : Eval Unit := do
  if !(← Eval.read fun s => (s.functions.get id).traits.synthesized) then
    c.initFields dst
  let _ ← c.invoke id (dst :: args)
  pure ()

def copyConstructStep (c : Calls) (dst src : Value) : Eval Unit := do
  if dst.type = .void then pure ()
  else
    match ← constructorFor dst.type [src] with
    | some id => c.runConstructor id dst [src]
    | none =>
        Eval.inspect fun s =>
          .error (Failure.typeConversion (s.types.name src.type)
            (s.types.name dst.type))

def constructNew (c : Calls) (type : TypeId) (args : List Value) :
    Eval Value := do
  if args.isEmpty then
    let place ← Eval.allocate type
    c.defaultConstruct place
    pure place
  else
    match ← constructorFor type args with
    | some id =>
        let place ← Eval.allocate type
        c.runConstructor id place args
        pure place
    | none =>
        Eval.inspect fun s =>
          .error (Failure.noMatchingOverload
            (s.types.name type ++ "::construct") (s.typeNames args))

def elementsOf (place : Value) : Eval (Option (List Value)) :=
  Eval.read fun s =>
    (s.types.get place.type).array?.map fun (elem, len) =>
      (List.range len).map (s.element place elem)

def defaultConstructStep (c : Calls) (place : Value) : Eval Unit := do
  if ← Eval.read fun s => (s.types.get place.type).aggregate then
    match ← elementsOf place with
    | some elements => elements.forM c.defaultConstruct
    | none =>
        c.initFields place
        match ← constructorFor place.type [] with
        | some id =>
            let _ ← c.invoke id [place]
            pure ()
        | none => pure ()

def destroyStep (c : Calls) (value : Value) : Eval Unit := do
  if ← Eval.read fun s => (s.types.get value.type).aggregate then
    match ← elementsOf value with
    | some elements => elements.reverse.forM c.destroy
    | none =>
        match ← Eval.read fun s =>
          s.memberFunction? value.type "destruct" [] with
        | some id =>
            let _ ← c.invoke id [value]
            pure ()
        | none => pure ()
        let fields ← Eval.read fun s => s.classFields value.type
        fields.reverse.forM fun field =>
          c.destroy (value.view field.type field.offset)

def memberwise (f : Value → Value → Eval Unit) (dst src : Value) :
    Eval Unit := do
  match ← Eval.read fun s => s.parts dst src with
  | some pairs => pairs.forM fun (dst, src) => f dst src
  | none =>
      let size ← Eval.read fun s => s.types.sizeOf dst.type
      Eval.onArena (Arena.copy src.addr dst.addr size)

end Calls

end ArenaScript
