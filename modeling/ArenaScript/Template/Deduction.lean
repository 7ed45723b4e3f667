import ArenaScript.Template.Table
/-!
# Deducing template arguments

The arguments of a function template are found by matching the type pattern of
each parameter against the type of the argument in its place.  A `Ref` pattern
looks through at most one reference; an `Array` or `Address` pattern matches its
own kind only; a pattern that names a class template matches its instances
argument by argument, and says nothing about other types.
-/

namespace ArenaScript.Deduction

abbrev Partial := List (Option TemplateArg)

/-- Binds parameter `i`, or checks that an earlier binding agrees. -/
def bind (known : Partial) (i : Nat) (arg : TemplateArg) : Option Partial :=
  match known[i]? with
  | some (some earlier) => if earlier = arg then some known else none
  | _ => some (known.set i (some arg))

structure Context where
  types : TypeTable
  templates : TemplateTable
  params : List TemplateParam

namespace Context

def typeParam? (c : Context) (name : String) : Option Nat :=
  c.params.findIdx? fun p => p.name == name && p.kind == .type

def valueParam? (c : Context) (name : String) : Option Nat :=
  c.params.findIdx? fun p => p.name == name && p.kind != .type

end Context

mutual

/-- Matches a type pattern against a type; none on a conflict. -/
def matchType (c : Context) (known : Partial) : Node → TypeId → Option Partial
  | ⟨_, name, _, _, children⟩, arg =>
      match children with
      | [] =>
          match c.typeParam? name with
          | some i => bind known i (.type arg)
          | none => some known
      | inner :: others =>
          let entry := c.types.get arg
          match TemplateKind.ofName? name with
          | some .ref =>
              matchType c known inner (entry.referenceTarget?.getD arg)
          | some kind =>
              match entry.shape with
              | .template k args =>
                  if k = kind then matchArgs c known (inner :: others) args
                    else none
              | _ => none
          | none =>
              match entry.structural?.bind (·.origin) with
              | some (origin, args) =>
                  if (c.templates.get origin).name == name then
                    matchArgs c known (inner :: others) args
                  else some known
              | none => some known

def matchArgs (c : Context) (known : Partial) :
    List Node → List TemplateArg → Option Partial
  | [], _ => some known
  | _ :: _, [] => some known
  | pattern :: patterns, arg :: args => do
      let known ←
        match arg with
        | .type t => matchType c known pattern t
        | .int n =>
            if pattern.children.isEmpty then
              match c.valueParam? pattern.text with
              | some i => bind known i (.int n)
              | none => some known
            else some known
      matchArgs c known patterns args

end

def matchParams (c : Context) (known : Partial) :
    List Node → List TypeId → Option Partial
  | param :: params, arg :: args =>
      if param.text == "..." then some known
      else do
        let known ←
          match param.findChild? .typeName with
          | some pattern => matchType c known pattern arg
          | none => some known
        matchParams c known params args
  | _, _ => some known

def hasExplicitSelf (params : Node) : Bool :=
  (params.child? 0).any (·.text == "self")

/-- The whole argument list of a function template, from the explicit arguments
and the types of the call's arguments.  None if deductions conflict or a
parameter stays unbound. -/
def arguments? (types : TypeTable) (templates : TemplateTable)
    (template : TemplateId) (args : List TypeId) (explicit : List TemplateArg) :
    Option (List TemplateArg) :=
  let d := templates.get template
  if d.params.length < explicit.length then none
  else do
    let params ← d.node.findChild? .parameters
    let known :=
      explicit.map some ++
        List.replicate (d.params.length - explicit.length) none
    let args :=
      match d.item with
      | .function (some _) =>
          if hasExplicitSelf params then args else args.drop 1
      | _ => args
    let known ← matchParams ⟨types, templates, d.params⟩ known
      params.children args
    known.mapM fun arg => arg

end ArenaScript.Deduction
