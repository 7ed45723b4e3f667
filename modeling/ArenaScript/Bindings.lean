/-!
# Bindings

A table from names to values, as a list of pairs in the order in which the names
were first bound.
-/

namespace ArenaScript

structure Bindings (β : Type) where
  entries : List (String × β)
  deriving Repr

namespace Bindings

variable {β : Type}

def empty : Bindings β := ⟨[]⟩

instance : Inhabited (Bindings β) := ⟨empty⟩

def get? (b : Bindings β) (name : String) : Option β := b.entries.lookup name

def putIn (name : String) (value : β) : List (String × β) → List (String × β)
  | [] => [(name, value)]
  | (key, old) :: rest =>
      if key == name then (name, value) :: rest else
        (key, old) :: putIn name value rest

def put (b : Bindings β) (name : String) (value : β) : Bindings β :=
  ⟨putIn name value b.entries⟩

theorem lookup_putIn (name other : String) (value : β)
    (entries : List (String × β)) :
    (putIn name value entries).lookup other =
      if other = name then some value else entries.lookup other := by
  induction entries with
  | nil =>
      by_cases h : other = name
      · simp [putIn, h]
      · simp [putIn, List.lookup_cons, beq_false_of_ne h, h]
  | cons entry rest ih =>
      obtain ⟨key, old⟩ := entry
      by_cases hk : key = name
      · by_cases h : other = key
        · simp [putIn, hk, h]
        · simp [putIn, List.lookup_cons, beq_false_of_ne h, ← hk, h]
      · by_cases h : other = key
        · simp [putIn, hk, h]
        · simp [putIn, List.lookup_cons, beq_false_of_ne h, hk, ih]

@[simp] theorem get?_put (b : Bindings β) (name other : String) (value : β) :
    (b.put name value).get? other = if other = name then some value else
      b.get? other :=
  lookup_putIn name other value b.entries

@[simp] theorem get?_empty (name : String) :
    (empty : Bindings β).get? name = none := rfl

end Bindings

abbrev Overloads (β : Type) := Bindings (List β)

namespace Overloads

variable {β : Type}

def get (b : Overloads β) (name : String) : List β :=
  (Bindings.get? b name).getD []

def push (b : Overloads β) (name : String) (value : β) : Overloads β :=
  Bindings.put b name (get b name ++ [value])

theorem get_push (b : Overloads β) (name other : String) (value : β) :
    get (push b name value) other =
      if other = name then get b name ++ [value] else get b other := by
  unfold get push
  rw [Bindings.get?_put]
  split <;> rfl

end Overloads

end ArenaScript
