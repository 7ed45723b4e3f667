/-!
# The string pool

A `Str` value is an index into this pool.  Strings never change and are kept
once each; index 0 is the empty string, so zeroed memory reads as the empty
string.
-/

namespace ArenaScript

structure StringPool where
  strings : Array String
  deriving Repr

namespace StringPool

def empty : StringPool := ⟨#[""]⟩

instance : Inhabited StringPool := ⟨empty⟩

def intern (pool : StringPool) (text : String) : Nat × StringPool :=
  match pool.strings.findIdx? (· == text) with
  | some index => (index, pool)
  | none => (pool.strings.size, ⟨pool.strings.push text⟩)

def get? (pool : StringPool) (index : Nat) : Option String :=
  pool.strings[index]?

end StringPool

end ArenaScript
