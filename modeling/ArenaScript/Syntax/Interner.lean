/-!
# Interned texts

An interner hands out one small number per distinct text, in the order in which
the texts are first seen.  The empty text is there from the start and has number
0.
-/

namespace ArenaScript

structure Interner where
  texts : Array String
  deriving Repr

namespace Interner

def empty : Interner := ⟨#[""]⟩

instance : Inhabited Interner := ⟨empty⟩

def size (table : Interner) : Nat := table.texts.size

def isEmpty (table : Interner) : Bool := table.size ≤ 1

def find? (table : Interner) (text : String) : Option Nat :=
  table.texts.findIdx? (· == text)

def intern (table : Interner) (text : String) : Nat × Interner :=
  match table.find? text with
  | some number => (number, table)
  | none => (table.size, ⟨table.texts.push text⟩)

/-- The text with this number; a number never handed out reads as the empty
text. -/
def lookup (table : Interner) (number : Nat) : String :=
  table.texts.getD number ""

end Interner

end ArenaScript
