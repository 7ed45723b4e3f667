import ArenaScript.Types.Kind
import ArenaScript.Word
/-!
# Layout of fields

The fields of a class lie one after the other, each at the least offset that
suits its alignment.  The fields of a union all start at offset 0.  In both
cases the whole is padded to a multiple of its alignment, which is the largest
one among the fields.
-/

namespace ArenaScript

structure Extent where
  size : Nat
  align : Nat
  deriving DecidableEq, Repr

namespace Layout

def inOrder (measure : TypeId → Extent) (offset align : Nat) :
    List Field → List Field × Extent
  | [] => ([], ⟨Word.roundUp offset align, align⟩)
  | field :: rest =>
      let extent := measure field.type
      let start := Word.roundUp offset extent.align
      let (placed, whole) :=
        inOrder measure (Word.add start extent.size)
          (max align extent.align) rest
      ({ field with offset := start } :: placed, whole)

def overlaid (measure : TypeId → Extent) (size align : Nat) :
    List Field → List Field × Extent
  | [] => ([], ⟨Word.roundUp size align, align⟩)
  | field :: rest =>
      let extent := measure field.type
      let (placed, whole) :=
        overlaid measure (max size extent.size) (max align extent.align) rest
      ({ field with offset := 0 } :: placed, whole)

/-- Fields with their offsets, and the extent of the whole.  An enumeration is
stored as an `Int32`. -/
def ofFields (measure : TypeId → Extent) :
    StructKind → List Field → List Field × Extent
  | .classKind, fields => inOrder measure 0 1 fields
  | .unionKind, fields => overlaid measure 0 1 fields
  | .enumKind, fields => (fields, ⟨4, 4⟩)

end Layout

end ArenaScript
