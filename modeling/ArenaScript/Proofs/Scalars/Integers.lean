import ArenaScript.Memory.Scalar
import Mathlib.Data.Int.ModEq

/-!
# Integers in scalars

The integer a scalar carries, the integers each kind holds, and the one of them
that is congruent to a given integer modulo two to the width of the kind.  Two
scalars that represent congruent integers at one kind are the same, so a scalar
of a kind is known once its integer is known up to a multiple of that modulus.
-/

namespace ArenaScript

namespace CoreKind

/-! ## Ranges -/

def width (k : CoreKind) : Nat := 8 * k.size

/-- Whether the integer kind has a value for `n`. -/
def Holds (k : CoreKind) (n : Int) : Prop :=
  if k.isSigned then -2 ^ (k.width - 1) ≤ n ∧ n < 2 ^ (k.width - 1)
  else 0 ≤ n ∧ n < 2 ^ k.width

instance (k : CoreKind) (n : Int) : Decidable (k.Holds n) :=
  inferInstanceAs (Decidable (if k.isSigned then -2 ^ (k.width - 1) ≤ n ∧
    n < 2 ^ (k.width - 1)
    else 0 ≤ n ∧ n < 2 ^ k.width))

/-- The integer the kind holds in place of `n`. -/
def wrapInt (k : CoreKind) (n : Int) : Int :=
  if k.isSigned then n.bmod (2 ^ k.width) else n % 2 ^ k.width

theorem width_le (k : CoreKind) : k.width ≤ 64 := by
  cases k <;> decide

theorem pow_size (k : CoreKind) : 256 ^ k.size = 2 ^ k.width :=
  (Nat.pow_mul 2 8 k.size).symm

theorem signed_or_unsigned {k : CoreKind} (h : k.isInteger) :
    k.isSigned ∨ k.isUnsigned := by
  rwa [isInteger, Bool.or_eq_true] at h

theorem not_unsigned_of_signed {k : CoreKind} (h : k.isSigned) :
    ¬ k.isUnsigned := by
  cases k <;> simp_all [isSigned, isUnsigned]

theorem two_pow_width {k : CoreKind} (h : k.isSigned) :
    (2 : Int) ^ k.width = 2 * 2 ^ (k.width - 1) := by
  cases k <;> simp_all [isSigned, width, size]

theorem wrapInt_modEq (k : CoreKind) (n : Int) :
    k.wrapInt n ≡ n [ZMOD 2 ^ k.width] := by
  unfold wrapInt Int.ModEq
  split
  · exact_mod_cast Int.bmod_emod (x := n) (m := 2 ^ k.width)
  · exact Int.emod_emod_of_dvd n (dvd_refl _)

theorem wrapInt_congr {k : CoreKind} {m n : Int}
    (h : m ≡ n [ZMOD 2 ^ k.width]) : k.wrapInt m = k.wrapInt n := by
  unfold wrapInt
  split
  · have hcast : m % ((2 ^ k.width : Nat) : Int) =
        n % ((2 ^ k.width : Nat) : Int) := by
      exact_mod_cast h
    rw [← Int.emod_bmod m, hcast, Int.emod_bmod]
  · exact h

theorem holds_wrapInt (k : CoreKind) (n : Int) : k.Holds (k.wrapInt n) := by
  have hpos : 0 < 2 ^ k.width := Nat.two_pow_pos _
  unfold Holds wrapInt
  split
  · have hlow := Int.le_bmod (x := n) hpos
    have hhigh := Int.bmod_lt (x := n) hpos
    have htwo := two_pow_width ‹_›
    push_cast at hlow hhigh
    omega
  · have hne : (2 : Int) ^ k.width ≠ 0 := by exact_mod_cast hpos.ne'
    have hposInt : (0 : Int) < 2 ^ k.width := by exact_mod_cast hpos
    exact ⟨Int.emod_nonneg n hne, Int.emod_lt_of_pos n hposInt⟩

theorem wrapInt_of_holds {k : CoreKind} {n : Int} (h : k.Holds n) :
    k.wrapInt n = n := by
  unfold Holds at h
  unfold wrapInt
  split at h
  · rw [if_pos ‹_›]
    have htwo := two_pow_width ‹_›
    exact Int.bmod_eq_of_le (by push_cast; omega) (by push_cast; omega)
  · rw [if_neg ‹_›]
    exact Int.emod_eq_of_lt h.1 h.2

theorem Holds.widen {k : CoreKind} {n : Int} (hk : k.isSigned) (h : k.Holds n) :
    int64.Holds n := by
  rw [Holds, if_pos hk] at h
  have hsigned : int64.isSigned = true := rfl
  rw [Holds, if_pos hsigned]
  have hpow : (2 : Int) ^ (k.width - 1) ≤ 2 ^ (int64.width - 1) := by
    cases k <;> decide
  omega

theorem Holds.eq_of_modEq {k : CoreKind} {m n : Int} (hm : k.Holds m)
    (hn : k.Holds n) (h : m ≡ n [ZMOD 2 ^ k.width]) : m = n :=
  calc
    m = k.wrapInt m := (wrapInt_of_holds hm).symm
    _ = k.wrapInt n := wrapInt_congr h
    _ = n := wrapInt_of_holds hn

end CoreKind

namespace Scalar

variable {k : CoreKind} {s t : Scalar} {m n : Int}

/-! ## The integer of a scalar -/

def integer? : Scalar → Option Int
  | .bool b => some b.toInt
  | .int v => some v.toInt
  | .uint v => some v.toNat
  | .float _ => none

/-- `s` is the integer `n` as a value of the kind `k`. -/
inductive Represents (k : CoreKind) : Int → Scalar → Prop
  | int {v : Int64} (hsigned : k.isSigned) (hholds : k.Holds v.toInt) :
      Represents k v.toInt (.int v)
  | uint {v : UInt64} (hunsigned : k.isUnsigned) (hholds : k.Holds v.toNat) :
      Represents k v.toNat (.uint v)

namespace Represents

theorem integer_eq (h : Represents k n s) : s.integer? = some n := by
  cases h <;> rfl

theorem holds (h : Represents k n s) : k.Holds n := by
  cases h <;> assumption

theorem isInteger (h : Represents k n s) : k.isInteger := by
  cases h with
  | int hsigned _ => rw [CoreKind.isInteger, hsigned, Bool.true_or]
  | uint hunsigned _ => rw [CoreKind.isInteger, hunsigned, Bool.or_true]

theorem exists_int (hsigned : k.isSigned) (h : Represents k n s) :
    ∃ v : Int64, s = .int v ∧ v.toInt = n := by
  cases h with
  | int _ _ => exact ⟨_, rfl, rfl⟩
  | uint hunsigned _ =>
      exact (CoreKind.not_unsigned_of_signed hsigned hunsigned).elim

theorem exists_uint (hunsigned : k.isUnsigned) (h : Represents k n s) :
    ∃ v : UInt64, s = .uint v ∧ (v.toNat : Int) = n := by
  cases h with
  | int hsigned _ =>
      exact (CoreKind.not_unsigned_of_signed hsigned hunsigned).elim
  | uint _ _ => exact ⟨_, rfl, rfl⟩

theorem unique (hs : Represents k n s) (ht : Represents k n t) : s = t := by
  rcases CoreKind.signed_or_unsigned hs.isInteger with hsigned | hunsigned
  · obtain ⟨v, rfl, hv⟩ := hs.exists_int hsigned
    obtain ⟨w, rfl, hw⟩ := ht.exists_int hsigned
    rw [Int64.toInt_inj.1 (hv.trans hw.symm)]
  · obtain ⟨v, rfl, hv⟩ := hs.exists_uint hunsigned
    obtain ⟨w, rfl, hw⟩ := ht.exists_uint hunsigned
    rw [UInt64.toNat_inj.1 (Int.ofNat_inj.1 (hv.trans hw.symm))]

theorem eq_of_modEq (hs : Represents k m s) (ht : Represents k n t)
    (h : m ≡ n [ZMOD 2 ^ k.width]) : s = t :=
  hs.unique (hs.holds.eq_of_modEq ht.holds h ▸ ht)

theorem eq_iff (h : Represents k (k.wrapInt n) s) (t : Scalar) :
    t = s ↔ ∃ m, Represents k m t ∧ m ≡ n [ZMOD 2 ^ k.width] := by
  constructor
  · rintro rfl
    exact ⟨_, h, k.wrapInt_modEq n⟩
  · rintro ⟨m, ht, hm⟩
    exact ht.eq_of_modEq h (hm.trans (k.wrapInt_modEq n).symm)

theorem int_of_bmod {v : Int64} (hsigned : k.isSigned)
    (h : v.toInt = n.bmod (2 ^ k.width)) :
    Represents k (k.wrapInt n) (.int v) := by
  have hwrap : v.toInt = k.wrapInt n := by
    rw [h, CoreKind.wrapInt, if_pos hsigned]
  rw [← hwrap]
  exact .int hsigned (hwrap ▸ k.holds_wrapInt n)

theorem uint_of_emod {v : UInt64} (hunsigned : k.isUnsigned)
    (h : (v.toNat : Int) = n % 2 ^ k.width) :
    Represents k (k.wrapInt n) (.uint v) := by
  have hsigned : ¬ k.isSigned :=
    fun h => CoreKind.not_unsigned_of_signed h hunsigned
  have hwrap : (v.toNat : Int) = k.wrapInt n := by
    rw [h, CoreKind.wrapInt, if_neg hsigned]
  rw [← hwrap]
  exact .uint hunsigned (hwrap ▸ k.holds_wrapInt n)

end Represents

/-! ## Views of the integer -/

theorem toInt_toInt64 (v : UInt64) :
    v.toInt64.toInt = (v.toNat : Int).bmod (2 ^ 64) :=
  BitVec.toInt_eq_toNat_bmod v.toBitVec

theorem toNat_toUInt64 (v : Int64) :
    (v.toUInt64.toNat : Int) = v.toInt % 2 ^ 64 := by
  have h := toInt_toInt64 v.toUInt64
  rw [Int64.toInt64_toUInt64] at h
  have hlt : (v.toUInt64.toNat : Int) < 2 ^ 64 := by
    exact_mod_cast v.toUInt64.toNat_lt
  rw [h]
  exact (Int.emod_eq_of_lt (Int.natCast_nonneg _) hlt).symm.trans
    (Int.bmod_emod (m := 2 ^ 64)).symm

theorem toInt64_eq (h : s.integer? = some n) :
    s.toInt64.toInt = n.bmod (2 ^ 64) := by
  cases s with
  | bool b => cases h; cases b <;> rfl
  | int v => cases h; exact (BitVec.toInt_bmod_cancel v.toBitVec).symm
  | uint v => cases h; exact toInt_toInt64 v
  | float v => cases h

theorem toUInt64_eq (h : s.integer? = some n) :
    (s.toUInt64.toNat : Int) = n % 2 ^ 64 := by
  cases s with
  | bool b => cases h; cases b <;> rfl
  | int v => cases h; exact toNat_toUInt64 v
  | uint v =>
      cases h
      exact (Int.emod_eq_of_lt (Int.natCast_nonneg _)
        (by exact_mod_cast v.toNat_lt)).symm
  | float v => cases h

/-! ## Casts -/

/-- A cast to an integer kind keeps the integer modulo two to the width. -/
theorem represents_cast (hk : k.isInteger) (h : s.integer? = some n) :
    Represents k (k.wrapInt n) (s.cast k) := by
  have hint := toInt64_eq h
  have huint := toUInt64_eq h
  cases k with
  | int8 =>
      refine .int_of_bmod rfl ?_
      rw [Int8.toInt_toInt64, Int64.toInt_toInt8, hint]
      exact Int.bmod_bmod_of_dvd (by decide)
  | int16 =>
      refine .int_of_bmod rfl ?_
      rw [Int16.toInt_toInt64, Int64.toInt_toInt16, hint]
      exact Int.bmod_bmod_of_dvd (by decide)
  | int32 =>
      refine .int_of_bmod rfl ?_
      rw [Int32.toInt_toInt64, Int64.toInt_toInt32, hint]
      exact Int.bmod_bmod_of_dvd (by decide)
  | int64 => exact .int_of_bmod rfl hint
  | uint8 =>
      refine .uint_of_emod rfl ?_
      rw [UInt8.toNat_toUInt64, UInt64.toNat_toUInt8, Int.natCast_emod, huint]
      exact Int.emod_emod_of_dvd n (by decide)
  | uint16 =>
      refine .uint_of_emod rfl ?_
      rw [UInt16.toNat_toUInt64, UInt64.toNat_toUInt16, Int.natCast_emod, huint]
      exact Int.emod_emod_of_dvd n (by decide)
  | uint32 =>
      refine .uint_of_emod rfl ?_
      rw [UInt32.toNat_toUInt64, UInt64.toNat_toUInt32, Int.natCast_emod, huint]
      exact Int.emod_emod_of_dvd n (by decide)
  | uint64 => exact .uint_of_emod rfl huint
  | void | bool | float32 | float64 | str => cases hk

end Scalar

end ArenaScript
