import ArenaScript.Memory.Arith
import ArenaScript.Proofs.Scalars.Integers
import Mathlib.Data.Int.Bitwise

/-!
# Arithmetic on scalars is arithmetic on integers

An operator on integers of a kind is computed on 64-bit words and then cast.
Its result is the value of the kind congruent to the result on integers without
bounds, whatever the width and sign of the kind; division and remainder by zero
are the only failures.
-/

namespace ArenaScript

/-! ## Operators on integers without bounds -/

namespace Arith

/--
Division truncates toward zero, bits are those of the two's complement, and
shift counts are taken modulo 64.
-/
def exact : Arith → Int → Int → Int
  | .add, a, b => a + b
  | .sub, a, b => a - b
  | .mul, a, b => a * b
  | .div, a, b => a.tdiv b
  | .rem, a, b => a.tmod b
  | .and, a, b => a.land b
  | .or, a, b => a.lor b
  | .xor, a, b => a.xor b
  | .shl, a, b => a * 2 ^ (b % 64).toNat
  | .shr, a, b => a.fdiv (2 ^ (b % 64).toNat)

def divides : Arith → Bool
  | .div | .rem => true
  | _ => false

end Arith

def Comparison.relates : Comparison → Int → Int → Prop
  | .eq, a, b => a = b
  | .ne, a, b => a ≠ b
  | .lt, a, b => a < b
  | .le, a, b => a ≤ b
  | .gt, a, b => b < a
  | .ge, a, b => b ≤ a

/-! ## Words -/

section Words

variable {n : Int}

theorem bmod_modEq (n : Int) : n.bmod (2 ^ 64) ≡ n [ZMOD 2 ^ 64] :=
  Int.bmod_emod (m := 2 ^ 64)

theorem modEq_of_toInt {x : BitVec 64} (h : x = BitVec.ofInt 64 n) :
    x.toInt ≡ n [ZMOD 2 ^ 64] := by
  rw [h, BitVec.toInt_ofInt]
  exact bmod_modEq n

theorem modEq_of_toNat {x : BitVec 64} (h : x = BitVec.ofInt 64 n) :
    x.toNat ≡ n [ZMOD 2 ^ 64] := by
  rw [h, BitVec.toNat_ofInt,
    Int.toNat_of_nonneg (Int.emod_nonneg n (by decide))]
  exact Int.mod_modEq _ _

theorem ofInt_toNat (v : UInt64) : BitVec.ofInt 64 v.toNat = v.toBitVec := by
  rw [BitVec.ofInt_natCast]
  exact BitVec.eq_of_toNat_eq
    (by rw [BitVec.toNat_ofNat]; exact Nat.mod_eq_of_lt v.toNat_lt)

theorem ofInt_not (w : Nat) (n : Int) :
    BitVec.ofInt w (~~~n) = ~~~BitVec.ofInt w n := by
  cases n with
  | ofNat m => exact BitVec.ofInt_negSucc_eq_not_ofNat
  | negSucc m => rw [BitVec.ofInt_negSucc_eq_not_ofNat, BitVec.not_not]; rfl

theorem getLsbD_ofInt (w : Nat) (n : Int) (i : Nat) :
    (BitVec.ofInt w n).getLsbD i = (decide (i < w) && n.testBit i) := by
  cases n with
  | ofNat m => simp [Int.testBit, BitVec.getLsbD_ofNat]
  | negSucc m =>
      rw [BitVec.ofInt_negSucc_eq_not_ofNat, BitVec.getLsbD_not,
        BitVec.getLsbD_ofNat]
      by_cases h : i < w <;> simp [h, Int.testBit]

theorem ofInt_land (w : Nat) (a b : Int) :
    BitVec.ofInt w (a.land b) = BitVec.ofInt w a &&& BitVec.ofInt w b := by
  refine BitVec.eq_of_getLsbD_eq fun i hi => ?_
  simp only [BitVec.getLsbD_and, getLsbD_ofInt, Int.testBit_land, hi,
    decide_true, Bool.true_and]

theorem ofInt_lor (w : Nat) (a b : Int) :
    BitVec.ofInt w (a.lor b) = BitVec.ofInt w a ||| BitVec.ofInt w b := by
  refine BitVec.eq_of_getLsbD_eq fun i hi => ?_
  simp only [BitVec.getLsbD_or, getLsbD_ofInt, Int.testBit_lor, hi, decide_true,
    Bool.true_and]

theorem ofInt_xor (w : Nat) (a b : Int) :
    BitVec.ofInt w (a.xor b) = BitVec.ofInt w a ^^^ BitVec.ofInt w b := by
  refine BitVec.eq_of_getLsbD_eq fun i hi => ?_
  simp only [BitVec.getLsbD_xor, getLsbD_ofInt, Int.testBit_lxor, hi,
    decide_true, Bool.true_and]

theorem ofInt_shiftLeft (n : Int) (m : Nat) :
    BitVec.ofInt 64 (n * 2 ^ m) = BitVec.ofInt 64 n <<< m := by
  have hpow : BitVec.ofInt 64 (2 ^ m) = BitVec.twoPow 64 m := by
    have hcast : (2 : Int) ^ m = ((2 ^ m : Nat) : Int) := by push_cast; rfl
    rw [hcast, BitVec.ofInt_natCast]
    exact BitVec.eq_of_toNat_eq
      (by rw [BitVec.toNat_ofNat, BitVec.toNat_twoPow])
  rw [BitVec.ofInt_mul, hpow, BitVec.shiftLeft_eq_mul_twoPow]

theorem toNat_smod (x : BitVec 64) :
    (x.smod 64).toNat = (x.toInt % 64).toNat := by
  have hint : (x.smod 64).toInt = x.toInt % 64 := by
    rw [BitVec.toInt_smod]
    exact Int.fmod_eq_emod_of_nonneg _ (by decide)
  have hmsb : (x.smod 64).msb = false := by
    rw [BitVec.msb_eq_toInt, hint, decide_eq_false_iff_not, not_lt]
    exact Int.emod_nonneg _ (by decide)
  rw [← hint, BitVec.toNat_toInt_of_msb _ hmsb]

end Words

/-! ## Operators on words -/

namespace Arith

theorem onSigned_exact (op : Arith) (a b : Int64) (h : ¬ (op.divides ∧ b = 0)) :
    ∃ v, op.onSigned a b = .ok v ∧
      v.toInt ≡ op.exact a.toInt b.toInt [ZMOD 2 ^ 64] := by
  have ha : BitVec.ofInt 64 a.toInt = a.toBitVec := BitVec.ofInt_toInt
  have hb : BitVec.ofInt 64 b.toInt = b.toBitVec := BitVec.ofInt_toInt
  cases op with
  | add => exact ⟨_, rfl, Int64.toInt_add a b ▸ bmod_modEq _⟩
  | sub => exact ⟨_, rfl, Int64.toInt_sub a b ▸ bmod_modEq _⟩
  | mul => exact ⟨_, rfl, Int64.toInt_mul a b ▸ bmod_modEq _⟩
  | div => exact ⟨_, if_neg fun hzero => h ⟨rfl, hzero⟩, Int64.toInt_div a b ▸
    bmod_modEq _⟩
  | rem => exact ⟨_, if_neg fun hzero => h ⟨rfl, hzero⟩, Int64.toInt_mod a b ▸
    Int.ModEq.refl _⟩
  | and => exact ⟨_, rfl,
    modEq_of_toInt (by rw [exact, ofInt_land, ha, hb, Int64.toBitVec_and])⟩
  | or => exact ⟨_, rfl,
    modEq_of_toInt (by rw [exact, ofInt_lor, ha, hb, Int64.toBitVec_or])⟩
  | xor => exact ⟨_, rfl,
    modEq_of_toInt (by rw [exact, ofInt_xor, ha, hb, Int64.toBitVec_xor])⟩
  | shl =>
      refine ⟨_, rfl, modEq_of_toInt ?_⟩
      rw [exact, ofInt_shiftLeft, ha, Int64.toBitVec_shiftLeft,
        BitVec.shiftLeft_eq', toNat_smod]
      rfl
  | shr =>
      refine ⟨_, rfl, congrArg (· % 2 ^ 64) ?_⟩
      have hfloor := Int.fdiv_eq_ediv_of_nonneg a.toInt
        (b := 2 ^ (b.toInt % 64).toNat) (Int.pow_nonneg (by decide))
      have hshift : (a >>> b).toInt = a.toInt >>> (b.toBitVec.smod 64).toNat :=
        BitVec.toInt_sshiftRight'
      rw [exact, hfloor, hshift, Int.shiftRight_eq_div_pow, toNat_smod]
      push_cast
      rfl

theorem onUnsigned_exact (op : Arith) (a b : UInt64)
    (h : ¬ (op.divides ∧ b = 0)) :
    ∃ v, op.onUnsigned a b = .ok v ∧
      v.toNat ≡ op.exact a.toNat b.toNat [ZMOD 2 ^ 64] := by
  have ha : BitVec.ofInt 64 a.toNat = a.toBitVec := ofInt_toNat a
  have hb : BitVec.ofInt 64 b.toNat = b.toBitVec := ofInt_toNat b
  have hcount : ((b.toNat : Int) % 64).toNat = b.toNat % 64 := by omega
  cases op with
  | add =>
      refine ⟨_, rfl, modEq_of_toNat ?_⟩
      rw [exact, BitVec.ofInt_add, ha, hb, UInt64.toBitVec_add]
  | sub =>
      refine ⟨_, rfl, modEq_of_toNat ?_⟩
      rw [exact, Int.sub_eq_add_neg, BitVec.ofInt_add, BitVec.ofInt_neg, ha, hb,
        UInt64.toBitVec_sub, BitVec.sub_eq_add_neg]
  | mul =>
      refine ⟨_, rfl, modEq_of_toNat ?_⟩
      rw [exact, BitVec.ofInt_mul, ha, hb, UInt64.toBitVec_mul]
  | div =>
      refine ⟨_, if_neg fun hzero => h ⟨rfl, hzero⟩, congrArg (· % 2 ^ 64) ?_⟩
      rw [exact, UInt64.toNat_div, Int.ofNat_tdiv]
  | rem =>
      refine ⟨_, if_neg fun hzero => h ⟨rfl, hzero⟩, congrArg (· % 2 ^ 64) ?_⟩
      rw [exact, UInt64.toNat_mod, Int.ofNat_tmod]
  | and => exact ⟨_, rfl,
    modEq_of_toNat (by rw [exact, ofInt_land, ha, hb, UInt64.toBitVec_and])⟩
  | or => exact ⟨_, rfl,
    modEq_of_toNat (by rw [exact, ofInt_lor, ha, hb, UInt64.toBitVec_or])⟩
  | xor => exact ⟨_, rfl,
    modEq_of_toNat (by rw [exact, ofInt_xor, ha, hb, UInt64.toBitVec_xor])⟩
  | shl =>
      refine ⟨_, rfl, modEq_of_toNat ?_⟩
      rw [exact, ofInt_shiftLeft, ha, UInt64.toBitVec_shiftLeft,
        BitVec.shiftLeft_eq', hcount]
      rfl
  | shr =>
      refine ⟨_, rfl, congrArg (· % 2 ^ 64) ?_⟩
      have hfloor := Int.fdiv_eq_ediv_of_nonneg a.toNat
        (b := 2 ^ (b.toNat % 64)) (Int.pow_nonneg (by decide))
      rw [exact, hcount, hfloor, UInt64.toNat_shiftRight,
        Nat.shiftRight_eq_div_pow]
      push_cast
      rfl

end Arith

/-! ## Operators on values of a kind -/

section Values

open Scalar (Represents)

variable {k : CoreKind} {l r s : Scalar} {a b m n : Int}

theorem represents_cast_of_word (hk : k.isInteger) (h : s.integer? = some m)
    (hm : m ≡ n [ZMOD 2 ^ 64]) : Represents k (k.wrapInt n) (s.cast k) := by
  have hdvd : (2 : Int) ^ k.width ∣ 2 ^ 64 := pow_dvd_pow 2 k.width_le
  rw [← CoreKind.wrapInt_congr (hm.of_dvd hdvd)]
  exact Scalar.represents_cast hk h

namespace Arith

theorem apply_signed (op : Arith) (hk : k.isSigned) (l r : Scalar) :
    op.apply k l r = (op.onSigned l.toInt64 r.toInt64).map fun v =>
      (Scalar.int v).cast k := by
  cases k <;> first | rfl | cases hk

theorem apply_unsigned (op : Arith) (hk : k.isUnsigned) (l r : Scalar) :
    op.apply k l r = (op.onUnsigned l.toUInt64 r.toUInt64).map fun v =>
      (Scalar.uint v).cast k := by
  cases k <;> first | rfl | cases hk

theorem onSigned_zero {op : Arith} (hop : op.divides) (a : Int64) :
    op.onSigned a 0 = .error Failure.divisionByZero := by
  cases op <;> first | rfl | cases hop

theorem onUnsigned_zero {op : Arith} (hop : op.divides) (a : UInt64) :
    op.onUnsigned a 0 = .error Failure.divisionByZero := by
  cases op <;> first | rfl | cases hop

theorem apply_zero {op : Arith} (hop : op.divides) (hr : Represents k 0 r) :
    op.apply k l r = .error Failure.divisionByZero := by
  rcases CoreKind.signed_or_unsigned hr.isInteger with hsigned | hunsigned
  · obtain ⟨v, rfl, hv⟩ := hr.exists_int hsigned
    obtain rfl : v = 0 := Int64.toInt_inj.1 hv
    rw [apply_signed op hsigned, Scalar.toInt64, onSigned_zero hop]
    rfl
  · obtain ⟨v, rfl, hv⟩ := hr.exists_uint hunsigned
    obtain rfl : v = 0 := UInt64.toNat_inj.1 (Int.ofNat_inj.1 hv)
    rw [apply_unsigned op hunsigned, Scalar.toUInt64, onUnsigned_zero hop]
    rfl

theorem exists_apply {op : Arith} (hl : Represents k a l)
    (hr : Represents k b r) (h : ¬ (op.divides ∧ b = 0)) :
    ∃ t, op.apply k l r = .ok t ∧
      Represents k (k.wrapInt (op.exact a b)) t := by
  have hk := hl.isInteger
  rcases CoreKind.signed_or_unsigned hk with hsigned | hunsigned
  · obtain ⟨v, rfl, rfl⟩ := hl.exists_int hsigned
    obtain ⟨w, rfl, rfl⟩ := hr.exists_int hsigned
    obtain ⟨x, hx, hexact⟩ := onSigned_exact op v w fun ⟨hop, hw⟩ =>
      h ⟨hop, hw ▸ rfl⟩
    refine ⟨(Scalar.int x).cast k, ?_, represents_cast_of_word hk rfl hexact⟩
    rw [apply_signed op hsigned, Scalar.toInt64, Scalar.toInt64, hx]
    rfl
  · obtain ⟨v, rfl, rfl⟩ := hl.exists_uint hunsigned
    obtain ⟨w, rfl, rfl⟩ := hr.exists_uint hunsigned
    obtain ⟨x, hx, hexact⟩ := onUnsigned_exact op v w fun ⟨hop, hw⟩ =>
      h ⟨hop, hw ▸ rfl⟩
    refine ⟨(Scalar.uint x).cast k, ?_, represents_cast_of_word hk rfl hexact⟩
    rw [apply_unsigned op hunsigned, Scalar.toUInt64, Scalar.toUInt64, hx]
    rfl

end Arith

theorem represents_negate (h : Represents k a s) :
    Represents k (k.wrapInt (-a)) (s.negate k) := by
  cases h with
  | @int v hsigned hholds =>
      have hint : (-v).toInt ≡ -v.toInt [ZMOD 2 ^ 64] :=
        Int64.toInt_neg v ▸ bmod_modEq _
      exact represents_cast_of_word
        (Represents.int hsigned hholds).isInteger rfl hint
  | @uint v hunsigned hholds =>
      have hword : (-v).toBitVec = BitVec.ofInt 64 (-(v.toNat : Int)) := by
        rw [BitVec.ofInt_neg, ofInt_toNat v, UInt64.toBitVec_neg]
      exact represents_cast_of_word
        (Represents.uint hunsigned hholds).isInteger rfl (modEq_of_toNat hword)

theorem represents_complement (h : Represents k a s) :
    Represents k (k.wrapInt (~~~a)) (s.complement k) := by
  have hword : (~~~s.toUInt64).toBitVec = BitVec.ofInt 64 (~~~a) := by
    rw [UInt64.toBitVec_not, ofInt_not]
    cases h with
    | int _ _ => exact congrArg (~~~·) BitVec.ofInt_toInt.symm
    | uint _ _ => exact congrArg (~~~·) (ofInt_toNat _).symm
  exact represents_cast_of_word h.isInteger rfl (modEq_of_toNat hword)

theorem order_eq (hl : Represents k a l) (hr : Represents k b r) :
    Scalar.order k l r = some (compare a b) := by
  rcases CoreKind.signed_or_unsigned hl.isInteger with hsigned | hunsigned
  · obtain ⟨v, rfl, rfl⟩ := hl.exists_int hsigned
    obtain ⟨w, rfl, rfl⟩ := hr.exists_int hsigned
    have horder : Scalar.order k (.int v) (.int w) = some (compare v w) := by
      cases k <;> first | rfl | cases hsigned
    rw [horder]
    simp only [compare, compareOfLessAndEq, Int64.lt_iff_toInt_lt,
      Int64.toInt_inj]
  · obtain ⟨v, rfl, rfl⟩ := hl.exists_uint hunsigned
    obtain ⟨w, rfl, rfl⟩ := hr.exists_uint hunsigned
    have horder : Scalar.order k (.uint v) (.uint w) = some (compare v w) := by
      cases k <;> first | rfl | cases hunsigned
    rw [horder]
    simp only [compare, compareOfLessAndEq, UInt64.lt_iff_toNat_lt,
      Int.ofNat_lt, Int.ofNat_inj, UInt64.toNat_inj]

theorem Comparison.holds_iff (c : Comparison) (a b : Int) :
    c.holds (some (compare a b)) ↔ c.relates a b := by
  rcases h : compare a b with _ | _ | _
  · rw [compare_lt_iff_lt] at h
    cases c <;> simp [holds, relates] <;> omega
  · rw [compare_eq_iff_eq] at h
    cases c <;> simp [holds, relates] <;> omega
  · rw [compare_gt_iff_gt] at h
    cases c <;> simp [holds, relates] <;> omega

/-! ### Kinds that compute exactly -/

namespace CoreKind

/--
Operators give the value of the kind that is congruent, modulo two to its width,
to the result on integers; only division and remainder by zero fail.
-/
structure ComputesExactly (k : CoreKind) : Prop where
  zero : ∀ (op : Arith) l r a, op.divides → Represents k a l →
    Represents k 0 r →
    op.apply k l r = .error Failure.divisionByZero
  exact : ∀ (op : Arith) l r a b, Represents k a l → Represents k b r →
    ¬ (op.divides ∧ b = 0) → ∃ t, op.apply k l r = .ok t ∧
      ∀ u, u = t ↔ ∃ n, Represents k n u ∧ n ≡ op.exact a b [ZMOD 2 ^ k.width]
  lowest : ∀ l r z, Represents k (-2 ^ (k.width - 1)) l → Represents k (-1) r →
    Represents k 0 z →
    Arith.div.apply k l r = .ok l ∧ Arith.rem.apply k l r = .ok z
  negate : ∀ s a, Represents k a s → ∀ u, u = s.negate k ↔
    ∃ n, Represents k n u ∧ n ≡ -a [ZMOD 2 ^ k.width]
  complement : ∀ s a, Represents k a s → ∀ u, u = s.complement k ↔
    ∃ n, Represents k n u ∧ n ≡ ~~~a [ZMOD 2 ^ k.width]
  compare : ∀ (c : Comparison) l r a b, Represents k a l → Represents k b r →
    (c.holds (Scalar.order k l r) ↔ c.relates a b)

theorem apply_lowest {z : Scalar} (hl : Represents k (-2 ^ (k.width - 1)) l)
    (hr : Represents k (-1) r) (hz : Represents k 0 z) :
    Arith.div.apply k l r = .ok l ∧ Arith.rem.apply k l r = .ok z := by
  have hsigned : k.isSigned := by
    rcases signed_or_unsigned hl.isInteger with hsigned | hunsigned
    · exact hsigned
    · obtain ⟨v, -, hv⟩ := hr.exists_uint hunsigned
      omega
  have hnonzero : ∀ op : Arith, ¬ (op.divides ∧ (-1 : Int) = 0) :=
    fun _ h => by omega
  obtain ⟨q, hq, hquotient⟩ := Arith.exists_apply hl hr (hnonzero .div)
  obtain ⟨m, hm, hremainder⟩ := Arith.exists_apply hl hr (hnonzero .rem)
  constructor
  · -- The quotient is the lowest number and the modulus.
    rw [hq, (hquotient.eq_iff l).2 ⟨_, hl, ?_⟩]
    have hquotient : Arith.div.exact (-2 ^ (k.width - 1)) (-1) =
        2 ^ (k.width - 1) := by
      simp [Arith.exact]
    rw [hquotient, Int.modEq_iff_dvd, two_pow_width hsigned]
    exact ⟨1, by omega⟩
  · rw [hm, (hremainder.eq_iff z).2 ⟨_, hz, ?_⟩]
    simp [Arith.exact]

theorem computesExactly (k : CoreKind) : k.ComputesExactly where
  zero _ _ _ _ hop _ hr := Arith.apply_zero hop hr
  exact _ _ _ _ _ hl hr h := by
    obtain ⟨t, ht, hexact⟩ := Arith.exists_apply hl hr h
    exact ⟨t, ht, hexact.eq_iff⟩
  lowest _ _ _ := apply_lowest
  negate _ _ h := (represents_negate h).eq_iff
  complement _ _ h := (represents_complement h).eq_iff
  compare c _ _ a b hl hr := by rw [order_eq hl hr, c.holds_iff]

end CoreKind

end Values

end ArenaScript
