import ArenaScript.Proofs.Arena.Bytes
import ArenaScript.Proofs.Scalars.Integers

/-!
# Scalars in storage

What is read back from the bytes of a scalar is the scalar cast to the kind it
was stored as, and the bytes of a value that was read are the bytes it was read
from.  Casting twice is casting once, as long as the second kind is the first or
an integer kind no wider than it.
-/

namespace ArenaScript

/-! ## Little-endian numbers -/

theorem ofLowBytes_lowBytes (v count : Nat) :
    ofLowBytes (lowBytes v count) = v % 256 ^ count := by
  induction count generalizing v with
  | zero => simp [lowBytes, ofLowBytes, Nat.mod_one]
  | succ count ih =>
      have hhead : v.toUInt8.toNat = v % 256 := UInt8.toNat_ofNat'
      rw [lowBytes, ofLowBytes, ih, hhead, Nat.pow_succ', Nat.mod_mul]

theorem lowBytes_congr {m n count : Nat}
    (h : m % 256 ^ count = n % 256 ^ count) :
    lowBytes m count = lowBytes n count := by
  have hm := lowBytes_ofLowBytes (lowBytes m count)
  have hn := lowBytes_ofLowBytes (lowBytes n count)
  rw [ofLowBytes_lowBytes, length_lowBytes] at hm hn
  rw [← hm, h, hn]

/-! ## Scalars -/

def CoreKind.IsExact (k : CoreKind) : Prop := k = .bool ∨ k.isInteger ∨ k = .str

namespace Scalar

variable {k k₁ k₂ : CoreKind} {s : Scalar} {m n : Int} {bytes : List UInt8}

/-! ## Casts after casts -/

theorem eq_cast_iff (hk : k.isInteger) (h : s.integer? = some n) (t : Scalar) :
    t = s.cast k ↔ ∃ m, Represents k m t ∧ m ≡ n [ZMOD 2 ^ k.width] :=
  (represents_cast hk h).eq_iff t

theorem cast_cast (hk₁ : k₁.isInteger) (hk₂ : k₂.isInteger)
    (hwidth : k₂.width ≤ k₁.width) (h : s.integer? = some n) :
    (s.cast k₁).cast k₂ = s.cast k₂ := by
  have hfirst := represents_cast hk₁ h
  refine (eq_cast_iff hk₂ h _).2 ⟨_, represents_cast hk₂ hfirst.integer_eq, ?_⟩
  have hdvd : (2 : Int) ^ k₂.width ∣ 2 ^ k₁.width := pow_dvd_pow 2 hwidth
  exact (k₂.wrapInt_modEq _).trans ((k₁.wrapInt_modEq n).of_dvd hdvd)

theorem Represents.cast_eq (hk : k.isInteger) (h : Represents k n s) :
    s.cast k = s :=
  ((eq_cast_iff hk h.integer_eq s).2 ⟨n, h, Int.ModEq.refl n⟩).symm

/-! ## Stored integers -/

theorem Represents.storedWord_modEq (h : Represents k n s) :
    (s.storedWord k : Int) ≡ n [ZMOD 2 ^ 64] := by
  cases h with
  | int _ _ =>
      exact (congrArg (· % 2 ^ 64) (toNat_toUInt64 _)).trans (Int.mod_modEq _ _)
  | uint _ _ => exact Int.ModEq.refl _

theorem represents_decode (hk : k.isInteger) (bytes : List UInt8) :
    Represents k (k.wrapInt (ofLowBytes (bytes.take k.size)))
      (decode k bytes) := by
  have hlt : ofLowBytes (bytes.take k.size) < 256 ^ k.size :=
    (ofLowBytes_lt _).trans_le
      (Nat.pow_le_pow_right (by decide) (List.length_take_le _ _))
  have hsmall : ofLowBytes (bytes.take k.size) < 2 ^ 64 :=
    hlt.trans_le (k.pow_size ▸ Nat.pow_le_pow_right (by decide) k.width_le)
  unfold decode
  generalize ofLowBytes (bytes.take k.size) = word at hlt hsmall
  have hword : word.toUInt64.toNat = word := UInt64.toNat_ofNat_of_lt' hsmall
  cases k with
  | int8 =>
      exact .int_of_bmod rfl
        ((Int8.toInt_toInt64 _).trans (BitVec.toInt_ofNat word))
  | int16 =>
      exact .int_of_bmod rfl
        ((Int16.toInt_toInt64 _).trans (BitVec.toInt_ofNat word))
  | int32 =>
      exact .int_of_bmod rfl
        ((Int32.toInt_toInt64 _).trans (BitVec.toInt_ofNat word))
  | int64 => exact .int_of_bmod rfl (BitVec.toInt_ofNat word)
  | uint8 | uint16 | uint32 | uint64 =>
      refine .uint_of_emod rfl ?_
      rw [hword]
      exact (Int.emod_eq_of_lt (Int.natCast_nonneg _)
        (by exact_mod_cast hlt)).symm
  | void | bool | float32 | float64 | str => cases hk

@[simp] theorem length_encode (s : Scalar) (k : CoreKind) :
    (s.encode k).length = k.size :=
  length_lowBytes _ _

theorem take_encode (s : Scalar) (k : CoreKind) :
    (s.encode k).take k.size = s.encode k :=
  List.take_of_length_le (length_encode s k).le

theorem ofLowBytes_encode (hk : k.isInteger) (h : s.integer? = some n) :
    (ofLowBytes (s.encode k) : Int) ≡ n [ZMOD 2 ^ k.width] := by
  have hcast := represents_cast hk h
  have hdvd : (2 : Int) ^ k.width ∣ 2 ^ 64 := pow_dvd_pow 2 k.width_le
  rw [encode, ofLowBytes_lowBytes, k.pow_size, Int.natCast_emod,
    Int.natCast_pow]
  calc
    ((s.cast k).storedWord k : Int) % 2 ^ k.width
      ≡ (s.cast k).storedWord k [ZMOD 2 ^ k.width] := Int.mod_modEq _ _
    _ ≡ k.wrapInt n [ZMOD 2 ^ k.width] := hcast.storedWord_modEq.of_dvd hdvd
    _ ≡ n [ZMOD 2 ^ k.width] := k.wrapInt_modEq n

/-! ## Round trips -/

theorem decode_encode_bool (s : Scalar) :
    decode .bool (s.encode .bool) = s.cast .bool := by
  rw [decode, take_encode, encode, cast]
  cases s.toBool <;> rfl

theorem decode_encode_str (s : Scalar) :
    decode .str (s.encode .str) = s.cast .str := by
  have hlt : s.toUInt64.toNat < 256 ^ 8 := s.toUInt64.toNat_lt
  have hword : ofLowBytes (s.encode .str) = s.toUInt64.toNat :=
    (ofLowBytes_lowBytes _ _).trans (Nat.mod_eq_of_lt hlt)
  rw [decode, take_encode, hword]
  exact congrArg Scalar.uint (UInt64.ofNat_toNat)

theorem decode_encode (hk : k.isInteger) (h : s.integer? = some n) :
    decode k (s.encode k) = s.cast k := by
  refine (eq_cast_iff hk h _).2 ⟨_, represents_decode hk _, ?_⟩
  rw [take_encode]
  exact (k.wrapInt_modEq _).trans (ofLowBytes_encode hk h)

theorem encode_decode (hk : k.isInteger) (h : bytes.length = k.size) :
    (decode k bytes).encode k = bytes := by
  have hvalue := represents_decode hk bytes
  rw [List.take_of_length_le h.le] at hvalue
  have hword : (decode k bytes).storedWord k % 256 ^ k.size =
      ofLowBytes bytes % 256 ^ k.size := by
    have hdvd : (2 : Int) ^ k.width ∣ 2 ^ 64 := pow_dvd_pow 2 k.width_le
    have hmod := (hvalue.storedWord_modEq.of_dvd hdvd).trans (k.wrapInt_modEq _)
    rw [k.pow_size]
    exact_mod_cast hmod
  rw [encode, hvalue.cast_eq hk, lowBytes_congr hword, ← h, lowBytes_ofLowBytes]

theorem encode_decode_str (h : bytes.length = CoreKind.str.size) :
    (decode .str bytes).encode .str = bytes := by
  have hlt : ofLowBytes bytes < 2 ^ 64 :=
    (ofLowBytes_lt bytes).trans_le (by rw [h]; decide)
  have hword : (ofLowBytes bytes).toUInt64.toNat = ofLowBytes bytes :=
    UInt64.toNat_ofNat_of_lt' hlt
  have hdecode : decode .str bytes = .uint (ofLowBytes bytes).toUInt64 := by
    rw [decode, List.take_of_length_le h.le]
  rw [hdecode, encode, cast, toUInt64, storedWord, hword, ← h,
    lowBytes_ofLowBytes]

/-! ## Storage without loss -/

/--
Reading what was stored casts, and storing what was read restores the bytes.  A
cast to an integer kind is the one value of the kind that is congruent modulo
two to its width, and casting goes through any integer kind that is wide enough.
-/
theorem storage_round_trip :
    (∀ (s : Scalar) (k : CoreKind), s.integer?.isSome → k.IsExact →
        decode k ((s.encode k).take k.size) = s.cast k ∧
          (s.cast k).cast k = s.cast k) ∧
      (∀ (s : Scalar) (k : CoreKind) (n : Int), s.integer? = some n →
        k.isInteger →
        ∀ t, t = s.cast k ↔ ∃ m, Represents k m t ∧ m ≡ n [ZMOD 2 ^ k.width]) ∧
      (∀ (s : Scalar) (k₁ k₂ : CoreKind), s.integer?.isSome → k₁.isInteger →
        k₂.isInteger →
        k₂.width ≤ k₁.width → (s.cast k₁).cast k₂ = s.cast k₂) ∧
      ∀ (k : CoreKind) (bytes : List UInt8), k.isInteger ∨ k = .str →
        bytes.length = k.size →
        (decode k bytes).encode k = bytes := by
  refine ⟨fun s k hs hk => ?_, fun s k n h hk => eq_cast_iff hk h,
    fun s k₁ k₂ hs hk₁ hk₂ hle => ?_,
    fun k bytes hk hlength => ?_⟩
  · obtain ⟨n, h⟩ := Option.isSome_iff_exists.1 hs
    rw [take_encode]
    rcases hk with rfl | hk | rfl
    · exact ⟨decode_encode_bool s, rfl⟩
    · exact ⟨decode_encode hk h, cast_cast hk hk le_rfl h⟩
    · exact ⟨decode_encode_str s, rfl⟩
  · obtain ⟨n, h⟩ := Option.isSome_iff_exists.1 hs
    exact cast_cast hk₁ hk₂ hle h
  · rcases hk with hk | rfl
    · exact encode_decode hk hlength
    · exact encode_decode_str hlength

/-- A negative number stored in one byte with and without a sign. -/
theorem storage_round_trip_negative :
    decode .int8 (((Scalar.int (-129)).encode .int8).take 1) = .int 127 ∧
      (((Scalar.int (-129)).cast .int32).cast .uint8 = .uint 127) ∧
      (Scalar.uint 127 = (Scalar.int (-129)).cast .uint8 ↔
        ∃ m, Represents .uint8 m (.uint 127) ∧ m ≡ -129 [ZMOD 2 ^ 8]) ∧
      (decode .int16 [0, 255]).encode .int16 = [0, 255] :=
  ⟨(storage_round_trip.1 (.int (-129)) .int8 rfl (.inr (.inl rfl))).1.trans
    (by decide),
    (storage_round_trip.2.2.1 (.int (-129)) .int32 .uint8 rfl rfl rfl
      (by decide)).trans (by decide),
    storage_round_trip.2.1 (.int (-129)) .uint8 (-129) (by decide) rfl
      (.uint 127),
    storage_round_trip.2.2.2 .int16 [0, 255] (.inl rfl) rfl⟩

end Scalar

end ArenaScript
