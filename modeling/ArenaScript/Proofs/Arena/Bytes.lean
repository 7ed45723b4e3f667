import ArenaScript.Memory.Arena

/-!
# Bytes of the arena

The view of an arena by addresses.  A byte that is not stored reads as zero, so
two arrays that store different numbers of bytes may show the same contents.
What is loaded is fixed by the bytes of the range, and what is stored changes
the range alone, provided the range lies inside the stored bytes.
-/

namespace ArenaScript

/-! ## Little-endian numbers -/

@[simp] theorem length_lowBytes (v count : Nat) :
    (lowBytes v count).length = count := by
  induction count generalizing v with
  | zero => rfl
  | succ count ih => simp [lowBytes, ih]

theorem ofLowBytes_lt (bytes : List UInt8) :
    ofLowBytes bytes < Nat.pow 256 bytes.length := by
  induction bytes with
  | nil => simp [ofLowBytes]
  | cons b rest ih =>
      have hb : b.toNat < 256 := b.toNat_lt
      have hpow : Nat.pow 256 (b :: rest).length =
          256 * Nat.pow 256 rest.length :=
        Nat.mul_comm _ _
      rw [ofLowBytes, hpow]
      omega

theorem lowBytes_ofLowBytes (bytes : List UInt8) :
    lowBytes (ofLowBytes bytes) bytes.length = bytes := by
  induction bytes with
  | nil => rfl
  | cons b rest ih =>
      have hb : b.toNat < 256 := b.toNat_lt
      have hdiv : (b.toNat + 256 * ofLowBytes rest) / 256 =
          ofLowBytes rest := by omega
      have hhead : (b.toNat + 256 * ofLowBytes rest).toUInt8 = b := by
        apply UInt8.toNat_inj.1
        rw [Nat.toUInt8, UInt8.toNat_ofNat']
        omega
      rw [ofLowBytes, List.length_cons, lowBytes, hdiv, hhead, ih]

namespace Arena

def byteAt (a : Arena) (i : Nat) : UInt8 := a.bytes.getD i 0

/-! ## Loading -/

@[simp] theorem length_load (bytes : Array UInt8) (addr len : Nat) :
    (load bytes addr len).length = len := by
  induction len generalizing addr with
  | zero => rfl
  | succ len ih => simp [load, ih]

theorem getD_load (bytes : Array UInt8) (addr : Nat) {len i : Nat}
    (h : i < len) :
    (load bytes addr len).getD i 0 = bytes.getD (addr + i) 0 := by
  induction len generalizing addr i with
  | zero => omega
  | succ len ih =>
      cases i with
      | zero => rfl
      | succ i =>
          have hrest := ih (addr + 1) (Nat.lt_of_succ_lt_succ h)
          rw [load, List.getD_cons_succ, hrest, Nat.add_right_comm]
          rfl

theorem load_congr {first second : Array UInt8} {addr len : Nat}
    (h : ∀ i, addr ≤ i → i < addr + len → first.getD i 0 = second.getD i 0) :
    load first addr len = load second addr len := by
  induction len generalizing addr with
  | zero => rfl
  | succ len ih =>
      have hhead := h addr (Nat.le_refl _) (by omega)
      have htail : load first (addr + 1) len = load second (addr + 1) len :=
        ih fun i hlow hhigh => h i (by omega) (by omega)
      simp only [load]
      rw [hhead, htail]

/-! ## Storing -/

@[simp] theorem size_store (bytes : Array UInt8) (addr : Nat)
    (contents : List UInt8) :
    (store bytes addr contents).size = bytes.size := by
  induction contents generalizing bytes addr with
  | nil => rfl
  | cons b rest ih => simp [store, ih]

theorem size_grow (bytes : Array UInt8) (size : Nat) :
    (grow bytes size).size = max bytes.size size := by
  unfold grow
  split
  · simp
    omega
  · omega

@[simp] theorem getD_grow (bytes : Array UInt8) (size i : Nat) :
    (grow bytes size).getD i 0 = bytes.getD i 0 := by
  unfold grow
  split
  · simp only [Array.getD_eq_getD_getElem?, Array.getElem?_append]
    by_cases hi : i < bytes.size
    · simp [hi]
    · simp only [hi, ↓reduceIte, Array.getElem?_replicate,
        Array.getElem?_eq_none, Nat.le_of_not_lt hi]
      split <;> rfl
  · rfl

private theorem getD_setIfInBounds (bytes : Array UInt8) (addr i : Nat)
    (b : UInt8) (h : addr < bytes.size) :
    (bytes.setIfInBounds addr b).getD i 0 = if i = addr then b else
      bytes.getD i 0 := by
  simp only [Array.getD_eq_getD_getElem?, Array.getElem?_setIfInBounds]
  by_cases hi : i = addr
  · simp [hi, h]
  · simp [hi, Ne.symm hi]

/--
The stored bytes appear at their addresses and all others are as before.  An
empty range may lie anywhere.
-/
theorem getD_store (bytes : Array UInt8) (addr : Nat) (contents : List UInt8)
    (i : Nat) (h : contents.length = 0 ∨ addr + contents.length ≤ bytes.size) :
    (store bytes addr contents).getD i 0 =
      if addr ≤ i ∧ i < addr + contents.length then contents.getD (i - addr) 0
      else bytes.getD i 0 := by
  induction contents generalizing bytes addr with
  | nil =>
      have hout : ¬ (addr ≤ i ∧ i < addr + ([] : List UInt8).length) := by
        simp only [List.length_nil]
        omega
      rw [if_neg hout]
      rfl
  | cons b rest ih =>
      have hsize : addr + (rest.length + 1) ≤ bytes.size := by simpa using h
      have hrest := ih (bytes.setIfInBounds addr b) (addr + 1) (by
        right
        simp only [Array.size_setIfInBounds]
        omega)
      simp only [store, List.length_cons]
      rw [hrest, getD_setIfInBounds bytes addr i b (by omega)]
      by_cases heq : i = addr
      · have hout : ¬ (addr + 1 ≤ i ∧ i < addr + 1 + rest.length) := by omega
        have hin : addr ≤ i ∧ i < addr + (rest.length + 1) := by omega
        rw [if_neg hout, if_pos heq, if_pos hin, heq, Nat.sub_self,
          List.getD_cons_zero]
      · by_cases hin : addr + 1 ≤ i ∧ i < addr + 1 + rest.length
        · have hin' : addr ≤ i ∧ i < addr + (rest.length + 1) := by omega
          have hindex : i - addr = (i - (addr + 1)) + 1 := by omega
          rw [if_pos hin, if_pos hin', hindex, List.getD_cons_succ]
        · have hout : ¬ (addr ≤ i ∧ i < addr + (rest.length + 1)) := by omega
          rw [if_neg hin, if_neg hout, if_neg heq]

end Arena

end ArenaScript
