import ArenaScript.Proofs.Arena.Ledger

/-!
# Copies of bytes

Bytes are copied between two ranges that do not overlap, and all other bytes
stay as they are.  A copy may leave bytes out; copies of parts that lie apart
from each other make up a copy of the whole.
-/

namespace ArenaScript

namespace Arena

structure Apart (a : Arena) (dst src len : Nat) : Prop where
  target : a.inBounds dst len = true
  source : a.inBounds src len = true
  disjoint : dst + len ≤ src ∨ src + len ≤ dst

theorem inBounds_congr {a b : Arena} (h : b.mark = a.mark) (addr len : Nat) :
    b.inBounds addr len = a.inBounds addr len := by
  rw [inBounds, inBounds, h]

theorem Apart.congr {a b : Arena} {dst src len : Nat} (h : a.Apart dst src len)
    (hmark : b.mark = a.mark) : b.Apart dst src len := by
  refine ⟨?_, ?_, h.disjoint⟩
  · rw [inBounds_congr hmark, h.target]
  · rw [inBounds_congr hmark, h.source]

theorem inBounds_piece {a : Arena} {addr len offset part : Nat}
    (h : a.inBounds addr len = true) (hpart : offset + part ≤ len) :
    a.inBounds (addr + offset) part = true := by
  simp only [inBounds, Bool.and_eq_true, Bool.or_eq_true, beq_iff_eq,
    decide_eq_true_eq] at h ⊢
  omega

theorem Apart.piece {a : Arena} {dst src len offset part : Nat}
    (h : a.Apart dst src len) (hpart : offset + part ≤ len) :
    a.Apart (dst + offset) (src + offset) part := by
  refine ⟨inBounds_piece h.target hpart, inBounds_piece h.source hpart, ?_⟩
  have hdisjoint := h.disjoint
  omega

/-- On the way from `a` to `b` the bytes at the given offsets have been copied
from `src` to `dst`, and all other bytes have been left as they were. -/
structure Copied (a : Arena) (data : Nat → Prop) (dst src : Nat) (b : Arena) :
    Prop where
  bytes : ∀ i, data i → b.byteAt (dst + i) = a.byteAt (src + i)
  others : ∀ addr, (∀ i, data i → addr ≠ dst + i) →
    b.byteAt addr = a.byteAt addr

namespace Copied

variable {a b c : Arena} {data more : Nat → Prop} {dst src offset : Nat}

theorem congr (h : a.Copied data dst src b) (hsame : ∀ i, data i ↔ more i) :
    a.Copied more dst src b := by
  have heq : data = more := funext fun i => propext (hsame i)
  exact heq ▸ h

theorem shift (h : a.Copied data (dst + offset) (src + offset) b) :
    a.Copied (fun i => ∃ j, data j ∧ i = offset + j) dst src b where
  bytes i hi := by
    obtain ⟨j, hj, rfl⟩ := hi
    rw [← Nat.add_assoc, ← Nat.add_assoc]
    exact h.bytes j hj
  others addr haddr := by
    refine h.others addr fun j hj => ?_
    rw [Nat.add_assoc]
    exact haddr (offset + j) ⟨j, hj, rfl⟩

theorem append (hab : a.Copied data dst src b) (hbc : b.Copied more dst src c)
    (hdst : ∀ i, data i → ∀ j, more j → i ≠ j)
    (hsrc : ∀ i, data i → ∀ j, more j → src + j ≠ dst + i) :
    a.Copied (fun i => data i ∨ more i) dst src c where
  bytes i hi := by
    rcases hi with hi | hi
    · rw [← hab.bytes i hi]
      refine hbc.others _ fun j hj heq => hdst i hi j hj ?_
      omega
    · rw [hbc.bytes i hi]
      exact hab.others _ fun j hj => hsrc j hj i hi
  others addr haddr := by
    rw [hbc.others addr fun i hi => haddr i (.inr hi)]
    exact hab.others addr fun i hi => haddr i (.inl hi)

end Copied

theorem Apart.exists_copy {a : Arena} (ha : a.WellFormed) {dst src len : Nat}
    (h : a.Apart dst src len) :
    ∃ bytes, Arena.copy src dst len a = .ok () { a with bytes } ∧
      a.Copied (fun i => i < len) dst src { a with bytes } := by
  have hbytes : ∀ i, (store a.bytes dst (load a.bytes src len)).getD i 0 =
      if dst ≤ i ∧ i < dst + len then a.byteAt (src + (i - dst)) else
        a.byteAt i := by
    intro i
    have hroom : (load a.bytes src len).length = 0 ∨
        dst + (load a.bytes src len).length ≤ a.bytes.size := by
      have hstored := ha.stored
      have hdst := h.target
      simp only [inBounds, Bool.and_eq_true, Bool.or_eq_true, beq_iff_eq,
        decide_eq_true_eq] at hdst
      rw [length_load]
      omega
    rw [getD_store _ _ _ _ hroom, length_load]
    split
    · exact getD_load _ _ (by omega)
    · rfl
  refine ⟨store a.bytes dst (load a.bytes src len), ?_, fun i hi => ?_,
    fun addr haddr => ?_⟩
  · simp only [Arena.copy, h.source, h.target, if_true]
  · have hin : dst ≤ dst + i ∧ dst + i < dst + len := by omega
    exact (hbytes (dst + i)).trans (by rw [if_pos hin, Nat.add_sub_cancel_left])
  · refine (hbytes addr).trans (if_neg fun hin => ?_)
    exact haddr (addr - dst) (by omega) (by omega)

end Arena

end ArenaScript
