import Mathlib.Data.Nat.Digits.Defs
import ArenaScript.Number.Integer
import ArenaScript.Proofs.Scalars.Integers

/-!
# Spellings of integers

An integer is spelled by its digits, with or without a sign before them, and
with any number of zeros first.  A text is read as the integer that it spells,
if the integer has 64 bits.  As a decimal text cannot begin with `0x`,
hexadecimal texts and decimal ones are told apart by their beginning.
-/

namespace ArenaScript

namespace Number

/-- The digits spell the number, the most significant digit first. -/
def Spells (radix : Nat) (cs : List Char) (n : Nat) : Prop :=
  cs ≠ [] ∧ ∃ ds : List Nat, cs.map (digit? radix) = ds.map some ∧
    n = Nat.ofDigits radix ds.reverse

inductive Signed (radix : Nat) : List Char → Int → Prop
  | plain {cs : List Char} {n : Nat} (h : Spells radix cs n) : Signed radix cs n
  | plus {cs : List Char} {n : Nat} (h : Spells radix cs n) :
      Signed radix ('+' :: cs) n
  | minus {cs : List Char} {n : Nat} (h : Spells radix cs n) :
      Signed radix ('-' :: cs) (-n)

structure IsDecimal (text : String) (n : Int) : Prop where
  spelled : Signed 10 text.toList n
  holds : CoreKind.int64.Holds n

def Prefixed (text : String) (cs : List Char) : Prop :=
  text.toList = '0' :: 'x' :: cs ∨ text.toList = '0' :: 'X' :: cs

structure IsHexadecimal (text : String) (n : Int) : Prop where
  spelled : ∃ cs, Prefixed text cs ∧ Signed 16 cs n
  holds : CoreKind.int64.Holds n

variable {radix : Nat} {cs : List Char} {m n : Int} {text : String}

/-! ## Digits -/

theorem ofDigits_first (radix d : Nat) (ds : List Nat) :
    Nat.ofDigits radix (d :: ds).reverse =
      Nat.ofDigits radix ds.reverse + radix ^ ds.length * d := by
  rw [List.reverse_cons, Nat.ofDigits_append, Nat.ofDigits_singleton,
    List.length_reverse]

theorem digits?_eq_some {acc value : Nat} : digits? radix acc cs = some value ↔
    ∃ ds : List Nat, cs.map (digit? radix) = ds.map some ∧
      value = Nat.ofDigits radix ds.reverse + radix ^ ds.length * acc := by
  induction cs generalizing acc with
  | nil =>
      constructor
      · rintro ⟨⟩
        exact ⟨[], rfl, by simp⟩
      · rintro ⟨ds, hds, rfl⟩
        obtain rfl : ds = [] := by simpa using hds.symm
        simp [digits?]
  | cons c cs ih =>
      rw [digits?]
      constructor
      · intro h
        obtain ⟨d, hd, h⟩ := Option.bind_eq_some_iff.1 h
        obtain ⟨ds, hds, rfl⟩ := ih.1 h
        refine ⟨d :: ds, by simp [hd, hds], ?_⟩
        rw [ofDigits_first, List.length_cons]
        ring
      · rintro ⟨_ | ⟨d, ds⟩, hds, rfl⟩
        · simp at hds
        · simp only [List.map_cons, List.cons.injEq] at hds
          refine Option.bind_eq_some_iff.2 ⟨d, hds.1, ih.2 ⟨ds, hds.2, ?_⟩⟩
          rw [ofDigits_first, List.length_cons]
          ring

theorem natural?_eq_some {value : Nat} :
    natural? radix cs = some value ↔ Spells radix cs value := by
  cases cs with
  | nil => simp [natural?, Spells]
  | cons c cs =>
      have hne : c :: cs ≠ [] := List.cons_ne_nil c cs
      have hdigits : natural? radix (c :: cs) = digits? radix 0 (c :: cs) := rfl
      rw [hdigits, digits?_eq_some]
      simp [Spells]

/-! ## Signs -/

def integer? (radix : Nat) (cs : List Char) : Option Int :=
  match cs with
  | '+' :: rest => (natural? radix rest).map Int.ofNat
  | '-' :: rest => (natural? radix rest).map fun n => -Int.ofNat n
  | cs => (natural? radix cs).map Int.ofNat

theorem not_spells {c : Char} (h : digit? radix c = none) (value : Nat) :
    ¬ Spells radix (c :: cs) value := by
  rintro ⟨-, _ | ⟨d, ds⟩, hds, -⟩ <;> simp [h] at hds

theorem integer?_eq_some : integer? radix cs = some n ↔ Signed radix cs n := by
  constructor
  · intro h
    unfold integer? at h
    split at h <;> obtain ⟨value, hvalue, rfl⟩ := Option.map_eq_some_iff.1 h
    · exact .plus (natural?_eq_some.1 hvalue)
    · exact .minus (natural?_eq_some.1 hvalue)
    · exact .plain (natural?_eq_some.1 hvalue)
  · intro h
    cases h with
    | plain h =>
        unfold integer?
        split
        · exact absurd h (not_spells (by simp [digit?]) _)
        · exact absurd h (not_spells (by simp [digit?]) _)
        · simp [natural?_eq_some.2 h]
    | plus h => simp [integer?, natural?_eq_some.2 h]
    | minus h => simp [integer?, natural?_eq_some.2 h]

theorem signed?_eq_some {v : Int64} :
    signed? radix cs = some v ↔ Signed radix cs v.toInt := by
  have hvalue : signed? radix cs = ((integer? radix cs).filter fun v =>
      -9223372036854775808 ≤ v && v < 9223372036854775808).map Int64.ofInt :=
        rfl
  rw [hvalue, ← integer?_eq_some]
  constructor
  · intro h
    obtain ⟨n, hn, rfl⟩ := Option.map_eq_some_iff.1 h
    obtain ⟨hn, hrange⟩ := Option.filter_eq_some_iff.1 hn
    simp only [Bool.and_eq_true, decide_eq_true_eq] at hrange
    rw [hn, Int64.toInt_ofInt_of_le (by omega) (by omega)]
  · intro h
    have hlow := v.le_toInt
    have hhigh := v.toInt_lt
    refine Option.map_eq_some_iff.2
      ⟨v.toInt, Option.filter_eq_some_iff.2 ⟨h, ?_⟩, by simp⟩
    simp only [Bool.and_eq_true, decide_eq_true_eq]
    omega

theorem holds_toInt (v : Int64) : CoreKind.int64.Holds v.toInt := by
  have hlow := v.le_toInt
  have hhigh := v.toInt_lt
  simp only [CoreKind.Holds, CoreKind.isSigned, CoreKind.width,
    CoreKind.size, if_true]
  omega

/-! ## Literals -/

theorem decimal?_eq_some {v : Int64} :
    decimal? text = some v ↔ IsDecimal text v.toInt := by
  rw [decimal?, signed?_eq_some]
  exact ⟨fun h => ⟨h, holds_toInt v⟩, fun h => h.spelled⟩

theorem not_signed {mark : Char} (hmark : digit? 10 mark = none) :
    ¬ Signed 10 ('0' :: mark :: cs) n := by
  intro h
  have hspells : ∃ value, Spells 10 ('0' :: mark :: cs) value := by
    generalize htext : '0' :: mark :: cs = text at h ⊢
    cases h with
    | plain h => exact ⟨_, h⟩
    | plus _ => simp at htext
    | minus _ => simp at htext
  obtain ⟨value, -, _ | ⟨d, _ | ⟨e, ds⟩⟩, hds, -⟩ :=
    hspells <;> simp [hmark] at hds

theorem Prefixed.not_isDecimal (h : Prefixed text cs) : ¬ IsDecimal text n := by
  intro hdecimal
  have hspelled := hdecimal.spelled
  rcases h with h | h <;> rw [h] at hspelled
  · exact not_signed (by decide) hspelled
  · exact not_signed (by decide) hspelled

theorem IsHexadecimal.not_isDecimal (h : IsHexadecimal text n) :
    ¬ IsDecimal text m := by
  obtain ⟨⟨cs, hprefixed, -⟩, -⟩ := h
  exact hprefixed.not_isDecimal

theorem literal?_prefixed (h : Prefixed text cs) :
    literal? text = signed? 16 cs := by
  rcases h with h | h <;> simp [literal?, h]

theorem literal?_plain (h : ∀ cs, ¬ Prefixed text cs) :
    literal? text = decimal? text := by
  unfold literal?
  split
  · rename_i cs hcs
    exact absurd (.inl hcs) (h cs)
  · rename_i cs hcs
    exact absurd (.inr hcs) (h cs)
  · rfl

/-- Literals are read as the integers that they spell. -/
theorem literal?_eq_some {v : Int64} :
    literal? text = some v ↔ IsDecimal text v.toInt ∨
      IsHexadecimal text v.toInt := by
  by_cases hprefixed : ∃ cs, Prefixed text cs
  · obtain ⟨cs, hprefixed⟩ := hprefixed
    rw [literal?_prefixed hprefixed, signed?_eq_some,
      or_iff_right hprefixed.not_isDecimal]
    constructor
    · exact fun h => ⟨⟨cs, hprefixed, h⟩, holds_toInt v⟩
    · rintro ⟨⟨cs', hprefixed', h⟩, -⟩
      obtain rfl : cs = cs' := by
        rcases hprefixed with hcs | hcs <;> rcases hprefixed' with hcs' |
          hcs' <;> simp_all
      exact h
  · rw [literal?_plain (not_exists.1 hprefixed), decimal?_eq_some]
    refine (or_iff_left fun h => hprefixed ?_).symm
    obtain ⟨⟨cs, hcs, -⟩, -⟩ := h
    exact ⟨cs, hcs⟩

end Number

end ArenaScript
