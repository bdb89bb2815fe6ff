import Mathlib.Algebra.Order.Ring.Int
import TalkMachine.Value

/-!
# Small integers and characters as words

The word of a small integer is read as a signed number: the tag is its parity, and the integer is its
half, rounded down. So a value is the small integer `n` exactly when it is the word of `n` and `n`
lies in the range of small integers (`Value.toInt?_eq_some_iff`); different values are different
integers. A character is read back from its word (`Value.toChar?_ofChar`).
-/

namespace TalkMachine

namespace Value

variable {v v' : Value} {n : ℤ}

/-- The word of an integer is twice the integer and the tag. -/
lemma toBitVec_raw_ofInt (n : ℤ) : (ofInt n).raw.toBitVec = BitVec.ofInt 64 (2 * n + 1) := by
  rw [ofInt, UInt64.ofInt]
  apply BitVec.eq_of_toNat_eq
  simp [BitVec.toNat_ofInt]
  omega

/-- The tag of a small integer is the parity of its word. -/
lemma isSmallInteger_iff : v.isSmallInteger = true ↔ v.raw.toBitVec.toInt % 2 = 1 := by
  rw [isSmallInteger, beq_iff_eq, ← UInt64.toNat_inj, UInt64.toNat_mod,
    BitVec.toInt_eq_toNat_cond]
  show v.raw.toBitVec.toNat % 2 = 1 ↔ _
  split <;> omega

/-- The bits above the tag are half of the word. -/
lemma intPayload_eq (v : Value) : v.intPayload = v.raw.toBitVec.toInt / 2 := by
  rw [intPayload, Int.shiftRight_eq_div_pow]
  rfl

/-- The range of small integers. -/
lemma fitsSmallInteger_iff : fitsSmallInteger n = true ↔ -2 ^ 62 ≤ n ∧ n ≤ 2 ^ 62 - 1 := by
  rw [fitsSmallInteger, minInt, maxInt, Bool.and_eq_true, decide_eq_true_iff, decide_eq_true_iff]
  omega

/-- A value is a small integer exactly when it is the word of one. -/
theorem toInt?_eq_some_iff : v.toInt? = some n ↔ fitsSmallInteger n = true ∧ v = ofInt n := by
  have hlt := v.raw.toBitVec.toInt_lt
  have hle := v.raw.toBitVec.le_toInt
  rw [toInt?, Option.ite_none_right_eq_some, isSmallInteger_iff, intPayload_eq, Option.some.injEq,
    fitsSmallInteger_iff]
  constructor
  · rintro ⟨hodd, rfl⟩
    refine ⟨⟨by omega, by omega⟩, ?_⟩
    have htwice : 2 * (v.raw.toBitVec.toInt / 2) + 1 = v.raw.toBitVec.toInt := by omega
    have hraw := toBitVec_raw_ofInt (v.raw.toBitVec.toInt / 2)
    rw [htwice, BitVec.ofInt_toInt] at hraw
    exact congrArg Value.mk (UInt64.toBitVec_inj.mp hraw.symm)
  · rintro ⟨⟨hmin, hmax⟩, rfl⟩
    rw [toBitVec_raw_ofInt, BitVec.toInt_ofInt, Int.bmod_eq_of_le (by omega) (by omega)]
    omega

/-- A small integer is read back from its value. -/
lemma toInt?_ofInt (hn : fitsSmallInteger n = true) : (ofInt n).toInt? = some n :=
  toInt?_eq_some_iff.mpr ⟨hn, rfl⟩

/-- A small integer that is not negative is read back from its value. -/
lemma toInt?_ofInt_natCast {n : ℕ} (hn : n < 2 ^ 62) : (ofInt n).toInt? = some (n : ℤ) :=
  toInt?_ofInt (fitsSmallInteger_iff.mpr ⟨by omega, by omega⟩)

/-- Of any integer 63 bits are read back from its value. -/
lemma toInt?_ofInt_bmod (n : ℤ) : (ofInt n).toInt? = some (n.bmod (2 ^ 63)) := by
  have hodd : (2 * n + 1).bmod (2 ^ 64) = 2 * n.bmod (2 ^ 63) + 1 := by
    rw [Int.bmod_def, Int.bmod_def]
    omega
  have hraw : (ofInt n).raw.toBitVec.toInt = 2 * n.bmod (2 ^ 63) + 1 := by
    rw [toBitVec_raw_ofInt, BitVec.toInt_ofInt, hodd]
  rw [toInt?, if_pos (isSmallInteger_iff.mpr (by omega)), intPayload_eq, hraw]
  congr 1
  omega

/-- Integers that agree in 63 bits have the same value. -/
lemma ofInt_congr {n' : ℤ} (h : n % 2 ^ 63 = n' % 2 ^ 63) : ofInt n = ofInt n' := by
  have hraw : (ofInt n).raw.toBitVec = (ofInt n').raw.toBitVec := by
    rw [toBitVec_raw_ofInt, toBitVec_raw_ofInt, ← BitVec.toInt_inj, BitVec.toInt_ofInt,
      BitVec.toInt_ofInt, Int.bmod_def, Int.bmod_def]
    omega
  exact congrArg Value.mk (UInt64.toBitVec_inj.mp hraw)

/-- Two small integers are the same value exactly when they are the same number. -/
lemma eq_iff_of_toInt? {n' : ℤ} (h : v.toInt? = some n) (h' : v'.toInt? = some n') :
    v = v' ↔ n = n' := by
  constructor
  · rintro rfl
    exact Option.some.inj (h.symm.trans h')
  · rintro rfl
    exact (toInt?_eq_some_iff.mp h).2.trans (toInt?_eq_some_iff.mp h').2.symm

/-- An integer has a value exactly when it is in the range of small integers, and that value is read
back as the integer. -/
lemma ofInt?_eq_some_iff : ofInt? n = some v ↔ v.toInt? = some n := by
  rw [toInt?_eq_some_iff, ofInt?, Option.ite_none_right_eq_some, Option.some.injEq, eq_comm (a := v)]

/-- An integer has no value exactly when it is out of the range of small integers. -/
lemma ofInt?_eq_none_iff : ofInt? n = none ↔ ¬fitsSmallInteger n = true := by
  rw [ofInt?, ite_eq_right_iff]
  simp

/-! ### Characters -/

/-- Every code point is read back from its value. -/
lemma toCodePoint?_ofCodePoint (code : UInt32) : (ofCodePoint code).toCodePoint? = some code := by
  have hlt := code.toNat_lt
  have hword : (code.toUInt64 * 8 + 2).toNat = code.toNat * 8 + 2 := by
    rw [UInt64.toNat_add, UInt64.toNat_mul, UInt32.toNat_toUInt64]
    show (code.toNat * 8 % 2 ^ 64 + 2) % 2 ^ 64 = code.toNat * 8 + 2
    omega
  have htag : (ofCodePoint code).isCharacter = true := by
    rw [isCharacter, tag, beq_iff_eq, ← UInt64.toNat_inj, UInt64.toNat_mod]
    show (code.toUInt64 * 8 + 2).toNat % 8 = 2
    omega
  have hcode : (ofCodePoint code).codePayload = code := by
    rw [codePayload, ← UInt32.toNat_inj, UInt64.toNat_toUInt32, UInt64.toNat_div]
    show (code.toUInt64 * 8 + 2).toNat / 8 % 2 ^ 32 = code.toNat
    omega
  rw [toCodePoint?, if_pos htag, hcode]

/-- The Unicode scalar with a code point is the character that has it. -/
lemma scalar?_eq_some_iff {code : ℕ} {c : Char} : scalar? code = some c ↔ code = c.val.toNat := by
  rw [scalar?, Option.ite_none_right_eq_some, Option.some.injEq]
  constructor
  · rintro ⟨hvalid, rfl⟩
    rw [Char.ofNat, dif_pos hvalid]
    rfl
  · rintro rfl
    exact ⟨c.valid, Char.ofNat_toNat c⟩

/-- A character is read back from its value. -/
lemma toChar?_ofChar (c : Char) : (ofChar c).toChar? = some c := by
  rw [toChar?, ofChar, toCodePoint?_ofCodePoint, Option.bind_some, scalar?_eq_some_iff]

/-- Different characters have different values. -/
lemma ofChar_injective {c c' : Char} (h : ofChar c = ofChar c') : c = c' := by
  have hread := toChar?_ofChar c
  rw [h, toChar?_ofChar] at hread
  exact (Option.some.inj hread).symm

end Value

end TalkMachine
