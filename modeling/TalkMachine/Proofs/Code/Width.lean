import Mathlib.Tactic.Ring
import Mathlib.Tactic.Linarith
import TalkMachine.Code.Width

/-!
# What a width can carry

The widths of operands are exact: `unsignedWidth_le_iff` and `signedWidth_le_iff` say that `width`
bytes are enough for a number just when the number lies in their range. With that,
`div_pow_unsignedWidth` and `ediv_pow_of_signedWidth_le` say what stands before the first extension
byte.
-/

namespace TalkMachine

/-! ### Binary digits -/

/-- A number has at most `k` binary digits just when it lies below `2 ^ k`. -/
lemma bitLength_le_iff (n k : ℕ) : bitLength n ≤ k ↔ n < 2 ^ k := by
  unfold bitLength
  by_cases h : n = 0
  · simp [h]
  · rw [if_neg h, ← Nat.log2_lt h]
    omega

/-! ### Unsigned numbers -/

/-- `width` bytes carry an unsigned number just when it has no further digit to the base 256. -/
theorem unsignedWidth_le_iff (n width : ℕ) : unsignedWidth n ≤ width ↔ n < 256 ^ width := by
  have hpow : (256 : ℕ) ^ width = 2 ^ (8 * width) := by
    rw [pow_mul]
    norm_num
  rw [hpow, ← bitLength_le_iff]
  unfold unsignedWidth
  omega

/-- The digits in front of the first extension byte are zero. -/
lemma div_pow_unsignedWidth (n : ℕ) : n / 256 ^ unsignedWidth n = 0 :=
  Nat.div_eq_of_lt ((unsignedWidth_le_iff n _).mp le_rfl)

/-! ### Signed numbers -/

/-- Twice a power of two, in the form in which the range of a signed width speaks of it. -/
lemma pow_256_succ (width : ℕ) : (256 : ℤ) ^ (width + 1) = 2 * 2 ^ (8 * width + 7) := by
  have hpow : (256 : ℤ) ^ width = 2 ^ (8 * width) := by
    rw [pow_mul]
    norm_num
  rw [pow_succ, hpow, pow_add]
  ring

/-- The range of the numbers with at most `k` binary digits beside the sign. -/
lemma signedLength_le_iff (n : ℤ) (k : ℕ) : signedLength n ≤ k ↔ -2 ^ k ≤ n ∧ n < 2 ^ k := by
  cases n with
  | ofNat m =>
    have hcast : ((2 ^ k : ℕ) : ℤ) = 2 ^ k := by norm_cast
    show bitLength m ≤ k ↔ _
    rw [bitLength_le_iff, Int.ofNat_eq_natCast]
    omega
  | negSucc m =>
    have hcast : ((2 ^ k : ℕ) : ℤ) = 2 ^ k := by norm_cast
    show bitLength m ≤ k ↔ _
    rw [bitLength_le_iff, Int.negSucc_eq]
    omega

/-- `width` bytes carry a signed number just when its double lies between the powers of 256. No
byte at all carries zero only. -/
theorem signedWidth_le_iff (n : ℤ) (width : ℕ) :
    signedWidth n ≤ width ↔ -256 ^ width ≤ 2 * n ∧ 2 * n < 256 ^ width := by
  unfold signedWidth
  cases width with
  | zero =>
    by_cases h : n = 0
    · simp [h]
    · rw [if_neg h]
      omega
  | succ width =>
    have hlength := signedLength_le_iff n (8 * width + 7)
    by_cases h : n = 0
    · have hpos : (0 : ℤ) < 256 ^ (width + 1) := by positivity
      rw [if_pos h, h]
      omega
    · rw [if_neg h, pow_256_succ]
      omega

/-- What stands in front of a number that `width` bytes carry is its sign. -/
lemma ediv_pow_of_signedWidth_le {n : ℤ} {width : ℕ} (h : signedWidth n ≤ width + 1) :
    -128 ≤ n / 256 ^ width ∧ n / 256 ^ width < 128 := by
  obtain ⟨hlow, hhigh⟩ := (signedWidth_le_iff n (width + 1)).mp h
  have hpos : (0 : ℤ) < 256 ^ width := by positivity
  rw [pow_succ] at hlow hhigh
  constructor
  · rw [Int.le_ediv_iff_mul_le hpos]
    linarith
  · rw [Int.ediv_lt_iff_lt_mul hpos]
    linarith

/-- Only zero is carried by no byte. -/
lemma eq_zero_of_signedWidth_le_zero {n : ℤ} (h : signedWidth n ≤ 0) : n = 0 := by
  have := (signedWidth_le_iff n 0).mp h
  omega

end TalkMachine
