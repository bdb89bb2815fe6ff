import Mathlib.Algebra.Order.Floor.Ring
import Mathlib.Data.Rat.Floor
import Mathlib.Tactic.Positivity
import TalkMachine.Proofs.Native.Table
import TalkMachine.Proofs.Value

/-!
# Quotients, remainders and shifts of small integers

The native methods `//`, `\\` and `bitShift:` compute in words of 64 bits. On small integers no word
that comes up in a division is other than the exact result (`IntegerNative.dividesExactly`), though
the two natives start from different kinds of division. So the quotient is the one rounded down and
the remainder has the sign of the divisor (`IntegerNative.answers_floor_and_remainder`).

Bits that are shifted out at the top are found out by shifting back
(`IntegerNative.shiftRight_shiftLeft_eq_iff`). So a shift answers the product with a power of two,
rounded down, whenever that is a small integer; but zero, which loses no bits, is refused too when it
is shifted up by 64 places or more (`IntegerNative.answersShift_iff`).
-/

namespace TalkMachine

open Execution

namespace IntegerNative

variable {a b : Int64} {x y n : ℤ} {p : Execution}

/-- The outcome of a native method of small integers is that of its answer. -/
lemma answers_of_answer_eq (native : IntegerNative) {selector : String} {count : ℕ}
    {receiver : Value} {arguments : List Value} {outcome : Except MachineError Value}
    (hfilter : NativeTable.smallInteger.filter (fun entry => entry.selector = selector) =
      [⟨selector, count, .integer native⟩])
    (hanswer : native.answer receiver arguments p.machine = outcome) :
    NativeTable.Answers NativeTable.smallInteger p selector receiver arguments outcome :=
  NativeTable.answers_of_ask hfilter (fun _ _ => rfl) hanswer

/-- Two small integers are the operands of a native method. -/
lemma operands_ofInt (hx : Value.fitsSmallInteger x = true) (hy : Value.fitsSmallInteger y = true) :
    operands (Value.ofInt x) [Value.ofInt y] = .ok (x, y) := by
  simp only [operands, Machine.toInteger, Machine.argument, Machine.expected, Value.toInt?_ofInt hx,
    Value.toInt?_ofInt hy, List.getElem?_cons_zero, bind, Except.bind, pure, Except.pure]

/-- A result is answered if it is a small integer. -/
lemma checked_some (selector : String) (receiver : Value) (n : ℤ) :
    checked selector receiver (some n) = if Value.fitsSmallInteger n then .ok (Value.ofInt n)
      else .error (.nativeFailed selector receiver) := by
  rw [checked, Option.bind_some, Value.ofInt?]
  cases Value.fitsSmallInteger n <;> rfl

/-! ### Division of integers -/

/-- The remainder with the sign of the dividend is negative unless there is none or the dividend is
not negative. -/
lemma tmod_neg_iff (hy : y ≠ 0) : x.tmod y < 0 ↔ ¬(0 ≤ x ∨ y ∣ x) := by
  have hlt := Int.emod_lt x hy
  have hle := Int.emod_nonneg x hy
  rw [Int.tmod_eq_emod]
  split <;> omega

/-- The quotient whose remainder is not negative, from the one rounded toward zero. -/
lemma ite_tdiv_eq_ediv (hy : y ≠ 0) :
    (if x.tmod y < 0 then if 0 < y then x.tdiv y - 1 else x.tdiv y + 1 else x.tdiv y) = x / y := by
  rw [Int.tdiv_eq_ediv]
  by_cases h : 0 ≤ x ∨ y ∣ x
  · rw [if_neg (mt (tmod_neg_iff hy).mp (not_not.mpr h)), if_pos h, add_zero]
  · rw [if_pos ((tmod_neg_iff hy).mpr h), if_neg h]
    rcases lt_or_gt_of_ne hy with hneg | hpos
    · rw [if_neg (by omega), Int.sign_eq_neg_one_of_neg hneg]
      omega
    · rw [if_pos hpos, Int.sign_eq_one_of_pos hpos]
      omega

/-- The remainder that is not negative, from the one with the sign of the dividend. -/
lemma ite_tmod_eq_emod (hy : y ≠ 0) :
    (if x.tmod y < 0 then x.tmod y + |y| else x.tmod y) = x % y := by
  rw [Int.tmod_eq_emod]
  by_cases h : 0 ≤ x ∨ y ∣ x
  · rw [if_pos h, Nat.cast_zero, sub_zero, if_neg (Int.not_lt.mpr (Int.emod_nonneg x hy))]
  · have hlt := Int.emod_lt x hy
    rw [if_neg h, Int.abs_eq_natAbs, if_pos (by omega), sub_add_cancel]

/-- The quotient rounded down, from the one whose remainder is not negative. -/
lemma ediv_sub_eq_fdiv (x y : ℤ) :
    (x / y - if x % y ≠ 0 ∧ y < 0 then 1 else 0) = x.fdiv y := by
  have hdvd : y ∣ x ↔ x % y = 0 := Int.dvd_iff_emod_eq_zero
  rw [Int.fdiv_eq_ediv]
  congr 1
  by_cases h : 0 ≤ y ∨ y ∣ x
  · rw [if_pos h, if_neg (by omega)]
  · rw [if_neg h, if_pos (by omega)]

/-- The remainder with the sign of the divisor, from the one with the sign of the dividend. -/
lemma ite_tmod_eq_fmod (hy : y ≠ 0) :
    (if x.tmod y ≠ 0 ∧ (x.tmod y < 0 ↔ ¬y < 0) then x.tmod y + y else x.tmod y) = x.fmod y := by
  have hdvd : y ∣ x ↔ x % y = 0 := Int.dvd_iff_emod_eq_zero
  have hlt := Int.emod_lt x hy
  have hle := Int.emod_nonneg x hy
  rw [Int.tmod_eq_emod, Int.fmod_eq_emod]
  split <;> split <;> split <;> omega

/-- The quotient rounded down is the floor of the rational quotient. -/
lemma floor_div_eq_fdiv (x y : ℤ) : ⌊(x : ℚ) / y⌋ = x.fdiv y := by
  have hcast : ∀ (x : ℤ) (n : ℕ), ⌊(x : ℚ) / n⌋ = x.fdiv n := fun x n => by
    rw [Rat.floor_intCast_div_natCast, Int.fdiv_eq_ediv_of_nonneg x (Int.natCast_nonneg n)]
  rcases y.eq_nat_or_neg with ⟨n, rfl | rfl⟩
  · exact hcast x n
  · rw [← Int.neg_fdiv_neg, neg_neg, ← hcast]
    push_cast
    rw [div_neg, neg_div]

/-- A quotient is at most as great as the dividend. -/
lemma abs_tdiv_le (x y : ℤ) : |x.tdiv y| ≤ |x| := by
  rw [Int.abs_eq_natAbs, Int.abs_eq_natAbs, Int.natAbs_tdiv]
  exact_mod_cast Nat.div_le_self _ _

/-- A remainder is at most as great as the dividend. -/
lemma abs_tmod_le (x y : ℤ) : |x.tmod y| ≤ |x| := by
  rw [Int.abs_eq_natAbs, Int.abs_eq_natAbs, Int.natAbs_tmod]
  exact_mod_cast Nat.mod_le _ _

/-- A remainder has the sign of the divisor, or there is none. -/
lemma sign_fmod (hy : y ≠ 0) : x.fmod y = 0 ∨ (x.fmod y).sign = y.sign := by
  have hlt := Int.emod_lt x hy
  have hle := Int.emod_nonneg x hy
  have hdvd : y ∣ x ↔ x % y = 0 := Int.dvd_iff_emod_eq_zero
  rw [Int.fmod_eq_emod]
  rcases lt_or_gt_of_ne hy with hneg | hpos
  · rw [Int.sign_eq_neg_one_of_neg hneg, Int.sign_eq_neg_one_iff_neg]
    split <;> omega
  · rw [Int.sign_eq_one_of_pos hpos, Int.sign_eq_one_iff_pos, if_pos (.inl hpos.le)]
    omega

/-- A remainder is less than the divisor. -/
lemma abs_fmod_lt (hy : y ≠ 0) : |x.fmod y| < |y| := by
  rw [← Int.natCast_natAbs y, Int.fmod_eq_emod, abs_lt]
  have hlt := Int.emod_lt x hy
  have hle := Int.emod_nonneg x hy
  have hdvd : y ∣ x ↔ x % y = 0 := Int.dvd_iff_emod_eq_zero
  split <;> omega

/-! ### Division of words -/

/-- A word is negative if its integer is. -/
lemma lt_zero_iff : a < 0 ↔ a.toInt < 0 := by
  rw [Int64.lt_iff_toInt_lt, Int64.toInt_zero]

/-- A word is positive if its integer is. -/
lemma zero_lt_iff : 0 < a ↔ 0 < a.toInt := by
  rw [Int64.lt_iff_toInt_lt, Int64.toInt_zero]

/-- A word is zero only if its integer is. -/
lemma ne_zero_iff : a ≠ 0 ↔ a.toInt ≠ 0 := by
  rw [ne_eq, ← Int64.toInt_inj, Int64.toInt_zero]

/-- A sum that fits a word is exact. -/
lemma toInt_add_of_le (hmin : -2 ^ 63 ≤ a.toInt + b.toInt) (hmax : a.toInt + b.toInt < 2 ^ 63) :
    (a + b).toInt = a.toInt + b.toInt := by
  rw [Int64.toInt_add, Int.bmod_eq_of_le (by omega) (by omega)]

/-- A difference that fits a word is exact. -/
lemma toInt_sub_of_le (hmin : -2 ^ 63 ≤ a.toInt - b.toInt) (hmax : a.toInt - b.toInt < 2 ^ 63) :
    (a - b).toInt = a.toInt - b.toInt := by
  rw [Int64.toInt_sub, Int.bmod_eq_of_le (by omega) (by omega)]

/-- An absolute value that fits a word is exact. -/
lemma toInt_abs (hmin : -2 ^ 63 < b.toInt) : b.abs.toInt = |b.toInt| := by
  have hlt := b.toInt_lt
  have hneg : (-b).toInt = -b.toInt := by
    rw [Int64.toInt_neg, Int.bmod_eq_of_le (by omega) (by omega)]
  have hmsb : b.toBitVec.msb = decide (b.toInt < 0) := BitVec.msb_eq_toInt
  rw [Int64.toInt, Int64.toBitVec_abs, BitVec.abs, hmsb]
  by_cases h : b.toInt < 0
  · rw [decide_eq_true h, if_pos rfl, abs_of_neg h, ← hneg]
    rfl
  · rw [decide_eq_false h, if_neg Bool.false_ne_true, abs_of_nonneg (by omega)]
    rfl

/-- Whether each word that comes up in the quotient and the remainder that is not negative is the
exact result of its operation. -/
structure ReducesExactly (a b : Int64) : Prop where
  div : (a / b).toInt = a.toInt.tdiv b.toInt
  mod : (a % b).toInt = a.toInt.tmod b.toInt
  abs : b.abs.toInt = |b.toInt|
  pred : a % b < 0 → 0 < b → (a / b - 1).toInt = (a / b).toInt - 1
  succ : a % b < 0 → ¬0 < b → (a / b + 1).toInt = (a / b).toInt + 1
  addAbs : a % b < 0 → (a % b + b.abs).toInt = (a % b).toInt + b.abs.toInt

/-- Whether each word that comes up in the two native methods is the exact result of its operation.
-/
structure DividesExactly (a b : Int64) : Prop extends ReducesExactly a b where
  correct : (quotient a b).toInt =
    (euclideanQuotient a b).toInt - if euclideanRemainder a b ≠ 0 ∧ b < 0 then 1 else 0
  add : a % b ≠ 0 → (a % b < 0 ↔ ¬b < 0) → (a % b + b).toInt = (a % b).toInt + b.toInt

/-- The quotient whose remainder is not negative. -/
lemma ReducesExactly.toInt_euclideanQuotient (h : ReducesExactly a b) (hb : b ≠ 0) :
    (euclideanQuotient a b).toInt = a.toInt / b.toInt := by
  rw [euclideanQuotient, ← ite_tdiv_eq_ediv (ne_zero_iff.mp hb), ← h.mod, ← h.div]
  simp only [← lt_zero_iff, ← zero_lt_iff]
  split_ifs with hneg hpos
  · exact h.pred hneg hpos
  · exact h.succ hneg hpos
  · rfl

/-- The remainder that is not negative. -/
lemma ReducesExactly.toInt_euclideanRemainder (h : ReducesExactly a b) (hb : b ≠ 0) :
    (euclideanRemainder a b).toInt = a.toInt % b.toInt := by
  rw [euclideanRemainder, ← ite_tmod_eq_emod (ne_zero_iff.mp hb), ← h.mod, ← h.abs]
  simp only [← lt_zero_iff]
  split_ifs with hneg
  · exact h.addAbs hneg
  · rfl

/-- The quotient of the native method is rounded down. -/
lemma DividesExactly.toInt_quotient (h : DividesExactly a b) (hb : b ≠ 0) :
    (quotient a b).toInt = a.toInt.fdiv b.toInt := by
  rw [h.correct, h.toInt_euclideanQuotient hb, ← ediv_sub_eq_fdiv]
  simp only [ne_zero_iff, lt_zero_iff, h.toInt_euclideanRemainder hb]

/-- The remainder of the native method has the sign of the divisor. -/
lemma DividesExactly.toInt_remainder (h : DividesExactly a b) (hb : b ≠ 0) :
    (remainder a b).toInt = a.toInt.fmod b.toInt := by
  rw [remainder, ← ite_tmod_eq_fmod (ne_zero_iff.mp hb), ← h.mod]
  simp only [← ne_zero_iff, ← lt_zero_iff]
  split_ifs with hmoved
  · exact h.add hmoved.1 hmoved.2
  · rfl

/-- Operands of 63 bits are divided without overflow. -/
theorem dividesExactly (ha : |a.toInt| ≤ 2 ^ 62) (hb : |b.toInt| ≤ 2 ^ 62) (hne : b ≠ 0) :
    DividesExactly a b := by
  have hmin : a ≠ Int64.minValue := by
    rintro rfl
    rw [Int64.toInt_minValue] at ha
    exact absurd ha (by decide)
  have hdiv := Int64.toInt_div_of_ne_left a b hmin
  have hmod := Int64.toInt_mod a b
  have htdiv := (abs_tdiv_le a.toInt b.toInt).trans ha
  have htmod := (abs_tmod_le a.toInt b.toInt).trans ha
  rw [← hdiv, abs_le] at htdiv
  rw [← hmod, abs_le] at htmod
  have habs := toInt_abs (b := b) (by rw [abs_le] at hb; omega)
  have habs_nonneg := abs_nonneg b.toInt
  have hone : (1 : Int64).toInt = 1 := rfl
  have reduces : ReducesExactly a b := by
    constructor
    case div => exact hdiv
    case mod => exact hmod
    case abs => exact habs
    case pred => exact fun _ _ => toInt_sub_of_le (by omega) (by omega)
    case succ => exact fun _ _ => toInt_add_of_le (by omega) (by omega)
    case addAbs =>
      intro hneg
      rw [lt_zero_iff] at hneg
      exact toInt_add_of_le (by omega) (by omega)
  refine ⟨reduces, ?_, fun hne' hsigns => ?_⟩
  · have hnear : |a.toInt / b.toInt| ≤ 2 ^ 62 + 1 := by
      rw [← ite_tdiv_eq_ediv (ne_zero_iff.mp hne), ← hdiv, abs_le]
      split_ifs <;> omega
    rw [← reduces.toInt_euclideanQuotient hne, abs_le] at hnear
    rw [quotient]
    split_ifs
    · exact toInt_sub_of_le (by omega) (by omega)
    · exact toInt_sub_of_le (by rw [Int64.toInt_zero]; omega) (by rw [Int64.toInt_zero]; omega)
  · rw [ne_zero_iff] at hne'
    rw [lt_zero_iff, lt_zero_iff] at hsigns
    rw [abs_le] at hb
    exact toInt_add_of_le (by omega) (by omega)

/-! ### The natives of division -/

/-- A small integer fits a word with room to spare. -/
lemma toInt_ofInt_of_fits (hx : Value.fitsSmallInteger x = true) :
    (Int64.ofInt x).toInt = x ∧ |(Int64.ofInt x).toInt| ≤ 2 ^ 62 := by
  rw [Value.fitsSmallInteger_iff] at hx
  have htoInt : (Int64.ofInt x).toInt = x := Int64.toInt_ofInt_of_le (by omega) (by omega)
  exact ⟨htoInt, by rw [htoInt, abs_le]; omega⟩

/-- The quotient of two small integers is a small integer, but for one pair. -/
lemma fits_fdiv_iff (hx : Value.fitsSmallInteger x = true) (hy : Value.fitsSmallInteger y = true)
    (hne : y ≠ 0) : Value.fitsSmallInteger (x.fdiv y) = true ↔ ¬(x = -2 ^ 62 ∧ y = -1) := by
  rw [Value.fitsSmallInteger_iff] at *
  rcases lt_or_gt_of_ne hne with hneg | hpos
  · have hpos : 0 < -y := Int.neg_pos_of_neg hneg
    rw [← Int.neg_fdiv_neg, Int.fdiv_eq_ediv_of_nonneg _ hpos.le, Int.le_ediv_iff_mul_le hpos,
      Int.le_sub_one_iff, Int.ediv_lt_iff_lt_mul hpos]
    omega
  · rw [Int.fdiv_eq_ediv_of_nonneg _ hpos.le, Int.le_ediv_iff_mul_le hpos,
      Int.le_sub_one_iff, Int.ediv_lt_iff_lt_mul hpos]
    omega

/-- A remainder by a small integer is a small integer. -/
lemma fits_fmod (hy : Value.fitsSmallInteger y = true) (hne : y ≠ 0) :
    Value.fitsSmallInteger (x.fmod y) = true := by
  have hrest := abs_lt.mp (abs_fmod_lt (x := x) hne)
  have hsign := sign_fmod (x := x) hne
  rw [Value.fitsSmallInteger_iff] at *
  rcases lt_or_gt_of_ne hne with hneg | hpos
  · rw [abs_of_neg hneg] at hrest
    omega
  · rw [abs_of_pos hpos] at hrest
    omega

/-- On small integers `//` answers the quotient rounded down and `\\` the remainder that belongs to
it, which has the sign of the divisor. The quotient of the least small integer by -1 is none, and
there is no division by zero. No word that comes up is other than the exact result. -/
theorem answers_floor_and_remainder (hx : Value.fitsSmallInteger x = true)
    (hy : Value.fitsSmallInteger y = true) (p : Execution) :
    (y = 0 →
      NativeTable.Answers NativeTable.smallInteger p "//" (Value.ofInt x) [Value.ofInt y]
        (.error (.nativeFailed "//" (Value.ofInt x))) ∧
      NativeTable.Answers NativeTable.smallInteger p "\\\\" (Value.ofInt x) [Value.ofInt y]
        (.error (.nativeFailed "\\\\" (Value.ofInt x)))) ∧
    (y ≠ 0 → DividesExactly (Int64.ofInt x) (Int64.ofInt y) ∧
      ∃ q r : ℤ, q = ⌊(x : ℚ) / y⌋ ∧ y * q + r = x ∧ (r = 0 ∨ r.sign = y.sign) ∧ |r| < |y| ∧
        Value.fitsSmallInteger r = true ∧
        NativeTable.Answers NativeTable.smallInteger p "\\\\" (Value.ofInt x) [Value.ofInt y]
          (.ok (Value.ofInt r)) ∧
        (Value.fitsSmallInteger q = true ↔ ¬(x = -2 ^ 62 ∧ y = -1)) ∧
        NativeTable.Answers NativeTable.smallInteger p "//" (Value.ofInt x) [Value.ofInt y]
          (if x = -2 ^ 62 ∧ y = -1 then .error (.nativeFailed "//" (Value.ofInt x))
            else .ok (Value.ofInt q))) := by
  constructor
  · rintro rfl
    constructor
    · refine answers_of_answer_eq divide rfl ?_
      simp only [answer, operands_ofInt hx hy, bind, Except.bind, if_pos]
      rfl
    · refine answers_of_answer_eq modulo rfl ?_
      simp only [answer, operands_ofInt hx hy, bind, Except.bind, if_pos]
      rfl
  · intro hne
    obtain ⟨hxInt, hxAbs⟩ := toInt_ofInt_of_fits hx
    obtain ⟨hyInt, hyAbs⟩ := toInt_ofInt_of_fits hy
    have hword : Int64.ofInt y ≠ 0 := by rwa [ne_zero_iff, hyInt]
    have hexact := dividesExactly hxAbs hyAbs hword
    have hquotient := hexact.toInt_quotient hword
    have hremainder := hexact.toInt_remainder hword
    rw [hxInt, hyInt] at hquotient hremainder
    have hfits := fits_fdiv_iff hx hy hne
    refine ⟨hexact, x.fdiv y, x.fmod y, (floor_div_eq_fdiv x y).symm, Int.mul_fdiv_add_fmod x y,
      sign_fmod hne, abs_fmod_lt hne, fits_fmod hy hne, ?_, hfits, ?_⟩
    · refine answers_of_answer_eq modulo rfl ?_
      simp only [answer, operands_ofInt hx hy, bind, Except.bind, if_neg hne, hremainder,
        checked_some, if_pos (fits_fmod hy hne)]
    · refine answers_of_answer_eq divide rfl ?_
      simp only [answer, operands_ofInt hx hy, bind, Except.bind, if_neg hne, hquotient,
        checked_some, hfits, ite_not]

/-- Of -7 and 2 the quotient is rounded down, and the remainder is positive like the divisor. -/
theorem answers_floor_and_remainder_negative :
    NativeTable.Answers NativeTable.smallInteger blank "//" (Value.ofInt (-7)) [Value.ofInt 2]
      (.ok (Value.ofInt (-4))) ∧
    NativeTable.Answers NativeTable.smallInteger blank "\\\\" (Value.ofInt (-7)) [Value.ofInt 2]
      (.ok (Value.ofInt 1)) := by
  obtain ⟨-, q, r, hq, hsum, -, -, -, hremainder, -, hquotient⟩ :=
    (answers_floor_and_remainder (x := -7) (y := 2) rfl rfl blank).2 (by decide)
  obtain rfl : q = -4 := by rw [hq, floor_div_eq_fdiv]; rfl
  obtain rfl : r = 1 := by omega
  exact ⟨hquotient, hremainder⟩

/-! ### Shifts of words -/

/-- An amount of less than 64 places is taken as it is. -/
lemma toNat_smod_ofInt (hn : 0 ≤ n) (hlt : n < 64) :
    ((Int64.ofInt n).toBitVec.smod 64).toNat = n.toNat := by
  have hint : (Int64.ofInt n).toBitVec.toInt = n := Int64.toInt_ofInt_of_le (by omega) (by omega)
  have hsmod : ((Int64.ofInt n).toBitVec.smod 64).toInt = n := by
    rw [BitVec.toInt_smod, hint, show (64 : BitVec 64).toInt = 64 by decide,
      Int.fmod_eq_emod_of_nonneg _ (by decide), Int.emod_eq_of_lt hn hlt]
  have hcond := BitVec.toInt_eq_toNat_cond ((Int64.ofInt n).toBitVec.smod 64)
  have hbound := ((Int64.ofInt n).toBitVec.smod 64).isLt
  split at hcond <;> omega

/-- To move the bits up is to multiply, up to 64 bits. -/
lemma toInt_shiftLeft (hn : 0 ≤ n) (hlt : n < 64) :
    (a <<< Int64.ofInt n).toInt = (a.toInt * 2 ^ n.toNat).bmod (2 ^ 64) := by
  have hbits : (a <<< Int64.ofInt n).toBitVec = a.toBitVec <<< n.toNat := by
    rw [Int64.toBitVec_shiftLeft, BitVec.shiftLeft_eq', toNat_smod_ofInt hn hlt]
  rw [Int64.toInt, hbits, BitVec.toInt_shiftLeft, Nat.shiftLeft_eq, Nat.cast_mul, Nat.cast_pow,
    Int64.toInt, BitVec.toInt_eq_toNat_bmod, Int.bmod_mul_bmod, Nat.cast_ofNat]

/-- To move the bits down is to divide, rounding down. -/
lemma toInt_shiftRight (hn : 0 ≤ n) (hlt : n < 64) :
    (a >>> Int64.ofInt n).toInt = a.toInt / 2 ^ n.toNat := by
  have hbits : (a >>> Int64.ofInt n).toBitVec = a.toBitVec.sshiftRight n.toNat := by
    rw [Int64.toBitVec_shiftRight, BitVec.sshiftRight_eq', toNat_smod_ofInt hn hlt]
  rw [Int64.toInt, hbits, BitVec.toInt_sshiftRight, Int.shiftRight_eq_div_pow]
  norm_cast

/-- To move the bits up and down again gives the same word just if the product fits. -/
lemma shiftRight_shiftLeft_eq_iff (hn : 0 ≤ n) (hlt : n < 64) :
    (a <<< Int64.ofInt n) >>> Int64.ofInt n = a ↔
      -2 ^ 63 ≤ a.toInt * 2 ^ n.toNat ∧ a.toInt * 2 ^ n.toNat < 2 ^ 63 := by
  have hleft := toInt_shiftLeft (a := a) hn hlt
  have hpos : (0 : ℤ) < 2 ^ n.toNat := by positivity
  rw [← Int64.toInt_inj, toInt_shiftRight hn hlt]
  constructor
  · intro hdown
    -- What is lost at the top is a multiple of 2 ^ 64, so the places that came in at the bottom
    -- are empty in the word, too.
    have hdvd : (2 : ℤ) ^ n.toNat ∣ (a <<< Int64.ofInt n).toInt := by
      have hpow : (2 : ℤ) ^ n.toNat ∣ ((2 ^ 64 : ℕ) : ℤ) := by
        rw [Nat.cast_pow, Nat.cast_ofNat]
        exact pow_dvd_pow 2 (by omega)
      rw [hleft]
      exact (dvd_sub_right (dvd_mul_left _ _)).mp (hpow.trans Int.dvd_self_sub_bmod)
    have hup := Int.ediv_mul_cancel hdvd
    rw [hdown] at hup
    rw [hup]
    exact ⟨Int64.le_toInt _, Int64.toInt_lt _⟩
  · rintro ⟨hmin, hmax⟩
    rw [hleft, Int.bmod_eq_of_le (by omega) (by omega), Int.mul_ediv_cancel _ hpos.ne']

/-! ### Products with powers of two -/

/-- The product with a power of two is whole. -/
lemma floor_mul_zpow_of_nonneg (x : ℤ) (hn : 0 ≤ n) :
    ⌊(x : ℚ) * 2 ^ n⌋ = x * 2 ^ n.toNat := by
  obtain ⟨k, rfl⟩ := Int.eq_ofNat_of_zero_le hn
  rw [zpow_natCast, Int.toNat_natCast, ← Int.floor_intCast (R := ℚ) (x * 2 ^ k)]
  push_cast
  rfl

/-- The quotient by a power of two is rounded down. -/
lemma floor_mul_zpow_of_neg (x : ℤ) (hn : n < 0) :
    ⌊(x : ℚ) * 2 ^ n⌋ = x / 2 ^ n.natAbs := by
  obtain ⟨k, rfl⟩ : ∃ k : ℕ, n = -k := ⟨n.natAbs, by omega⟩
  rw [zpow_neg, zpow_natCast, ← div_eq_mul_inv, Int.natAbs_neg, Int.natAbs_natCast]
  exact_mod_cast Rat.floor_intCast_div_natCast x (2 ^ k)

/-- All bits of a word are lost after 63 places, so that there is nothing to move any more. -/
lemma ediv_pow_min (hmin : -2 ^ 63 ≤ x) (hmax : x < 2 ^ 63) (k : ℕ) :
    x / 2 ^ min k 63 = x / 2 ^ k := by
  rcases Nat.le_total k 63 with hle | hle
  · rw [min_eq_left hle]
  · have hpow : (2 : ℤ) ^ 63 ≤ 2 ^ k := pow_le_pow_right₀ (by decide) hle
    rw [min_eq_right hle]
    rcases lt_or_ge x 0 with hneg | hpos
    · rw [Int.ediv_eq_neg_one_of_neg_of_le hneg (by omega),
        Int.ediv_eq_neg_one_of_neg_of_le hneg (by omega)]
    · rw [Int.ediv_eq_zero_of_lt hpos (by omega), Int.ediv_eq_zero_of_lt hpos (by omega)]

/-! ### The native of shifts -/

/-- To move the bits down answers the quotient. -/
lemma map_shifted?_of_neg (a : Int64) (hn : n < 0) :
    (shifted? a n).map Int64.toInt = some ⌊(a.toInt : ℚ) * 2 ^ n⌋ := by
  have hmin : ((min n.natAbs 63 : ℕ) : ℤ) < 64 := by omega
  rw [shifted?, if_neg (by omega), Option.map_some, floor_mul_zpow_of_neg _ hn,
    ← ediv_pow_min a.le_toInt a.toInt_lt, ← Int.toNat_natCast (min n.natAbs 63),
    ← toInt_shiftRight (Int.natCast_nonneg _) hmin, Int.toNat_natCast]
  rfl

/-- To move the bits up answers the product if that fits a word. -/
lemma map_shifted?_of_lt (a : Int64) (hn : 0 ≤ n) (hlt : n < 64) :
    (shifted? a n).map Int64.toInt =
      if -2 ^ 63 ≤ ⌊(a.toInt : ℚ) * 2 ^ n⌋ ∧ ⌊(a.toInt : ℚ) * 2 ^ n⌋ < 2 ^ 63 then
        some ⌊(a.toInt : ℚ) * 2 ^ n⌋ else none := by
  have hexact := shiftRight_shiftLeft_eq_iff (a := a) hn hlt
  rw [floor_mul_zpow_of_nonneg _ hn, shifted?, if_pos hn, if_pos hlt]
  simp only [hexact]
  split_ifs with hfits
  · rw [Option.map_some, toInt_shiftLeft hn hlt, Int.bmod_eq_of_le (by omega) (by omega)]
  · rfl

/-- To move bits up by 64 places or more is refused. -/
lemma shifted?_of_le (a : Int64) (hle : 64 ≤ n) : shifted? a n = none := by
  rw [shifted?, if_pos (by omega), if_neg (by omega)]

/-- The outcome that a shift should have: the product with the power of two, rounded down, if that
is a small integer. -/
def shiftOutcome (x n : ℤ) : Except MachineError Value :=
  if Value.fitsSmallInteger ⌊(x : ℚ) * 2 ^ n⌋ then .ok (Value.ofInt ⌊(x : ℚ) * 2 ^ n⌋)
  else .error (.nativeFailed "bitShift:" (Value.ofInt x))

/-- A shift by less than 64 places has the outcome that it should have. -/
lemma checked_shifted? (hx : Value.fitsSmallInteger x = true) (hlt : n < 64) :
    checked "bitShift:" (Value.ofInt x) ((shifted? (Int64.ofInt x) n).map Int64.toInt) =
      shiftOutcome x n := by
  have hxInt := (toInt_ofInt_of_fits hx).1
  rcases lt_or_ge n 0 with hneg | hn
  · rw [map_shifted?_of_neg _ hneg, hxInt, checked_some, shiftOutcome]
  · rw [map_shifted?_of_lt _ hn hlt, hxInt, shiftOutcome]
    split_ifs with hword hfits hfits
    · rw [checked_some, if_pos hfits]
    · rw [checked_some, if_neg hfits]
    · rw [Value.fitsSmallInteger_iff] at hfits
      exact absurd ⟨by omega, by omega⟩ hword
    · rfl

/-- Only zero times a power of two of 64 places or more is a small integer. -/
lemma fits_floor_mul_iff (hle : 64 ≤ n) :
    Value.fitsSmallInteger ⌊(x : ℚ) * 2 ^ n⌋ = true ↔ x = 0 := by
  have hpow : (2 : ℤ) ^ 64 ≤ 2 ^ n.toNat := pow_le_pow_right₀ (by decide) (by omega)
  rw [floor_mul_zpow_of_nonneg _ (by omega), Value.fitsSmallInteger_iff]
  constructor
  · rintro ⟨hmin, hmax⟩
    by_contra hne
    rcases lt_or_gt_of_ne hne with hneg | hpos
    · have := Int.mul_le_mul_of_nonneg_right (show x ≤ -1 by omega) (show 0 ≤ 2 ^ n.toNat by omega)
      omega
    · have := Int.mul_le_mul_of_nonneg_right (show 1 ≤ x by omega) (show 0 ≤ 2 ^ n.toNat by omega)
      omega
  · rintro rfl
    rw [zero_mul]
    decide

/-- On small integers `bitShift:` answers the product with a power of two, rounded down, if that is
a small integer, and else fails, but for one kind of shift: zero moved up by 64 places or more is
refused, although the product is zero. -/
theorem answersShift_iff (hx : Value.fitsSmallInteger x = true)
    (hn : Value.fitsSmallInteger n = true) (p : Execution) :
    (NativeTable.Answers NativeTable.smallInteger p "bitShift:" (Value.ofInt x) [Value.ofInt n]
      (shiftOutcome x n) ↔ ¬(x = 0 ∧ 64 ≤ n)) ∧
    (x = 0 ∧ 64 ≤ n →
      NativeTable.Answers NativeTable.smallInteger p "bitShift:" (Value.ofInt x) [Value.ofInt n]
        (.error (.nativeFailed "bitShift:" (Value.ofInt x)))) := by
  have hanswers : NativeTable.Answers NativeTable.smallInteger p "bitShift:" (Value.ofInt x)
      [Value.ofInt n] (checked "bitShift:" (Value.ofInt x)
        ((shifted? (Int64.ofInt x) n).map Int64.toInt)) := by
    refine answers_of_answer_eq bitShift rfl ?_
    simp only [answer, operands_ofInt hx hn, bind, Except.bind]
  rcases lt_or_ge n 64 with hlt | hle
  · rw [checked_shifted? hx hlt] at hanswers
    exact ⟨⟨fun _ => by omega, fun _ => hanswers⟩, fun h => by omega⟩
  · rw [shifted?_of_le _ hle] at hanswers
    have hfits := fits_floor_mul_iff (x := x) hle
    refine ⟨⟨?_, fun hne => ?_⟩, fun _ => hanswers⟩
    · rintro hshould ⟨hzero, -⟩
      have heq := hshould.unique hanswers
      rw [shiftOutcome, if_pos (hfits.mpr hzero)] at heq
      cases heq
    · rwa [shiftOutcome, if_neg (mt hfits.mp fun hzero => hne ⟨hzero, hle⟩)]

/-- To shift -5 down by one place rounds down. -/
theorem answersShift_down :
    NativeTable.Answers NativeTable.smallInteger blank "bitShift:" (Value.ofInt (-5))
      [Value.ofInt (-1)] (.ok (Value.ofInt (-3))) := by
  have hfloor : ⌊((-5 : ℤ) : ℚ) * 2 ^ (-1 : ℤ)⌋ = -3 := floor_mul_zpow_of_neg (-5) (by decide)
  have hanswers := ((answersShift_iff (x := -5) (n := -1) rfl rfl blank).1).mpr (by decide)
  rw [shiftOutcome, hfloor] at hanswers
  exact hanswers

/-- Zero shifted up by 64 places is refused, although the product is zero, a small integer. -/
theorem not_answersShift_zero :
    ⌊((0 : ℤ) : ℚ) * 2 ^ (64 : ℤ)⌋ = 0 ∧ Value.fitsSmallInteger 0 = true ∧
    NativeTable.Answers NativeTable.smallInteger blank "bitShift:" (Value.ofInt 0) [Value.ofInt 64]
      (.error (.nativeFailed "bitShift:" (Value.ofInt 0))) ∧
    ¬NativeTable.Answers NativeTable.smallInteger blank "bitShift:" (Value.ofInt 0) [Value.ofInt 64]
      (shiftOutcome 0 64) := by
  have hfloor : ⌊((0 : ℤ) : ℚ) * 2 ^ (64 : ℤ)⌋ = 0 := by
    rw [floor_mul_zpow_of_nonneg _ (by decide), zero_mul]
  have hanswers : NativeTable.Answers NativeTable.smallInteger blank "bitShift:" (Value.ofInt 0)
      [Value.ofInt 64] (.error (.nativeFailed "bitShift:" (Value.ofInt 0))) :=
    ⟨_, rfl, fun _ _ => rfl⟩
  refine ⟨hfloor, rfl, hanswers, fun hshould => ?_⟩
  have heq := hshould.unique hanswers
  rw [shiftOutcome, hfloor] at heq
  cases heq

end IntegerNative

end TalkMachine
