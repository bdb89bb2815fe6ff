import TalkMachine.Proofs.Native.Table
import TalkMachine.Proofs.Value.Encoding

/-!
# Native methods of equality

The kernel compares a receiver with an argument in three ways (`Equality`). Two of them only ask whether
both are the same word. The third one compares numbers, which is symmetric (`float_beq_comm`) and finds
every small float equal to itself (`Value.beq_self_of_toFloatBits?`), but refuses what is no number. The
receiver alone decides which way is taken, so two values that are asked about each other may be compared
in two ways, and these agree in some cases only (`Equality.agree_iff`).
-/

namespace TalkMachine

open Float.Model

/-! ### Comparing doubles -/

/-- Two doubles that have been taken apart stand in the other order the other way round. -/
lemma compare_eq_map_swap (a b : UnpackedFloat) :
    a.compare b = (b.compare a).map Ordering.swap := by
  have hthen : ∀ (e e' : ℤ) (m m' : ℕ), (compare e e').then (compare m m') =
      ((compare e' e).then (compare m' m)).swap := by
    intro e e' m m'
    rw [Ordering.swap_then, Int.compare_swap, Nat.compare_swap]
  cases a with
  | notANumber => cases b <;> rfl
  | infinity sign =>
    cases b with
    | notANumber => rfl
    | infinity sign' | zero sign' | finite sign' => cases sign <;> cases sign' <;> rfl
  | zero sign =>
    cases b with
    | notANumber => rfl
    | infinity sign' | zero sign' | finite sign' => cases sign <;> cases sign' <;> rfl
  | finite sign mantissa exponent =>
    cases b with
    | notANumber => rfl
    | infinity sign' | zero sign' => cases sign <;> cases sign' <;> rfl
    | finite sign' mantissa' exponent' =>
      match sign, sign' with
      | .positive, .negative | .negative, .positive => rfl
      | .positive, .positive => exact congrArg some (hthen ..)
      | .negative, .negative => exact congrArg some (congrArg Ordering.swap (hthen ..))

/-- What is a number equals itself. -/
lemma compare_self_eq {a : UnpackedFloat} (ha : a ≠ .notANumber) : a.compare a = some .eq := by
  cases a with
  | notANumber => exact absurd rfl ha
  | infinity sign => cases sign <;> rfl
  | zero sign => rfl
  | finite sign mantissa exponent =>
    have hself : (compare exponent exponent).then (compare mantissa mantissa) = .eq := by
      rw [Int.compare_eq_eq.mpr rfl, Nat.compare_eq_eq.mpr rfl]
      rfl
    cases sign with
    | positive => exact congrArg some hself
    | negative => exact congrArg some (congrArg Ordering.swap hself)

/-- Only bits with the greatest exponent and a mantissa other than zero are no number. -/
lemma of_unpack_eq_notANumber {format : Format} {bits : BitVec format.numBits}
    (h : UnpackedFloat.unpack format bits = .notANumber) :
    UnpackedFloat.unpackExponent bits = -BitVec.ofNat format.exponentBits 1 ∧
      UnpackedFloat.unpackMantissa bits ≠ BitVec.ofNat format.mantissaBitsWithoutImplicit 0 := by
  obtain ⟨hexponent, h⟩ | ⟨-, h⟩ := ite_eq_iff.mp h
  · obtain ⟨-, h⟩ | ⟨hmantissa, -⟩ := ite_eq_iff.mp h
    · cases h
    · exact ⟨hexponent, hmantissa⟩
  · obtain ⟨-, h⟩ | ⟨-, h⟩ := ite_eq_iff.mp h
    · obtain ⟨_, hzero⟩ | ⟨_, hfinite⟩ := dite_eq_iff.mp h
      · cases hzero
      · cases hfinite
    · cases h

/-- A number stays one when it is put together and taken apart again. -/
lemma unpack_pack_ne_notANumber {a : UnpackedFloat} (ha : a ≠ .notANumber) :
    UnpackedFloat.unpack Format.binary64 (UnpackedFloat.pack Format.binary64 a) ≠ .notANumber := by
  intro hnan
  obtain ⟨hexponent, hmantissa⟩ := of_unpack_eq_notANumber hnan
  clear hnan
  revert hexponent hmantissa
  fun_cases UnpackedFloat.pack with
  | case1 => exact absurd rfl ha
  | case2 => simp [UnpackedFloat.packedInfinity]
  | case3 => simp [UnpackedFloat.packedZero]
  | case4 => simp [UnpackedFloat.packedInfinity]
  | case5 sign mantissa exponent hm actualMantissaBits biasedExponent hlow hhigh =>
    intro hexponent
    have hbits : (2 : ℕ) ^ Format.binary64.exponentBits = 2048 := rfl
    simp only [UnpackedFloat.unpackExponent_packComponents, BitVec.reduceNeg, ← BitVec.toNat_inj,
      BitVec.toNat_ofNat, Nat.reducePow, Nat.mod_succ] at hexponent
    omega
  | case6 => simp

/-- A double whose exponent is not the greatest is a number. -/
lemma unpack_ne_notANumber {bits : UInt64} (h : Value.biasedExponent bits < 2047) :
    UnpackedFloat.unpack Format.binary64 bits.toBitVec ≠ .notANumber := by
  intro hnan
  have hexponent := (of_unpack_eq_notANumber hnan).1
  rw [← BitVec.toNat_inj] at hexponent
  simp only [UnpackedFloat.unpackExponent, Nat.reduceAdd, Nat.add_one_sub_one, Nat.reduceSub,
    BitVec.cast_eq, BitVec.extractLsb_toNat, UInt64.toNat_toBitVec, Nat.shiftRight_eq_div_pow,
    Nat.reducePow, BitVec.reduceNeg, BitVec.toNat_ofNat, Nat.mod_succ] at hexponent
  unfold Value.biasedExponent at h
  omega

/-- Equality of doubles is symmetric. -/
lemma float_beq_comm (a b : Float) : (a == b) = (b == a) := by
  rw [Bool.eq_iff_iff]
  change (a.toModel.unpack.compare b.toModel.unpack == some .eq) = true ↔
    (b.toModel.unpack.compare a.toModel.unpack == some .eq) = true
  rw [beq_iff_eq, beq_iff_eq, compare_eq_map_swap]
  cases b.toModel.unpack.compare a.toModel.unpack with
  | none => simp
  | some order => cases order <;> decide

/-- A double whose exponent is not the greatest equals itself. -/
lemma ofBits_beq_self {bits : UInt64} (h : Value.biasedExponent bits < 2047) :
    (Float.ofBits bits == Float.ofBits bits) = true := by
  change (UnpackedFloat.compare _ _ == some .eq) = true
  rw [beq_iff_eq]
  exact compare_self_eq (unpack_pack_ne_notANumber (unpack_ne_notANumber h))

namespace Value

variable {v x y : Value} {n : ℤ} {bits : UInt64}

/-- The sign is no part of the exponent. -/
lemma biasedExponent_unrotateSign (rotated : UInt64) :
    biasedExponent (unrotateSign rotated) = rotated.toNat / 2 ^ 53 := by
  have hlt := rotated.toNat_lt
  have hsplit : 2 ^ 63 * (rotated.toNat % 2) + rotated.toNat / 2 =
      2 ^ 52 * (2 ^ 11 * (rotated.toNat % 2)) + rotated.toNat / 2 := by omega
  rw [biasedExponent, toNat_unrotateSign, hsplit, Nat.mul_add_div (by decide), Nat.mul_add_mod]
  omega

/-- The exponent of a small float is none of the great ones. -/
lemma biasedExponent_floatPayload_lt (v : Value) : biasedExponent v.floatPayload < 1152 := by
  have hlt : (v.raw >>> 3).toNat < 2 ^ 61 := by
    have := v.raw.toNat_lt
    rw [UInt64.toNat_shiftRight]
    change v.raw.toNat >>> 3 < _
    rw [Nat.shiftRight_eq_div_pow]
    omega
  have hbias : rotatedBias.toNat = 896 * 2 ^ 53 := rfl
  rw [floatPayload, biasedExponent_unrotateSign]
  split
  · rename_i hsmall
    have : (v.raw >>> 3).toNat ≤ 1 := UInt64.le_iff_toNat_le.mp hsmall
    omega
  · rw [UInt64.toNat_add, hbias]
    omega

/-- A small float equals itself. -/
lemma beq_self_of_toFloatBits? (h : v.toFloatBits? = some bits) :
    (Float.ofBits bits == Float.ofBits bits) = true := by
  rw [toFloatBits?, Option.ite_none_right_eq_some] at h
  obtain ⟨-, h⟩ := h
  obtain rfl := Option.some.inj h
  exact ofBits_beq_self ((biasedExponent_floatPayload_lt v).trans (by decide))

/-- A small float is no small integer. -/
lemma toInt?_eq_none_of_toFloatBits? (h : v.toFloatBits? = some bits) : v.toInt? = none := by
  rw [toFloatBits?, Option.ite_none_right_eq_some, isSmallFloat_iff] at h
  rw [toInt?, if_neg]
  rw [isSmallInteger_iff_mod]
  omega

/-- Just the small floats stand for doubles. -/
lemma exists_toFloatBits?_iff : (∃ bits, v.toFloatBits? = some bits) ↔ v.isSmallFloat = true := by
  rw [toFloatBits?]
  cases v.isSmallFloat <;> simp

/-- The double that a number is converted to as the argument of a native method of small floats. -/
def toDouble? (v : Value) : Option Float :=
  match v.toInt? with
  | some n => some (Int64.ofInt n).toFloat
  | none => v.toFloatBits?.map Float.ofBits

/-- A small integer is converted. -/
lemma toDouble?_of_toInt? (h : v.toInt? = some n) : v.toDouble? = some (Int64.ofInt n).toFloat := by
  rw [toDouble?, h]

/-- A small float stands for itself. -/
lemma toDouble?_of_toFloatBits? (h : v.toFloatBits? = some bits) :
    v.toDouble? = some (Float.ofBits bits) := by
  rw [toDouble?, toInt?_eq_none_of_toFloatBits? h, h]
  rfl

/-- Nothing else is a number. -/
lemma number_of_toDouble? {double : Float} (h : v.toDouble? = some double) :
    (∃ n, v.toInt? = some n) ∨ ∃ bits, v.toFloatBits? = some bits := by
  rw [toDouble?] at h
  split at h
  · exact .inl ⟨_, ‹_›⟩
  · obtain ⟨bits, hbits, -⟩ := Option.map_eq_some_iff.mp h
    exact .inr ⟨bits, hbits⟩

/-- An object is no number. -/
lemma toDouble?_of_isObject (h : v.isObject = true) : v.toDouble? = none := by
  rw [isObject_iff] at h
  have hint : ¬v.isSmallInteger = true := by rw [isSmallInteger_iff_mod]; omega
  have hfloat : ¬v.isSmallFloat = true := by rw [isSmallFloat_iff]; omega
  rw [toDouble?, toInt?, if_neg hint, toFloatBits?, if_neg hfloat]
  rfl

/-- Whether one value is a small integer and the other a small float that is another number. -/
def IsOtherNumber (x y : Value) : Prop :=
  ∃ n bits, x.toInt? = some n ∧ y.toFloatBits? = some bits ∧
    (Float.ofBits bits == (Int64.ofInt n).toFloat) = false

end Value

/-! ### Three ways of comparing -/

/-- The ways in which the kernel compares a receiver with an argument: whether any two values, or two
small integers, are the same word, or whether two small floats are the same number. -/
inductive Equality
  | identity
  | word
  | number
deriving DecidableEq

namespace Equality

variable {e e' : Equality} {x y : Value} {b same : Bool} {host : Host} {send : Sender} {p : Execution}

/-- The native method that answers whether both are the same, or whether they are not. -/
def native : Equality → (same : Bool) → Native
  | identity, true => .object .identical
  | identity, false => .object .notIdentical
  | word, true => .integer .equal
  | word, false => .integer .notEqual
  | number, true => .float .equal
  | number, false => .float .notEqual

/-- Whether a receiver equals an argument. -/
def equates (e : Equality) (receiver argument : Value) : Except MachineError Bool :=
  match e with
  | identity | word => .ok (receiver = argument)
  | number => do
    let (a, b) ← FloatNative.operands receiver [argument]
    return a == b

/-- The native methods ask for it. -/
lemma callNative_native (e : Equality) (same : Bool) (x y : Value) (p : Execution) :
    Execution.callNative host send (e.native same) x [y] p =
      Execution.askMachine (fun m => do return m.boolean ((← e.equates x y) == same)) p := by
  have hargument : Machine.argument [y] 0 = .ok y := rfl
  have hcontrary : (decide (x = y) == false) = decide (x ≠ y) := by
    by_cases x = y <;> simp [*]
  have hask : ∀ {question question' : Machine → Except MachineError Value},
      (∀ m, question m = question' m) →
      Execution.askMachine question p = Execution.askMachine question' p := fun h => by
    rw [funext h]
  cases e with
  | identity =>
    cases same <;>
      simp only [native, Execution.callNative, ObjectNative.call, Execution.onMachine_ask, equates,
        hargument, bind, Except.bind, pure, Except.pure, hcontrary, beq_true]
  | word =>
    cases same <;> refine hask fun m => ?_
    · simp only [equates, hargument, IntegerNative.answer, bind, Except.bind, pure, Except.pure,
        hcontrary, ne_comm]
    · simp only [equates, hargument, IntegerNative.answer, bind, Except.bind, pure, Except.pure,
        beq_true, eq_comm]
  | number =>
    cases same <;> refine hask fun m => ?_
    · simp [equates, FloatNative.answer]
    · simp [equates, FloatNative.answer]

/-- All but numbers are compared as words. -/
lemma equates_of_ne_number (he : e ≠ number) : e.equates x y = .ok (decide (x = y)) := by
  cases e with
  | number => exact absurd rfl he
  | identity | word => rfl

/-- It only matters whether numbers are compared. -/
lemma equates_congr (h : e = number ↔ e' = number) : e.equates x y = e'.equates x y := by
  by_cases he : e = number
  · rw [he, h.mp he]
  · rw [equates_of_ne_number he, equates_of_ne_number (he ∘ h.mpr)]

/-- The operands of a native method of small floats are the doubles that the receiver is and the argument
is converted to. -/
lemma operands_eq_ok_iff {a c : Float} : FloatNative.operands x [y] = .ok (a, c) ↔
    ∃ bits, x.toFloatBits? = some bits ∧ Float.ofBits bits = a ∧ y.toDouble? = some c := by
  have hargument : Machine.argument [y] 0 = .ok y := rfl
  rw [FloatNative.operands, bind_eq_ok_iff]
  simp only [hargument, Machine.toFloatBits, Machine.expected_eq_ok_iff]
  refine exists_congr fun bits => and_congr_right fun _ => ?_
  rw [Value.toDouble?]
  simp only [bind, Except.bind]
  cases y.toInt? with
  | some n => simp [pure, Except.pure]
  | none => cases y.toFloatBits? <;> simp [Machine.expected, Functor.map, Except.map, pure, Except.pure]

/-- Numbers are compared when the receiver is a small float and the argument a number. -/
lemma number_equates_eq_ok_iff : number.equates x y = .ok b ↔
    ∃ bits double, x.toFloatBits? = some bits ∧ y.toDouble? = some double ∧
      (Float.ofBits bits == double) = b := by
  rw [equates, bind_eq_ok_iff]
  constructor
  · rintro ⟨⟨a, c⟩, hoperands, h⟩
    obtain ⟨bits, hbits, rfl, hdouble⟩ := operands_eq_ok_iff.mp hoperands
    exact ⟨bits, c, hbits, hdouble, Except.ok.inj h⟩
  · rintro ⟨bits, double, hbits, hdouble, rfl⟩
    exact ⟨_, operands_eq_ok_iff.mpr ⟨bits, hbits, rfl, hdouble⟩, rfl⟩

/-- A small float is compared with a number. -/
lemma number_equates {bits : UInt64} {double : Float} (hx : x.toFloatBits? = some bits)
    (hy : y.toDouble? = some double) : number.equates x y = .ok (Float.ofBits bits == double) :=
  number_equates_eq_ok_iff.mpr ⟨bits, double, hx, hy, rfl⟩

/-- A small float is not compared with what is no number. -/
lemma number_equates_of_toDouble?_eq_none {bits : UInt64} (hx : x.toFloatBits? = some bits)
    (hy : y.toDouble? = none) : number.equates x y = .error (.wrongType "SmallFloat" y) := by
  have hargument : Machine.argument [y] 0 = .ok y := rfl
  have hint : y.toInt? = none := by
    cases hint : y.toInt? with
    | none => rfl
    | some n => exact absurd hy (by simp [Value.toDouble?_of_toInt? hint])
  have hbits : y.toFloatBits? = none := by
    cases hbits : y.toFloatBits? with
    | none => rfl
    | some bits => exact absurd hy (by simp [Value.toDouble?_of_toFloatBits? hbits])
  simp only [equates, FloatNative.operands, Machine.toFloatBits, hx, hargument, Machine.expected, bind,
    Except.bind, hint, hbits]
  rfl

/-- Whether two values are compared without an error, the first of them equals itself, and both answer
the same about each other. -/
def Agree (e e' : Equality) (x y : Value) : Prop :=
  ∃ b, e.equates x y = .ok b ∧ e.equates x x = .ok true ∧ e'.equates y x = .ok b

/-- Words are the same in either order. -/
lemma agree_of_ne_number (he : e ≠ number) (he' : e' ≠ number) : Agree e e' x y :=
  ⟨decide (x = y), equates_of_ne_number he, by simp [equates_of_ne_number he],
    by simp [equates_of_ne_number he', eq_comm]⟩

/-- Small floats agree. -/
lemma agree_of_isSmallFloat (hx : x.isSmallFloat = true) (hy : y.isSmallFloat = true) :
    Agree number number x y := by
  obtain ⟨bits, hbits⟩ := Value.exists_toFloatBits?_iff.mpr hx
  obtain ⟨bits', hbits'⟩ := Value.exists_toFloatBits?_iff.mpr hy
  have hdouble := Value.toDouble?_of_toFloatBits? hbits
  refine ⟨_, number_equates hbits (Value.toDouble?_of_toFloatBits? hbits'), ?_, ?_⟩
  · rw [number_equates hbits hdouble, Value.beq_self_of_toFloatBits? hbits]
  · rw [number_equates hbits' hdouble, float_beq_comm]

/-- A small integer is another word than a small float, and is compared with it as another number. -/
lemma equates_of_toInt? {n : ℤ} {bits : UInt64} (he : e ≠ number) (hn : x.toInt? = some n)
    (hbits : y.toFloatBits? = some bits) :
    e.equates x y = .ok false ∧ e.equates y x = .ok false ∧
      number.equates y x = .ok (Float.ofBits bits == (Int64.ofInt n).toFloat) := by
  have hne : x ≠ y := by
    rintro rfl
    rw [Value.toInt?_eq_none_of_toFloatBits? hbits] at hn
    cases hn
  exact ⟨by simp [equates_of_ne_number he, hne], by simp [equates_of_ne_number he, hne.symm],
    number_equates hbits (Value.toDouble?_of_toInt? hn)⟩

/-- What is compared as a word with a small float, and found the same way by it, is a small integer, and
another number. -/
lemma isOtherNumber_of_equates (he : e ≠ number) (hx : ∀ bits, x.toFloatBits? = some bits → e = number)
    (hyx : number.equates y x = .ok b) (hxy : e.equates x y = .ok b) : x.IsOtherNumber y := by
  obtain ⟨bits, double, hbits, hdouble, -⟩ := number_equates_eq_ok_iff.mp hyx
  obtain ⟨n, hn⟩ := (Value.number_of_toDouble? hdouble).resolve_right
    fun ⟨bits', hbits'⟩ => he (hx bits' hbits')
  obtain ⟨hfalse, -, hnumber⟩ := equates_of_toInt? he hn hbits
  obtain rfl := Except.ok.inj (hxy.symm.trans hfalse)
  exact ⟨n, bits, hn, hbits, Except.ok.inj (hnumber.symm.trans hyx)⟩

section Agree

variable (hx : ∀ bits, x.toFloatBits? = some bits → e = number)
  (hx' : ∀ n, x.toInt? = some n → e ≠ number) (hy : ∀ bits, y.toFloatBits? = some bits → e' = number)
  (hy' : ∀ n, y.toInt? = some n → e' ≠ number)
include hx hx' hy hy'

/-- Two values agree just if neither is compared by number, or both are small floats, or one is a small
integer and the other a small float that is another number. -/
theorem agree_iff : Agree e e' x y ↔
    (e ≠ number ∧ e' ≠ number) ∨ (x.isSmallFloat = true ∧ y.isSmallFloat = true) ∨
      x.IsOtherNumber y ∨ y.IsOtherNumber x := by
  constructor
  · rintro ⟨b, hxy, hxx, hyx⟩
    by_cases he : e = number <;> by_cases he' : e' = number
    · subst he he'
      obtain ⟨bits, -, hbits, -⟩ := number_equates_eq_ok_iff.mp hxx
      obtain ⟨bits', -, hbits', -⟩ := number_equates_eq_ok_iff.mp hyx
      exact .inr (.inl ⟨Value.exists_toFloatBits?_iff.mp ⟨bits, hbits⟩,
        Value.exists_toFloatBits?_iff.mp ⟨bits', hbits'⟩⟩)
    · subst he
      exact .inr (.inr (.inr (isOtherNumber_of_equates he' hy hxy hyx)))
    · subst he'
      exact .inr (.inr (.inl (isOtherNumber_of_equates he hx hyx hxy)))
    · exact .inl ⟨he, he'⟩
  · rintro (⟨he, he'⟩ | ⟨hfloat, hfloat'⟩ | ⟨n, bits, hn, hbits, hne⟩ | ⟨n, bits, hn, hbits, hne⟩)
    · exact agree_of_ne_number he he'
    · obtain ⟨bits, hbits⟩ := Value.exists_toFloatBits?_iff.mpr hfloat
      obtain ⟨bits', hbits'⟩ := Value.exists_toFloatBits?_iff.mpr hfloat'
      obtain rfl := hx bits hbits
      obtain rfl := hy bits' hbits'
      exact agree_of_isSmallFloat hfloat hfloat'
    · obtain rfl := hy bits hbits
      obtain ⟨hfalse, -, hnumber⟩ := equates_of_toInt? (hx' n hn) hn hbits
      exact ⟨false, hfalse, by simp [equates_of_ne_number (hx' n hn)], hne ▸ hnumber⟩
    · obtain rfl := hx bits hbits
      obtain ⟨hfalse, -, hnumber⟩ := equates_of_toInt? (hy' n hn) hn hbits
      refine ⟨false, hne ▸ hnumber, ?_, hfalse⟩
      rw [number_equates hbits (Value.toDouble?_of_toFloatBits? hbits),
        Value.beq_self_of_toFloatBits? hbits]

end Agree

end Equality

end TalkMachine
