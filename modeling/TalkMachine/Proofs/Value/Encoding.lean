import TalkMachine.Proofs.Value

/-!
# Values as an unambiguous encoding

Every word has exactly one kind, which can be told from its number, and whatever is asked of a value
agrees with that kind (`Value.coherent`). An integer, a code point, the bits of a double and an
address are read back from the values that stand for them (`Decoded.decode_of_encode?`), so that no
two of them have the same value. Which integers and which doubles have a value is told by their
range and by their exponent; all of this together is `Value.unambiguous`.

The bits of a small float are followed as numbers. Moving the sign to the other end of a word is
a multiplication by two and a remainder, and the tag is added to a multiple of eight.
-/

namespace TalkMachine

/-! ### Kinds of words -/

/-- Whether the number of a word is marked by the tag of a kind. -/
def ValueKind.Marks : ValueKind → ℕ → Prop
  | .smallInteger, word => word % 2 = 1
  | .character, word => word % 8 = 2
  | .smallFloat, word => word % 8 = 4
  | .object, word => word % 8 = 0 ∧ word ≠ 0
  | .invalid, word => word % 8 = 6 ∨ word = 0

/-- What kind of value was taken apart. -/
def Decoded.kind : Decoded → ValueKind
  | .object _ => .object
  | .smallInteger _ => .smallInteger
  | .character _ => .character
  | .smallFloat _ => .smallFloat
  | .invalid _ => .invalid

namespace Value

variable {v : Value} {k : ValueKind}

/-- A small integer has an odd word. -/
lemma isSmallInteger_iff_mod : v.isSmallInteger = true ↔ v.raw.toNat % 2 = 1 := by
  rw [isSmallInteger, beq_iff_eq, ← UInt64.toNat_inj, UInt64.toNat_mod]
  rfl

/-- The tag of a value is the remainder of its word. -/
lemma tag_eq_iff {t : UInt64} : v.tag = t ↔ v.raw.toNat % 8 = t.toNat := by
  rw [tag, ← UInt64.toNat_inj, UInt64.toNat_mod]
  rfl

/-- A character has the tag 2. -/
lemma isCharacter_iff : v.isCharacter = true ↔ v.raw.toNat % 8 = 2 := by
  rw [isCharacter, beq_iff_eq, tag_eq_iff]
  rfl

/-- A small float has the tag 4. -/
lemma isSmallFloat_iff : v.isSmallFloat = true ↔ v.raw.toNat % 8 = 4 := by
  rw [isSmallFloat, beq_iff_eq, tag_eq_iff]
  rfl

/-- An object has the tag 0 and is not the word zero. -/
lemma isObject_iff : v.isObject = true ↔ v.raw.toNat % 8 = 0 ∧ v.raw.toNat ≠ 0 := by
  rw [isObject, Bool.and_eq_true, bne_iff_ne, beq_iff_eq, tag_eq_iff, Ne, ← UInt64.toNat_inj,
    and_comm]
  rfl

/-- The kind of a value is the one that marks its word, and there is no other. -/
theorem marks_iff : k.Marks v.raw.toNat ↔ v.kind = k := by
  unfold kind
  split_ifs with hint hobject hchar hfloat
  all_goals
    simp only [isSmallInteger_iff_mod, isObject_iff, isCharacter_iff, isSmallFloat_iff] at *
    cases k <;> simp only [ValueKind.Marks, reduceCtorEq, iff_true, iff_false] <;> omega

/-- What all questions about a value have to do with its kind. -/
structure Coherent (v : Value) : Prop where
  marks : ∀ k : ValueKind, k.Marks v.raw.toNat ↔ v.kind = k
  decode : v.decode.kind = v.kind
  isSmallInteger : v.isSmallInteger = true ↔ v.kind = .smallInteger
  isCharacter : v.isCharacter = true ↔ v.kind = .character
  isSmallFloat : v.isSmallFloat = true ↔ v.kind = .smallFloat
  isObject : v.isObject = true ↔ v.kind = .object
  isImmediate : v.isImmediate = true ↔ v.kind ≠ .object ∧ v.kind ≠ .invalid
  toInt? : ∀ n, v.toInt? = some n ↔ v.decode = .smallInteger n
  toCodePoint? : ∀ code, v.toCodePoint? = some code ↔ v.decode = .character code
  toChar? : ∀ c : Char, v.toChar? = some c ↔ v.decode = .character c.val
  toFloatBits? : ∀ bits, v.toFloatBits? = some bits ↔ v.decode = .smallFloat bits
  toAddress? : ∀ address, v.toAddress? = some address ↔ v.decode = .object address

/-- Whatever is asked of a value agrees with its kind. -/
theorem coherent (v : Value) : Coherent v := by
  have hint : v.isSmallInteger = true ↔ v.kind = .smallInteger :=
    isSmallInteger_iff_mod.trans (marks_iff (k := .smallInteger))
  have hchar : v.isCharacter = true ↔ v.kind = .character :=
    isCharacter_iff.trans (marks_iff (k := .character))
  have hfloat : v.isSmallFloat = true ↔ v.kind = .smallFloat :=
    isSmallFloat_iff.trans (marks_iff (k := .smallFloat))
  have hobject : v.isObject = true ↔ v.kind = .object :=
    isObject_iff.trans (marks_iff (k := .object))
  have hcode (code : UInt32) : v.toCodePoint? = some code ↔ v.decode = .character code := by
    rw [toCodePoint?, Option.ite_none_right_eq_some, hchar, decode]
    cases v.kind <;> simp
  constructor
  · exact fun _ => marks_iff
  · rw [decode]
    cases v.kind <;> rfl
  · exact hint
  · exact hchar
  · exact hfloat
  · exact hobject
  · rw [isImmediate, immediateClass?]
    cases v.kind <;> simp
  · intro n
    rw [toInt?, Option.ite_none_right_eq_some, hint, decode]
    cases v.kind <;> simp
  · exact hcode
  · intro c
    rw [toChar?, Option.bind_eq_some_iff, ← hcode]
    simp only [scalar?_eq_some_iff, UInt32.toNat_inj]
    constructor
    · rintro ⟨code, h, rfl⟩
      exact h
    · exact fun h => ⟨_, h, rfl⟩
  · intro bits
    rw [toFloatBits?, Option.ite_none_right_eq_some, hfloat, decode]
    cases v.kind <;> simp
  · intro address
    rw [toAddress?, Option.ite_none_right_eq_some, hobject, decode]
    cases v.kind <;> simp

/-! ### Addresses -/

/-- Whether there may be an object at a byte address. -/
def IsAddress (address : ℕ) : Prop :=
  address ≠ 0 ∧ address % 8 = 0 ∧ address < 2 ^ 64

instance (address : ℕ) : Decidable (IsAddress address) :=
  inferInstanceAs (Decidable (_ ∧ _))

/-- The address of an object is read back from its value. -/
lemma toAddress?_ofAddress {address : ℕ} (h : IsAddress address) :
    (ofAddress address).toAddress? = some address := by
  obtain ⟨hpos, haligned, hlt⟩ := h
  have hword : (ofAddress address).raw.toNat = address := UInt64.toNat_ofNat_of_lt' hlt
  rw [toAddress?, if_pos (isObject_iff.mpr (by omega)), hword]

/-! ### Small floats -/

/-- The biased exponent of a double. -/
def biasedExponent (bits : UInt64) : ℕ :=
  bits.toNat / 2 ^ 52 % 2 ^ 11

/-- Whether a double is a zero, with either sign. -/
def IsFloatZero (bits : UInt64) : Prop :=
  bits = 0 ∨ bits = 0x8000_0000_0000_0000

/-- The sign comes behind the other bits. -/
lemma toNat_rotateSign (bits : UInt64) :
    (rotateSign bits).toNat = 2 * (bits.toNat % 2 ^ 63) + bits.toNat / 2 ^ 63 := by
  have hlt := bits.toNat_lt
  have hlow : bits.toNat <<< 1 % 2 ^ 64 = (bits.toNat % 2 ^ 63) <<< 1 := by
    simp only [Nat.shiftLeft_eq]
    omega
  have hhigh : bits.toNat >>> 63 = bits.toNat / 2 ^ 63 := Nat.shiftRight_eq_div_pow _ _
  rw [rotateSign, UInt64.toNat_or, UInt64.toNat_shiftLeft, UInt64.toNat_shiftRight]
  show bits.toNat <<< 1 % 2 ^ 64 ||| bits.toNat >>> 63 = _
  rw [hlow, hhigh, ← Nat.shiftLeft_add_eq_or_of_lt (by omega), Nat.shiftLeft_eq]
  omega

/-- The sign comes before the other bits again. -/
lemma toNat_unrotateSign (rotated : UInt64) :
    (unrotateSign rotated).toNat = 2 ^ 63 * (rotated.toNat % 2) + rotated.toNat / 2 := by
  have hlt := rotated.toNat_lt
  have hhigh : rotated.toNat <<< 63 % 2 ^ 64 = (rotated.toNat % 2) <<< 63 := by
    simp only [Nat.shiftLeft_eq]
    omega
  have hlow : rotated.toNat >>> 1 = rotated.toNat / 2 := Nat.shiftRight_eq_div_pow _ _
  rw [unrotateSign, UInt64.toNat_or, UInt64.toNat_shiftLeft, UInt64.toNat_shiftRight]
  show rotated.toNat >>> 1 ||| rotated.toNat <<< 63 % 2 ^ 64 = _
  rw [hlow, hhigh, Nat.or_comm, ← Nat.shiftLeft_add_eq_or_of_lt (by omega), Nat.shiftLeft_eq]
  omega

/-- No bit is lost on the way. -/
lemma unrotateSign_rotateSign (bits : UInt64) : unrotateSign (rotateSign bits) = bits := by
  have hlt := bits.toNat_lt
  rw [← UInt64.toNat_inj, toNat_unrotateSign, toNat_rotateSign]
  omega

/-- Only of the zeros there is nothing left but the sign. -/
lemma rotateSign_le_one_iff {bits : UInt64} : rotateSign bits ≤ 1 ↔ IsFloatZero bits := by
  have hlt := bits.toNat_lt
  have hsign : (0x8000_0000_0000_0000 : UInt64).toNat = 2 ^ 63 := rfl
  rw [IsFloatZero, UInt64.le_iff_toNat_le, toNat_rotateSign, ← UInt64.toNat_inj,
    ← UInt64.toNat_inj, hsign]
  show _ ≤ 1 ↔ bits.toNat = 0 ∨ _
  omega

/-- The word of a small float is a multiple of eight and its tag. -/
lemma toNat_tagged (rebased : UInt64) :
    (rebased <<< 3 ||| 4).toNat = 8 * (rebased.toNat % 2 ^ 61) + 4 := by
  have hlow : rebased.toNat <<< 3 % 2 ^ 64 = (rebased.toNat % 2 ^ 61) <<< 3 := by
    simp only [Nat.shiftLeft_eq]
    omega
  rw [UInt64.toNat_or, UInt64.toNat_shiftLeft]
  show rebased.toNat <<< 3 % 2 ^ 64 ||| 4 = _
  rw [hlow, ← Nat.shiftLeft_add_eq_or_of_lt (by omega), Nat.shiftLeft_eq]
  omega

/-- What a small float has above its tag. -/
lemma tagged_shiftRight {rebased : UInt64} (h : rebased.toNat < 2 ^ 61) :
    (rebased <<< 3 ||| 4) >>> 3 = rebased := by
  rw [← UInt64.toNat_inj, UInt64.toNat_shiftRight, toNat_tagged, Nat.mod_eq_of_lt h]
  show (8 * rebased.toNat + 4) >>> 3 = _
  rw [Nat.shiftRight_eq_div_pow]
  omega

/-- The rotated bits of a double in the range of small floats, with the bias taken off. -/
lemma toNat_rebased {bits : UInt64} (hlow : 896 < biasedExponent bits)
    (hhigh : biasedExponent bits < 1152) :
    1 < (rotateSign bits - rotatedBias).toNat ∧
      (rotateSign bits - rotatedBias).toNat < 2 ^ 61 := by
  have hlt := bits.toNat_lt
  have hrotated := toNat_rotateSign bits
  have hbias : rotatedBias.toNat = 896 * 2 ^ 53 := rfl
  have hsign : bits.toNat / 2 ^ 63 = bits.toNat / 2 ^ 52 / 2 ^ 11 := by
    rw [Nat.div_div_eq_div_mul, ← Nat.pow_add]
  unfold biasedExponent at hlow hhigh
  have hsub : (rotateSign bits - rotatedBias).toNat =
      (rotateSign bits).toNat - rotatedBias.toNat :=
    UInt64.toNat_sub_of_le _ _ (UInt64.le_iff_toNat_le.mpr (by omega))
  omega

/-- A double has a small float just when it is a zero or its exponent is in the window. -/
lemma exists_ofFloatBits?_iff {bits : UInt64} :
    (∃ v, ofFloatBits? bits = some v) ↔
      IsFloatZero bits ∨ 897 ≤ biasedExponent bits ∧ biasedExponent bits ≤ 1151 := by
  rw [← rotateSign_le_one_iff, ofFloatBits?]
  by_cases hzero : rotateSign bits ≤ 1
  · simp [hzero]
  · have hwindow : (exponentBias < bits.toNat / 0x10_0000_0000_0000 % 0x800 ∧
        bits.toNat / 0x10_0000_0000_0000 % 0x800 < exponentBias + 256) ↔
        897 ≤ biasedExponent bits ∧ biasedExponent bits ≤ 1151 := by
      simp only [exponentBias, biasedExponent]
      omega
    simp only [hzero, if_false, false_or, hwindow]
    split <;> simp [*]

/-- The bits of a double are read back from its small float. -/
lemma toFloatBits?_of_ofFloatBits? {bits : UInt64} (h : ofFloatBits? bits = some v) :
    v.toFloatBits? = some bits := by
  have htag (rebased : UInt64) : (⟨rebased <<< 3 ||| 4⟩ : Value).isSmallFloat = true := by
    have hword := toNat_tagged rebased
    refine isSmallFloat_iff.mpr ?_
    show (rebased <<< 3 ||| 4).toNat % 8 = 4
    omega
  rw [ofFloatBits?] at h
  by_cases hzero : rotateSign bits ≤ 1
  · simp only [if_pos hzero, Option.some.injEq] at h
    subst h
    have hsmall : (rotateSign bits).toNat ≤ 1 := UInt64.le_iff_toNat_le.mp hzero
    rw [toFloatBits?, if_pos (htag _), floatPayload]
    simp only [tagged_shiftRight (show (rotateSign bits).toNat < 2 ^ 61 by omega), if_pos hzero,
      unrotateSign_rotateSign]
  · simp only [if_neg hzero, Option.ite_none_right_eq_some, Option.some.injEq] at h
    obtain ⟨hwindow, rfl⟩ := h
    obtain ⟨hone, hlt⟩ := toNat_rebased hwindow.1 hwindow.2
    have hrebased : ¬rotateSign bits - rotatedBias ≤ 1 := by
      rw [UInt64.le_iff_toNat_le]
      exact Nat.not_le_of_lt hone
    rw [toFloatBits?, if_pos (htag _), floatPayload]
    simp only [tagged_shiftRight hlt, if_neg hrebased, UInt64.sub_add_cancel,
      unrotateSign_rotateSign]

end Value

/-! ### All kinds together -/

/-- The value that stands for an integer, a code point, the bits of a double or an address, if there
is one. Nothing stands for a word without meaning. -/
def Decoded.encode? : Decoded → Option Value
  | .object address => if Value.IsAddress address then some (Value.ofAddress address) else none
  | .smallInteger n => Value.ofInt? n
  | .character code => some (Value.ofCodePoint code)
  | .smallFloat bits => Value.ofFloatBits? bits
  | .invalid _ => none

/-- What a value stands for is read back from it. -/
theorem Decoded.decode_of_encode? {d : Decoded} {v : Value} (h : d.encode? = some v) :
    v.decode = d := by
  cases d with
  | object address =>
    obtain ⟨haddress, hv⟩ := Option.ite_none_right_eq_some.mp h
    obtain rfl := Option.some.inj hv
    exact ((Value.coherent _).toAddress? _).mp (Value.toAddress?_ofAddress haddress)
  | smallInteger n => exact ((Value.coherent v).toInt? n).mp (Value.ofInt?_eq_some_iff.mp h)
  | character code =>
    obtain rfl := Option.some.inj h
    exact ((Value.coherent _).toCodePoint? _).mp (Value.toCodePoint?_ofCodePoint code)
  | smallFloat bits =>
    exact ((Value.coherent v).toFloatBits? bits).mp (Value.toFloatBits?_of_ofFloatBits? h)
  | invalid raw => cases h

/-- Values are an unambiguous encoding. Every word has one kind, on which all questions agree. Just
the integers of 63 bits have a value, and just the doubles that are a zero or have a biased exponent
from 897 to 1151. Whatever has a value is read back from it, so that no two things have the same. -/
theorem Value.unambiguous :
    (∀ v, Coherent v) ∧
      (∀ n : ℤ, (∃ v, ofInt? n = some v) ↔ -2 ^ 62 ≤ n ∧ n < 2 ^ 62) ∧
      (∀ bits, (∃ v, ofFloatBits? bits = some v) ↔
        IsFloatZero bits ∨ 897 ≤ biasedExponent bits ∧ biasedExponent bits ≤ 1151) ∧
      (∀ d : Decoded, ∀ v ∈ d.encode?, v.decode = d) ∧
      ∀ d d' : Decoded, ∀ v ∈ d.encode?, v ∈ d'.encode? → d = d' := by
  refine ⟨coherent, fun n => ?_, fun bits => exists_ofFloatBits?_iff,
    fun d v h => Decoded.decode_of_encode? h, fun d d' v h h' => ?_⟩
  · rw [← Option.isSome_iff_exists, ofInt?, Option.isSome_ite, fitsSmallInteger_iff]
    omega
  · rw [← Decoded.decode_of_encode? h, Decoded.decode_of_encode? h']

end TalkMachine
