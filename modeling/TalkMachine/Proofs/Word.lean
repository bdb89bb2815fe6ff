import Mathlib.Algebra.Order.Ring.Nat
import Mathlib.Tactic.NormNum
import TalkMachine.Word

/-!
# Bytes of words

A word is its eight bytes: they are the digits of its number to the base 256 (`Word.toNat_byte`),
two words with the same bytes are equal (`Word.ext_byte`), and putting a byte in place of another
changes that one only (`Word.byte_setByte`).
-/

namespace TalkMachine

namespace Word

/-- A byte of a word is a digit of its number to the base 256. -/
lemma toNat_byte (word : UInt64) {k : ℕ} (hk : k < 8) :
    (byte word k).toNat = word.toNat / 256 ^ k % 256 := by
  have hshift : (UInt64.ofNat (8 * k)).toNat % 64 = 8 * k := by
    rw [UInt64.toNat_ofNat_of_lt' (by simp [UInt64.size]; omega)]
    omega
  rw [byte, UInt64.toNat_toUInt8, UInt64.toNat_shiftRight, hshift, Nat.shiftRight_eq_div_pow,
    pow_mul]
  norm_num

/-- A byte of the lowest bytes of a word is that byte of the word. -/
lemma getElem?_lowBytes (word : UInt64) {count k : ℕ} (hcount : count ≤ 8) (hk : k < count) :
    (lowBytes count word)[k]? = some (byte word k) := by
  induction count generalizing word k with
  | zero => omega
  | succ count ih =>
    have hdiv : (word / 256).toNat = word.toNat / 256 := by simp
    cases k with
    | zero =>
      rw [lowBytes, List.getElem?_cons_zero, Option.some.injEq, ← UInt8.toNat_inj,
        toNat_byte word (by omega)]
      simp
    | succ k =>
      rw [lowBytes, List.getElem?_cons_succ, ih (word / 256) (by omega) (by omega),
        Option.some.injEq, ← UInt8.toNat_inj, toNat_byte _ (by omega), toNat_byte _ (by omega),
        hdiv, Nat.div_div_eq_div_mul, pow_succ']

/-- The number of lowest bytes. -/
@[simp] lemma length_lowBytes (count : ℕ) (word : UInt64) :
    (lowBytes count word).length = count := by
  induction count generalizing word with
  | zero => rfl
  | succ count ih => simp [lowBytes, ih]

/-- A word has eight bytes. -/
@[simp] lemma length_bytes (word : UInt64) : (bytes word).length = 8 :=
  length_lowBytes 8 word

/-- The bytes of a word, one by one. -/
lemma getElem?_bytes (word : UInt64) {k : ℕ} (hk : k < 8) :
    (bytes word)[k]? = some (byte word k) :=
  getElem?_lowBytes word le_rfl hk

/-- The number of a word that is put together from at most eight bytes, by its first byte. -/
lemma toNat_ofBytes_cons (b : UInt8) {rest : List UInt8} (h : rest.length < 8) :
    (ofBytes rest).toNat < 256 ^ rest.length ∧
      (ofBytes (b :: rest)).toNat = b.toNat + 256 * (ofBytes rest).toNat := by
  induction rest generalizing b with
  | nil => simp [ofBytes]
  | cons c rest ih =>
    rw [List.length_cons] at h
    obtain ⟨hlt, heq⟩ := ih c (by omega)
    have hc := c.toNat_lt
    have hb := b.toNat_lt
    have hrest : (ofBytes (c :: rest)).toNat < 256 ^ (rest.length + 1) := by
      rw [heq, pow_succ]
      omega
    have hpow : 256 ^ (rest.length + 1) ≤ 256 ^ 7 := Nat.pow_le_pow_right (by decide) (by omega)
    refine ⟨hrest, ?_⟩
    rw [ofBytes, UInt64.toNat_add, UInt64.toNat_mul, UInt8.toNat_toUInt64]
    simp only [show (256 : UInt64).toNat = 256 from rfl]
    omega

/-- The bytes of a word that is put together from bytes are those bytes. -/
lemma byte_ofBytes {bytes : List UInt8} (h : bytes.length ≤ 8) {k : ℕ} {b : UInt8}
    (hk : bytes[k]? = some b) : byte (ofBytes bytes) k = b := by
  have hlt : k < bytes.length := (List.getElem?_eq_some_iff.mp hk).1
  rw [← UInt8.toNat_inj, toNat_byte _ (by omega)]
  induction bytes generalizing k with
  | nil => simp at hlt
  | cons c rest ih =>
    rw [List.length_cons] at h hlt
    have hc := c.toNat_lt
    rw [(toNat_ofBytes_cons c (by omega)).2]
    cases k with
    | zero =>
      obtain rfl : c = b := by simpa using hk
      omega
    | succ k =>
      rw [pow_succ', ← Nat.div_div_eq_div_mul, ← ih (by omega) (by simpa using hk) (by omega)]
      congr 2
      omega

/-- The number of the lowest bytes of a word is its remainder. -/
lemma toNat_ofBytes_lowBytes (word : UInt64) {count : ℕ} (h : count ≤ 8) :
    (ofBytes (lowBytes count word)).toNat = word.toNat % 256 ^ count := by
  induction count generalizing word with
  | zero => simp [lowBytes, ofBytes, Nat.mod_one]
  | succ count ih =>
    have hlength : (lowBytes count (word / 256)).length < 8 := by
      rw [length_lowBytes]
      omega
    have hdiv : (word / 256).toNat = word.toNat / 256 := by simp
    have hmod : word.toNat % 256 ^ (count + 1) =
        word.toNat % 256 + 256 * (word.toNat / 256 % 256 ^ count) := by
      rw [pow_succ', Nat.mod_mul]
    rw [lowBytes, (toNat_ofBytes_cons _ hlength).2, ih _ (by omega), hdiv, UInt64.toNat_toUInt8,
      hmod]

/-- A word is put together from its bytes. -/
@[simp] lemma ofBytes_bytes (word : UInt64) : ofBytes (bytes word) = word := by
  have hlt : word.toNat < 256 ^ wordSize := word.toNat_lt
  rw [← UInt64.toNat_inj, bytes, toNat_ofBytes_lowBytes word le_rfl, Nat.mod_eq_of_lt hlt]

/-- Two words with the same bytes are equal. -/
theorem ext_byte {word word' : UInt64} (h : ∀ k < 8, byte word k = byte word' k) :
    word = word' := by
  have hbytes : bytes word = bytes word' := by
    apply List.ext_getElem?
    intro k
    rcases Nat.lt_or_ge k 8 with hk | hk
    · rw [getElem?_bytes word hk, getElem?_bytes word' hk, h k hk]
    · rw [List.getElem?_eq_none (by simpa using hk), List.getElem?_eq_none (by simpa using hk)]
  rw [← ofBytes_bytes word, hbytes, ofBytes_bytes]

/-- Replacing a byte changes that byte only. -/
theorem byte_setByte (word : UInt64) {j k : ℕ} (hj : j < 8) (hk : k < 8)
    (value : UInt8) : byte (setByte word k value) j = if j = k then value else byte word j := by
  apply byte_ofBytes (by simp)
  rw [List.getElem?_set]
  by_cases h : j = k
  · subst h
    simp [hj]
  · rw [if_neg (Ne.symm h), if_neg h, getElem?_bytes word hj]

end Word

end TalkMachine
