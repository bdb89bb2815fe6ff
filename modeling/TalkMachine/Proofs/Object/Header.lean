import Mathlib.Algebra.Order.Ring.Nat
import TalkMachine.Object.Format
import TalkMachine.Object.Header

/-!
# Fields of headers

The fields of a header do not overlap: what was put into a field is read from it, cut to the width
of the field, and replacing the flags is the same as encoding a header with the new flags
(`Header.setFlags_encode`). A format code with fewer unused elements than a word holds stands for
its format and that number (`ObjectFormat.ofCode?_code`).
-/

namespace TalkMachine

/-! ### Flags -/

/-- Flags take two bits. -/
lemma HeaderFlags.bits_lt (flags : HeaderFlags) : flags.bits < 4 := by
  obtain ⟨immutable, pinned⟩ := flags
  revert immutable pinned
  decide

/-- The flags of two bits are those the bits were made of. -/
@[simp] lemma HeaderFlags.ofBits_bits (flags : HeaderFlags) : ofBits flags.bits = flags := by
  obtain ⟨immutable, pinned⟩ := flags
  revert immutable pinned
  decide

namespace Header

/-! ### The header as a number -/

/-- A field that holds zero takes its value by addition. -/
lemma toNat_set_of_get_eq_zero {h : Header} {field : BitField} {value : ℕ}
    (hzero : h.get field = 0)
    (hlt : h.raw.toNat + value % field.range * field.unit < 2 ^ 64) :
    (h.set field value).raw.toNat = h.raw.toNat + value % field.range * field.unit := by
  have hset : field.set h.raw.toNat value = h.raw.toNat + value % field.range * field.unit := by
    rw [get] at hzero
    rw [BitField.set, hzero, Nat.zero_mul, Nat.sub_zero]
  rw [set, hset, UInt64.toNat_ofNat_of_lt' hlt]

variable (slotCount formatCode classIndex hash : ℕ) (flags : HeaderFlags)

/-- A header is the sum of its fields, each at its place. -/
lemma toNat_encode : (encode slotCount formatCode classIndex hash flags).raw.toNat =
    classIndex % 2 ^ 22 + formatCode % 2 ^ 5 * 2 ^ 24 + hash % 2 ^ 22 * 2 ^ 32 +
      flags.bits * 2 ^ 54 + slotCount % 2 ^ 8 * 2 ^ 56 := by
  have hbits := flags.bits_lt
  have hslots : ((Header.mk 0).set slotCountField slotCount).raw.toNat =
      slotCount % 2 ^ 8 * 2 ^ 56 := by
    rw [toNat_set_of_get_eq_zero] <;> simp only [get, BitField.get, slotCountField]
    · simp
    · simp
    · simp
      omega
  have hformat : (((Header.mk 0).set slotCountField slotCount).set formatField
      formatCode).raw.toNat = slotCount % 2 ^ 8 * 2 ^ 56 + formatCode % 2 ^ 5 * 2 ^ 24 := by
    rw [toNat_set_of_get_eq_zero] <;> simp only [get, BitField.get, formatField] <;> rw [hslots] <;>
      omega
  have hclass : ((((Header.mk 0).set slotCountField slotCount).set formatField formatCode).set
      classIndexField classIndex).raw.toNat = slotCount % 2 ^ 8 * 2 ^ 56 +
        formatCode % 2 ^ 5 * 2 ^ 24 + classIndex % 2 ^ 22 := by
    rw [toNat_set_of_get_eq_zero] <;> simp only [get, BitField.get, classIndexField] <;>
      rw [hformat] <;> omega
  have hhash : (((((Header.mk 0).set slotCountField slotCount).set formatField formatCode).set
      classIndexField classIndex).set hashField hash).raw.toNat = slotCount % 2 ^ 8 * 2 ^ 56 +
        formatCode % 2 ^ 5 * 2 ^ 24 + classIndex % 2 ^ 22 + hash % 2 ^ 22 * 2 ^ 32 := by
    rw [toNat_set_of_get_eq_zero] <;> simp only [get, BitField.get, hashField] <;> rw [hclass] <;>
      omega
  rw [encode, toNat_set_of_get_eq_zero] <;> simp only [get, BitField.get, flagsField] <;>
    rw [hhash] <;> omega

/-- A hash is cut to its field, so it may be cut before. -/
lemma encode_hash_mod : encode slotCount formatCode classIndex (hash % hashRange) flags =
    encode slotCount formatCode classIndex hash flags := by
  have hraw : (encode slotCount formatCode classIndex (hash % hashRange) flags).raw =
      (encode slotCount formatCode classIndex hash flags).raw := by
    have hcut : hash % hashRange % 2 ^ 22 = hash % 2 ^ 22 := Nat.mod_mod hash (2 ^ 22)
    rw [← UInt64.toNat_inj, toNat_encode, toNat_encode, hcut]
  exact congrArg Header.mk hraw

/-! ### Reading fields -/

/-- The class index of an encoded header. -/
lemma classIndex_encode :
    (encode slotCount formatCode classIndex hash flags).classIndex = classIndex % 2 ^ 22 := by
  have hbits := flags.bits_lt
  simp only [Header.classIndex, get, BitField.get, toNat_encode, classIndexField]
  omega

/-- The format code of an encoded header. -/
lemma formatCode_encode :
    (encode slotCount formatCode classIndex hash flags).formatCode = formatCode % 2 ^ 5 := by
  have hbits := flags.bits_lt
  simp only [Header.formatCode, get, BitField.get, toNat_encode, formatField]
  omega

/-- The identity hash of an encoded header. -/
lemma identityHash_encode :
    (encode slotCount formatCode classIndex hash flags).identityHash = hash % hashRange := by
  have hbits := flags.bits_lt
  simp only [Header.identityHash, get, BitField.get, toNat_encode, hashField, hashRange]
  omega

/-- The flags of an encoded header. -/
@[simp] lemma flags_encode :
    (encode slotCount formatCode classIndex hash flags).flags = flags := by
  have hbits := flags.bits_lt
  have hget : (encode slotCount formatCode classIndex hash flags).get flagsField = flags.bits := by
    simp only [get, BitField.get, toNat_encode, flagsField]
    omega
  rw [Header.flags, hget, HeaderFlags.ofBits_bits]

/-- The slot count of an encoded header. -/
lemma slotCount_encode :
    (encode slotCount formatCode classIndex hash flags).slotCount = slotCount % 2 ^ 8 := by
  have hbits := flags.bits_lt
  simp only [Header.slotCount, get, BitField.get, toNat_encode, slotCountField]
  omega

/-- Replacing the flags of an encoded header gives the header encoded with those flags. -/
theorem setFlags_encode (flags' : HeaderFlags) :
    (encode slotCount formatCode classIndex hash flags).setFlags flags' =
      encode slotCount formatCode classIndex hash flags' := by
  have hbits := flags.bits_lt
  have hbits' := flags'.bits_lt
  have hset : flagsField.set (encode slotCount formatCode classIndex hash flags).raw.toNat
      flags'.bits = (encode slotCount formatCode classIndex hash flags').raw.toNat := by
    simp only [BitField.set, BitField.get, flagsField, toNat_encode]
    omega
  rw [setFlags, set, hset, UInt64.ofNat_toNat]

end Header

/-! ### Formats -/

namespace ObjectFormat

/-- A word holds at least one element. -/
lemma divisor_pos (format : ObjectFormat) : 0 < format.divisor := by
  cases format <;> decide

/-- A word holds at most eight elements. -/
lemma divisor_le (format : ObjectFormat) : format.divisor ≤ 8 := by
  cases format <;> decide

/-- All codes fit the field of a header. -/
lemma code_lt {format : ObjectFormat} {unused : ℕ} (h : unused < format.divisor) :
    format.code unused < 2 ^ 5 := by
  have hmax : format.baseCode + format.divisor ≤ 2 ^ 5 := by cases format <;> decide
  rw [code]
  omega

/-- A code stands for the format and the number of unused elements it was made of. -/
theorem ofCode?_code {format : ObjectFormat} {unused : ℕ} (h : unused < format.divisor) :
    ofCode? (format.code unused) = some (format, unused) := by
  have hall : ∀ unused < format.divisor, ofCode? (format.code unused) = some (format, unused) := by
    cases format <;> decide
  exact hall unused h

/-- Fewer elements are unused than a word holds. -/
lemma unusedFor_lt (format : ObjectFormat) (count : ℕ) :
    format.unusedFor count < format.divisor := by
  have hpos := format.divisor_pos
  have hdiv := Nat.div_add_mod (count + format.divisor - 1) format.divisor
  have hmod := Nat.mod_lt (count + format.divisor - 1) hpos
  rw [unusedFor, slotsFor, Nat.mul_comm]
  omega

/-- The words of an object hold its elements and the unused ones. -/
lemma slotsFor_mul_divisor (format : ObjectFormat) (count : ℕ) :
    format.slotsFor count * format.divisor = count + format.unusedFor count := by
  have hpos := format.divisor_pos
  have hdiv := Nat.div_add_mod (count + format.divisor - 1) format.divisor
  have hmod := Nat.mod_lt (count + format.divisor - 1) hpos
  rw [unusedFor, slotsFor, Nat.mul_comm]
  omega

end ObjectFormat

end TalkMachine
