import TalkMachine.Heap.Store
import TalkMachine.Proofs.Word

/-!
# The arena as bytes

What a write does to the arena is said byte by byte: each write changes the bytes it writes and no
other (`Heap.byteAt_writeWord`, `Heap.byteAt_writeByte`, `Heap.byteAt_writeBytes`). A word is
determined by its bytes (`Heap.wordAt_congr`), so a word outside of what is written stays too. The
address of an object is its word (`Heap.addressOf_eq_ok_iff`), which is aligned.
-/

namespace TalkMachine

/-- The word of an object is aligned. -/
lemma Value.mod_eight_of_isObject {value : Value} (hobject : value.isObject = true) :
    value.raw.toNat % 8 = 0 := by
  rw [isObject, Bool.and_eq_true, tag, beq_iff_eq, ← UInt64.toNat_inj, UInt64.toNat_mod] at hobject
  exact hobject.2

namespace Heap

variable {h h' : Heap} {object : Value} {address : ℕ}

/-! ### Addresses -/

/-- A value has an address just when it is an object whose header is among the bytes in use. -/
lemma addressOf_eq_ok_iff : h.addressOf object = .ok address ↔
    object.isObject = true ∧ object.raw.toNat = address ∧ address + 8 ≤ h.usedBytes := by
  rw [addressOf, Value.toAddress?]
  cases hobject : object.isObject with
  | false => simp
  | true =>
    simp only [if_true, true_and, wordSize]
    by_cases hfits : h.usedBytes < object.raw.toNat + 8
    · rw [if_pos hfits]
      refine ⟨fun hok => (by cases hok), ?_⟩
      rintro ⟨rfl, hle⟩
      exact absurd hfits (Nat.not_lt.mpr hle)
    · rw [if_neg hfits, Except.ok.injEq]
      refine ⟨?_, And.left⟩
      rintro rfl
      exact ⟨rfl, Nat.not_lt.mp hfits⟩

/-! ### Words and their bytes -/

/-- The bytes of an aligned word. -/
lemma byteAt_add (h : Heap) (haligned : address % 8 = 0) {k : ℕ} (hk : k < 8) :
    h.byteAt (address + k) = Word.byte (h.wordAt address) k := by
  have hdiv : (address + k) / 8 = address / 8 := by omega
  have hmod : (address + k) % 8 = k := by omega
  simp only [byteAt, wordAt, wordSize, hdiv, hmod]

/-- Where all bytes of an aligned word agree, so does the word. -/
lemma wordAt_congr (haligned : address % 8 = 0)
    (heq : ∀ k < 8, h'.byteAt (address + k) = h.byteAt (address + k)) :
    h'.wordAt address = h.wordAt address := by
  apply Word.ext_byte
  intro k hk
  rw [← byteAt_add h' haligned hk, ← byteAt_add h haligned hk, heq k hk]

/-! ### Writing -/

/-- Writing a word keeps the size of the arena. -/
@[simp] lemma usedBytes_writeWord (h : Heap) (address : ℕ) (word : UInt64) :
    (h.writeWord address word).usedBytes = h.usedBytes := by
  simp [writeWord, usedBytes]

/-- Writing a word changes the eight bytes of that word. -/
theorem byteAt_writeWord (haddress : address < h.usedBytes) (word : UInt64) (b : ℕ) :
    (h.writeWord address word).byteAt b =
      if b / 8 = address / 8 then Word.byte word (b % 8) else h.byteAt b := by
  have hlt : address / 8 < h.words.size := by
    simp only [usedBytes, wordSize] at haddress
    omega
  simp only [byteAt, wordAt, writeWord, wordSize, Array.getD_eq_getD_getElem?,
    Array.getElem?_setIfInBounds]
  by_cases hb : b / 8 = address / 8
  · rw [if_pos hb.symm, hb, if_pos hlt, if_pos rfl]
    rfl
  · rw [if_neg (Ne.symm hb), if_neg hb]

/-- Writing a byte keeps the size of the arena. -/
@[simp] lemma usedBytes_writeByte (h : Heap) (address : ℕ) (byte : UInt8) :
    (h.writeByte address byte).usedBytes = h.usedBytes :=
  usedBytes_writeWord h address _

/-- Writing a byte changes that byte. -/
theorem byteAt_writeByte (haddress : address < h.usedBytes) (byte : UInt8) (b : ℕ) :
    (h.writeByte address byte).byteAt b = if b = address then byte else h.byteAt b := by
  rw [writeByte, byteAt_writeWord haddress,
    Word.byte_setByte _ (Nat.mod_lt b (by decide)) (Nat.mod_lt address (by decide))]
  by_cases hb : b / 8 = address / 8
  · have hsame : h.byteAt b = Word.byte (h.wordAt address) (b % 8) := by
      simp only [byteAt, wordAt, wordSize, hb]
    rw [if_pos hb, ← hsame]
    have hiff : b % 8 = address % 8 ↔ b = address := by omega
    simp only [hiff]
  · have hne : b ≠ address := fun heq => hb (heq ▸ rfl)
    rw [if_neg hb, if_neg hne]

/-- Bytes are written one after the other. -/
lemma writeBytes_cons (h : Heap) (address : ℕ) (byte : UInt8) (rest : List UInt8) :
    h.writeBytes address (byte :: rest) =
      (h.writeByte address byte).writeBytes (address + 1) rest :=
  rfl

/-- Writing bytes keeps the size of the arena, its limit and its nil. -/
lemma writeBytes_keeps (h : Heap) (address : ℕ) (bytes : List UInt8) :
    (h.writeBytes address bytes).usedBytes = h.usedBytes ∧
      (h.writeBytes address bytes).limit = h.limit ∧
      (h.writeBytes address bytes).nil = h.nil := by
  induction bytes generalizing h address with
  | nil => exact ⟨rfl, rfl, rfl⟩
  | cons byte rest ih =>
    obtain ⟨hused, hlimit, hnil⟩ := ih (h.writeByte address byte) (address + 1)
    rw [writeBytes_cons]
    exact ⟨hused.trans (usedBytes_writeByte h address byte), hlimit, hnil⟩

/-- Writing bytes changes those bytes. -/
theorem byteAt_writeBytes {bytes : List UInt8} (hfits : address + bytes.length ≤ h.usedBytes)
    (b : ℕ) : (h.writeBytes address bytes).byteAt b =
      if address ≤ b then (bytes[b - address]?).getD (h.byteAt b) else h.byteAt b := by
  induction bytes generalizing h address with
  | nil => simp [writeBytes]
  | cons byte rest ih =>
    rw [List.length_cons] at hfits
    have haddress : address < h.usedBytes := by omega
    rw [writeBytes_cons, ih (by rw [usedBytes_writeByte]; omega), byteAt_writeByte haddress]
    rcases lt_trichotomy b address with hb | rfl | hb
    · rw [if_neg (by omega), if_neg (by omega), if_neg (by omega)]
    · simp
    · have hsub : b - address = b - (address + 1) + 1 := by omega
      rw [if_pos (by omega), if_neg (by omega), if_pos (by omega), hsub, List.getElem?_cons_succ]

/-! ### Growing -/

/-- The arena with words put behind those in use. -/
def grow (h : Heap) (words : Array UInt64) : Heap :=
  { h with words := h.words ++ words, objectCount := h.objectCount + 1 }

/-- The size of an arena that has grown. -/
lemma usedBytes_grow (h : Heap) (words : Array UInt64) :
    (h.grow words).usedBytes = h.usedBytes + 8 * words.size := by
  simp only [usedBytes, grow, Array.size_append, wordSize]
  omega

/-- The bytes in use stay when the arena grows. -/
lemma byteAt_grow_of_lt (words : Array UInt64) (haddress : address < h.usedBytes) :
    (h.grow words).byteAt address = h.byteAt address := by
  have hlt : address / 8 < h.words.size := by
    simp only [usedBytes, wordSize] at haddress
    omega
  simp only [byteAt, wordAt, grow, wordSize, Array.getD_eq_getD_getElem?,
    Array.getElem?_append_left hlt]

/-- Behind the bytes in use an arena that has grown holds the new words. -/
lemma wordAt_grow (h : Heap) (words : Array UInt64) (k : ℕ) :
    (h.grow words).wordAt (h.usedBytes + 8 * k) = words.getD k 0 := by
  have hdiv : (8 * h.words.size + 8 * k) / 8 = h.words.size + k := by omega
  simp only [wordAt, grow, usedBytes, wordSize, hdiv, Array.getD_eq_getD_getElem?]
  rw [Array.getElem?_append_right (by omega)]
  congr 2
  omega

end Heap

end TalkMachine
