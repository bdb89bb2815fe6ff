import TalkMachine.Proofs.Word
import TalkMachine.Stack

/-!
# Bytes of a stack

A write into the buffer of a stack replaces the eight bytes of one word and no others
(`Stack.byteAt_writeWord`), although the buffer is kept from its end and grows as it is written. A
word is read from its eight bytes (`Stack.load_congr`), so that what was written is read back
(`Stack.load_writeWord`).
-/

namespace TalkMachine

namespace Stack

variable {s s' : Stack} {address : ℕ}

/-! ### Loading -/

/-- A number of bytes at equal places spells the same number. -/
lemma load_congr_bytes {count a a' : ℕ}
    (h : ∀ k < count, s'.byteAt (a' + k) = s.byteAt (a + k)) :
    s'.load count a' = s.load count a := by
  induction count generalizing a a' with
  | zero => rfl
  | succ count ih =>
    have hhead : s'.byteAt a' = s.byteAt a := by simpa using h 0 (by omega)
    have htail : s'.load count (a' + 1) = s.load count (a + 1) := by
      apply ih
      intro k hk
      have := h (k + 1) (by omega)
      rwa [← Nat.add_assoc, ← Nat.add_assoc, Nat.add_right_comm a', Nat.add_right_comm a] at this
    rw [load, load, hhead, htail]

/-- Two stacks with the same eight bytes at an address have the same word there. -/
lemma load_congr (h : ∀ b, address ≤ b → b < address + 8 → s'.byteAt b = s.byteAt b) :
    s'.load 8 address = s.load 8 address :=
  load_congr_bytes fun k hk => h (address + k) (by omega) (by omega)

/-- The word at an address is put together from the eight bytes from there on. -/
lemma load_eq_ofBytes {count a : ℕ} {bytes : List UInt8} (hlength : bytes.length = count)
    (h : ∀ k b, bytes[k]? = some b → s.byteAt (a + k) = b) :
    s.load count a = Word.ofBytes bytes := by
  induction bytes generalizing count a with
  | nil =>
    subst hlength
    rfl
  | cons b rest ih =>
    subst hlength
    have hhead : s.byteAt a = b := by simpa using h 0 b rfl
    have htail : s.load rest.length (a + 1) = Word.ofBytes rest := by
      apply ih rfl
      intro k c hk
      have := h (k + 1) c (by simpa using hk)
      rwa [← Nat.add_assoc, Nat.add_right_comm] at this
    rw [List.length_cons, load, hhead, htail, Word.ofBytes]

/-! ### Writing -/

/-- Spelling puts the lowest bytes of a word in their places, the lowest last, and keeps the bytes
at all other places. -/
lemma getD_spell {place count : ℕ} {word : UInt64} {written : Array UInt8}
    (hfits : place + count ≤ written.size) (j : ℕ) :
    (spell place count word written).getD j 0 =
      if place ≤ j ∧ j < place + count then
        ((Word.lowBytes count word)[place + count - 1 - j]?).getD 0
      else written.getD j 0 := by
  induction count generalizing word written with
  | zero => rw [spell, if_neg (by omega)]
  | succ count ih =>
    rw [spell, ih (by rw [Array.size_setIfInBounds]; omega), Word.lowBytes]
    by_cases htop : j = place + count
    · subst htop
      have hsize : place + count < written.size := by omega
      rw [if_neg (by omega), if_pos (by omega),
        show place + (count + 1) - 1 - (place + count) = 0 by omega]
      simp [Array.getD_eq_getD_getElem?, hsize]
    · by_cases hin : place ≤ j ∧ j < place + count
      · rw [if_pos hin, if_pos (by omega),
          show place + (count + 1) - 1 - j = place + count - 1 - j + 1 by omega,
          List.getElem?_cons_succ]
      · rw [if_neg hin, if_neg (by omega)]
        simp only [Array.getD_eq_getD_getElem?]
        rw [Array.getElem?_setIfInBounds_ne (Ne.symm htop)]

/-- A write changes neither the size of the buffer nor the pointers. -/
@[simp] lemma size_writeWord (s : Stack) (address : ℕ) (word : UInt64) :
    (s.writeWord address word).size = s.size := by
  unfold writeWord
  rfl

/-- A write does not move the stack pointer. -/
@[simp] lemma sp_writeWord (s : Stack) (address : ℕ) (word : UInt64) :
    (s.writeWord address word).sp = s.sp := by
  unfold writeWord
  rfl

/-- A write does not move the frame pointer. -/
@[simp] lemma fp_writeWord (s : Stack) (address : ℕ) (word : UInt64) :
    (s.writeWord address word).fp = s.fp := by
  unfold writeWord
  rfl

/-- A write replaces the eight bytes of one word. -/
theorem byteAt_writeWord (s : Stack) (hfits : address + 8 ≤ s.size) (word : UInt64) {b : ℕ}
    (hb : b < s.size) :
    (s.writeWord address word).byteAt b =
      if address ≤ b ∧ b < address + 8 then Word.byte word (b - address) else s.byteAt b := by
  have hgrown : ∀ j : ℕ, (s.written ++
      Array.replicate (s.size - address - s.written.size) 0).getD j 0 = s.written.getD j 0 := by
    intro j
    simp only [Array.getD_eq_getD_getElem?, Array.getElem?_append, Array.getElem?_replicate]
    by_cases hj : j < s.written.size
    · rw [if_pos hj]
    · rw [if_neg hj, Array.getElem?_eq_none (by omega)]
      split <;> rfl
  unfold byteAt writeWord
  dsimp only
  rw [getD_spell (by simp only [Array.size_append, Array.size_replicate, wordSize]; omega), hgrown]
  simp only [wordSize]
  by_cases hin : address ≤ b ∧ b < address + 8
  · rw [if_pos (by omega), if_pos hin,
      show s.size - address - 8 + 8 - 1 - (s.size - 1 - b) = b - address by omega,
      Word.getElem?_lowBytes word le_rfl (by omega)]
    rfl
  · rw [if_neg (by omega), if_neg hin]

/-- The word that was written is read back. -/
theorem load_writeWord (s : Stack) (hfits : address + 8 ≤ s.size) (word : UInt64) :
    (s.writeWord address word).load 8 address = word := by
  rw [load_eq_ofBytes (Word.length_bytes word), Word.ofBytes_bytes]
  intro k c hk
  have hlt : k < 8 := by
    have := (List.getElem?_eq_some_iff.mp hk).1
    rwa [Word.length_bytes] at this
  rw [byteAt_writeWord s hfits word (by omega), if_pos (by omega), Nat.add_sub_cancel_left]
  rw [Word.getElem?_bytes word hlt, Option.some.injEq] at hk
  exact hk

end Stack

end TalkMachine
