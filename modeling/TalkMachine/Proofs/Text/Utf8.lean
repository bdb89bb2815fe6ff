import Mathlib.Data.Nat.Notation
import TalkMachine.Text.Utf8

/-!
# UTF-8 is read back

The bytes of a string spell this string (`Text.ofUtf8_utf8`). A character takes one byte to four; the
first byte tells how many, and its range together with that of the second byte leaves out just what no
character is written as. So only ASCII is read byte by byte (`Text.decodeUtf8_eq_map_iff`): of all other
bytes each is replaced, or read together with bytes behind it.
-/

namespace TalkMachine.Text

variable {rest bytes : List UInt8} {first : UInt8} {v : ℕ}

/-- A number that fits a byte is read from it. -/
lemma toNat_byte (hv : v < 256) : (UInt8.ofNat v).toNat = v :=
  UInt8.toNat_ofNat_of_lt' hv

/-- A byte that goes on as it should adds its lowest six bits. -/
lemma continuation_cons {count low high code taken : ℕ} (hv : v < 256) (hlow : low ≤ v)
    (hhigh : v ≤ high) :
    continuation (count + 1) low high code taken (UInt8.ofNat v :: rest) =
      continuation count 0x80 0xBF (code * 64 + (v - 0x80)) (taken + 1) rest := by
  rw [continuation, toNat_byte hv, if_pos ⟨hlow, hhigh⟩]

/-- What a first byte of two or more and the bytes behind it spell, once these have been read. -/
lemma firstChar_eq {first code taken : ℕ} {form : Lead} (hfirst : 0x80 ≤ first)
    (hbyte : first < 256) (hlead : lead? first = some form)
    (hcontinuation : continuation form.following form.secondFrom form.secondTo form.bits 0 rest =
      (some code, taken)) :
    firstChar (UInt8.ofNat first) rest = (Char.ofNat code, taken) := by
  rw [firstChar, toNat_byte hbyte, if_neg (Nat.not_lt.mpr hfirst), hlead]
  simp only [hcontinuation]

/-- A character of two bytes. -/
lemma firstChar_two (hlow : 0x7F < v) (hhigh : v ≤ 0x7FF) :
    firstChar (UInt8.ofNat (v / 64 % 32 + 192)) (UInt8.ofNat (v % 64 + 128) :: rest) =
      (Char.ofNat v, 1) := by
  have hlead : lead? (v / 64 % 32 + 192) = some ⟨1, 0x80, 0xBF, v / 64⟩ := by
    rw [lead?, if_neg (by omega), if_pos (by omega)]
    simp only [Option.some.injEq, Lead.mk.injEq, true_and]
    omega
  refine firstChar_eq (by omega) (by omega) hlead ?_
  simp only
  rw [continuation_cons (by omega) (by omega) (by omega), continuation]
  simp only [Prod.mk.injEq, Option.some.injEq, and_true]
  omega

/-- A character of three bytes. It is no surrogate. -/
lemma firstChar_three (hlow : 0x7FF < v) (hhigh : v ≤ 0xFFFF) (hvalid : v < 0xD800 ∨ 0xDFFF < v) :
    firstChar (UInt8.ofNat (v / 4096 % 16 + 224))
        (UInt8.ofNat (v / 64 % 64 + 128) :: UInt8.ofNat (v % 64 + 128) :: rest) =
      (Char.ofNat v, 2) := by
  have hlead : ∃ low high, lead? (v / 4096 % 16 + 224) = some ⟨2, low, high, v / 4096⟩ ∧
      low ≤ v / 64 % 64 + 128 ∧ v / 64 % 64 + 128 ≤ high := by
    rw [lead?, if_neg (by omega), if_neg (by omega)]
    split
    · exact ⟨0xA0, 0xBF, by simp only [Option.some.injEq, Lead.mk.injEq, true_and]; omega, by omega⟩
    rw [if_pos (show v / 4096 % 16 + 224 < 0xF0 by omega)]
    split
    · exact ⟨0x80, 0x9F, by simp only [Option.some.injEq, Lead.mk.injEq, true_and]; omega, by omega⟩
    · exact ⟨0x80, 0xBF, by simp only [Option.some.injEq, Lead.mk.injEq, true_and]; omega, by omega⟩
  obtain ⟨low, high, hlead, hsecond⟩ := hlead
  refine firstChar_eq (by omega) (by omega) hlead ?_
  simp only
  rw [continuation_cons (by omega) hsecond.1 hsecond.2,
    continuation_cons (by omega) (by omega) (by omega), continuation]
  simp only [Prod.mk.injEq, Option.some.injEq, and_true]
  omega

/-- A character of four bytes. -/
lemma firstChar_four (hlow : 0xFFFF < v) (hhigh : v ≤ 0x10FFFF) :
    firstChar (UInt8.ofNat (v / 262144 % 8 + 240)) (UInt8.ofNat (v / 4096 % 64 + 128) ::
        UInt8.ofNat (v / 64 % 64 + 128) :: UInt8.ofNat (v % 64 + 128) :: rest) =
      (Char.ofNat v, 3) := by
  have hlead : ∃ low high, lead? (v / 262144 % 8 + 240) = some ⟨3, low, high, v / 262144⟩ ∧
      low ≤ v / 4096 % 64 + 128 ∧ v / 4096 % 64 + 128 ≤ high := by
    rw [lead?, if_neg (by omega), if_neg (by omega), if_neg (by omega), if_neg (by omega),
      if_neg (by omega)]
    split
    · exact ⟨0x90, 0xBF, by simp only [Option.some.injEq, Lead.mk.injEq, true_and]; omega, by omega⟩
    split
    · exact ⟨0x80, 0xBF, by simp only [Option.some.injEq, Lead.mk.injEq, true_and]; omega, by omega⟩
    rw [if_pos (show v / 262144 % 8 + 240 = 0xF4 by omega)]
    exact ⟨0x80, 0x8F, by simp only [Option.some.injEq, Lead.mk.injEq, true_and]; omega, by omega⟩
  obtain ⟨low, high, hlead, hsecond⟩ := hlead
  refine firstChar_eq (by omega) (by omega) hlead ?_
  simp only
  rw [continuation_cons (by omega) hsecond.1 hsecond.2,
    continuation_cons (by omega) (by omega) (by omega),
    continuation_cons (by omega) (by omega) (by omega), continuation]
  simp only [Prod.mk.injEq, Option.some.injEq, and_true]
  omega

/-- The bytes of a character are read as this character, whatever stands behind them. -/
lemma exists_firstChar (c : Char) (rest : List UInt8) :
    ∃ first tail, String.utf8EncodeChar c = first :: tail ∧
      firstChar first (tail ++ rest) = (c, tail.length) := by
  have hchar : Char.ofNat c.val.toNat = c := Char.ofNat_toNat c
  have hvalid : c.val.toNat < 0xD800 ∨ 0xDFFF < c.val.toNat ∧ c.val.toNat < 0x110000 := c.valid
  rw [String.utf8EncodeChar]
  split
  · refine ⟨_, [], rfl, ?_⟩
    rw [firstChar, toNat_byte (by omega), if_pos (by omega), hchar]
    rfl
  split
  · exact ⟨_, _, rfl, (firstChar_two (by omega) (by omega)).trans (by rw [hchar]; rfl)⟩
  split
  · exact ⟨_, _, rfl, (firstChar_three (by omega) (by omega) (by omega)).trans (by rw [hchar]; rfl)⟩
  · exact ⟨_, _, rfl, (firstChar_four (by omega) (by omega)).trans (by rw [hchar]; rfl)⟩

/-- The bytes of characters are read as these characters. -/
lemma decodeUtf8_flatMap (chars : List Char) :
    decodeUtf8 (chars.flatMap String.utf8EncodeChar) = chars := by
  induction chars with
  | nil => rw [List.flatMap_nil, decodeUtf8]
  | cons c chars ih =>
    obtain ⟨first, tail, hencode, hfirst⟩ :=
      exists_firstChar c (chars.flatMap String.utf8EncodeChar)
    rw [List.flatMap_cons, hencode, List.cons_append, decodeUtf8, hfirst]
    simp only [List.drop_left, ih]

/-- The bytes of a string spell this string. -/
theorem ofUtf8_utf8 (text : String) : ofUtf8 (utf8 text) = text := by
  have hbytes : utf8 text = text.toList.flatMap String.utf8EncodeChar := by
    rw [utf8, String.toUTF8, ← String.utf8Encode_toList, List.utf8Encode]
    simp
  rw [ofUtf8, hbytes, decodeUtf8_flatMap, String.ofList_toList]

/-- Different strings have different bytes. -/
lemma utf8_injective {text text' : String} (h : utf8 text = utf8 text') : text = text' := by
  rw [← ofUtf8_utf8 text, h, ofUtf8_utf8]

/-! ### Bytes read one by one -/

/-- The code point of a byte is the byte. -/
lemma ofNat_toNat_byte (b : UInt8) : Char.ofNat b.toNat = Char.ofUInt8 b :=
  Char.ofNat_toNat (Char.ofUInt8 b)

/-- A byte is no replacement. -/
lemma ofUInt8_ne_replacement (b : UInt8) : Char.ofUInt8 b ≠ replacement := by
  intro h
  have hval : b.toNat = 0xFFFD := congrArg Char.toNat h
  have hlt := b.toNat_lt
  omega

/-- Bytes that go on as they should are all there. -/
lemma eq_add_of_continuation_eq_some {count low high code taken code' taken' : ℕ}
    (h : continuation count low high code taken bytes = (some code', taken')) :
    taken' = taken + count ∧ count ≤ bytes.length := by
  induction count generalizing low high code taken bytes with
  | zero =>
    rw [continuation] at h
    obtain ⟨-, rfl⟩ := Prod.mk.inj h
    exact ⟨rfl, Nat.zero_le _⟩
  | succ count ih =>
    cases bytes with
    | nil => cases h
    | cons b rest =>
      rw [continuation] at h
      split at h
      · obtain ⟨htaken, hcount⟩ := ih h
        exact ⟨by omega, Nat.succ_le_succ hcount⟩
      · cases h

/-- Something follows a first byte that leads. -/
lemma following_pos {first : ℕ} {form : Lead} (h : lead? first = some form) :
    0 < form.following := by
  unfold lead? at h
  repeat' split at h
  all_goals cases h
  all_goals exact Nat.succ_pos _

/-- A byte that is not ASCII is replaced, or is read together with bytes behind it. -/
lemma firstChar_of_le (hfirst : 0x80 ≤ first.toNat) (rest : List UInt8) :
    (firstChar first rest).1 = replacement ∨
      0 < (firstChar first rest).2 ∧ (firstChar first rest).2 ≤ rest.length := by
  rw [firstChar, if_neg (Nat.not_lt.mpr hfirst)]
  split
  · exact .inl rfl
  · rename_i form hlead
    have hpos := following_pos hlead
    split
    · rename_i code taken hcontinuation
      obtain ⟨rfl, hcount⟩ := eq_add_of_continuation_eq_some hcontinuation
      exact .inr ⟨by omega, by omega⟩
    · exact .inl rfl

/-- There are no more characters than bytes. -/
lemma length_decodeUtf8_le (bytes : List UInt8) : (decodeUtf8 bytes).length ≤ bytes.length := by
  induction bytes using decodeUtf8.induct with
  | case1 =>
    rw [decodeUtf8]
    exact Nat.le_refl _
  | case2 first rest c taken hfirst ih =>
    rw [decodeUtf8, hfirst]
    simp only [List.length_cons, List.length_drop] at ih ⊢
    omega

/-- A byte that is ASCII is a character. -/
lemma decodeUtf8_cons_of_lt (hfirst : first.toNat < 0x80) (rest : List UInt8) :
    decodeUtf8 (first :: rest) = Char.ofUInt8 first :: decodeUtf8 rest := by
  rw [decodeUtf8, firstChar, if_pos hfirst]
  simp only [List.drop_zero, ofNat_toNat_byte]

/-- A byte that is not ASCII is not read by itself. -/
lemma decodeUtf8_cons_ne (hfirst : 0x80 ≤ first.toNat) (rest : List UInt8) :
    decodeUtf8 (first :: rest) ≠ (first :: rest).map Char.ofUInt8 := by
  intro heq
  rw [decodeUtf8, List.map_cons] at heq
  have hcases := firstChar_of_le hfirst rest
  cases hread : firstChar first rest with
  | mk c taken =>
    rw [hread] at heq hcases
    obtain ⟨rfl, hrest⟩ := List.cons.inj heq
    rcases hcases with hreplaced | ⟨hpos, hle⟩
    · exact ofUInt8_ne_replacement first hreplaced
    · have hlength := length_decodeUtf8_le (rest.drop taken)
      rw [hrest, List.length_map, List.length_drop] at hlength
      omega

/-- Each byte is read as the character with this code point just if all of them are ASCII. -/
theorem decodeUtf8_eq_map_iff (bytes : List UInt8) :
    decodeUtf8 bytes = bytes.map Char.ofUInt8 ↔ ∀ b ∈ bytes, b.toNat < 0x80 := by
  induction bytes with
  | nil =>
    rw [decodeUtf8]
    exact iff_of_true rfl (List.forall_mem_nil _)
  | cons first rest ih =>
    rw [List.forall_mem_cons, ← ih]
    rcases Nat.lt_or_ge first.toNat 0x80 with hlt | hge
    · rw [decodeUtf8_cons_of_lt hlt, List.map_cons, List.cons_inj_right, and_iff_right hlt]
    · exact iff_of_false (decodeUtf8_cons_ne hge rest) fun h => Nat.not_lt.mpr hge h.1

end TalkMachine.Text
