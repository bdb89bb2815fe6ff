import TalkMachine.Proofs.Heap.ObjectMap
import TalkMachine.Proofs.Word

/-!
# Bodies of objects

A body is one string of bytes, of which words are views. Overwriting some bytes changes these only
(`Object.getElem?_overwrite`), so what was stored last at a place is read there
(`Object.fetch_storeWord`, `Object.fetchByte_storeByte`), and no store changes anything but the body
(`Object.SameShape`).
-/

namespace TalkMachine

namespace Object

/-- Whether an object can lie in an arena: its body is made of words, and its fields fit a header.
-/
structure WellFormed (o : Object) : Prop where
  length_mod : o.body.length % 8 = 0
  unused_lt : o.unused < o.format.divisor
  unused_le : o.unused ≤ o.body.length
  classIndex_lt : o.classIndex < 2 ^ 22
  hash_lt : o.hash < Header.hashRange

variable {o o' : Object} {name : Value} {start : ℕ} {bytes : List UInt8}

/-- The number of slots, in bytes. -/
lemma WellFormed.length_eq (h : o.WellFormed) : o.body.length = 8 * o.slotCount := by
  have hmod := h.length_mod
  simp only [slotCount, wordSize]
  omega

/-- The bytes of a word in a body. -/
lemma WellFormed.byte_word (h : o.WellFormed) {index k : ℕ} (hindex : index < o.slotCount)
    (hk : k < 8) : o.body[8 * index + k]? = some (Word.byte (o.word index) k) := by
  have hlength := h.length_eq
  have hlt : 8 * index + k < o.body.length := by omega
  rw [List.getElem?_eq_getElem hlt]
  refine congrArg some (Word.byte_ofBytes ?_ ?_).symm
  · rw [List.length_take]
    exact min_le_left _ _
  · rw [List.getElem?_take, if_pos hk, List.getElem?_drop, List.getElem?_eq_getElem hlt]

/-! ### Overwriting a body -/

/-- Overwriting bytes of a body keeps its length. -/
lemma length_overwrite (hfits : start + bytes.length ≤ o.body.length) :
    (o.overwrite start bytes).body.length = o.body.length := by
  simp only [overwrite, List.length_append, List.length_take, List.length_drop]
  omega

/-- The bytes of a body that was overwritten. -/
lemma getElem?_overwrite (hfits : start + bytes.length ≤ o.body.length) (k : ℕ) :
    (o.overwrite start bytes).body[k]? =
      if start ≤ k ∧ k < start + bytes.length then bytes[k - start]? else o.body[k]? := by
  have htake : (o.body.take start).length = start := by
    rw [List.length_take]
    omega
  rw [overwrite, List.append_assoc]
  rcases Nat.lt_or_ge k start with hk | hk
  · rw [if_neg (by omega), List.getElem?_append_left (by omega), List.getElem?_take, if_pos hk]
  · rw [List.getElem?_append_right (by omega), htake]
    rcases Nat.lt_or_ge k (start + bytes.length) with hk' | hk'
    · rw [if_pos ⟨hk, hk'⟩, List.getElem?_append_left (by omega)]
    · rw [if_neg (by omega), List.getElem?_append_right (by omega), List.getElem?_drop]
      congr 1
      omega

/-- Overwriting nothing changes nothing. -/
@[simp] lemma overwrite_nil (o : Object) (start : ℕ) : o.overwrite start [] = o := by
  simp [overwrite]

/-- An object whose body was overwritten takes up the same bytes, and is as well-formed. -/
lemma WellFormed.overwrite (h : o.WellFormed) (hfits : start + bytes.length ≤ o.body.length) :
    (o.overwrite start bytes).WellFormed := by
  have hlength := length_overwrite hfits
  exact ⟨hlength ▸ h.length_mod, h.unused_lt, hlength ▸ h.unused_le, h.classIndex_lt, h.hash_lt⟩

/-! ### What was stored is read -/

/-- The word that was stored last into a slot is in that slot, and the others are as they were. -/
theorem fetch_storeWord (h : o.WellFormed) {index : ℕ} {word : UInt64}
    (hok : o.storeWord name index word = .ok ((), o')) (other : ℕ) :
    o'.fetch name other = if other = index then .ok ⟨word⟩ else o.fetch name other := by
  rw [storeWord] at hok
  split at hok
  · cases hok
  split at hok
  · cases hok
  rename_i hindex
  cases hok
  have hlength := h.length_eq
  have hfits : 8 * index + (Word.bytes word).length ≤ o.body.length := by
    rw [Word.length_bytes]
    omega
  have hslots : (o.overwrite (8 * index) (Word.bytes word)).slotCount = o.slotCount := by
    rw [slotCount, slotCount, length_overwrite hfits]
  simp only [fetch, wordSize, hslots]
  rcases Nat.lt_or_ge other o.slotCount with hother | hother
  · rw [if_neg (Nat.not_le.mpr hother)]
    have hword : (o.overwrite (8 * index) (Word.bytes word)).word other =
        if other = index then word else o.word other := by
      apply Word.ext_byte
      intro k hk
      have hbyte := (h.overwrite hfits).byte_word (hslots.symm ▸ hother) hk
      rw [getElem?_overwrite hfits, Word.length_bytes] at hbyte
      by_cases hsame : other = index
      · subst hsame
        rw [if_pos (by omega), Nat.add_sub_cancel_left, Word.getElem?_bytes word hk] at hbyte
        rw [if_pos rfl, Option.some.inj hbyte]
      · rw [if_neg (by omega), h.byte_word hother hk] at hbyte
        rw [if_neg hsame, Option.some.inj hbyte]
    rw [hword, if_neg (Nat.not_le.mpr hother)]
    split <;> rfl
  · rw [if_pos hother, if_neg (by omega), if_pos hother]

/-- A byte is stored just when the object is mutable, holds bytes and has one there. -/
lemma storeByte_eq_ok_iff {index : ℕ} {byte : UInt8} :
    o.storeByte name index byte = .ok ((), o') ↔ o.flags.immutable = false ∧
      o.format.isBytes = true ∧ index < o.byteCount ∧ o.overwrite index [byte] = o' := by
  rw [storeByte]
  cases o.flags.immutable
  · cases o.format.isBytes
    · simp
    · rcases Nat.lt_or_ge index o.byteCount with hlt | hge
      · simp [hlt, Nat.not_le.mpr hlt]
      · simp [hge, Nat.not_lt.mpr hge]
  · simp

/-- The byte that was stored last at a place is at that place, and the others are as they were. -/
theorem fetchByte_storeByte {index : ℕ} {byte : UInt8}
    (hok : o.storeByte name index byte = .ok ((), o')) (other : ℕ) :
    o'.fetchByte name other = if other = index then .ok byte else o.fetchByte name other := by
  obtain ⟨-, hold, hindex, rfl⟩ := storeByte_eq_ok_iff.mp hok
  have hcount : o.byteCount ≤ o.body.length := Nat.sub_le _ _
  have hfits : index + [byte].length ≤ o.body.length := by
    rw [List.length_singleton]
    omega
  have hcount' : (o.overwrite index [byte]).byteCount = o.byteCount := by
    rw [byteCount, byteCount, length_overwrite hfits]
    rfl
  have hformat : (o.overwrite index [byte]).format.isBytes = true := hold
  have hread : ((o.overwrite index [byte]).body.take o.byteCount)[other]? =
      if other = index then some byte else (o.body.take o.byteCount)[other]? := by
    rw [List.getElem?_take, List.getElem?_take, getElem?_overwrite hfits, List.length_singleton]
    by_cases hsame : other = index
    · subst hsame
      rw [if_pos (by omega), if_pos (by omega), if_pos rfl, Nat.sub_self]
      rfl
    · rw [if_neg (by omega : ¬(index ≤ other ∧ other < index + 1)), if_neg hsame]
  simp only [fetchByte, bytes, hformat, hold, if_true, hcount', Bind.bind, Except.bind, hread]
  by_cases hsame : other = index
  · simp only [if_pos hsame]
    rfl
  · simp only [if_neg hsame]

/-- A byte that was stored stands at its place among the bytes, and the others are as they were. -/
lemma bytes_storeByte {index : ℕ} {byte : UInt8} {contents : List UInt8}
    (hbytes : o.bytes name = .ok contents) (hok : o.storeByte name index byte = .ok ((), o')) :
    o'.bytes name = .ok (contents.set index byte) := by
  obtain ⟨-, hformat, hindex, rfl⟩ := storeByte_eq_ok_iff.mp hok
  rw [bytes, if_pos hformat] at hbytes
  cases hbytes
  have hcount : o.byteCount ≤ o.body.length := Nat.sub_le _ _
  have hset : (o.overwrite index [byte]).body = o.body.set index byte := by
    rw [List.set_eq_take_append_cons_drop, if_pos (by omega), overwrite, List.append_assoc]
    rfl
  have hcount' : (o.overwrite index [byte]).byteCount = o.byteCount := by
    rw [byteCount, hset, List.length_set]
    rfl
  have hformat' : (o.overwrite index [byte]).format.isBytes = true := hformat
  rw [bytes, if_pos hformat', hcount', hset, List.take_set]

/-! ### What no operation changes -/

/-- Whether two objects agree in what no operation changes. -/
structure SameShape (o o' : Object) : Prop where
  classIndex : o'.classIndex = o.classIndex
  format : o'.format = o.format
  unused : o'.unused = o.unused
  hash : o'.hash = o.hash
  length : o'.body.length = o.body.length

/-- An object agrees with itself. -/
lemma SameShape.refl (o : Object) : o.SameShape o :=
  ⟨rfl, rfl, rfl, rfl, rfl⟩

/-- Two objects that agree with a third agree. -/
lemma SameShape.trans {o'' : Object} (h : o.SameShape o') (h' : o'.SameShape o'') :
    o.SameShape o'' :=
  ⟨h'.classIndex.trans h.classIndex, h'.format.trans h.format, h'.unused.trans h.unused,
    h'.hash.trans h.hash, h'.length.trans h.length⟩

/-- Overwriting bytes of a body changes the body only, and not its length. -/
lemma sameShape_overwrite (hfits : start + bytes.length ≤ o.body.length) :
    o.SameShape (o.overwrite start bytes) :=
  ⟨rfl, rfl, rfl, rfl, length_overwrite hfits⟩

/-- A store of a word keeps what no operation changes. -/
lemma sameShape_storeWord {index : ℕ} {word : UInt64} {a : Unit}
    (h : o.storeWord name index word = .ok (a, o')) : o.SameShape o' := by
  rw [storeWord] at h
  split at h
  · cases h
  · split at h
    · cases h
    · rename_i hindex
      cases h
      apply sameShape_overwrite
      rw [slotCount, Nat.not_le] at hindex
      rw [Word.length_bytes]
      simp only [wordSize] at hindex ⊢
      omega

/-- A store of bytes keeps what no operation changes. -/
lemma sameShape_storeBytes {offset count : ℕ} {bytes : List UInt8}
    (h : o.storeBytes name offset bytes = .ok (count, o')) : o.SameShape o' := by
  rw [storeBytes] at h
  split at h
  · cases h
  · split at h
    · cases h
    · cases h
      have hlength : (bytes.take (o.byteCount - offset)).length ≤ o.byteCount - offset :=
        List.length_take_le _ _
      have hcount : o.byteCount ≤ o.body.length := Nat.sub_le _ _
      cases hfitting : bytes.take (o.byteCount - offset) with
      | nil =>
        rw [overwrite_nil]
        exact SameShape.refl o
      | cons byte rest =>
        rw [hfitting, List.length_cons] at hlength
        apply sameShape_overwrite
        rw [List.length_cons]
        omega

/-- A store of one byte keeps what no operation changes. -/
lemma sameShape_storeByte {index : ℕ} {byte : UInt8} {a : Unit}
    (h : o.storeByte name index byte = .ok (a, o')) : o.SameShape o' := by
  obtain ⟨-, -, hindex, rfl⟩ := storeByte_eq_ok_iff.mp h
  have hcount : o.byteCount ≤ o.body.length := Nat.sub_le _ _
  apply sameShape_overwrite
  rw [List.length_singleton]
  omega

/-- Other flags keep what no operation changes. -/
lemma sameShape_setFlags {flags : HeaderFlags} {a : Unit}
    (h : o.setFlags flags = .ok (a, o')) : o.SameShape o' := by
  cases h
  exact ⟨rfl, rfl, rfl, rfl, rfl⟩

end Object

end TalkMachine
