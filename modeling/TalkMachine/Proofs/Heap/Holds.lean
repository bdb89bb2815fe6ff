import TalkMachine.Proofs.Heap.Body
import TalkMachine.Proofs.Heap.Bytes
import TalkMachine.Proofs.Object.Header

/-!
# An object in the arena

`Heap.Holds` says that the words at an address are those of an object: its header, the word with its
slot count if the header cannot hold that, and its body. All questions about the object are then
answered from the object (`Heap.Holds.shows`), and the words matter only where the object lies
(`Heap.Holds.congr`).
-/

namespace TalkMachine

namespace Object

/-- The header of an object. -/
def header (o : Object) : Header :=
  Header.encode (min o.slotCount Header.overflowSlots) (o.format.code o.unused) o.classIndex o.hash
    o.flags

/-- Whether an object at an address takes up a byte: with the word of its slot count if it has one,
with its header, or with its body. -/
def Covers (o : Object) (address b : ℕ) : Prop :=
  address + 8 ≤ b + 8 * Heap.headerWords o.slotCount ∧ b < address + 8 + o.body.length

variable {o : Object}

/-- Before the body of an object stand one or two words. -/
lemma headerWords_cases (o : Object) :
    (Heap.headerWords o.slotCount = 1 ∧ o.slotCount < 255) ∨
      (Heap.headerWords o.slotCount = 2 ∧ 255 ≤ o.slotCount) := by
  rw [Heap.headerWords, Header.overflowSlots]
  rcases Nat.lt_or_ge o.slotCount 255 with hslots | hslots
  · exact Or.inl ⟨if_neg (Nat.not_le.mpr hslots), hslots⟩
  · exact Or.inr ⟨if_pos hslots, hslots⟩

/-- The format code in the header of an object stands for its format. -/
lemma WellFormed.ofCode?_header (h : o.WellFormed) :
    ObjectFormat.ofCode? o.header.formatCode = some (o.format, o.unused) := by
  have hcode : o.header.formatCode = o.format.code o.unused := by
    rw [header, Header.formatCode_encode, Nat.mod_eq_of_lt (ObjectFormat.code_lt h.unused_lt)]
  rw [hcode, ObjectFormat.ofCode?_code h.unused_lt]

/-- The header of an object tells whether stores are refused. -/
lemma isImmutable_header (o : Object) : o.header.isImmutable = o.flags.immutable := by
  rw [Header.isImmutable, header, Header.flags_encode]

/-- The slot count in the header of an object, at most the greatest it can hold. -/
lemma slotCount_header (o : Object) : o.header.slotCount = min o.slotCount 255 := by
  rw [header, Header.slotCount_encode, Header.overflowSlots]
  omega

/-- The header of an object refers to the word before it just when that holds the slot count. -/
lemma isExtended_header (o : Object) : o.header.isExtended = decide (255 ≤ o.slotCount) := by
  rw [Header.isExtended, slotCount_header, Header.overflowSlots, Bool.eq_iff_iff]
  simp

end Object

namespace Heap

/-- Whether an object lies at an address of the arena. -/
structure Holds (h : Heap) (address : ℕ) (o : Object) : Prop where
  wellFormed : o.WellFormed
  aligned : address % 8 = 0
  /-- The first word of the arena belongs to no object. -/
  front : 8 * headerWords o.slotCount ≤ address
  fits : address + 8 + o.body.length ≤ h.usedBytes
  header : h.wordAt address = o.header.raw
  extended : 255 ≤ o.slotCount → h.wordAt (address - 8) = UInt64.ofNat o.slotCount
  body : ∀ {k : ℕ} {byte : UInt8}, o.body[k]? = some byte → h.byteAt (address + 8 + k) = byte

namespace Holds

variable {h h' : Heap} {address : ℕ} {o : Object}

/-- An object stays as long as the bytes it takes up do. -/
theorem congr (hold : h.Holds address o) (hused : h.usedBytes ≤ h'.usedBytes)
    (heq : ∀ b, o.Covers address b → h'.byteAt b = h.byteAt b) : h'.Holds address o := by
  have hfront := hold.front
  have haligned := hold.aligned
  refine ⟨hold.wellFormed, haligned, hfront, hold.fits.trans hused, ?_, fun hslots => ?_,
    fun {k byte} hk => ?_⟩
  · rw [← hold.header]
    refine wordAt_congr haligned fun k hk => heq _ ⟨?_, by omega⟩
    rcases o.headerWords_cases with ⟨hwords, -⟩ | ⟨hwords, -⟩ <;> omega
  · rw [← hold.extended hslots]
    refine wordAt_congr (by omega) fun k hk => heq _ ⟨?_, ?_⟩ <;>
      rcases o.headerWords_cases with ⟨hwords, hlt⟩ | ⟨hwords, -⟩ <;> omega
  · have hlt : k < o.body.length := (List.getElem?_eq_some_iff.mp hk).1
    rw [← hold.body hk]
    refine heq _ ⟨?_, by omega⟩
    rcases o.headerWords_cases with ⟨hwords, -⟩ | ⟨hwords, -⟩ <;> omega

/-- Two heaps that hold the same object at an address agree on all bytes that it takes up. -/
theorem byteAt_eq (hold : h.Holds address o) (hold' : h'.Holds address o) {b : ℕ}
    (hb : o.Covers address b) : h'.byteAt b = h.byteAt b := by
  obtain ⟨hstart, hend⟩ := hb
  have haligned := hold.aligned
  have hfront := hold.front
  rcases Nat.lt_or_ge b (address + 8) with hlt | hge
  · rcases Nat.lt_or_ge b address with hbefore | hheader
    · have hslots : 255 ≤ o.slotCount := by
        rcases o.headerWords_cases with ⟨hwords, -⟩ | ⟨-, hslots⟩
        · omega
        · exact hslots
      have hwords := o.headerWords_cases
      have hplace : b = address - 8 + (b - (address - 8)) := by omega
      rw [hplace, byteAt_add h' (by omega) (by omega), byteAt_add h (by omega) (by omega),
        hold.extended hslots, hold'.extended hslots]
    · have hplace : b = address + (b - address) := by omega
      rw [hplace, byteAt_add h' haligned (by omega), byteAt_add h haligned (by omega), hold.header,
        hold'.header]
  · have hplace : b = address + 8 + (b - (address + 8)) := by omega
    have hlt : b - (address + 8) < o.body.length := by omega
    rw [hplace, hold.body (List.getElem?_eq_getElem hlt), hold'.body (List.getElem?_eq_getElem hlt)]

/-! ### Questions -/

variable {name : Value}

/-- The format is asked from the code in the header. -/
lemma format_of_header {header : Header} {answer : ObjectFormat × ℕ}
    (hheader : h.header name = .ok header)
    (hcode : ObjectFormat.ofCode? header.formatCode = some answer) :
    h.format name = .ok answer := by
  rw [Heap.format, hheader]
  simp only [Bind.bind, Except.bind, hcode]
  rfl

/-- The value that names an object in the arena has the tag of objects. -/
lemma isObject (hold : h.Holds name.raw.toNat o) : name.isObject = true := by
  have hfront := hold.front
  have haligned := hold.aligned
  have hzero : name.raw ≠ 0 := by
    intro hzero
    rw [hzero] at hfront
    rcases o.headerWords_cases with ⟨hwords, -⟩ | ⟨hwords, -⟩ <;> simp [hwords] at hfront
  have htag : name.raw % 8 = 0 := by
    rw [← UInt64.toNat_inj, UInt64.toNat_mod]
    exact haligned
  simp [Value.isObject, Value.tag, hzero, htag]

/-- An object in the arena is no immediate value. -/
lemma immediateClass?_eq (hold : h.Holds name.raw.toNat o) : name.immediateClass? = none := by
  have haligned := hold.aligned
  have hinteger : name.isSmallInteger = false := by
    have hmod : (name.raw % 2).toNat = name.raw.toNat % 2 := UInt64.toNat_mod _ _
    rw [Value.isSmallInteger, beq_eq_false_iff_ne, ne_eq, ← UInt64.toNat_inj, hmod,
      UInt64.toNat_one]
    omega
  have hkind : name.kind = .object := by
    rw [Value.kind, hinteger, hold.isObject]
    rfl
  rw [Value.immediateClass?, hkind]

/-- The address of an object that lies in the arena. -/
lemma addressOf_eq (hold : h.Holds name.raw.toNat o) : h.addressOf name = .ok name.raw.toNat := by
  have hfits := hold.fits
  exact addressOf_eq_ok_iff.mpr ⟨hold.isObject, rfl, by omega⟩

/-- The header of an object that lies in the arena. -/
lemma header_eq (hold : h.Holds name.raw.toNat o) : h.header name = .ok o.header := by
  rw [Heap.header, hold.addressOf_eq]
  exact congrArg Except.ok (congrArg Header.mk hold.header)

/-- The format of an object that lies in the arena. -/
lemma format_eq (hold : h.Holds name.raw.toNat o) : h.format name = .ok (o.format, o.unused) :=
  format_of_header hold.header_eq hold.wellFormed.ofCode?_header

/-- The slot count is asked from the header, or from the word before it. -/
lemma slotCount_of_header {header : Header} (haddress : h.addressOf name = .ok address)
    (hheader : Header.mk (h.wordAt address) = header) :
    h.slotCount name =
      if header.isExtended then
        if address < 16 then .error (.corruptHeader name)
        else .ok (h.wordAt (address - 8)).toNat
      else .ok header.slotCount := by
  rw [Heap.slotCount, haddress]
  simp only [Bind.bind, Except.bind, hheader, wordSize]
  split
  · split <;> rfl
  · rfl

/-- The slot count of an object that lies in the arena, also if the header cannot hold it. -/
lemma slotCount_eq (hold : h.Holds name.raw.toNat o) (hused : h.usedBytes < 2 ^ 64) :
    h.slotCount name = .ok o.slotCount := by
  have hfront := hold.front
  have hfits := hold.fits
  have hlength := hold.wellFormed.length_eq
  rw [slotCount_of_header hold.addressOf_eq (congrArg Header.mk hold.header),
    o.isExtended_header, o.slotCount_header]
  rcases o.headerWords_cases with ⟨hwords, hlt⟩ | ⟨hwords, hge⟩
  · rw [if_neg (by simp [hlt]), min_eq_left (by omega)]
  · rw [if_pos (by simp [hge]), if_neg (by omega), hold.extended hge,
      UInt64.toNat_ofNat_of_lt' (by simp only [UInt64.size]; omega)]

/-- Where the slots of an object that lies in the arena are. -/
lemma slotAddress_eq (hold : h.Holds name.raw.toNat o) (hused : h.usedBytes < 2 ^ 64)
    (index : ℕ) : h.slotAddress name index =
      if o.slotCount ≤ index then .error (.indexOutOfBounds name index o.slotCount)
      else .ok (name.raw.toNat + 8 + index * 8) := by
  rw [slotAddress, hold.slotCount_eq hused, firstField, hold.addressOf_eq]
  simp only [Bind.bind, Except.bind, wordSize]
  split <;> rfl

/-- The word in a slot of an object that lies in the arena. -/
lemma wordAt_eq (hold : h.Holds address o) {index : ℕ} (hindex : index < o.slotCount) :
    h.wordAt (address + 8 + index * 8) = o.word index := by
  have haligned := hold.aligned
  apply Word.ext_byte
  intro k hk
  have hbyte := hold.body (hold.wellFormed.byte_word hindex hk)
  rw [← hbyte, ← byteAt_add h (by omega) hk]
  congr 1
  omega

/-- The values in the slots of an object that lies in the arena. -/
lemma fetch_eq (hold : h.Holds name.raw.toNat o) (hused : h.usedBytes < 2 ^ 64) (index : ℕ) :
    h.fetch name index = o.fetch name index := by
  rw [Heap.fetch, hold.slotAddress_eq hused, Object.fetch]
  rcases Nat.lt_or_ge index o.slotCount with hindex | hindex
  · rw [if_neg (Nat.not_le.mpr hindex), if_neg (Nat.not_le.mpr hindex), ← hold.wordAt_eq hindex]
    rfl
  · rw [if_pos hindex, if_pos hindex]
    rfl

/-- The number of bytes of an object that lies in the arena. -/
lemma byteSize_eq (hold : h.Holds name.raw.toNat o) (hused : h.usedBytes < 2 ^ 64) :
    h.byteSize name =
      if o.format.isBytes then .ok o.byteCount else .error (.notBytes name) := by
  have hlength := hold.wellFormed.length_eq
  rw [byteSize, hold.format_eq, hold.slotCount_eq hused]
  cases hbytes : o.format.isBytes with
  | false => simp [Bind.bind, Except.bind, hbytes, throw, throwThe, MonadExceptOf.throw]
  | true =>
    simp only [Bind.bind, Except.bind, hbytes, Bool.not_true, Bool.false_eq_true, if_false, if_true,
      pure, Except.pure, Object.byteCount, wordSize, hlength, Nat.mul_comm]

/-- The bytes of an object that lies in the arena. -/
lemma bytes_eq (hold : h.Holds name.raw.toNat o) (hused : h.usedBytes < 2 ^ 64) :
    h.bytes name = o.bytes name := by
  have hunused := hold.wellFormed.unused_le
  rw [Heap.bytes, hold.byteSize_eq hused, Object.bytes]
  cases hbytes : o.format.isBytes with
  | false => rfl
  | true =>
    have hall : (List.range (min o.byteCount (o.byteCount - 0))).map
        (fun i => h.byteAt (name.raw.toNat + 8 + 0 + i)) = o.body.take o.byteCount := by
      apply List.ext_getElem?
      intro k
      rw [Nat.sub_zero, min_self, List.getElem?_map, List.getElem?_take]
      rcases Nat.lt_or_ge k o.byteCount with hk | hk
      · have hlt : k < o.body.length := by
          rw [Object.byteCount] at hk
          omega
        have hbody : o.body[k]? = some o.body[k] := List.getElem?_eq_getElem hlt
        rw [if_pos hk, List.getElem?_range hk, hbody, Option.map_some, Nat.add_zero,
          hold.body hbody]
      · rw [if_neg (Nat.not_lt.mpr hk), List.getElem?_eq_none (by simpa using hk), Option.map_none]
    have hfrom : h.bytesFrom name 0 o.byteCount = .ok (o.body.take o.byteCount) := by
      rw [bytesFrom, hold.byteSize_eq hused, hbytes, firstField, hold.addressOf_eq, ← hall]
      rfl
    exact hfrom

/-- One byte of an object that lies in the arena. -/
lemma fetchByte_eq (hold : h.Holds name.raw.toNat o) (hused : h.usedBytes < 2 ^ 64) (index : ℕ) :
    h.fetchByte name index = o.fetchByte name index := by
  have hunused := hold.wellFormed.unused_le
  rw [Heap.fetchByte, hold.byteSize_eq hused, firstField, hold.addressOf_eq, Object.fetchByte,
    Object.bytes]
  cases hbytes : o.format.isBytes with
  | false => rfl
  | true =>
    have hmatch : ((o.body.take o.byteCount)[index]?) =
        if o.byteCount ≤ index then none else some (h.byteAt (name.raw.toNat + 8 + index)) := by
      rw [List.getElem?_take]
      rcases Nat.lt_or_ge index o.byteCount with hindex | hindex
      · have hlt : index < o.body.length := by
          rw [Object.byteCount] at hindex
          omega
        have hbody : o.body[index]? = some o.body[index] := List.getElem?_eq_getElem hlt
        rw [if_pos hindex, if_neg (Nat.not_le.mpr hindex), hold.body hbody, hbody]
      · rw [if_neg (Nat.not_lt.mpr hindex), if_pos hindex]
    simp only [Bind.bind, Except.bind, if_true, hmatch, wordSize]
    rcases Nat.lt_or_ge index o.byteCount with hindex | hindex
    · simp only [if_neg (Nat.not_le.mpr hindex)]
      rfl
    · simp only [if_pos hindex]
      rfl

end Holds

/-- Whether all questions about the object called `name` are answered from an object. -/
structure Shows (h : Heap) (name : Value) (o : Object) : Prop where
  header : h.header name = .ok o.header
  classIndex : h.classIndexOf name = .ok o.classIndex
  format : h.format name = .ok (o.format, o.unused)
  hash : h.identityHashOf name = .ok o.hash
  immutable : h.isImmutable name = .ok o.flags.immutable
  slotCount : h.slotCount name = .ok o.slotCount
  fetch : ∀ index, h.fetch name index = o.fetch name index
  fetchWord : ∀ index, h.fetchWord name index = (o.fetch name index).map Value.raw
  fetchByte : ∀ index, h.fetchByte name index = o.fetchByte name index
  bytes : h.bytes name = o.bytes name

/-- All questions about an object that lies in the arena are answered from it. -/
theorem Holds.shows {h : Heap} {name : Value} {o : Object} (hold : h.Holds name.raw.toNat o)
    (hused : h.usedBytes < 2 ^ 64) : h.Shows name o := by
  have hclass : o.header.classIndex = o.classIndex := by
    rw [Object.header, Header.classIndex_encode, Nat.mod_eq_of_lt hold.wellFormed.classIndex_lt]
  have hhash : o.header.identityHash = o.hash := by
    rw [Object.header, Header.identityHash_encode, Nat.mod_eq_of_lt hold.wellFormed.hash_lt]
  refine ⟨hold.header_eq, ?_, hold.format_eq, ?_, ?_, hold.slotCount_eq hused,
    hold.fetch_eq hused, fun index => ?_, hold.fetchByte_eq hused, hold.bytes_eq hused⟩
  · rw [classIndexOf, hold.immediateClass?_eq, hold.header_eq, ← hclass]
    rfl
  · rw [identityHashOf, Value.isImmediate, hold.immediateClass?_eq, hold.header_eq, ← hhash]
    rfl
  · rw [isImmutable, hold.header_eq]
    exact congrArg Except.ok o.isImmutable_header
  · rw [Heap.fetchWord, hold.fetch_eq hused]
    cases o.fetch name index <;> rfl

end Heap

end TalkMachine
