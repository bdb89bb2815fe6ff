import TalkMachine.Method
import TalkMachine.Proofs.Heap.Bytes
import TalkMachine.Proofs.Outcome

/-!
# Methods in a heap

A method header has a byte each for the two counts of a frame (`Heap.counts_lt_of_methodHeader`).
What an interpreter asks of a method depends on the format and the slots of the object alone, so
that it is the same as long as nothing is stored into the method (`Heap.Keeps`). That includes the
bytes of its code (`Heap.HasCode.keeps`): each is a byte of the word in a slot.
-/

namespace TalkMachine

namespace Heap

variable {h h' : Heap} {method : Value} {header : MethodHeader}

/-- A method has at most 255 arguments and at most 255 temporaries. -/
lemma counts_lt_of_methodHeader (hheader : h.methodHeader method = .ok header) :
    header.argumentCount < 256 ∧ header.tempCount < 256 := by
  unfold methodHeader at hheader
  obtain ⟨word, -, hword⟩ := bind_eq_ok_iff.mp hheader
  split at hword
  · obtain rfl := Except.ok.inj hword
    simp only [MethodHeader.unpack]
    omega
  · cases hword

/-- An object has kept its format and its slots. -/
structure Keeps (object : Value) (h h' : Heap) : Prop where
  format : h'.format object = h.format object
  fetch : ∀ index, h'.fetch object index = h.fetch object index

namespace Keeps

/-- An object is kept where nothing happens. -/
lemma refl (object : Value) (h : Heap) : Keeps object h h :=
  ⟨rfl, fun _ => rfl⟩

/-- An object is kept by one change after the other. -/
lemma trans {h'' : Heap} (keeps : Keeps method h h') (keeps' : Keeps method h' h'') :
    Keeps method h h'' :=
  ⟨keeps'.format.trans keeps.format, fun index => (keeps'.fetch index).trans (keeps.fetch index)⟩

/-- A kept method is still a method. -/
lemma isCompiledMethod (keeps : Keeps method h h') :
    h'.isCompiledMethod method = h.isCompiledMethod method := by
  unfold Heap.isCompiledMethod
  rw [keeps.format]

/-- A kept method has the header it had. -/
lemma methodHeader (keeps : Keeps method h h') :
    h'.methodHeader method = h.methodHeader method := by
  unfold Heap.methodHeader
  rw [keeps.fetch]

/-- A kept method has the literals it had. -/
lemma methodLiteral (keeps : Keeps method h h') (index : ℕ) :
    h'.methodLiteral method index = h.methodLiteral method index := by
  unfold Heap.methodLiteral
  rw [keeps.methodHeader, keeps.fetch]

end Keeps

/-! ### The bytes of a kept object -/

section Bytes

variable {object : Value} {address size : ℕ} {contents : List UInt8}

/-- An object that has a format has an address. -/
lemma exists_addressOf_of_format {f : ObjectFormat × ℕ} (hformat : h.format object = .ok f) :
    ∃ address, h.addressOf object = .ok address := by
  obtain ⟨header, hheader, -⟩ := bind_eq_ok_iff.mp hformat
  obtain ⟨address, haddress, -⟩ := bind_eq_ok_iff.mp hheader
  exact ⟨address, haddress⟩

/-- What is fetched from a slot, by the number of slots. -/
lemma fetch_of_slotCount (haddress : h.addressOf object = .ok address)
    (hsize : h.slotCount object = .ok size) (index : ℕ) : h.fetch object index =
      if size ≤ index then .error (.indexOutOfBounds object index size)
      else .ok ⟨h.wordAt (address + 8 + index * 8)⟩ := by
  rw [Heap.fetch, slotAddress, hsize, firstField, haddress]
  by_cases hindex : size ≤ index
  · rw [if_pos hindex]
    simp only [bind, Except.bind, if_pos hindex]
    rfl
  · rw [if_neg hindex]
    simp only [bind, Except.bind, if_neg hindex]
    rfl

/-- A slot count is never refused for an index. -/
lemma slotCount_ne_indexOutOfBounds {value : Value} {index : ℕ} :
    h.slotCount object ≠ .error (.indexOutOfBounds value index size) := by
  unfold slotCount addressOf
  split
  · simp [bind, Except.bind]
  · split
    · simp [bind, Except.bind]
    · simp only [bind, Except.bind]
      split
      · split <;> simp [throw, throwThe, MonadExceptOf.throw, pure, Except.pure]
      · simp [pure, Except.pure]

/-- A kept object has as many slots as it had: the first slot that it lacks is the same. -/
lemma Keeps.slotCount (keeps : Keeps object h h') (haddress : h.addressOf object = .ok address)
    (haddress' : h'.addressOf object = .ok address) (hsize : h.slotCount object = .ok size) :
    h'.slotCount object = .ok size := by
  have hfetch := keeps.fetch size
  rw [fetch_of_slotCount haddress hsize, if_pos (Nat.le_refl size)] at hfetch
  cases hsize' : h'.slotCount object with
  | error e =>
    rw [Heap.fetch, slotAddress, hsize'] at hfetch
    rw [Except.error.inj hfetch] at hsize'
    exact absurd hsize' slotCount_ne_indexOutOfBounds
  | ok size' =>
    rw [fetch_of_slotCount haddress' hsize'] at hfetch
    split at hfetch
    · cases hfetch
      rfl
    · cases hfetch

/-- A byte of an object is one of the word in its slot. -/
lemma byteAt_eq_of_fetch (haddress : h.addressOf object = .ok address)
    (hsize : h.slotCount object = .ok size) {k : ℕ} (hk : k < 8 * size) :
    ∃ value, h.fetch object (k / 8) = .ok value ∧
      h.byteAt (address + 8 + k) = Word.byte value.raw (k % 8) := by
  obtain ⟨hobject, hraw, -⟩ := addressOf_eq_ok_iff.mp haddress
  have haligned : address % 8 = 0 := hraw ▸ Value.mod_eight_of_isObject hobject
  refine ⟨_, (fetch_of_slotCount haddress hsize (k / 8)).trans (if_neg (by omega)), ?_⟩
  rw [byteAt, wordAt, wordAt, wordSize, show (address + 8 + k) % 8 = k % 8 by omega,
    show (address + 8 + k / 8 * 8) / 8 = (address + 8 + k) / 8 by omega]

/-- The number of bytes of an object. -/
lemma byteSize_eq_ok_iff {count : ℕ} : h.byteSize object = .ok count ↔
    ∃ format unused size, h.format object = .ok (format, unused) ∧ format.isBytes = true ∧
      h.slotCount object = .ok size ∧ count = size * 8 - unused := by
  rw [byteSize, bind_eq_ok_iff]
  constructor
  · rintro ⟨⟨format, unused⟩, hformat, hsize⟩
    obtain ⟨hbytes, hsize⟩ := guard_eq_ok_iff.mp hsize
    obtain ⟨size, hslots, hcount⟩ := bind_eq_ok_iff.mp hsize
    exact ⟨format, unused, size, hformat, by simpa using hbytes, hslots,
      (Except.ok.inj hcount).symm⟩
  · rintro ⟨format, unused, size, hformat, hbytes, hslots, rfl⟩
    refine ⟨(format, unused), hformat, guard_eq_ok_iff.mpr ⟨by simp [hbytes], ?_⟩⟩
    exact bind_eq_ok_iff.mpr ⟨size, hslots, rfl⟩

/-- The bytes of an object from an offset on. -/
lemma bytesFrom_eq_ok_iff {offset count : ℕ} : h.bytesFrom object offset count = .ok contents ↔
    ∃ size address, h.byteSize object = .ok size ∧ h.addressOf object = .ok address ∧
      (List.range (min count (size - offset))).map (fun k => h.byteAt (address + 8 + offset + k)) =
        contents := by
  simp only [bytesFrom, firstField, bind_eq_ok_iff, pure, Except.pure, Except.ok.injEq, wordSize]
  constructor
  · rintro ⟨size, hsize, _, ⟨address, haddress, rfl⟩, hcontents⟩
    exact ⟨size, address, hsize, haddress, hcontents⟩
  · rintro ⟨size, address, hsize, haddress, hcontents⟩
    exact ⟨size, hsize, _, ⟨address, haddress, rfl⟩, hcontents⟩

/-- All bytes of an object. -/
lemma bytes_eq_ok_iff : h.bytes object = .ok contents ↔
    ∃ size address, h.byteSize object = .ok size ∧ h.addressOf object = .ok address ∧
      (List.range size).map (fun k => h.byteAt (address + 8 + k)) = contents := by
  rw [Heap.bytes, bind_eq_ok_iff]
  simp only [bytesFrom_eq_ok_iff, Nat.sub_zero, Nat.add_zero]
  constructor
  · rintro ⟨size, hsize, size', address, hsize', haddress, hcontents⟩
    obtain rfl := Except.ok.inj (hsize.symm.trans hsize')
    rw [Nat.min_self] at hcontents
    exact ⟨size, address, hsize, haddress, hcontents⟩
  · rintro ⟨size, address, hsize, haddress, hcontents⟩
    exact ⟨size, hsize, size, address, hsize, haddress, by rw [Nat.min_self, hcontents]⟩

/-- Some bytes of an object are a part of all of them. -/
lemma bytesFrom_of_bytes (hbytes : h.bytes object = .ok contents) (offset count : ℕ) :
    h.bytesFrom object offset count = .ok ((contents.drop offset).take count) := by
  obtain ⟨size, address, hsize, haddress, rfl⟩ := bytes_eq_ok_iff.mp hbytes
  refine bytesFrom_eq_ok_iff.mpr ⟨size, address, hsize, haddress, ?_⟩
  apply List.ext_getElem
  · simp
  · intro k hk hk'
    simp [Nat.add_assoc]

/-- A kept object has the bytes it had. -/
lemma Keeps.bytes_eq_ok (keeps : Keeps object h h') (hbytes : h.bytes object = .ok contents) :
    h'.bytes object = .ok contents := by
  obtain ⟨count, address, hcount, haddress, rfl⟩ := bytes_eq_ok_iff.mp hbytes
  obtain ⟨format, unused, size, hformat, hisBytes, hsize, rfl⟩ := byteSize_eq_ok_iff.mp hcount
  have hformat' := keeps.format.trans hformat
  obtain ⟨address', haddress'⟩ := exists_addressOf_of_format hformat'
  obtain rfl : address' = address :=
    (addressOf_eq_ok_iff.mp haddress').2.1.symm.trans (addressOf_eq_ok_iff.mp haddress).2.1
  have hsize' := keeps.slotCount haddress haddress' hsize
  refine bytes_eq_ok_iff.mpr ⟨_, address', byteSize_eq_ok_iff.mpr
    ⟨format, unused, size, hformat', hisBytes, hsize', rfl⟩, haddress', ?_⟩
  refine List.map_congr_left fun k hk => ?_
  have hlt : k < 8 * size := by
    have := List.mem_range.mp hk
    omega
  obtain ⟨value, hvalue, hbyte⟩ := byteAt_eq_of_fetch haddress hsize hlt
  obtain ⟨value', hvalue', hbyte'⟩ := byteAt_eq_of_fetch haddress' hsize' hlt
  rw [keeps.fetch, hvalue] at hvalue'
  rw [hbyte, hbyte', Except.ok.inj hvalue']

end Bytes

/-! ### Code in a heap -/

/-- A value is a method with this header, whose code is these bytes. -/
structure HasCode (h : Heap) (method : Value) (header : MethodHeader) (code : List UInt8) :
    Prop where
  compiled : h.isCompiledMethod method = true
  reads : h.methodHeader method = .ok header
  bytes : ∃ front : List UInt8, front.length = header.initialPc ∧
    h.bytes method = .ok (front ++ code)

variable {code : List UInt8}

/-- A kept method has the code it had. -/
lemma HasCode.keeps (hcode : h.HasCode method header code) (keeps : Keeps method h h') :
    h'.HasCode method header code := by
  obtain ⟨front, hfront, hbytes⟩ := hcode.bytes
  exact ⟨keeps.isCompiledMethod.trans hcode.compiled, keeps.methodHeader.trans hcode.reads,
    front, hfront, keeps.bytes_eq_ok hbytes⟩

/-- The bytes that lie at a program counter. -/
lemma HasCode.bytesFrom (hcode : h.HasCode method header code) (k count : ℕ) :
    h.bytesFrom method (header.initialPc + k) count = .ok ((code.drop k).take count) := by
  obtain ⟨front, hfront, hbytes⟩ := hcode.bytes
  rw [bytesFrom_of_bytes hbytes, ← hfront, List.drop_append, List.drop_eq_nil_of_le (by omega),
    List.nil_append, Nat.add_sub_cancel_left]

end Heap

end TalkMachine
