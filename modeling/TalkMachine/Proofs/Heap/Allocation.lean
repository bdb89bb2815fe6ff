import Mathlib.Algebra.Order.Floor.Div
import TalkMachine.Proofs.Heap.Room

/-!
# Allocation

What allocation does is known of every heap that operations have led to, whatever they were about and
whether they were refused (`Heap.Reached`). All that is used of such a heap is that its bytes in use
are within its limit (`Heap.Bounded`). An allocation succeeds just when the class index fits a header,
the format has fields of the kinds asked for, and the words of the object are left; the object then
shows what it was allocated for (`Heap.Reached.allocates`).
-/

namespace TalkMachine

/-! ### Fields of formats -/

namespace ObjectFormat

/-- Whether objects of a format may have named fields. -/
def hasNamedFields : ObjectFormat → Bool
  | fixedSize | weakFixedSize | variableSizeIvars | weakVariableSize => true
  | _ => false

/-- A format admits the fields that it has. -/
lemma admits_iff (format : ObjectFormat) (fixed indexed : ℕ) :
    format.admits fixed indexed = true ↔
      (fixed = 0 ∨ format.hasNamedFields = true) ∧ (indexed = 0 ∨ format.isIndexable = true) := by
  cases format <;> simp [admits, hasNamedFields, isIndexable]

/-- Indexed elements take as many words as hold them. -/
lemma slotsFor_eq_ceilDiv (format : ObjectFormat) (count : ℕ) :
    format.slotsFor count = count ⌈/⌉ format.divisor :=
  (Nat.ceilDiv_eq_add_pred_div _ _).symm

/-- A pointer takes a word. -/
lemma slotsFor_of_isPointers {format : ObjectFormat} (hpointers : format.isPointers = true)
    (count : ℕ) : format.slotsFor count = count := by
  have hdivisor : format.divisor = 1 := by
    revert hpointers
    cases format <;> decide
  rw [slotsFor, hdivisor, Nat.div_one, Nat.add_sub_cancel]

/-- Where there are no named fields, the elements are those that were asked for. -/
lemma eq_zero_of_admits {format : ObjectFormat} (hpointers : format.isPointers = false)
    {fixed indexed : ℕ} (hadmits : format.admits fixed indexed = true) : fixed = 0 := by
  refine ((format.admits_iff fixed indexed).mp hadmits).1.resolve_right ?_
  revert hpointers
  cases format <;> decide

/-- Bytes are no pointers. -/
lemma isPointers_of_isBytes {format : ObjectFormat} (hbytes : format.isBytes = true) :
    format.isPointers = false := by
  revert hbytes
  cases format <;> decide

end ObjectFormat

namespace Heap

variable {h h' : Heap} {object name : Value} {o : Object} {fixed indexed classIndex : ℕ}
  {format : ObjectFormat} {hash : Option ℕ}

/-! ### Heaps within their limits -/

/-- The object map of a heap, if none of its objects are spoken of. -/
def unpopulated (h : Heap) : ObjectMap :=
  ⟨h.limit, h.usedBytes, h.nil, fun _ => none⟩

/-- Whether the bytes in use are within the limit of a heap, and can be counted in a word. -/
structure Bounded (h : Heap) : Prop where
  le_used : 8 ≤ h.usedBytes
  used_le : h.usedBytes ≤ h.limit
  limit_lt : h.limit < 2 ^ 64

namespace Bounded

/-- The new heap is within its limit. -/
lemma new {limit : ℕ} (hlimit : limit < 2 ^ 64) : (Heap.new limit).Bounded :=
  ⟨le_rfl, le_max_right _ _, max_lt hlimit (by decide)⟩

/-- The bytes in use can be counted in a word. -/
lemma usedBytes_lt (hbounded : h.Bounded) : h.usedBytes < 2 ^ 64 :=
  hbounded.used_le.trans_lt hbounded.limit_lt

/-- A heap that uses as many bytes, with the same limit, is within it. -/
lemma congr (hbounded : h.Bounded) (hused : h'.usedBytes = h.usedBytes)
    (hlimit : h'.limit = h.limit) : h'.Bounded := by
  obtain ⟨hle, hused_le, hlt⟩ := hbounded
  exact ⟨hused ▸ hle, hused ▸ hlimit ▸ hused_le, hlimit ▸ hlt⟩

/-- A heap that represents objects is within its limit. -/
lemma of_represents {s : ObjectMap} (rep : h.Represents s) : h.Bounded :=
  ⟨rep.used_eq ▸ rep.le_used, rep.used_eq ▸ rep.limit_eq ▸ rep.used_le, rep.limit_eq ▸ rep.limit_lt⟩

/-- A heap represents no objects, if none are spoken of. -/
lemma represents_unpopulated (hbounded : h.Bounded) : h.Represents h.unpopulated :=
  ⟨rfl, rfl, rfl, hbounded.le_used, hbounded.used_le, hbounded.limit_lt, nofun, nofun⟩

/-- A heap represents any one object that it holds, if no others are spoken of. -/
lemma represents_put (hbounded : h.Bounded) (hold : h.Holds name.raw.toNat o) :
    h.Represents (h.unpopulated.put name o) := by
  have hfound : ∀ {other : Value} {p : Object}, (h.unpopulated.put name o).objects other = some p →
      other = name ∧ p = o := by
    intro other p hp
    rcases ObjectMap.objects_put_cases hp with hsame | ⟨-, hnone⟩
    · exact hsame
    · cases hnone
  refine ⟨rfl, rfl, rfl, hbounded.le_used, hbounded.used_le, hbounded.limit_lt, fun hp => ?_,
    fun hp hp' hne => ?_⟩
  · obtain ⟨rfl, rfl⟩ := hfound hp
    exact hold
  · exact absurd ((hfound hp).1.trans (hfound hp').1.symm) hne

end Bounded

/-! ### Allocation taken apart -/

/-- The bytes that an object takes up, with its header and with its slot count if the header has no
room for that. -/
lemma objectSize_eq (slots : ℕ) : objectSize slots = 8 * ((if slots < 255 then 1 else 2) + slots) := by
  rw [objectSize, headerWords, wordSize, Header.overflowSlots]
  rcases Nat.lt_or_ge slots 255 with hslots | hslots
  · rw [if_pos hslots, if_neg (Nat.not_le.mpr hslots)]
  · rw [if_neg (Nat.not_lt.mpr hslots), if_pos hslots]

/-- What allocation leaves when it is not refused: a fresh object behind the bytes that were in use,
and nothing else is different. -/
structure Allocates (h : Heap) (fixed indexed : ℕ) (format : ObjectFormat) (classIndex : ℕ)
    (hash : Option ℕ) (object : Value) (h' : Heap) : Prop where
  le_maxClassIndex : classIndex ≤ Header.maxClassIndex
  admits : format.admits fixed indexed = true
  used_eq : h'.usedBytes = h.usedBytes + objectSize (fixed + format.slotsFor indexed)
  used_le : h'.usedBytes ≤ h'.limit
  limit_eq : h'.limit = h.limit
  nil_eq : h'.nil = h.nil
  behind : h.usedBytes ≤ object.raw.toNat
  byteAt_eq : ∀ b < h.usedBytes, h'.byteAt b = h.byteAt b
  holds : h'.Holds object.raw.toNat (ObjectMap.fresh fixed indexed format classIndex
    (hash.getD (object.raw.toNat / 8)) (if format.isPointers then h.nil else Value.zero).raw)

/-- The hash that an object takes from its address is cut like any other. -/
lemma fresh_addressHash (fixed indexed : ℕ) (format : ObjectFormat) (classIndex : ℕ)
    (hash : Option ℕ) (address : ℕ) (fill : UInt64) :
    ObjectMap.fresh fixed indexed format classIndex (hash.getD (addressHash address)) fill =
      ObjectMap.fresh fixed indexed format classIndex (hash.getD (address / 8)) fill := by
  cases hash with
  | none => simp [ObjectMap.fresh, addressHash, wordSize]
  | some hash => rfl

/-- Allocation succeeds as soon as nothing speaks against it. -/
lemma Bounded.exists_allocates (hbounded : h.Bounded) (hash : Option ℕ)
    (hclass : classIndex ≤ Header.maxClassIndex) (hadmits : format.admits fixed indexed = true)
    (hroom : h.usedBytes + objectSize (fixed + format.slotsFor indexed) ≤ h.limit) :
    ∃ object h', allocate fixed indexed format classIndex hash h = .ok object h' ∧
      h.Allocates fixed indexed format classIndex hash object h' := by
  obtain ⟨address, haddress⟩ : ∃ address, address =
    h.usedBytes + 8 * (headerWords (fixed + format.slotsFor indexed) - 1) := ⟨_, rfl⟩
  obtain ⟨fill, hfill⟩ : ∃ fill, fill = (if format.isPointers then h.nil else Value.zero).raw :=
    ⟨_, rfl⟩
  obtain ⟨o, ho⟩ : ∃ o, o = ObjectMap.fresh fixed indexed format classIndex
    (hash.getD (addressHash address)) fill := ⟨_, rfl⟩
  have hcount : o.slotCount = fixed + format.slotsFor indexed := by rw [ho, slotCount_fresh]
  rw [← hcount] at haddress
  have hok := allocate_of_room hclass hadmits (hfill.trans (apply_ite Value.raw _ _ _)) ho haddress
    (by rwa [hcount])
  have hwords := o.headerWords_cases
  rw [objectSize, wordSize, ← hcount] at hroom
  have hlimit := hbounded.limit_lt
  have hname : (Value.ofAddress address).raw.toNat = address :=
    UInt64.toNat_ofNat_of_lt' (by simp only [UInt64.size]; omega)
  have hold := holds_fresh fixed indexed format classIndex _ _ hbounded.le_used hclass ho
  rw [← haddress, ← hname] at hold
  have hused := usedBytes_grow h
    (frontWords o.slotCount o.header ++ Array.replicate o.slotCount fill)
  rw [Array.size_append, size_frontWords, Array.size_replicate] at hused
  refine ⟨_, _, hok, hclass, hadmits, ?_, hused ▸ hroom, rfl, rfl, ?_,
    fun b hb => byteAt_grow_of_lt _ hb, ?_⟩
  · rw [hused, hcount, objectSize, wordSize]
  · rw [hname, haddress]
    exact Nat.le_add_right _ _
  · rw [← hfill, hname, ← fresh_addressHash, ← ho]
    rwa [hname] at hold

/-- Allocation succeeds just when nothing speaks against it. -/
theorem Bounded.exists_allocate_iff (hbounded : h.Bounded) :
    (∃ object h', allocate fixed indexed format classIndex hash h = .ok object h') ↔
      classIndex ≤ Header.maxClassIndex ∧ format.admits fixed indexed = true ∧
        h.usedBytes + objectSize (fixed + format.slotsFor indexed) ≤ h.limit := by
  constructor
  · rintro ⟨object, h', hok⟩
    rw [allocate] at hok
    split at hok
    · cases hok
    rename_i hclass
    split at hok
    · cases hok
    rename_i hadmits
    simp only at hok
    split at hok
    · cases hok
    rename_i hroom
    exact ⟨Nat.not_lt.mp hclass, by simpa using hadmits, Nat.not_lt.mp hroom⟩
  · rintro ⟨hclass, hadmits, hroom⟩
    obtain ⟨object, h', hok, -⟩ := hbounded.exists_allocates hash hclass hadmits hroom
    exact ⟨object, h', hok⟩

/-- If the class index and the fields are admitted, it is the room alone that decides. -/
lemma Bounded.allocate_cases (hbounded : h.Bounded) (hash : Option ℕ)
    (hclass : classIndex ≤ Header.maxClassIndex) (hadmits : format.admits fixed indexed = true) :
    (h.room < objectSize (fixed + format.slotsFor indexed) ∧ ∃ requested limit,
      allocate fixed indexed format classIndex hash h = .error (.outOfMemory requested limit) h) ∨
    (objectSize (fixed + format.slotsFor indexed) ≤ h.room ∧ ∃ object h',
      allocate fixed indexed format classIndex hash h = .ok object h' ∧
        h.Allocates fixed indexed format classIndex hash object h') := by
  have hle := hbounded.used_le
  rcases Nat.lt_or_ge h.room (objectSize (fixed + format.slotsFor indexed)) with hroom | hroom
  · refine .inl ⟨hroom, min (objectSize (fixed + format.slotsFor indexed)) 0xffff_ffff_ffff_ffff,
      h.limit, ?_⟩
    have hfull : h.limit < h.usedBytes + objectSize (fixed + format.slotsFor indexed) := by
      rw [room] at hroom
      omega
    rw [allocate, if_neg (Nat.not_lt.mpr hclass), if_neg (by simp [hadmits])]
    exact if_pos hfull
  · refine .inr ⟨hroom, hbounded.exists_allocates hash hclass hadmits ?_⟩
    rw [room] at hroom
    omega

/-- Where not even a header fits, there is no allocation. -/
lemma Bounded.allocate_ne_ok (hbounded : h.Bounded) (hroom : h.room < objectSize 0) :
    allocate fixed indexed format classIndex hash h ≠ .ok object h' := by
  intro hok
  obtain ⟨-, -, hfits⟩ := hbounded.exists_allocate_iff.mp ⟨object, h', hok⟩
  have hle := objectSize_mono (Nat.zero_le (fixed + format.slotsFor indexed))
  rw [room] at hroom
  omega

/-- An allocation that succeeds leaves what allocation leaves. -/
theorem Bounded.allocates_of_ok (hbounded : h.Bounded)
    (hok : allocate fixed indexed format classIndex hash h = .ok object h') :
    h.Allocates fixed indexed format classIndex hash object h' := by
  obtain ⟨hclass, hadmits, hroom⟩ := hbounded.exists_allocate_iff.mp ⟨object, h', hok⟩
  obtain ⟨object', h'', hok', hallocates⟩ :=
    hbounded.exists_allocates hash hclass hadmits hroom
  obtain ⟨rfl, rfl⟩ := EStateM.Result.ok.inj (hok.symm.trans hok')
  exact hallocates

namespace Allocates

/-- The heap is within its limit again. -/
lemma bounded (hallocates : h.Allocates fixed indexed format classIndex hash object h')
    (hbounded : h.Bounded) : h'.Bounded := by
  have hle := hbounded.le_used
  refine ⟨?_, hallocates.used_le, hallocates.limit_eq ▸ hbounded.limit_lt⟩
  rw [hallocates.used_eq]
  omega

/-- The object takes up its bytes of the room. -/
lemma room_eq (hallocates : h.Allocates fixed indexed format classIndex hash object h') :
    h.room = h'.room + objectSize (fixed + format.slotsFor indexed) := by
  have hused := hallocates.used_eq
  have hle := hallocates.used_le
  have hlimit := hallocates.limit_eq
  rw [room, room]
  omega

/-- Objects that were there are as they were. -/
lemma keeps (hallocates : h.Allocates fixed indexed format classIndex hash object h')
    {address : ℕ} (hold : h.Holds address o) : h'.Holds address o := by
  have hfits := hold.fits
  refine hold.congr (hallocates.used_eq ▸ Nat.le_add_right _ _) fun b hb => ?_
  exact hallocates.byteAt_eq b (hb.2.trans_le hfits)

end Allocates

/-! ### What a new object shows -/

/-- The number of elements of an object that lies in the arena. -/
lemma Holds.elementCount_eq (hold : h.Holds name.raw.toNat o) (hused : h.usedBytes < 2 ^ 64) :
    h.elementCount name = .ok (if o.format.isPointers then o.slotCount
      else o.slotCount * o.format.divisor - o.unused) := by
  rw [elementCount, hold.format_eq, hold.slotCount_eq hused]
  rfl

/-- Whether an object shows that it was allocated for so many named and indexed fields, with this
format, class index and hash, and each of its slots holds the same value. -/
structure ShowsNew (h : Heap) (object : Value) (fixed indexed : ℕ) (format : ObjectFormat)
    (classIndex hash : ℕ) (fill : Value) : Prop where
  slotCount : h.slotCount object = .ok (fixed + indexed ⌈/⌉ format.divisor)
  elementCount : h.elementCount object =
    .ok (if format.isPointers then fixed + indexed else indexed)
  byteSize : format.isBytes = true → h.byteSize object = .ok indexed
  classIndexOf : h.classIndexOf object = .ok classIndex
  layout : h.format object = .ok (format, indexed ⌈/⌉ format.divisor * format.divisor - indexed)
  identityHashOf : h.identityHashOf object = .ok (hash % 2 ^ 22)
  isImmutable : h.isImmutable object = .ok false
  fetch : ∀ index < fixed + indexed ⌈/⌉ format.divisor, h.fetch object index = .ok fill

/-- A fresh object shows what it was allocated for. -/
theorem Holds.showsNew {hash : ℕ} {fill : Value} (hused : h.usedBytes < 2 ^ 64)
    (hclass : classIndex ≤ Header.maxClassIndex) (hadmits : format.admits fixed indexed = true)
    (hold : h.Holds object.raw.toNat
      (ObjectMap.fresh fixed indexed format classIndex hash fill.raw)) :
    h.ShowsNew object fixed indexed format classIndex hash fill := by
  have hshows := hold.shows hused
  have hcount := slotCount_fresh fixed indexed format classIndex hash fill.raw
  rw [format.slotsFor_eq_ceilDiv] at hcount
  refine ⟨hcount ▸ hshows.slotCount, ?_, fun hbytes => ?_, hshows.classIndex, ?_, hshows.hash,
    hshows.immutable, fun index hindex => ?_⟩
  · rw [hold.elementCount_eq hused, slotCount_fresh]
    cases hpointers : format.isPointers with
    | true =>
      rw [if_pos rfl, ObjectFormat.slotsFor_of_isPointers hpointers]
      exact congrArg Except.ok (if_pos hpointers)
    | false =>
      obtain rfl := ObjectFormat.eq_zero_of_admits hpointers hadmits
      have hslots := format.slotsFor_mul_divisor indexed
      rw [if_neg (by simp [ObjectMap.fresh, hpointers]), if_neg Bool.false_ne_true, Nat.zero_add]
      exact congrArg Except.ok (by simp only [ObjectMap.fresh]; omega)
  · obtain rfl :=
      ObjectFormat.eq_zero_of_admits (ObjectFormat.isPointers_of_isBytes hbytes) hadmits
    rw [hold.byteSize_eq hused, byteCount_fresh _ _ _ _ _ hbytes]
    exact if_pos hbytes
  · rw [hshows.format, ← format.slotsFor_eq_ceilDiv]
    rfl
  · rw [hshows.fetch, Object.fetch, hcount, if_neg (Nat.not_le.mpr hindex)]
    rw [← format.slotsFor_eq_ceilDiv] at hindex
    rw [word_fresh _ _ _ _ _ _ hclass hindex]

/-- What is allocated shows what it was allocated for. -/
lemma Allocates.showsNew (hallocates : h.Allocates fixed indexed format classIndex hash object h')
    (hused : h'.usedBytes < 2 ^ 64) :
    h'.ShowsNew object fixed indexed format classIndex (hash.getD (object.raw.toNat / 8))
      (if format.isPointers then h.nil else Value.zero) :=
  hallocates.holds.showsNew hused hallocates.le_maxClassIndex hallocates.admits

/-! ### Heaps that operations lead to -/

/-- The heaps that operations lead to from the new heap, whatever they are about, also when they are
refused. -/
inductive Reached (limit : ℕ) : Heap → Prop
  | new : Reached limit (Heap.new limit)
  | step {h : Heap} (hreached : Reached limit h) (action : Action) :
      Reached limit (stateAfter (action.onHeap h))

/-- Whether a step leaves the heap within its limit, if it was so, and neither moves the limit nor
takes bytes out of use. -/
structure Remains (h h' : Heap) : Prop where
  limit_eq : h'.limit = h.limit
  used_le : h.usedBytes ≤ h'.usedBytes
  bounded : h.Bounded → h'.Bounded

/-- Nothing happened. -/
lemma Remains.refl (h : Heap) : h.Remains h :=
  ⟨rfl, le_rfl, id⟩

/-- One step after the other. -/
lemma Remains.trans {h'' : Heap} (hr : h.Remains h') (hr' : h'.Remains h'') : h.Remains h'' :=
  ⟨hr'.limit_eq.trans hr.limit_eq, hr.used_le.trans hr'.used_le, hr'.bounded ∘ hr.bounded⟩

/-- A step that leaves the limit and the bytes in use. -/
lemma Remains.of_eq (hlimit : h'.limit = h.limit) (hused : h'.usedBytes = h.usedBytes) :
    h.Remains h' :=
  ⟨hlimit, hused.ge, fun hbounded => hbounded.congr hused hlimit⟩

/-- A write remains within the limit. -/
lemma remains_writeWord (h : Heap) (address : ℕ) (word : UInt64) :
    h.Remains (h.writeWord address word) :=
  .of_eq rfl (usedBytes_writeWord h address word)

/-- So do writes of bytes. -/
lemma remains_writeBytes (h : Heap) (address : ℕ) (bytes : List UInt8) :
    h.Remains (h.writeBytes address bytes) := by
  obtain ⟨hused, hlimit, -⟩ := h.writeBytes_keeps address bytes
  exact .of_eq hlimit hused

/-- Even where the bytes in use are not within the limit, allocation does not move the limit and takes
no bytes out of use. -/
lemma limit_eq_and_used_le_of_allocate
    (hok : allocate fixed indexed format classIndex hash h = .ok object h') :
    h'.limit = h.limit ∧ h.usedBytes ≤ h'.usedBytes := by
  rw [allocate] at hok
  split at hok
  · cases hok
  split at hok
  · cases hok
  simp only at hok
  split at hok <;> cases hok
  refine ⟨rfl, ?_⟩
  simp only [usedBytes, Array.size_append, wordSize]
  omega

/-- Allocation remains within the limit. -/
lemma remains_allocate (fixed indexed : ℕ) (format : ObjectFormat) (classIndex : ℕ)
    (hash : Option ℕ) (h : Heap) :
    h.Remains (stateAfter (allocate fixed indexed format classIndex hash h)) := by
  cases hok : allocate fixed indexed format classIndex hash h with
  | error e h' =>
    rw [state_eq_of_allocate_error hok]
    exact .refl h
  | ok object h' =>
    obtain ⟨hlimit, hused⟩ := limit_eq_and_used_le_of_allocate hok
    exact ⟨hlimit, hused, fun hbounded => (hbounded.allocates_of_ok hok).bounded hbounded⟩

/-- A store of bytes remains within the limit. -/
lemma remains_storeBytes (object : Value) (offset : ℕ) (bytes : List UInt8) (h : Heap) :
    h.Remains (stateAfter (storeBytes object offset bytes h)) := by
  rw [storeBytes]
  split
  · exact .refl h
  · exact remains_writeBytes h _ _

/-- So does every operation. -/
lemma remains_action (action : Action) (h : Heap) : h.Remains (stateAfter (action.onHeap h)) := by
  cases action with
  | allocate fixed indexed format classIndex hash =>
    rw [Action.onHeap, stateAfter_map]
    exact remains_allocate ..
  | allocateBytes contents format classIndex =>
    rw [Action.onHeap, stateAfter_map]
    have hallocated := remains_allocate 0 contents.length format classIndex none h
    rw [allocateBytes]
    cases hallocate : allocate 0 contents.length format classIndex none h with
    | error e h' =>
      rw [run_bind_of_error hallocate]
      rwa [hallocate] at hallocated
    | ok object h' =>
      rw [run_bind_of_ok hallocate]
      rw [hallocate] at hallocated
      have hstored := hallocated.trans (remains_storeBytes object 0 contents h')
      cases hstore : storeBytes object 0 contents h' with
      | error e h'' =>
        rw [run_bind_of_error hstore]
        rwa [hstore] at hstored
      | ok count h'' =>
        rw [run_bind_of_ok hstore]
        rwa [hstore] at hstored
  | store object index value =>
    rw [Action.onHeap, stateAfter_map, store]
    split
    · exact .refl h
    · exact remains_writeWord h _ _
  | storeWord object index word =>
    rw [Action.onHeap, stateAfter_map, storeWord, store]
    split
    · exact .refl h
    · exact remains_writeWord h _ _
  | storeByte object index byte =>
    rw [Action.onHeap, stateAfter_map, storeByte]
    split
    · exact .refl h
    · split
      · exact .refl h
      · exact remains_writeWord h _ _
  | storeBytes object offset bytes =>
    rw [Action.onHeap, stateAfter_map]
    exact remains_storeBytes ..
  | setFlags object flags =>
    rw [Action.onHeap, stateAfter_map, setFlags]
    split
    · exact .refl h
    · exact remains_writeWord h _ _
  | setNil nil => exact .of_eq rfl rfl

/-- Every heap that operations lead to is within its limit. -/
theorem Reached.bounded {limit : ℕ} (hreached : Reached limit h) (hlimit : limit < 2 ^ 64) :
    h.Bounded ∧ h.limit = max limit 8 := by
  induction hreached with
  | new => exact ⟨.new hlimit, rfl⟩
  | @step h _ action ih =>
    have remains := remains_action action h
    exact ⟨remains.bounded ih.1, remains.limit_eq.trans ih.2⟩

/-- On every heap that operations lead to, allocation succeeds exactly when the class index has 22
bits, the format has named fields and indexed elements if there are to be some, and the words of the
object are left: one word in front of up to 254 slots, two in front of more. The new object then shows
what it was allocated for, and takes up just these words behind those in use; pointers are nil, all
else is zero. An allocation that is refused changes nothing. -/
theorem Reached.allocates {limit : ℕ} (hlimit : limit < 2 ^ 64) (hreached : Reached limit h)
    (fixed indexed : ℕ) (format : ObjectFormat) (classIndex : ℕ) (hash : Option ℕ) {slots size : ℕ}
    (hslots : slots = fixed + indexed ⌈/⌉ format.divisor)
    (hsize : size = 8 * ((if slots < 255 then 1 else 2) + slots)) :
    ((∃ object h', allocate fixed indexed format classIndex hash h = .ok object h') ↔
      classIndex ≤ 0x3fffff ∧ (fixed = 0 ∨ format.hasNamedFields = true) ∧
        (indexed = 0 ∨ format.isIndexable = true) ∧ h.usedBytes + size ≤ h.limit) ∧
    (∀ object h', allocate fixed indexed format classIndex hash h = .ok object h' →
      h'.ShowsNew object fixed indexed format classIndex
        (hash.getD (object.raw.toNat / 8)) (if format.isPointers then h.nil else Value.zero) ∧
      h'.usedBytes = h.usedBytes + size ∧ h'.usedBytes ≤ h'.limit ∧ h'.limit = h.limit ∧
      h'.nil = h.nil ∧ ∀ b < h.usedBytes, h'.byteAt b = h.byteAt b) ∧
    ∀ e h', allocate fixed indexed format classIndex hash h = .error e h' → h' = h := by
  obtain ⟨hbounded, -⟩ := hreached.bounded hlimit
  rw [← format.slotsFor_eq_ceilDiv] at hslots
  rw [← objectSize_eq, hslots] at hsize
  refine ⟨?_, fun object h' hok => ?_, fun e h' herror => state_eq_of_allocate_error herror⟩
  · rw [hbounded.exists_allocate_iff, format.admits_iff, hsize, and_assoc]
    rfl
  · have hallocates := hbounded.allocates_of_ok hok
    have hbounded' := hallocates.bounded hbounded
    refine ⟨?_, hsize ▸ hallocates.used_eq, hallocates.used_le, hallocates.limit_eq,
      hallocates.nil_eq, hallocates.byteAt_eq⟩
    exact hallocates.showsNew hbounded'.usedBytes_lt

/-- Behind thirteen bytes, which take up two words, an object of 255 slots has its slot count in a
word of its own. -/
theorem allocates_behind_bytes : (4096 : ℕ) < 2 ^ 64 ∧ ∃ h, Reached 4096 h ∧ h.usedBytes = 32 ∧
    ∃ object h', allocate 3 252 .variableSizeIvars 40 (some 0x1234567) h = .ok object h' ∧
      h'.ShowsNew object 3 252 .variableSizeIvars 40 0x1234567 (Value.ofInt 7) ∧
      h'.usedBytes = 32 + 8 * (2 + 255) := by
  have hnil := (Reached.new : Reached 4096 (Heap.new 4096)).step (.setNil (Value.ofInt 7))
  have hreached := hnil.step (.allocate 0 13 .indexable8 41 none)
  obtain ⟨hiff, hnew, -⟩ := hreached.allocates (by decide) 3 252 .variableSizeIvars 40
    (some 0x1234567) (show 255 = 3 + 252 ⌈/⌉ ObjectFormat.variableSizeIvars.divisor by decide) rfl
  obtain ⟨object, h', hok⟩ := hiff.mpr ⟨by decide, .inr rfl, .inr rfl, by decide⟩
  obtain ⟨hshows, hused, -⟩ := hnew object h' hok
  exact ⟨by decide, _, hreached, by decide, object, h', hok, hshows, hused⟩

end Heap

end TalkMachine
