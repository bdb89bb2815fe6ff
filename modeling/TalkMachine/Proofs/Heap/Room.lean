import TalkMachine.Proofs.Heap.Slots

/-!
# Room on the heap

An operation that is used as it should be has only one reason to fail: that the bytes it needs are
not left. Allocation takes the bytes of the object and its header; stores take none, and are accepted
by every mutable object that has the slot.
-/

namespace TalkMachine

namespace Heap

variable {h : Heap} {s : ObjectMap} {name value : Value} {values : List Value} {index : ℕ}

/-- The number of bytes that are left. -/
def room (h : Heap) : ℕ :=
  h.limit - h.usedBytes

/-- The number of bytes of an object with so many slots, its header included. -/
def objectSize (slots : ℕ) : ℕ :=
  wordSize * (headerWords slots + slots)

/-- An object with more slots is no smaller. -/
lemma objectSize_mono {slots slots' : ℕ} (hle : slots ≤ slots') :
    objectSize slots ≤ objectSize slots' := by
  rw [objectSize, objectSize, headerWords, headerWords, wordSize]
  split <;> split <;> omega

/-- A write takes no room. -/
lemma room_writeWord (h : Heap) (address : ℕ) (word : UInt64) :
    (h.writeWord address word).room = h.room := by
  simp [room, usedBytes, writeWord]

/-- A store takes no room. -/
lemma room_of_store {h' : Heap} (hok : store name index value h = .ok () h') : h'.room = h.room := by
  rw [store] at hok
  split at hok <;> cases hok
  exact room_writeWord ..

/-- Writing bytes takes no room. -/
lemma room_writeBytes (h : Heap) (address : ℕ) (bytes : List UInt8) :
    (h.writeBytes address bytes).room = h.room := by
  have hfold : ∀ (bytes : List UInt8) (h : Heap) (address : ℕ),
      (bytes.foldl (fun (place : Heap × ℕ) byte => (place.1.writeByte place.2 byte, place.2 + 1))
        (h, address)).1.room = h.room := by
    intro bytes
    induction bytes with
    | nil => exact fun _ _ => rfl
    | cons byte rest ih => exact fun h address => (ih _ _).trans (room_writeWord ..)
  exact hfold bytes h address

/-- Allocation takes the bytes of the object. -/
lemma affords_allocate {fixed indexed classIndex : ℕ} {format : ObjectFormat}
    (hclass : classIndex ≤ Header.maxClassIndex) (hadmits : format.admits fixed indexed = true)
    (hash : Option ℕ) (h : Heap) :
    Affords room (objectSize (fixed + format.slotsFor indexed))
      (allocate fixed indexed format classIndex hash) h := by
  intro hroom
  have hpos : 0 < objectSize (fixed + format.slotsFor indexed) := by
    rw [objectSize, headerWords, wordSize]
    split <;> omega
  rw [room] at hroom
  rw [allocate, if_neg (Nat.not_lt.mpr hclass), hadmits]
  have hfits : ¬h.limit < h.usedBytes +
      wordSize * (headerWords (fixed + format.slotsFor indexed) + (fixed + format.slotsFor indexed)) := by
    rw [objectSize] at hroom hpos
    omega
  refine ⟨_, _, if_neg hfits, ?_⟩
  simp only [room, usedBytes, objectSize, Array.size_append, size_frontWords, Array.size_replicate,
    wordSize]
  omega

/-- A mutable object accepts a store into each of its slots. -/
lemma affords_store (rep : h.Represents s) (hmutable : s.IsMutable name)
    (hslots : s.HasSlots name values) (hindex : index < values.length) (value : Value) :
    Affords room 0 (store name index value) h := by
  obtain ⟨o, ho, hmutable⟩ := hmutable
  obtain ⟨o', ho', hslots⟩ := hslots
  obtain rfl := Option.some.inj (ho.symm.trans ho')
  have hold := rep.holds ho
  have haddress : h.storeAddress name index = .ok (name.raw.toNat + 8 + index * 8) := by
    rw [storeAddress, (hold.shows rep.usedBytes_lt).immutable, hmutable,
      hold.slotAddress_eq rep.usedBytes_lt, if_neg (by rw [hslots.length]; omega)]
    rfl
  have hstore : store name index value h =
      .ok () (h.writeWord (name.raw.toNat + 8 + index * 8) value.raw) := by
    rw [store, haddress]
  exact .of_ok hstore (room_writeWord ..).ge

/-- A store that is accepted, and what follows. -/
lemma affords_store_bind (rep : h.Represents s) (hmutable : s.IsMutable name)
    (hslots : s.HasSlots name values) (hindex : index < values.length) {α : Type}
    {f : Unit → HeapM α} {c : ℕ}
    (hf : ∀ h' s', h'.Represents s' → s'.IsMutable name → s'.HasSlots name (values.set index value) →
      Affords room c (f ()) h') : Affords room c (store name index value >>= f) h := by
  refine (affords_store rep hmutable hslots hindex value).bind_free fun _ h' hok => ?_
  obtain ⟨s', rep', hretains, -, hslots'⟩ := exists_of_store rep hslots hok
  exact hf h' s' rep' (hretains.isMutable hmutable) hslots'

/-- The flags of any object can be replaced. -/
lemma affords_setFlags (rep : h.Represents s) {o : Object} (ho : s.objects name = some o)
    (flags : HeaderFlags) : Affords room 0 (setFlags name flags) h := by
  have hset : setFlags name flags h = .ok () (h.writeWord name.raw.toNat
      ((Header.mk (h.wordAt name.raw.toNat)).setFlags flags).raw) := by
    rw [setFlags, (rep.holds ho).addressOf_eq]
  exact .of_ok hset (room_writeWord ..).ge

/-- Bytes take what an object that holds them takes. -/
lemma affords_allocateBytes (rep : h.Represents s) (contents : List UInt8) {classIndex : ℕ}
    (hclass : classIndex ≤ Header.maxClassIndex) :
    Affords room (objectSize (ObjectFormat.indexable8.slotsFor contents.length))
      (allocateBytes contents .indexable8 classIndex) h := by
  have hallocates := affords_allocate hclass
    (show ObjectFormat.admits .indexable8 0 contents.length = true by
      simp [ObjectFormat.admits]) none h
  rw [Nat.zero_add] at hallocates
  refine hallocates.bind (d := 0) fun name h₁ hallocate => ?_
  obtain ⟨-, -, address, _, _, rfl, rep₁, -⟩ := exists_fresh_of_allocate rep hallocate
  have hrange := storeBytesRange_eq rep₁ (ObjectMap.objects_put_self s name _)
  obtain ⟨count, h₂, hstore, hroom⟩ : ∃ count h₂, storeBytes name 0 contents h₁ = .ok count h₂ ∧
      h₂.room = h₁.room := by
    rw [storeBytes, hrange]
    exact ⟨_, _, rfl, room_writeBytes ..⟩
  exact (Affords.of_ok hstore hroom.ge).bind fun _ _ _ => .pure _

end Heap

end TalkMachine
