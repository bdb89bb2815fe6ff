import TalkMachine.Proofs.Heap.Allocation

/-!
# Heaps that have grown

An allocation puts an object behind the bytes in use, and a store into such an object leaves them as
they are. A heap to which nothing else has happened (`Heap.GrowsTo`) still holds every object that it
held, and every value that had an identity hash has the same one. What comes of a single store, whether
it is accepted or refused, is `Heap.store_cases`.
-/

namespace TalkMachine

namespace Heap

variable {h h' t : Heap} {s : ObjectMap} {object name value : Value} {values : List Value}
  {index address : ℕ}

/-! ### Where stores write -/

/-- The slots of an object lie behind its address. -/
lemma le_of_slotAddress (haddress : h.slotAddress object index = .ok address) :
    object.raw.toNat + 8 ≤ address := by
  simp only [slotAddress, firstField, bind_eq_ok_iff, guard_eq_ok_iff, pure, Except.pure,
    Except.ok.injEq, wordSize] at haddress
  obtain ⟨size, -, -, start, ⟨first, hfirst, rfl⟩, rfl⟩ := haddress
  rw [(addressOf_eq_ok_iff.mp hfirst).2.1]
  exact Nat.le_add_right _ _

/-- A slot that may be stored into is a slot. -/
lemma slotAddress_of_storeAddress (haddress : h.storeAddress object index = .ok address) :
    h.slotAddress object index = .ok address := by
  simp only [storeAddress, bind_eq_ok_iff, guard_eq_ok_iff] at haddress
  obtain ⟨_, -, -, hslot⟩ := haddress
  exact hslot

/-- A write leaves the bytes in front of its word as they are. -/
lemma byteAt_writeWord_of_lt (h : Heap) (word : UInt64) {b : ℕ} (hb : b + 8 ≤ address) :
    (h.writeWord address word).byteAt b = h.byteAt b := by
  simp only [byteAt, wordAt, writeWord, wordSize, Array.getD_eq_getD_getElem?,
    Array.getElem?_setIfInBounds]
  rw [if_neg (by omega)]

/-- Writing a word where it stands changes nothing. -/
lemma writeWord_wordAt (h : Heap) (address : ℕ) : h.writeWord address (h.wordAt address) = h := by
  have hwords : h.words.setIfInBounds (address / wordSize) (h.wordAt address) = h.words := by
    apply Array.ext_getElem?
    intro i
    rw [Array.getElem?_setIfInBounds]
    split
    · rename_i hi
      split
      · rename_i hlt
        rw [wordAt, Array.getD_eq_getD_getElem?, hi, Array.getElem?_eq_getElem (hi ▸ hlt)]
        rfl
      · rename_i hge
        rw [Array.getElem?_eq_none (by omega)]
    · rfl
  rw [writeWord, hwords]

/-- A store takes no bytes into use. -/
lemma usedBytes_of_store (hok : store object index value h = .ok () h') :
    h'.usedBytes = h.usedBytes := by
  rw [store] at hok
  split at hok <;> cases hok
  exact usedBytes_writeWord ..

/-- Storing a value where it stands changes nothing. -/
lemma eq_of_store_of_fetch (hfetch : h.fetch object index = .ok value)
    (hok : store object index value h = .ok () h') : h' = h := by
  simp only [fetch, bind_eq_ok_iff, pure, Except.pure, Except.ok.injEq] at hfetch
  obtain ⟨address, hslot, rfl⟩ := hfetch
  rw [store] at hok
  split at hok
  · cases hok
  rename_i address' hstore
  obtain rfl := Except.ok.inj ((slotAddress_of_storeAddress hstore).symm.trans hslot)
  cases hok
  exact h.writeWord_wordAt _

/-- An object with slots tells whether it accepts stores. A store into one of its slots is refused if
it does not, and otherwise replaces the slot. -/
lemma store_cases (rep : h.Represents s) (hslots : s.HasSlots name values)
    (hindex : index < values.length) (value : Value) :
    (h.isImmutable name = .ok true ∧
        store name index value h = .error (.immutable name) h) ∨
      (h.isImmutable name = .ok false ∧ s.IsMutable name ∧ ∃ h' s',
        store name index value h = .ok () h' ∧ h'.Represents s' ∧ s.Retains [name] s' ∧
          s'.HasSlots name (values.set index value)) := by
  obtain ⟨o, ho, -⟩ := id hslots
  have hask := ((rep.holds ho).shows rep.usedBytes_lt).immutable
  cases himmutable : o.flags.immutable with
  | true =>
    rw [himmutable] at hask
    refine .inl ⟨hask, ?_⟩
    rw [store, storeAddress, hask]
    rfl
  | false =>
    rw [himmutable] at hask
    have hmutable : s.IsMutable name := ⟨o, ho, himmutable⟩
    obtain ⟨_, h', hok, -⟩ := affords_store rep hmutable hslots hindex value (Nat.zero_le _)
    obtain ⟨s', rep', hretains, -, hslots'⟩ := exists_of_store rep hslots hok
    exact .inr ⟨hask, hmutable, h', s', hok, rep', hretains, hslots'⟩

/-- An object that can be stored into tells so. -/
lemma isImmutable_of_isMutable (rep : h.Represents s) (hmutable : s.IsMutable name) :
    h.isImmutable name = .ok false := by
  obtain ⟨o, ho, hmutable⟩ := hmutable
  rw [((rep.holds ho).shows rep.usedBytes_lt).immutable, hmutable]

/-- A store does not change which objects accept stores. -/
lemma isImmutable_of_store (rep : h.Represents s) (hslots : s.HasSlots object values)
    {other : List Value} (hother : s.HasSlots name other)
    (hok : store object index value h = .ok () h') : h'.isImmutable name = h.isImmutable name := by
  obtain ⟨o, ho, -⟩ := hslots
  obtain ⟨p, hp, -⟩ := hother
  obtain ⟨o', hstore, rep'⟩ := Agree.of_change_ok ho (hok ▸ agree_store rep ho index value)
  rw [((rep.holds hp).shows rep.usedBytes_lt).immutable]
  by_cases hsame : name = object
  · subst hsame
    obtain rfl := Option.some.inj (ho.symm.trans hp)
    rw [((rep'.holds (ObjectMap.objects_put_self s name o')).shows rep'.usedBytes_lt).immutable,
      Object.flags_storeWord hstore]
  · have hp' := (ObjectMap.objects_put_of_ne s hsame o').trans hp
    rw [((rep'.holds hp').shows rep'.usedBytes_lt).immutable]

/-! ### Growing -/

/-- Whether nothing has happened to a heap but that objects have been put behind the bytes that were in
use, and stored into. -/
structure GrowsTo (h t : Heap) : Prop where
  used_le : h.usedBytes ≤ t.usedBytes
  limit_eq : t.limit = h.limit
  nil_eq : t.nil = h.nil
  bounded : t.Bounded
  byteAt_eq : ∀ b < h.usedBytes, t.byteAt b = h.byteAt b

namespace GrowsTo

/-- Nothing has happened. -/
lemma refl (hbounded : h.Bounded) : h.GrowsTo h :=
  ⟨le_rfl, rfl, rfl, hbounded, fun _ _ => rfl⟩

/-- Allocation lets a heap grow. -/
lemma maintains_allocate (fixed indexed : ℕ) (format : ObjectFormat) (classIndex : ℕ)
    (hash : Option ℕ) : Maintains h.GrowsTo (allocate fixed indexed format classIndex hash) := by
  intro t grows
  cases hok : allocate fixed indexed format classIndex hash t with
  | error e t' =>
    rw [state_eq_of_allocate_error hok]
    exact grows
  | ok object t' =>
    have hallocates := grows.bounded.allocates_of_ok hok
    have hused : t.usedBytes ≤ t'.usedBytes := hallocates.used_eq ▸ Nat.le_add_right _ _
    refine ⟨grows.used_le.trans hused, hallocates.limit_eq.trans grows.limit_eq,
      hallocates.nil_eq.trans grows.nil_eq, hallocates.bounded grows.bounded, fun b hb => ?_⟩
    rw [stateAfter, hallocates.byteAt_eq b (hb.trans_le grows.used_le), grows.byteAt_eq b hb]

/-- So do stores into objects behind the bytes that were in use. -/
lemma maintains_store (hbehind : h.usedBytes ≤ object.raw.toNat) (index : ℕ) (value : Value) :
    Maintains h.GrowsTo (store object index value) := by
  intro t grows
  rw [store]
  split
  · exact grows
  rename_i address hstore
  have hplace := le_of_slotAddress (slotAddress_of_storeAddress hstore)
  have hused := usedBytes_writeWord t address value.raw
  refine ⟨grows.used_le.trans hused.ge, grows.limit_eq, grows.nil_eq,
    grows.bounded.congr hused rfl, fun b hb => ?_⟩
  rw [stateAfter, byteAt_writeWord_of_lt t value.raw (by omega), grows.byteAt_eq b hb]

/-- The objects that were there are there still. -/
lemma represents (grows : h.GrowsTo t) (rep : h.Represents s) :
    t.Represents { s with used := t.usedBytes } := by
  refine ⟨grows.limit_eq.trans rep.limit_eq, grows.nil_eq.trans rep.nil_eq, rfl,
    grows.bounded.le_used, ?_, rep.limit_lt, fun ho => ?_, rep.disjoint⟩
  · rw [← rep.limit_eq, ← grows.limit_eq]
    exact grows.bounded.used_le
  · have hold := rep.holds ho
    have hfits := hold.fits
    exact hold.congr grows.used_le fun b hb => grows.byteAt_eq b (hb.2.trans_le hfits)

end GrowsTo

/-! ### Identity hashes -/

/-- The identity hash of an object is that in its header. -/
lemma identityHashOf_of_not_isImmediate (himmediate : value.isImmediate = false) {hash : ℕ} :
    h.identityHashOf value = .ok hash ↔ ∃ address, h.addressOf value = .ok address ∧
      (Header.mk (h.wordAt address)).identityHash = hash := by
  rw [identityHashOf, if_neg (by simp [himmediate])]
  simp [header, bind_eq_ok_iff, pure, Except.pure]

/-- Where more bytes are in use, every value that had an identity hash has one. -/
lemma exists_identityHashOf_of_le (hused : h.usedBytes ≤ t.usedBytes) {hash : ℕ}
    (hhash : h.identityHashOf value = .ok hash) : ∃ hash', t.identityHashOf value = .ok hash' := by
  cases himmediate : value.isImmediate with
  | true => exact ⟨_, if_pos himmediate⟩
  | false =>
    obtain ⟨address, haddress, -⟩ := (identityHashOf_of_not_isImmediate himmediate).mp hhash
    obtain ⟨hobject, hraw, hfits⟩ := addressOf_eq_ok_iff.mp haddress
    exact ⟨_, (identityHashOf_of_not_isImmediate himmediate).mpr
      ⟨address, addressOf_eq_ok_iff.mpr ⟨hobject, hraw, hfits.trans hused⟩, rfl⟩⟩

/-- Growing keeps identity hashes. -/
lemma GrowsTo.identityHashOf_eq (grows : h.GrowsTo t) {hash : ℕ}
    (hhash : h.identityHashOf value = .ok hash) : t.identityHashOf value = .ok hash := by
  cases himmediate : value.isImmediate with
  | true =>
    rw [← hhash, identityHashOf, identityHashOf, if_pos himmediate, if_pos himmediate]
  | false =>
    rw [identityHashOf_of_not_isImmediate himmediate] at hhash ⊢
    obtain ⟨address, haddress, rfl⟩ := hhash
    obtain ⟨hobject, hraw, hfits⟩ := addressOf_eq_ok_iff.mp haddress
    refine ⟨address, addressOf_eq_ok_iff.mpr ⟨hobject, hraw, hfits.trans grows.used_le⟩, ?_⟩
    rw [wordAt_congr (hraw ▸ Value.mod_eight_of_isObject hobject) fun k hk =>
      grows.byteAt_eq _ (by omega)]

end Heap

end TalkMachine
