import TalkMachine.Proofs.Heap.Represents

/-!
# Operations on both heaps

Each operation on the heap comes to the same as its counterpart on the object map that the heap
represents: `Heap.Agree` says that answers or errors are equal and that the heap represents the map
again. Allocation is the case with the most to say (`Heap.agree_allocate`); every store is an
overwriting of the bytes of one body.
-/

namespace TalkMachine

namespace Heap

/-! ### Fresh objects -/

section Fresh

variable (fixed indexed : ℕ) (format : ObjectFormat) (classIndex hash : ℕ) (fill : UInt64)

/-- The number of slots of a fresh object. -/
lemma slotCount_fresh : (ObjectMap.fresh fixed indexed format classIndex hash fill).slotCount =
    fixed + format.slotsFor indexed := by
  simp only [Object.slotCount, ObjectMap.fresh, List.length_map, List.length_range, wordSize]
  omega

/-- A fresh object is well-formed when its class index fits a header. -/
lemma wellFormed_fresh (hclass : classIndex ≤ Header.maxClassIndex) :
    (ObjectMap.fresh fixed indexed format classIndex hash fill).WellFormed := by
  have hlength : (ObjectMap.fresh fixed indexed format classIndex hash fill).body.length =
      8 * (fixed + format.slotsFor indexed) := by
    simp only [ObjectMap.fresh, List.length_map, List.length_range, wordSize]
  have hdivisor := Nat.mul_le_mul_left (format.slotsFor indexed) format.divisor_le
  have hslots := format.slotsFor_mul_divisor indexed
  refine ⟨by omega, format.unusedFor_lt indexed, ?_, ?_, Nat.mod_lt _ (by decide)⟩
  · rw [hlength]
    show format.unusedFor indexed ≤ _
    omega
  · show classIndex < 2 ^ 22
    rw [Header.maxClassIndex] at hclass
    omega

/-- All words of a fresh object are the same. -/
lemma word_fresh (hclass : classIndex ≤ Header.maxClassIndex) {index : ℕ}
    (hindex : index < fixed + format.slotsFor indexed) :
    (ObjectMap.fresh fixed indexed format classIndex hash fill).word index = fill := by
  have hwell := wellFormed_fresh fixed indexed format classIndex hash fill hclass
  have hslots := slotCount_fresh fixed indexed format classIndex hash fill
  refine Word.ext_byte fun k hk => ?_
  have hbyte := hwell.byte_word (hslots.symm ▸ hindex) hk
  have hmod : (8 * index + k) % 8 = k := by omega
  simp only [ObjectMap.fresh, wordSize] at hbyte
  rw [List.getElem?_map, List.getElem?_range (by omega), Option.map_some, hmod] at hbyte
  exact (Option.some.inj hbyte).symm

/-- As many bytes as were asked for count in a fresh string of bytes. -/
lemma byteCount_fresh (hbytes : format.isBytes = true) :
    (ObjectMap.fresh 0 indexed format classIndex hash fill).byteCount = indexed := by
  have hdivisor : format.divisor = 8 := by
    revert hbytes
    cases format <;> decide
  have hslots := format.slotsFor_mul_divisor indexed
  rw [hdivisor] at hslots
  simp only [Object.byteCount, ObjectMap.fresh, List.length_map, List.length_range, wordSize]
  omega

/-- Words in front of a body. -/
lemma size_frontWords (slots : ℕ) (header : Header) :
    (frontWords slots header).size = headerWords slots := by
  rw [frontWords, headerWords]
  split <;> rfl

/-- The header is the last word in front of a body. -/
lemma getElem?_frontWords_header (slots : ℕ) (header : Header) :
    (frontWords slots header)[headerWords slots - 1]? = some header.raw := by
  rw [frontWords, headerWords]
  split <;> rfl

/-- A slot count that no header can hold is the first word in front of a body. -/
lemma getElem?_frontWords_count {slots : ℕ} (hslots : 255 ≤ slots) (header : Header) :
    (frontWords slots header)[0]? = some (UInt64.ofNat slots) := by
  rw [frontWords, if_pos (show Header.overflowSlots ≤ slots from hslots)]
  rfl

/-- A fresh object lies behind the words in use when its front and its body are put there. -/
theorem holds_fresh {h : Heap} (hused : 8 ≤ h.usedBytes)
    (hclass : classIndex ≤ Header.maxClassIndex) {o : Object}
    (ho : o = ObjectMap.fresh fixed indexed format classIndex hash fill) :
    (h.grow (frontWords o.slotCount o.header ++ Array.replicate o.slotCount fill)).Holds
      (h.usedBytes + 8 * (headerWords o.slotCount - 1)) o := by
  have hwf : o.WellFormed := ho ▸ wellFormed_fresh fixed indexed format classIndex hash fill hclass
  have hlength := hwf.length_eq
  have haligned : h.usedBytes % 8 = 0 := by
    simp only [usedBytes, wordSize]
    omega
  have hgrow := usedBytes_grow h
    (frontWords o.slotCount o.header ++ Array.replicate o.slotCount fill)
  rw [Array.size_append, size_frontWords, Array.size_replicate] at hgrow
  have hwords := o.headerWords_cases
  have hfront : ∀ k, k < headerWords o.slotCount →
      (h.grow (frontWords o.slotCount o.header ++ Array.replicate o.slotCount fill)).wordAt
        (h.usedBytes + 8 * k) = ((frontWords o.slotCount o.header)[k]?).getD 0 := by
    intro k hk
    rw [wordAt_grow, Array.getD_eq_getD_getElem?,
      Array.getElem?_append_left (by rw [size_frontWords]; exact hk)]
  have hbody : ∀ k, k < o.slotCount →
      (h.grow (frontWords o.slotCount o.header ++ Array.replicate o.slotCount fill)).wordAt
        (h.usedBytes + 8 * (headerWords o.slotCount + k)) = fill := by
    intro k hk
    rw [wordAt_grow, Array.getD_eq_getD_getElem?,
      Array.getElem?_append_right (by rw [size_frontWords]; omega), size_frontWords,
      Nat.add_sub_cancel_left, Array.getElem?_replicate, if_pos hk, Option.getD_some]
  refine ⟨hwf, by omega, by omega, by omega, ?_, fun hge => ?_, fun {k byte} hk => ?_⟩
  · rw [hfront _ (by omega), getElem?_frontWords_header, Option.getD_some]
  · have hfirst : h.usedBytes + 8 * (headerWords o.slotCount - 1) - 8 = h.usedBytes + 8 * 0 := by
      omega
    rw [hfirst, hfront 0 (by omega), getElem?_frontWords_count hge, Option.getD_some]
  · have hlt : k < o.body.length := (List.getElem?_eq_some_iff.mp hk).1
    have hplace : h.usedBytes + 8 * (headerWords o.slotCount - 1) + 8 + k =
        h.usedBytes + 8 * (headerWords o.slotCount + k / 8) + k % 8 := by
      omega
    have hbyte : o.body[k]? = some (Word.byte fill (k % 8)) := by
      rw [hlength, ho, slotCount_fresh] at hlt
      rw [ho, ObjectMap.fresh, List.getElem?_map, List.getElem?_range hlt]
      rfl
    rw [hplace, byteAt_add _ (by omega) (Nat.mod_lt _ (by decide)), hbody _ (by omega)]
    exact Option.some.inj (hbyte.symm.trans hk)

end Fresh

/-! ### One operation -/

/-- Whether an operation has come to the same on a heap and on an object map: the same answer or
error, and a heap that represents the map again. -/
def Agree {α : Type} : EStateM.Result HeapError Heap α → EStateM.Result HeapError ObjectMap α → Prop
  | .ok a h, .ok a' s => a = a' ∧ h.Represents s
  | .error e h, .error e' s => e = e' ∧ h.Represents s
  | _, _ => False

variable {h : Heap} {s : ObjectMap}

/-- Two operations in sequence come to the same when each does. -/
lemma agree_bind {α β : Type} {x : HeapM α} {y : ObjectMapM α} {f : α → HeapM β}
    {g : α → ObjectMapM β} (hx : Agree (x h) (y s))
    (hf : ∀ a h' s', y s = .ok a s' → h'.Represents s' → Agree (f a h') (g a s')) :
    Agree ((x >>= f) h) ((y >>= g) s) := by
  show Agree (EStateM.bind x f h) (EStateM.bind y g s)
  unfold EStateM.bind
  cases hxh : x h with
  | error e h' =>
    cases hys : y s with
    | error e' s' => rwa [hxh, hys] at hx
    | ok a' s' => simp [hxh, hys, Agree] at hx
  | ok a h' =>
    cases hys : y s with
    | error e' s' => simp [hxh, hys, Agree] at hx
    | ok a' s' =>
      rw [hxh, hys] at hx
      obtain ⟨rfl, rep⟩ := hx
      exact hf a h' s' hys rep

/-- Allocation that is refused changes nothing. -/
lemma state_eq_of_allocate_error {fixed indexed classIndex : ℕ} {format : ObjectFormat}
    {hash : Option ℕ} {e : HeapError} {h' : Heap}
    (hok : allocate fixed indexed format classIndex hash h = .error e h') : h' = h := by
  rw [allocate] at hok
  split at hok
  · cases hok
    rfl
  · split at hok
    · cases hok
      rfl
    · simp only at hok
      split at hok
      · cases hok
        rfl
      · cases hok

/-- So does a store. -/
lemma state_eq_of_store_error {object value : Value} {index : ℕ} {e : HeapError} {h' : Heap}
    (herror : store object index value h = .error e h') : h' = h := by
  rw [store] at herror
  split at herror <;> cases herror
  rfl

/-- The header that allocation writes is that of the fresh object. -/
lemma freshHeader_eq (fixed indexed : ℕ) (format : ObjectFormat) (classIndex : ℕ) (hash : Option ℕ)
    (address : ℕ) (fill : UInt64) : freshHeader fixed indexed format classIndex hash address =
      (ObjectMap.fresh fixed indexed format classIndex (hash.getD (addressHash address))
        fill).header := by
  rw [freshHeader, Object.header, slotCount_fresh]
  exact (Header.encode_hash_mod _ _ _ _ _).symm

/-- Allocation that is not refused puts the front and the body of a fresh object behind the words in
use. -/
lemma allocate_of_room {fixed indexed : ℕ} {format : ObjectFormat} {classIndex : ℕ}
    {hash : Option ℕ} {address : ℕ} {fill : UInt64} {o : Object}
    (hclass : classIndex ≤ Header.maxClassIndex) (hadmits : format.admits fixed indexed = true)
    (hfill : fill = if format.isPointers then h.nil.raw else 0)
    (ho : o =
      ObjectMap.fresh fixed indexed format classIndex (hash.getD (addressHash address)) fill)
    (haddress : address = h.usedBytes + 8 * (headerWords o.slotCount - 1))
    (hroom : h.usedBytes + 8 * (headerWords o.slotCount + o.slotCount) ≤ h.limit) :
    allocate fixed indexed format classIndex hash h = .ok (Value.ofAddress address)
      (h.grow (frontWords o.slotCount o.header ++ Array.replicate o.slotCount fill)) := by
  have hcount : o.slotCount = fixed + format.slotsFor indexed := by rw [ho, slotCount_fresh]
  have hheader : freshHeader fixed indexed format classIndex hash address = o.header := by
    rw [ho, freshHeader_eq]
  rw [hcount] at haddress hroom ⊢
  rw [allocate, if_neg (Nat.not_lt.mpr hclass), hadmits, if_neg (by decide)]
  simp only [wordSize]
  rw [if_neg (Nat.not_lt.mpr hroom), ← haddress, ← hfill, hheader, Array.append_assoc, grow]

/-- Allocation that is not refused does the same on both, and the value it answers named no object
before. -/
lemma agree_allocate_of_room (rep : h.Represents s) {fixed indexed : ℕ} {format : ObjectFormat}
    {classIndex : ℕ} (hash : Option ℕ) (hclass : classIndex ≤ Header.maxClassIndex)
    (hadmits : format.admits fixed indexed = true)
    (hroom : s.used + 8 * (headerWords (fixed + format.slotsFor indexed) +
      (fixed + format.slotsFor indexed)) ≤ s.limit) :
    Agree (allocate fixed indexed format classIndex hash h)
        (ObjectMap.allocate fixed indexed format classIndex hash s) ∧
      ∀ name s', ObjectMap.allocate fixed indexed format classIndex hash s = .ok name s' →
        s.objects name = none := by
  have hused := rep.used_eq
  have hlimit := rep.limit_eq
  have hnil := rep.nil_eq
  set slots := fixed + format.slotsFor indexed with hslots
  set address := s.used + 8 * (headerWords slots - 1) with haddress
  set fill : UInt64 := if format.isPointers then s.nil.raw else 0 with hfill
  obtain ⟨o, ho⟩ : ∃ o, o = ObjectMap.fresh fixed indexed format classIndex
    (hash.getD (addressHash address)) fill := ⟨_, rfl⟩
  have hcount : o.slotCount = slots := by rw [ho, slotCount_fresh]
  have hmap : ObjectMap.allocate fixed indexed format classIndex hash s =
      .ok (Value.ofAddress address) { s.put (Value.ofAddress address) o with
        used := s.used + 8 * (headerWords slots + slots) } := by
    rw [ObjectMap.allocate, if_neg (Nat.not_lt.mpr hclass), hadmits, if_neg (by decide), ho]
    exact if_neg (Nat.not_lt.mpr hroom)
  have hplace : address = h.usedBytes + 8 * (headerWords o.slotCount - 1) := by
    rw [hused, hcount]
  have hheap := allocate_of_room hclass hadmits (hfill.trans (by rw [hnil])) ho hplace
    (by rw [hused, hcount, hlimit]; exact hroom)
  have hname : (Value.ofAddress address).raw.toNat = address := by
    have hlt := rep.limit_lt
    have hwords := o.headerWords_cases
    rw [hcount] at hwords
    exact UInt64.toNat_ofNat_of_lt' (by simp only [UInt64.size]; omega)
  have hsize : (frontWords o.slotCount o.header ++ Array.replicate o.slotCount fill).size =
      headerWords slots + slots := by
    rw [Array.size_append, size_frontWords, Array.size_replicate, hcount]
  have hold := holds_fresh fixed indexed format classIndex _ fill (hused ▸ rep.le_used) hclass
    ho
  rw [← hplace, ← hname] at hold
  have hstart : (Value.ofAddress address).raw.toNat + 8 =
      h.usedBytes + 8 * headerWords o.slotCount := by
    have hwords := o.headerWords_cases
    omega
  obtain ⟨hnone, hrep⟩ := rep.extend hstart (by rw [hsize, hused, hlimit]; exact hroom) hold
  rw [hheap, hmap]
  refine ⟨⟨rfl, ?_⟩, fun name s' hok => ?_⟩
  · rwa [hsize] at hrep
  · cases hok
    exact hnone

/-- Allocation does the same on both, and the value it answers named no object before. -/
theorem agree_allocate (rep : h.Represents s) (fixed indexed : ℕ) (format : ObjectFormat)
    (classIndex : ℕ) (hash : Option ℕ) :
    Agree (allocate fixed indexed format classIndex hash h)
        (ObjectMap.allocate fixed indexed format classIndex hash s) ∧
      ∀ name s', ObjectMap.allocate fixed indexed format classIndex hash s = .ok name s' →
        s.objects name = none := by
  rcases Nat.lt_or_ge Header.maxClassIndex classIndex with hclass | hclass
  · rw [allocate, ObjectMap.allocate, if_pos hclass, if_pos hclass]
    exact ⟨⟨rfl, rep⟩, fun _ _ hok => by cases hok⟩
  cases hadmits : format.admits fixed indexed with
  | false =>
    rw [allocate, ObjectMap.allocate, if_neg (Nat.not_lt.mpr hclass),
      if_neg (Nat.not_lt.mpr hclass), hadmits]
    exact ⟨⟨rfl, rep⟩, fun _ _ hok => by cases hok⟩
  | true =>
    set slots := fixed + format.slotsFor indexed with hslots
    rcases Nat.lt_or_ge s.limit (s.used + 8 * (headerWords slots + slots)) with hroom | hroom
    · have hheap : allocate fixed indexed format classIndex hash h = .error
          (.outOfMemory (min (8 * (headerWords slots + slots)) (2 ^ 64 - 1)) h.limit) h := by
        rw [← rep.used_eq, ← rep.limit_eq] at hroom
        rw [allocate, if_neg (Nat.not_lt.mpr hclass), hadmits, if_neg (by decide)]
        exact if_pos hroom
      have hmap : ObjectMap.allocate fixed indexed format classIndex hash s = .error
          (.outOfMemory (min (8 * (headerWords slots + slots)) (2 ^ 64 - 1)) s.limit) s := by
        rw [ObjectMap.allocate, if_neg (Nat.not_lt.mpr hclass), hadmits, if_neg (by decide)]
        exact if_pos hroom
      rw [hheap, hmap, rep.limit_eq]
      exact ⟨⟨rfl, rep⟩, fun _ _ hok => by cases hok⟩
    · exact agree_allocate_of_room rep hash hclass hadmits hroom

/-- A store of a word does the same on both. -/
theorem agree_store (rep : h.Represents s) {object : Value} {o : Object}
    (ho : s.objects object = some o) (index : ℕ) (value : Value) :
    Agree (store object index value h)
      (ObjectMap.change object (fun o => o.storeWord object index value.raw) s) := by
  have hold := rep.holds ho
  have hshows := hold.shows rep.usedBytes_lt
  have haddress : h.storeAddress object index =
      if o.flags.immutable then .error (.immutable object)
      else if o.slotCount ≤ index then .error (.indexOutOfBounds object index o.slotCount)
      else .ok (object.raw.toNat + 8 + index * 8) := by
    rw [storeAddress, hshows.immutable]
    cases o.flags.immutable
    · exact hold.slotAddress_eq rep.usedBytes_lt index
    · rfl
  rw [store, haddress, ObjectMap.change, ho]
  simp only [Object.storeWord]
  cases himmutable : o.flags.immutable with
  | true => exact ⟨rfl, rep⟩
  | false =>
    simp only [Bool.false_eq_true, if_false]
    rcases Nat.lt_or_ge index o.slotCount with hindex | hindex
    · rw [if_neg (Nat.not_le.mpr hindex), if_neg (Nat.not_le.mpr hindex)]
      have hlength := hold.wellFormed.length_eq
      have hfits := hold.fits
      have haligned := hold.aligned
      have hplace : object.raw.toNat + 8 + index * 8 = object.raw.toNat + 8 + 8 * index := by omega
      refine ⟨rfl, rep.overwrite ho ?_ rfl rfl (usedBytes_writeWord h _ _) ?_⟩
      · rw [Word.length_bytes]
        simp only [wordSize]
        omega
      · rw [hplace]
        exact byteAt_writeWord_aligned (by omega) (by omega) value.raw
    · rw [if_pos hindex, if_pos hindex]
      exact ⟨rfl, rep⟩

/-- Where the bytes of an object begin and how many there are, if they may be stored into. -/
lemma storeBytesRange_eq (rep : h.Represents s) {object : Value} {o : Object}
    (ho : s.objects object = some o) : h.storeBytesRange object =
      if o.flags.immutable then .error (.immutable object)
      else if !o.format.isBytes then .error (.notBytes object)
      else .ok (object.raw.toNat + 8, o.byteCount) := by
  have hold := rep.holds ho
  have hshows := hold.shows rep.usedBytes_lt
  rw [storeBytesRange, hshows.immutable, hold.byteSize_eq rep.usedBytes_lt, firstField,
    hold.addressOf_eq]
  cases o.flags.immutable <;> cases o.format.isBytes <;> rfl

/-- A store of bytes does the same on both. -/
theorem agree_storeBytes (rep : h.Represents s) {object : Value} {o : Object}
    (ho : s.objects object = some o) (offset : ℕ) (bytes : List UInt8) :
    Agree (storeBytes object offset bytes h)
      (ObjectMap.change object (fun o => o.storeBytes object offset bytes) s) := by
  have hold := rep.holds ho
  rw [storeBytes, storeBytesRange_eq rep ho, ObjectMap.change, ho]
  simp only [Object.storeBytes]
  cases himmutable : o.flags.immutable with
  | true => exact ⟨rfl, rep⟩
  | false =>
    cases hbytes : o.format.isBytes with
    | false => exact ⟨rfl, rep⟩
    | true =>
      simp only [Bool.false_eq_true, if_false, Bool.not_true]
      obtain ⟨hused, hlimit, hnil⟩ := h.writeBytes_keeps (object.raw.toNat + 8 + offset)
        (bytes.take (o.byteCount - offset))
      refine ⟨rfl, ?_⟩
      cases hfitting : bytes.take (o.byteCount - offset) with
      | nil =>
        rw [Object.overwrite_nil]
        exact rep.put ho rfl rfl rfl rfl (fun _ _ => rfl) hold
      | cons byte rest =>
        rw [← hfitting]
        have hlength : (bytes.take (o.byteCount - offset)).length ≤ o.byteCount - offset :=
          List.length_take_le _ _
        have hpos : 0 < (bytes.take (o.byteCount - offset)).length := by
          rw [hfitting]
          exact Nat.succ_pos _
        have hcount : o.byteCount ≤ o.body.length := Nat.sub_le _ _
        have hfits := hold.fits
        refine rep.overwrite ho (by omega) hlimit hnil hused ?_
        exact byteAt_writeBytes (by omega)

/-- A store of one byte does the same on both. -/
theorem agree_storeByte (rep : h.Represents s) {object : Value} {o : Object}
    (ho : s.objects object = some o) (index : ℕ) (byte : UInt8) :
    Agree (storeByte object index byte h)
      (ObjectMap.change object (fun o => o.storeByte object index byte) s) := by
  have hfits := (rep.holds ho).fits
  rw [storeByte, storeBytesRange_eq rep ho, ObjectMap.change, ho]
  simp only [Object.storeByte]
  cases himmutable : o.flags.immutable with
  | true => exact ⟨rfl, rep⟩
  | false =>
    cases hbytes : o.format.isBytes with
    | false => exact ⟨rfl, rep⟩
    | true =>
      simp only [Bool.false_eq_true, if_false, Bool.not_true]
      rcases Nat.lt_or_ge index o.byteCount with hindex | hindex
      · rw [if_neg (Nat.not_le.mpr hindex), if_neg (Nat.not_le.mpr hindex)]
        have hcount : o.byteCount ≤ o.body.length := Nat.sub_le _ _
        have hroom : object.raw.toNat + 8 + index + [byte].length ≤ h.usedBytes := by
          rw [List.length_singleton]
          omega
        have hwrite := byteAt_writeBytes hroom
        rw [writeBytes_cons] at hwrite
        refine ⟨rfl, rep.overwrite ho ?_ rfl rfl (usedBytes_writeByte h _ byte) hwrite⟩
        rw [List.length_singleton]
        omega
      · rw [if_pos hindex, if_pos hindex]
        exact ⟨rfl, rep⟩

/-- Replacing flags does the same on both. -/
theorem agree_setFlags (rep : h.Represents s) {object : Value} {o : Object}
    (ho : s.objects object = some o) (flags : HeaderFlags) :
    Agree (setFlags object flags h)
      (ObjectMap.change object (fun o => o.setFlags flags) s) := by
  have hold := rep.holds ho
  have hfits := hold.fits
  have haligned := hold.aligned
  rw [setFlags, hold.addressOf_eq, ObjectMap.change, ho]
  simp only [Object.setFlags, hold.header]
  refine ⟨rfl, rep.put ho rfl rfl rfl (usedBytes_writeWord h _ _) (fun b hb => ?_)
    (hold.setFlags flags)⟩
  rw [byteAt_writeWord (by omega), if_neg]
  intro hsame
  have hwords := o.headerWords_cases
  exact hb ⟨by omega, by omega⟩

/-- Another nil is another nil on both. -/
theorem agree_setNil (rep : h.Represents s) (nil : Value) :
    Agree (setNil nil h) (.ok () { s with nil := nil }) :=
  ⟨rfl, rep.limit_eq, rfl, rep.used_eq, rep.le_used, rep.used_le, rep.limit_lt,
    fun ho => (rep.holds ho).congr le_rfl fun _ _ => rfl, rep.disjoint⟩

/-- Allocation of an object with given bytes does the same on both. It stores into an object that
was allocated just before. -/
theorem agree_allocateBytes (rep : h.Represents s) (contents : List UInt8) (format : ObjectFormat)
    (classIndex : ℕ) :
    Agree (allocateBytes contents format classIndex h)
      (ObjectMap.allocateBytes contents format classIndex s) := by
  refine agree_bind (agree_allocate rep 0 contents.length format classIndex none).1 ?_
  intro name h' s' hname rep'
  obtain ⟨hash, fill, used, rfl⟩ := ObjectMap.exists_of_allocate hname
  refine agree_bind (agree_storeBytes rep' (ObjectMap.objects_put_self s name _) 0 contents) ?_
  intro count h'' s'' _ rep''
  exact ⟨rfl, rep''⟩

end Heap

end TalkMachine
