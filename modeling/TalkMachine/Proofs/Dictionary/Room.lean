import TalkMachine.Proofs.Dictionary.Refinement
import TalkMachine.Proofs.Heap.Room

/-!
# Room for dictionaries

As long as bytes are left for two arrays of the next capacity, a key that is known can be put into a
dictionary whose parts are mutable (`Dictionary.affords_insert`): a table that is not full has a
place for every key (`Dictionary.Holding.exists_place`), and a full one gets more places than it had.
-/

namespace TalkMachine

namespace Dictionary

open Heap (room objectSize)

variable {h h' : Heap} {s : ObjectMap} {d keyArray valueArray key : Value} {ks vs : List Value}
  {puts : List (Value × Value)}

/-! ### Questions and arrays -/

/-- A question that is answered takes no room. -/
lemma affords_ask_bind {α β : Type} {question : Heap → Except MachineError α} {f : α → DictionaryM β}
    {a : α} {c : ℕ} (hanswer : question h = .ok a) (hf : Affords room c (f a) h) :
    Affords room c (ask question >>= f) h :=
  .bind_of_ok (ask_eq_ok_iff.mpr ⟨hanswer, rfl⟩) le_rfl hf

/-- A change of the heap takes what it takes there. -/
lemma affords_change {α : Type} {x : HeapM α} {c : ℕ} (hx : Affords room c x h) :
    Affords room c (change x) h :=
  hx.adaptExcept _

/-- A new array takes one slot for each place. -/
lemma affords_newArray (n : ℕ) (h : Heap) : Affords room (objectSize n) (newArray n) h := by
  have hslots : 0 + ObjectFormat.variableSize.slotsFor n = n := by
    simp [ObjectFormat.slotsFor, ObjectFormat.divisor, ObjectFormat.elementSize, wordSize]
  have hclass : ClassIndex.array ≤ Header.maxClassIndex := by decide
  have hadmits : ObjectFormat.variableSize.admits 0 n = true := by simp [ObjectFormat.admits]
  have hallocates := Heap.affords_allocate hclass hadmits none h
  rw [hslots] at hallocates
  exact affords_change hallocates

/-- A new dictionary takes its own slots and those of two arrays. -/
lemma affords_new (rep : h.Represents s) (n : ℕ) :
    Affords room (objectSize slotCount + (objectSize n + objectSize n)) (new n) h := by
  have hclass : ClassIndex.methodDictionary ≤ Header.maxClassIndex := by decide
  have hadmits : ObjectFormat.fixedSize.admits slotCount 0 = true := rfl
  rw [new]
  refine (affords_change (Heap.affords_allocate hclass hadmits none h)).bind
    fun d h₁ hallocate => (affords_newArray n h₁).bind fun keyArray h₂ hkeys => ?_
  rw [change_eq_ok_iff] at hallocate
  obtain ⟨s₁, rep₁, -, -, hmutable₁, hd₁⟩ := Heap.exists_of_allocate rep rfl hallocate
  refine (affords_newArray n h₂).bind (d := 0) fun valueArray h₃ hvalues => ?_
  obtain ⟨s₃, rep₃, hretains₃, -⟩ := exists_of_newArrays rep₁ hkeys hvalues
  have hd₃ : s₃.HasSlots d [s.nil, s.nil, s.nil] := hretains₃.slots List.not_mem_nil hd₁
  have hmutable₃ := hretains₃.isMutable hmutable₁
  refine (affords_change ?_).bind_free fun _ _ _ => .pure d
  refine Heap.affords_store_bind rep₃ hmutable₃ hd₃ (by simp [tallySlot])
    fun h₄ s₄ rep₄ hmutable₄ hd₄ => ?_
  refine Heap.affords_store_bind rep₄ hmutable₄ hd₄ (by simp [keysSlot])
    fun h₅ s₅ rep₅ hmutable₅ hd₅ => ?_
  exact Heap.affords_store rep₅ hmutable₅ hd₅ (by simp [valuesSlot]) _

/-! ### Places -/

/-- A table that is not full has a place for every key. -/
lemma Holding.exists_place (holding : Holding h s keyArray valueArray ks vs puts)
    (rep : h.Represents s) (hknows : s.Knows key) (hfree : keyCount puts < ks.length) :
    ∃ place, findPlaceIn h keyArray key = .ok (some place) ∧ place < ks.length := by
  obtain ⟨home, hhome, -⟩ := Heap.exists_identityHashOf rep rep (.refl s) hknows
  obtain ⟨result, hresult, hfound⟩ := exists_findPlaceIn rep holding.keys hhome
  cases result with
  | some place => exact ⟨place, hresult, Table.lt_of_isFound hfound⟩
  | none => exact absurd (holding.of_isFound_none hfound).2 hfree.ne

/-- An entry can be stored at any place of two mutable arrays, first the key and then the value. -/
lemma Holding.affords_stores (holding : Holding h s keyArray valueArray ks vs puts)
    (rep : h.Represents s) (hmutable : ∀ name ∈ [keyArray, valueArray], s.IsMutable name)
    {place : ℕ} (hplace : place < ks.length) (key value : Value) :
    Affords room 0 (change (Heap.store keyArray place key)) h ∧
      ∀ h₁, change (Heap.store keyArray place key) h = .ok () h₁ →
        Affords room 0 (change (Heap.store valueArray place value)) h₁ := by
  have hkeys := hmutable keyArray (by simp)
  have hvalues := hmutable valueArray (by simp)
  refine ⟨affords_change (Heap.affords_store rep hkeys holding.keys hplace key), fun h₁ hstore => ?_⟩
  rw [change_eq_ok_iff] at hstore
  obtain ⟨s₁, rep₁, hretains₁, -, -⟩ := Heap.exists_of_store rep holding.keys hstore
  have hvalues₁ := hretains₁.slots (by simpa using holding.values_ne_keys) holding.values
  have hplace' : place < vs.length := holding.table.length_eq.symm ▸ hplace
  exact affords_change
    (Heap.affords_store rep₁ (hretains₁.isMutable hvalues) hvalues₁ hplace' value)

/-! ### Filling and growing -/

/-- A key that is put counts once at most. -/
lemma keyCount_cons_le (key value : Value) (puts : List (Value × Value)) :
    keyCount ((key, value) :: puts) ≤ keyCount puts + 1 := by
  rw [keyCount_cons]
  split <;> omega

/-- Mutable arrays with a free place for each entry can be filled. -/
lemma affords_fill (rep : h.Represents s) (holding : Holding h s keyArray valueArray ks vs puts)
    (hmutable : ∀ name ∈ [keyArray, valueArray], s.IsMutable name) {entries : List (Value × Value)}
    (hentries : ∀ k ∈ entries.map Prod.fst, k ≠ h.nil ∧ s.Knows k)
    (hfree : keyCount puts + entries.length ≤ ks.length) :
    Affords room 0 (fill keyArray valueArray entries) h := by
  induction entries generalizing h s ks vs puts with
  | nil => exact .pure ()
  | cons entry rest ih =>
    obtain ⟨k, v⟩ := entry
    rw [List.map_cons, List.forall_mem_cons] at hentries
    obtain ⟨⟨hkey, hknows⟩, hrest⟩ : (k ≠ h.nil ∧ s.Knows k) ∧ _ := hentries
    rw [List.length_cons] at hfree
    obtain ⟨place, hplace, hlt⟩ := holding.exists_place rep hknows (by omega)
    rw [fill]
    refine affords_ask_bind (a := place) (by rw [hplace]; rfl) ?_
    obtain ⟨hputsKey, hputsValue⟩ := holding.affords_stores rep hmutable hlt k v
    refine hputsKey.bind_free fun _ h₁ hstoreKey => (hputsValue h₁ hstoreKey).bind_free
      fun _ h₂ hstoreValue => ?_
    rw [change_eq_ok_iff] at hstoreKey hstoreValue
    obtain ⟨home, hhome, -⟩ := Heap.exists_identityHashOf rep rep (.refl s) hknows
    obtain ⟨result, hresult, hfound⟩ := exists_findPlaceIn rep holding.keys hhome
    obtain rfl := Except.ok.inj (hplace.symm.trans hresult)
    obtain ⟨s₂, rep₂, hretains, holding₂⟩ :=
      holding.put rep hhome hkey hknows hfound hstoreKey hstoreValue
    have hnil : h₂.nil = h.nil := Heap.nil_eq_of_keeps rep rep₂ hretains.toKeeps
    have hcount := keyCount_cons_le k v puts
    exact ih rep₂ holding₂ (fun name hname => hretains.isMutable (hmutable name hname))
      (fun k hk => ⟨hnil ▸ (hrest k hk).1, hretains.knows (hrest k hk).2⟩)
      (by rw [List.length_set]; omega)

/-- A mutable dictionary can grow when there is room for the new arrays. -/
lemma affords_grow (rep : h.Represents s)
    (contains : Contains h s d keyArray valueArray ks vs puts) (hmutable : s.IsMutable d) :
    Affords room (objectSize (max minCapacity (2 * ks.length)) +
      objectSize (max minCapacity (2 * ks.length))) (grow d) h := by
  rw [grow]
  refine affords_ask_bind (contains.parts.capacity_eq rep) ?_
  refine affords_ask_bind (contains.parts.entries_eq rep contains.table.length_eq) ?_
  refine (affords_newArray _ h).bind fun keyArray' h₁ hkeys => ?_
  refine (affords_newArray _ h₁).bind (d := 0) fun valueArray' h₂ hvalues => ?_
  obtain ⟨s₂, rep₂, hretains₂, hrenews, holding₂⟩ := exists_of_newArrays rep hkeys hvalues
  have hmutable₂ := hrenews.isMutable hretains₂ (List.forall_mem_nil _)
  have hnil : h₂.nil = h.nil := Heap.nil_eq_of_keeps rep rep₂ hretains₂.toKeeps
  have hentries : ∀ k ∈ (pairs h.nil ks vs).map Prod.fst, k ≠ h₂.nil ∧ s₂.Knows k := by
    intro k hk
    have hput := contains.means.mem_keys_iff.mp hk
    exact ⟨hnil ▸ ((mem_puts_iff contains.table contains.means).mp hput).1,
      hretains₂.knows (contains.knows k hput)⟩
  have hlength := length_pairs_le h.nil ks vs
  refine (affords_fill rep₂ holding₂ hmutable₂ hentries ?_).bind_free fun _ h₃ hfill => ?_
  · rw [List.length_replicate]
    exact (Nat.zero_add _).trans_le (hlength.trans (by omega))
  obtain ⟨s₃, ks', vs', rep₃, hretains₃, -, -⟩ := exists_of_fill rep₂ holding₂ hentries hfill
  have hkeys_ne : d ∉ [keyArray', valueArray'] := fun hmem =>
    contains.dictionary.ne_of_none (hrenews.objects_eq_none hmem) rfl
  have hd₃ := hretains₃.slots hkeys_ne (hretains₂.slots List.not_mem_nil contains.dictionary)
  have hmutable₃ := hretains₃.isMutable (hretains₂.isMutable hmutable)
  refine (affords_change (Heap.affords_store rep₃ hmutable₃ hd₃ (by simp [keysSlot]) _)).bind_free
    fun _ h₄ hstoreKeys => ?_
  rw [change_eq_ok_iff] at hstoreKeys
  obtain ⟨s₄, rep₄, hretains₄, -, hd₄⟩ := Heap.exists_of_store rep₃ hd₃ hstoreKeys
  exact affords_change
    (Heap.affords_store rep₄ (hretains₄.isMutable hmutable₃) hd₄ (by simp [valuesSlot]) _)

/-! ### Insertion -/

/-- The bytes that putting a key into a table with so many places takes at most. -/
def insertCost (capacity : ℕ) : ℕ :=
  objectSize (max minCapacity (2 * capacity)) + objectSize (max minCapacity (2 * capacity))

/-- More places take no less. -/
lemma insertCost_mono {capacity capacity' : ℕ} (hle : capacity ≤ capacity') :
    insertCost capacity ≤ insertCost capacity' := by
  have hmono := Heap.objectSize_mono
    (show max minCapacity (2 * capacity) ≤ max minCapacity (2 * capacity') by omega)
  exact Nat.add_le_add hmono hmono

/-- A table that was created without places has at most twice as many as entries have been put. -/
lemma capacityAfter_le (puts : List (Value × Value)) :
    capacityAfter 0 puts ≤ max minCapacity (2 * puts.length) := by
  induction puts with
  | nil => exact Nat.zero_le _
  | cons put earlier ih =>
    have hcount : keyCount earlier ≤ earlier.length := by
      rw [keyCount]
      exact (List.dedup_sublist _).length_le.trans_eq (List.length_map _)
    rw [capacityAfter, nextCapacity, List.length_cons]
    split <;> omega

/-- There is a place for every key that is known, if not now then after growing. -/
lemma affords_placeFor (rep : h.Represents s)
    (contains : Contains h s d keyArray valueArray ks vs puts) (hmutable : s.IsMutable d)
    (hknows : s.Knows key) : Affords room (insertCost ks.length) (placeFor d key) h := by
  obtain ⟨home, hhome, -⟩ := Heap.exists_identityHashOf rep rep (.refl s) hknows
  obtain ⟨result, hresult, -⟩ := exists_findPlaceIn rep contains.keys hhome
  rw [placeFor]
  refine affords_ask_bind ((contains.parts.findPlace_eq rep key).trans hresult) ?_
  cases result with
  | some place => exact (Affords.pure place).mono (Nat.zero_le _)
  | none =>
    refine ((affords_grow rep contains hmutable).bind (d := 0) fun _ h' hgrow => ?_).mono le_rfl
    obtain ⟨s', keyArray', valueArray', ks', vs', rep', hretains, -, hlength, contains'⟩ :=
      exists_of_grow rep contains hgrow
    have hfree : keyCount puts < ks'.length := by
      have hle := contains.keyCount_le.1
      rw [hlength, minCapacity]
      omega
    obtain ⟨place, hplace, -⟩ := contains'.exists_place rep' (hretains.knows hknows) hfree
    refine .of_ok (ask_eq_ok_iff.mpr ⟨?_, rfl⟩) le_rfl (a := place)
    rw [contains'.parts.findPlace_eq rep', hplace]
    rfl

/-- A key that is known can be put into a dictionary that can be stored into, when there is room for
growing. -/
theorem affords_insert (rep : h.Represents s)
    (contains : Contains h s d keyArray valueArray ks vs puts)
    (hmutable : ∀ name ∈ [d, keyArray, valueArray], s.IsMutable name) (hknows : s.Knows key)
    (value : Value) :
    Affords room (insertCost ks.length) (insert d key value) h := by
  rw [List.forall_mem_cons] at hmutable
  rw [insert]
  refine ((affords_placeFor rep contains hmutable.1 hknows).bind (d := 0)
    fun place h₁ hplace => ?_).mono le_rfl
  obtain ⟨s₁, keyArray₁, valueArray₁, ks₁, vs₁, home, rep₁, hretains₁, hrenews₁, -, contains₁, -,
    hfound⟩ := exists_of_placeFor rep contains hknows hplace
  have hlt := Table.lt_of_isFound hfound
  have hmutable₁ := hrenews₁.isMutable hretains₁ hmutable.2
  refine affords_ask_bind (contains₁.parts.keys_eq rep₁) ?_
  refine affords_ask_bind (contains₁.parts.values_eq rep₁) ?_
  refine affords_ask_bind (a := ks₁[place] == h₁.nil) ?_ ?_
  · rw [Heap.fetch_eq_of_hasSlots rep₁ contains₁.keys (List.getElem?_eq_getElem hlt)]
    rfl
  split
  · refine affords_ask_bind (contains₁.parts.tally_eq rep₁ contains₁.keyCount_le.1) ?_
    refine (affords_change (Heap.affords_store rep₁ (hretains₁.isMutable hmutable.1)
      contains₁.dictionary (by simp [tallySlot]) _)).bind_free fun _ h₂ hstoreTally => ?_
    rw [change_eq_ok_iff] at hstoreTally
    obtain ⟨s₂, rep₂, hretains₂, -, -⟩ :=
      Heap.exists_of_store rep₁ contains₁.dictionary hstoreTally
    have holding₂ := contains₁.toHolding.keep rep₁ rep₂ hretains₂.toKeepsBut
      (by simpa using contains₁.keys_ne) (by simpa using contains₁.values_ne)
    obtain ⟨hputsKey, hputsValue⟩ := holding₂.affords_stores rep₂
      (fun name hname => hretains₂.isMutable (hmutable₁ name hname)) hlt key value
    exact hputsKey.bind_free fun _ h₃ hstoreKey => hputsValue h₃ hstoreKey
  · obtain ⟨hputsKey, hputsValue⟩ :=
      contains₁.toHolding.affords_stores rep₁ hmutable₁ hlt key value
    exact hputsKey.bind_free fun _ h₂ hstoreKey => hputsValue h₂ hstoreKey

end Dictionary

end TalkMachine
