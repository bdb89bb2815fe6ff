import TalkMachine.Proofs.Dictionary.Reading

/-!
# Changing dictionaries

What comes of each operation that was not refused. An entry is put where a search for its key has
stopped (`Holding.put`); filling fresh arrays puts one entry after the other (`exists_of_fill`), so
growing moves the same entries to a wider table (`exists_of_grow`); insertion looks for a place,
grows if there is none, counts a key that is new (`exists_of_insert_place`), and puts the entry
(`exists_of_insert`). Nil can be put as well: its place stays free, and so it is counted every time
(`Stands.exists_of_insert_nil`).
-/

namespace TalkMachine

namespace Dictionary

variable {h h' : Heap} {s s' : ObjectMap} {d keyArray valueArray key value : Value}
  {ks vs : List Value} {puts : List (Value × Value)} {n home place : ℕ}

/-! ### Steps -/

/-- A change to the heap that was not refused. -/
lemma change_eq_ok_iff {α : Type} {x : HeapM α} {a : α} :
    change x h = .ok a h' ↔ x h = .ok a h' :=
  adaptExcept_eq_ok_iff

/-- A question that was not refused. -/
lemma ask_eq_ok_iff {α : Type} {question : Heap → Except MachineError α} {a : α} :
    ask question h = .ok a h' ↔ question h = .ok a ∧ h = h' := by
  unfold ask
  cases question h <;> simp

/-- A question and what follows succeed just when the question is answered and what follows succeeds
on the same heap. -/
lemma ask_bind_eq_ok_iff {α β : Type} {question : Heap → Except MachineError α}
    {f : α → DictionaryM β} {b : β} :
    (ask question >>= f) h = .ok b h' ↔ ∃ a, question h = .ok a ∧ f a h = .ok b h' := by
  simp only [run_bind_eq_ok_iff, ask_eq_ok_iff]
  exact exists_congr fun a => ⟨fun ⟨_, ⟨ha, heq⟩, hf⟩ => ⟨ha, heq ▸ hf⟩,
    fun ⟨ha, hf⟩ => ⟨h, ⟨ha, rfl⟩, hf⟩⟩

/-- A place that there must be. -/
lemma requirePlace_eq_ok_iff {result : Option ℕ} :
    requirePlace result = .ok place ↔ result = some place := by
  cases result <;> simp [requirePlace]

/-- Storing a key and a value changes the two arrays and nothing else. -/
lemma exists_of_stores (rep : h.Represents s) (hkeys : s.HasSlots keyArray ks)
    (hvalues : s.HasSlots valueArray vs) (hne : valueArray ≠ keyArray) {h₁ h₂ : Heap}
    (hstoreKey : Heap.store keyArray place key h = .ok () h₁)
    (hstoreValue : Heap.store valueArray place value h₁ = .ok () h₂) :
    ∃ s₂, h₂.Represents s₂ ∧ s.Retains [keyArray, valueArray] s₂ ∧ place < ks.length ∧
      s₂.HasSlots keyArray (ks.set place key) ∧ s₂.HasSlots valueArray (vs.set place value) := by
  obtain ⟨s₁, rep₁, hkeeps₁, hplace, hkeys₁⟩ := Heap.exists_of_store rep hkeys hstoreKey
  have hvalues₁ := hkeeps₁.slots (by simpa using hne) hvalues
  obtain ⟨s₂, rep₂, hkeeps₂, -, hvalues₂⟩ := Heap.exists_of_store rep₁ hvalues₁ hstoreValue
  have hkeys₂ := hkeeps₂.slots (by simpa using hne.symm) hkeys₁
  exact ⟨s₂, rep₂, (hkeeps₁.mono (by simp)).trans hkeeps₂ (by simp), hplace, hkeys₂, hvalues₂⟩

/-! ### Arrays that hold a table -/

/-- Whether two arrays hold a table of what was put, with keys whose identity hashes stay. -/
structure Holding (h : Heap) (s : ObjectMap) (keyArray valueArray : Value) (ks vs : List Value)
    (puts : List (Value × Value)) : Prop where
  keys : s.HasSlots keyArray ks
  values : s.HasSlots valueArray vs
  values_ne_keys : valueArray ≠ keyArray
  table : Table h.identityHashOf h.nil ks vs
  means : Means h.nil ks vs puts
  knows : ∀ k ∈ puts.map Prod.fst, s.Knows k

/-- The keys that were put are those that stand in the table. -/
lemma mem_puts_iff (table : Table h.identityHashOf h.nil ks vs) (means : Means h.nil ks vs puts)
    {k : Value} : k ∈ puts.map Prod.fst ↔ k ≠ h.nil ∧ ∃ i : ℕ, ks[i]? = some k := by
  rw [← means.mem_keys_iff, map_fst_pairs h.nil table.length_eq, List.mem_filter,
    List.mem_iff_getElem?, and_comm, decide_eq_true_eq]

/-- A table stays a table while the identity hashes of its keys do. -/
lemma table_of_keeps (rep : h.Represents s) (rep' : h'.Represents s') (hkeeps : s.Keeps s')
    (table : Table h.identityHashOf h.nil ks vs) (means : Means h.nil ks vs puts)
    (hknows : ∀ k ∈ puts.map Prod.fst, s.Knows k) :
    Table h'.identityHashOf h'.nil ks vs ∧ Means h'.nil ks vs puts := by
  have hnil : h'.nil = h.nil := Heap.nil_eq_of_keeps rep rep' hkeeps
  rw [hnil]
  refine ⟨table.congr fun {i k} hi hk => ?_, means⟩
  obtain ⟨hash, hbefore, hafter⟩ := Heap.exists_identityHashOf rep rep' hkeeps
    (hknows k ((mem_puts_iff table means).mpr ⟨hk, i, hi⟩))
  rw [hbefore, hafter]

namespace Holding

/-- A change to other objects keeps the table. -/
lemma keep (holding : Holding h s keyArray valueArray ks vs puts) (rep : h.Represents s)
    (rep' : h'.Represents s') {changed : List Value} (hkeeps : s.KeepsBut changed s')
    (hkeys : keyArray ∉ changed) (hvalues : valueArray ∉ changed) :
    Holding h' s' keyArray valueArray ks vs puts := by
  obtain ⟨table', means'⟩ := table_of_keeps rep rep' hkeeps.toKeeps holding.table holding.means
    holding.knows
  exact ⟨hkeeps.slots hkeys holding.keys, hkeeps.slots hvalues holding.values,
    holding.values_ne_keys, table', means', fun k hk => hkeeps.knows (holding.knows k hk)⟩

/-- There are no more keys than places, and as many only if no place is free. -/
lemma keyCount_le (holding : Holding h s keyArray valueArray ks vs puts) :
    keyCount puts ≤ ks.length ∧ (keyCount puts = ks.length ↔ ∀ i : ℕ, ks[i]? ≠ some h.nil) := by
  rw [← holding.means.length_pairs_eq holding.table]
  exact ⟨length_pairs_le _ _ _, length_pairs_eq_iff holding.table.length_eq⟩

/-- A search for a key stops at a free place just when the key is new. -/
lemma found_eq_nil_iff (holding : Holding h s keyArray valueArray ks vs puts)
    (hhome : h.identityHashOf key = .ok home) (hkey : key ≠ h.nil)
    (hfound : IsFound h.nil key ks home (some place)) {found : Value}
    (hget : ks[place]? = some found) : found = h.nil ↔ key ∉ puts.map Prod.fst := by
  have hmem := mem_puts_iff (k := key) holding.table holding.means
  constructor
  · rw [hmem]
    rintro hfree ⟨-, i, hi⟩
    obtain rfl := Option.some.inj (holding.table.eq_of_isFound hhome hkey hi hfound)
    exact hkey ((Option.some.inj (hi.symm.trans hget)).trans hfree)
  · intro hnew
    obtain ⟨-, -, -, hplace, -⟩ := hfound
    rcases hplace with hplace | hplace
    · exact absurd (hmem.mpr ⟨hkey, place, hplace⟩) hnew
    · exact Option.some.inj (hget.symm.trans hplace)

/-- A search stops at no place only if the key is new and the table full. -/
lemma of_isFound_none (holding : Holding h s keyArray valueArray ks vs puts)
    (hfound : IsFound h.nil key ks home none) :
    key ∉ puts.map Prod.fst ∧ keyCount puts = ks.length := by
  constructor
  · rw [mem_puts_iff holding.table holding.means]
    rintro ⟨-, i, hi⟩
    exact (Table.ne_of_isFound_none hfound i).1 hi
  · exact holding.keyCount_le.2.mpr fun i => (Table.ne_of_isFound_none hfound i).2

/-- A search stops at a place only if the key has been put or the table is not full. -/
lemma of_isFound_some (holding : Holding h s keyArray valueArray ks vs puts)
    (hfound : IsFound h.nil key ks home (some place)) :
    ¬(key ∉ puts.map Prod.fst ∧ keyCount puts = ks.length) := by
  rintro ⟨hnew, hfull⟩
  have htaken := holding.keyCount_le.2.mp hfull place
  obtain ⟨-, -, -, hplace, -⟩ := hfound
  rcases hplace with hplace | hplace
  · by_cases hkey : key = h.nil
    · exact htaken (hkey ▸ hplace)
    · exact hnew ((mem_puts_iff holding.table holding.means).mpr ⟨hkey, place, hplace⟩)
  · exact htaken hplace

/-- An entry that is stored where a search for its key has stopped is put into the table. -/
lemma put (holding : Holding h s keyArray valueArray ks vs puts) (rep : h.Represents s)
    (hhome : h.identityHashOf key = .ok home) (hkey : key ≠ h.nil) (hknows : s.Knows key)
    (hfound : IsFound h.nil key ks home (some place)) {h₁ h₂ : Heap}
    (hstoreKey : Heap.store keyArray place key h = .ok () h₁)
    (hstoreValue : Heap.store valueArray place value h₁ = .ok () h₂) :
    ∃ s₂, h₂.Represents s₂ ∧ s.Retains [keyArray, valueArray] s₂ ∧
      Holding h₂ s₂ keyArray valueArray (ks.set place key) (vs.set place value)
        ((key, value) :: puts) := by
  obtain ⟨s₂, rep₂, hkeeps, -, hkeys₂, hvalues₂⟩ := exists_of_stores rep holding.keys holding.values
    holding.values_ne_keys hstoreKey hstoreValue
  have hknows' : ∀ k ∈ ((key, value) :: puts).map Prod.fst, s.Knows k := by
    rw [List.map_cons, List.forall_mem_cons]
    exact ⟨hknows, holding.knows⟩
  obtain ⟨table₂, means₂⟩ := table_of_keeps rep rep₂ hkeeps.toKeeps
    (holding.table.put hhome hkey hfound value)
    (holding.means.put holding.table hhome hkey hfound value) hknows'
  exact ⟨s₂, rep₂, hkeeps, hkeys₂, hvalues₂, holding.values_ne_keys, table₂, means₂,
    fun k hk => hkeeps.knows (hknows' k hk)⟩

/-- If nil is stored as a key at a free place, the place stays free, and the table holds what it held. -/
lemma put_nil (holding : Holding h s keyArray valueArray ks vs puts) (rep : h.Represents s)
    (hfree : ks[place]? = some h.nil) {h₁ h₂ : Heap}
    (hstoreKey : Heap.store keyArray place h.nil h = .ok () h₁)
    (hstoreValue : Heap.store valueArray place value h₁ = .ok () h₂) :
    ∃ s₂, h₂.Represents s₂ ∧ s.Retains [keyArray, valueArray] s₂ ∧
      Holding h₂ s₂ keyArray valueArray ks (vs.set place value) puts := by
  obtain ⟨s₂, rep₂, hkeeps, -, hkeys₂, hvalues₂⟩ := exists_of_stores rep holding.keys holding.values
    holding.values_ne_keys hstoreKey hstoreValue
  obtain ⟨hlt, hget⟩ := List.getElem?_eq_some_iff.mp hfree
  rw [← hget, List.set_getElem_self hlt] at hkeys₂
  have table : Table h.identityHashOf h.nil ks (vs.set place value) :=
    { holding.table with length_eq := (List.length_set ..).trans holding.table.length_eq }
  have means : Means h.nil ks (vs.set place value) puts :=
    fun k v => (mem_pairs_set_free hfree value).trans (holding.means k v)
  obtain ⟨table₂, means₂⟩ := table_of_keeps rep rep₂ hkeeps.toKeeps table means holding.knows
  exact ⟨s₂, rep₂, hkeeps, hkeys₂, hvalues₂, holding.values_ne_keys, table₂, means₂,
    fun k hk => hkeeps.knows (holding.knows k hk)⟩

end Holding

/-! ### Filling -/

/-- Filling puts each entry behind the other. -/
lemma exists_of_fill (rep : h.Represents s)
    (holding : Holding h s keyArray valueArray ks vs puts) {entries : List (Value × Value)}
    (hentries : ∀ k ∈ entries.map Prod.fst, k ≠ h.nil ∧ s.Knows k)
    (hok : fill keyArray valueArray entries h = .ok () h') :
    ∃ s' ks' vs', h'.Represents s' ∧ s.Retains [keyArray, valueArray] s' ∧
      ks'.length = ks.length ∧
      Holding h' s' keyArray valueArray ks' vs' (entries.reverse ++ puts) := by
  induction entries generalizing h s ks vs puts with
  | nil =>
    rw [fill] at hok
    cases hok
    exact ⟨s, ks, vs, rep, .refl _ s, rfl, holding⟩
  | cons entry rest ih =>
    obtain ⟨k, v⟩ := entry
    rw [List.map_cons, List.forall_mem_cons] at hentries
    obtain ⟨⟨hkey, hknows⟩, hrest⟩ := hentries
    rw [fill, ask_bind_eq_ok_iff] at hok
    obtain ⟨place, hrequire, hok⟩ := hok
    simp only [bind_eq_ok_iff, requirePlace_eq_ok_iff] at hrequire
    obtain ⟨_, hplace, rfl⟩ := hrequire
    simp only [run_bind_eq_ok_iff, change_eq_ok_iff] at hok
    obtain ⟨_, h₁, hstoreKey, _, h₂, hstoreValue, hok⟩ := hok
    obtain ⟨home, hhome, -⟩ := Heap.exists_identityHashOf rep rep (.refl s) hknows
    obtain ⟨result, hresult, hfound⟩ := exists_findPlaceIn rep holding.keys hhome
    obtain rfl := Except.ok.inj (hresult.symm.trans hplace)
    obtain ⟨s₂, rep₂, hkeeps, holding₂⟩ :=
      holding.put rep hhome hkey hknows hfound hstoreKey hstoreValue
    have hnil : h₂.nil = h.nil := Heap.nil_eq_of_keeps rep rep₂ hkeeps.toKeeps
    obtain ⟨s', ks', vs', rep', hkeeps', hlength, holding'⟩ := ih rep₂ holding₂
      (fun k hk => ⟨hnil ▸ (hrest k hk).1, hkeeps.knows (hrest k hk).2⟩) hok
    refine ⟨s', ks', vs', rep', hkeeps.trans hkeeps' (by simp), ?_, ?_⟩
    · rw [hlength, List.length_set]
    · rw [List.reverse_cons, List.append_assoc]
      exact holding'

/-! ### The whole dictionary -/

/-- Whether a dictionary holds what was put in these arrays, and has `n` for its tally. -/
structure Stands (h : Heap) (s : ObjectMap) (d : Value) (n : ℕ) (keyArray valueArray : Value)
    (ks vs : List Value) (puts : List (Value × Value)) : Prop
    extends Holding h s keyArray valueArray ks vs puts where
  dictionary : s.HasSlots d [Value.ofInt n, keyArray, valueArray]
  keys_ne : keyArray ≠ d
  values_ne : valueArray ≠ d

/-- Whether a dictionary holds what was put in these arrays, and counts the keys. -/
abbrev Contains (h : Heap) (s : ObjectMap) (d keyArray valueArray : Value) (ks vs : List Value)
    (puts : List (Value × Value)) : Prop :=
  Stands h s d (keyCount puts) keyArray valueArray ks vs puts

namespace Stands

/-- The parts of the dictionary. -/
lemma parts (stands : Stands h s d n keyArray valueArray ks vs puts) :
    HasParts s d n keyArray valueArray ks vs :=
  ⟨stands.dictionary, stands.keys, stands.values, stands.keys_ne, stands.values_ne,
    stands.values_ne_keys⟩

/-- A change to other objects keeps the dictionary. -/
lemma keep (stands : Stands h s d n keyArray valueArray ks vs puts) (rep : h.Represents s)
    (rep' : h'.Represents s') {changed : List Value} (hkeeps : s.KeepsBut changed s')
    (hchanged : ∀ name ∈ [d, keyArray, valueArray], name ∉ changed) :
    Stands h' s' d n keyArray valueArray ks vs puts :=
  ⟨stands.toHolding.keep rep rep' hkeeps (hchanged _ (by simp)) (hchanged _ (by simp)),
    hkeeps.slots (hchanged _ (by simp)) stands.dictionary, stands.keys_ne, stands.values_ne⟩

end Stands

/-! ### Fresh arrays -/

/-- Two fresh arrays hold a table without entries, and are none of the objects before. -/
lemma exists_of_newArrays (rep : h.Represents s) {h₁ : Heap}
    (hkeys : newArray n h = .ok keyArray h₁) (hvalues : newArray n h₁ = .ok valueArray h') :
    ∃ s', h'.Represents s' ∧ s.Retains [] s' ∧ s.Renews s' [] [keyArray, valueArray] ∧
      Holding h' s' keyArray valueArray (List.replicate n h'.nil) (List.replicate n h'.nil) [] := by
  rw [newArray, change_eq_ok_iff] at hkeys hvalues
  obtain ⟨s₁, rep₁, hkeeps₁, hnone, hmutable₁, hkeys₁⟩ := Heap.exists_of_allocate rep rfl hkeys
  obtain ⟨s', rep', hkeeps', hnone₁, hmutable', hvalues'⟩ :=
    Heap.exists_of_allocate rep₁ rfl hvalues
  have hkeys' := hkeeps'.slots List.not_mem_nil hkeys₁
  have hslots : 0 + ObjectFormat.variableSize.slotsFor n = n := by
    simp [ObjectFormat.slotsFor, ObjectFormat.divisor, ObjectFormat.elementSize, wordSize]
  have hnil : h'.nil = s₁.nil := by rw [rep'.nil_eq, hkeeps'.nil_eq]
  rw [hslots, ← hnil] at hvalues'
  rw [hslots, ← hkeeps₁.nil_eq, ← hnil] at hkeys'
  have hnone' := hkeeps₁.objects_eq_none hnone₁
  refine ⟨s', rep', hkeeps₁.trans hkeeps' (List.Subset.refl _), ?_, hkeys', hvalues',
    hkeys₁.ne_of_none hnone₁, table_replicate _ _ _, fun k v => ?_, by simp⟩
  · simpa [ObjectMap.Renews] using ⟨⟨hnone, hkeeps'.isMutable hmutable₁⟩, hnone', hmutable'⟩
  · rw [pairs_replicate]
    simp

/-- Arrays that are stored into the slots of a dictionary are its arrays. -/
lemma exists_of_storeArrays (rep : h.Represents s)
    (holding : Holding h s keyArray valueArray ks vs puts) {old old' : Value}
    (hd : s.HasSlots d [Value.ofInt n, old, old']) (hkeys : keyArray ≠ d)
    (hvalues : valueArray ≠ d) {h₁ : Heap}
    (hstoreKeys : Heap.store d keysSlot keyArray h = .ok () h₁)
    (hstoreValues : Heap.store d valuesSlot valueArray h₁ = .ok () h') :
    ∃ s', h'.Represents s' ∧ s.Retains [d] s' ∧
      Stands h' s' d n keyArray valueArray ks vs puts := by
  obtain ⟨s₁, rep₁, hkeeps₁, -, hd₁⟩ := Heap.exists_of_store rep hd hstoreKeys
  obtain ⟨s', rep', hkeeps', -, hd'⟩ := Heap.exists_of_store rep₁ hd₁ hstoreValues
  have hkeeps := hkeeps₁.trans hkeeps' (List.Subset.refl _)
  exact ⟨s', rep', hkeeps, holding.keep rep rep' hkeeps.toKeepsBut (by simpa using hkeys)
    (by simpa using hvalues), hd', hkeys, hvalues⟩

/-- A new dictionary holds nothing. -/
lemma exists_of_new (rep : h.Represents s) (hok : new n h = .ok d h') :
    ∃ s' keyArray valueArray ks vs, h'.Represents s' ∧ s.Retains [] s' ∧
      s.Renews s' [] [d, keyArray, valueArray] ∧ ks.length = n ∧
      Contains h' s' d keyArray valueArray ks vs [] := by
  rw [new] at hok
  simp only [run_bind_eq_ok_iff, change_eq_ok_iff] at hok
  obtain ⟨_, h₁, hallocate, keyArray, h₂, hkeys, valueArray, h₃, hvalues, _, h₄,
    ⟨_, h₅, hstoreTally, _, h₆, hstoreKeys, hstoreValues⟩, ⟨⟩⟩ := hok
  obtain ⟨s₁, rep₁, hkeeps₁, hnone, hmutable, hd₁⟩ := Heap.exists_of_allocate rep rfl hallocate
  obtain ⟨s₃, rep₃, hkeeps₃, hrenews, holding₃⟩ := exists_of_newArrays rep₁ hkeys hvalues
  have hkeys_ne : keyArray ≠ d := hd₁.ne_of_none (hrenews.objects_eq_none (by simp))
  have hvalues_ne : valueArray ≠ d := hd₁.ne_of_none (hrenews.objects_eq_none (by simp))
  have hd₃ := hkeeps₃.slots List.not_mem_nil hd₁
  obtain ⟨s₅, rep₅, hkeeps₅, -, hd₅⟩ := Heap.exists_of_store rep₃ hd₃ hstoreTally
  have holding₅ := holding₃.keep rep₃ rep₅ hkeeps₅.toKeepsBut (by simpa using hkeys_ne)
    (by simpa using hvalues_ne)
  have hd₅' : s₅.HasSlots d [Value.ofInt (keyCount []), s.nil, s.nil] := hd₅
  obtain ⟨s', rep', hkeeps', contains⟩ := exists_of_storeArrays rep₅ holding₅ hd₅' hkeys_ne
    hvalues_ne hstoreKeys hstoreValues
  have hstores := hkeeps₅.trans hkeeps' (List.Subset.refl _)
  refine ⟨s', keyArray, valueArray, _, _, rep', ?_, ?_, List.length_replicate, contains⟩
  · exact (hkeeps₁.trans hkeeps₃ (List.Subset.refl _)).trans_new hstores (by simpa using hnone)
  · rintro name (_ | ⟨_, hname⟩)
    · exact .inr ⟨hnone, hstores.isMutable (hkeeps₃.isMutable hmutable)⟩
    · obtain ⟨hnone₁, hmutable₃⟩ := (hrenews name hname).resolve_left List.not_mem_nil
      exact .inr ⟨hkeeps₁.objects_eq_none hnone₁, hstores.isMutable hmutable₃⟩

/-! ### Growing -/

/-- Among entries without a key twice, an entry is found by its key. -/
lemma lookup_eq_some_iff_mem {entries : List (Value × Value)}
    (hnodup : (entries.map Prod.fst).Nodup) (k v : Value) :
    entries.lookup k = some v ↔ (k, v) ∈ entries := by
  induction entries with
  | nil => simp
  | cons entry rest ih =>
    obtain ⟨k', v'⟩ := entry
    rw [List.map_cons, List.nodup_cons] at hnodup
    rw [List.lookup_cons]
    by_cases hk : k = k'
    · subst hk
      have habsent : (k, v) ∉ rest :=
        fun hmem => hnodup.1 (List.mem_map.mpr ⟨(k, v), hmem, rfl⟩)
      simp [habsent, eq_comm]
    · rw [beq_eq_false_iff_ne.mpr hk]
      simp [hk, ih hnodup.2]

/-- Growing moves the entries to arrays of at least twice the size. -/
lemma exists_of_grow (rep : h.Represents s)
    (stands : Stands h s d n keyArray valueArray ks vs puts) (hok : grow d h = .ok () h') :
    ∃ s' keyArray' valueArray' ks' vs', h'.Represents s' ∧ s.Retains [d] s' ∧
      s.Renews s' [] [keyArray', valueArray'] ∧ ks'.length = max minCapacity (2 * ks.length) ∧
      Stands h' s' d n keyArray' valueArray' ks' vs' puts := by
  have table := stands.table
  have means := stands.means
  rw [grow, ask_bind_eq_ok_iff] at hok
  obtain ⟨old, hold, hok⟩ := hok
  obtain rfl := Except.ok.inj ((stands.parts.capacity_eq rep).symm.trans hold)
  rw [ask_bind_eq_ok_iff] at hok
  obtain ⟨entries, hentries, hok⟩ := hok
  obtain rfl := Except.ok.inj ((stands.parts.entries_eq rep table.length_eq).symm.trans hentries)
  simp only [run_bind_eq_ok_iff, change_eq_ok_iff] at hok
  obtain ⟨keyArray', h₁, hkeys, valueArray', h₂, hvalues, _, h₃, hfill, _, h₄, hstoreKeys,
    hstoreValues⟩ := hok
  obtain ⟨s₂, rep₂, hkeeps₂, hrenews, holding₂⟩ := exists_of_newArrays rep hkeys hvalues
  have hkeys_ne : keyArray' ≠ d :=
    stands.dictionary.ne_of_none (hrenews.objects_eq_none (by simp))
  have hvalues_ne : valueArray' ≠ d :=
    stands.dictionary.ne_of_none (hrenews.objects_eq_none (by simp))
  have hnil : h₂.nil = h.nil := Heap.nil_eq_of_keeps rep rep₂ hkeeps₂.toKeeps
  have hentries : ∀ k ∈ (pairs h.nil ks vs).map Prod.fst, k ≠ h₂.nil ∧ s₂.Knows k := by
    intro k hk
    have hput := means.mem_keys_iff.mp hk
    exact ⟨hnil ▸ ((mem_puts_iff table means).mp hput).1, hkeeps₂.knows (stands.knows k hput)⟩
  obtain ⟨s₃, ks', vs', rep₃, hkeeps₃, hlength, holding₃⟩ :=
    exists_of_fill rep₂ holding₂ hentries hfill
  -- The entries have no key twice, so their order does not matter.
  have hmeans : Means h₃.nil ks' vs' puts := by
    have hnodup : ((pairs h.nil ks vs).reverse.map Prod.fst).Nodup := by
      rw [List.map_reverse, List.nodup_reverse]
      exact table.nodup_keys
    intro k v
    rw [holding₃.means k v, List.append_nil, lookup_eq_some_iff_mem hnodup, List.mem_reverse,
      means k v]
  have holding₃' : Holding h₃ s₃ keyArray' valueArray' ks' vs' puts :=
    { holding₃ with
      means := hmeans
      knows := fun k hk => hkeeps₃.knows (hkeeps₂.knows (stands.knows k hk)) }
  have hd₃ := hkeeps₃.slots (by simp [hkeys_ne.symm, hvalues_ne.symm])
    (hkeeps₂.slots List.not_mem_nil stands.dictionary)
  obtain ⟨s', rep', hkeeps', stands'⟩ := exists_of_storeArrays rep₃ holding₃' hd₃ hkeys_ne
    hvalues_ne hstoreKeys hstoreValues
  have hkeeps : s.Retains [] s₃ :=
    hkeeps₂.trans_new hkeeps₃ fun name hname => .inr (hrenews.objects_eq_none hname)
  refine ⟨s', keyArray', valueArray', ks', vs', rep', ?_, ?_, ?_, stands'⟩
  · exact (hkeeps.mono (List.nil_subset _)).trans hkeeps' (List.Subset.refl _)
  · exact (hrenews.retains hkeeps₃).retains hkeeps'
  · rw [hlength, List.length_replicate]

/-! ### Insertion -/

/-- The number of places once a key has been put into a table of `capacity` places. -/
def nextCapacity (capacity : ℕ) (puts : List (Value × Value)) (key : Value) : ℕ :=
  if key ∉ puts.map Prod.fst ∧ keyCount puts = capacity then max minCapacity (2 * capacity)
  else capacity

/-- There is a place for a key, after growing when the key is new and the table full. -/
lemma exists_of_placeFor (rep : h.Represents s)
    (stands : Stands h s d n keyArray valueArray ks vs puts) (hknows : s.Knows key)
    (hok : placeFor d key h = .ok place h') :
    ∃ s' keyArray' valueArray' ks' vs' home, h'.Represents s' ∧ s.Retains [d] s' ∧
      s.Renews s' [keyArray, valueArray] [keyArray', valueArray'] ∧
      ks'.length = nextCapacity ks.length puts key ∧
      Stands h' s' d n keyArray' valueArray' ks' vs' puts ∧
      h'.identityHashOf key = .ok home ∧ IsFound h'.nil key ks' home (some place) := by
  obtain ⟨home, hhome, -⟩ := Heap.exists_identityHashOf rep rep (.refl s) hknows
  obtain ⟨result, hresult, hfound⟩ := exists_findPlaceIn rep stands.keys hhome
  rw [placeFor, ask_bind_eq_ok_iff] at hok
  obtain ⟨result', hplace, hok⟩ := hok
  rw [stands.parts.findPlace_eq rep] at hplace
  obtain rfl := Except.ok.inj (hresult.symm.trans hplace)
  cases result with
  | some place' =>
    obtain ⟨rfl, rfl⟩ : place' = place ∧ h = h' := by
      cases hok
      exact ⟨rfl, rfl⟩
    refine ⟨s, keyArray, valueArray, ks, vs, home, rep, .refl _ s, fun _ => .inl, ?_, stands,
      hhome, hfound⟩
    rw [nextCapacity, if_neg (stands.of_isFound_some hfound)]
  | none =>
    simp only [run_bind_eq_ok_iff, ask_eq_ok_iff, bind_eq_ok_iff, requirePlace_eq_ok_iff] at hok
    obtain ⟨_, h₁, hgrow, ⟨_, hplace', rfl⟩, rfl⟩ := hok
    obtain ⟨s', keyArray', valueArray', ks', vs', rep', hkeeps, hrenews, hlength, stands'⟩ :=
      exists_of_grow rep stands hgrow
    obtain ⟨home', -, hhome'⟩ := Heap.exists_identityHashOf rep rep' hkeeps.toKeeps hknows
    obtain ⟨result, hresult', hfound'⟩ := exists_findPlaceIn rep' stands'.keys hhome'
    rw [stands'.parts.findPlace_eq rep'] at hplace'
    obtain rfl := Except.ok.inj (hresult'.symm.trans hplace')
    refine ⟨s', keyArray', valueArray', ks', vs', home', rep', hkeeps,
      fun name hname => .inr ((hrenews name hname).resolve_left List.not_mem_nil), ?_, stands',
      hhome', hfound'⟩
    rw [hlength, nextCapacity, if_pos (stands.of_isFound_none hfound)]

/-- A key that is put adds one to the number of keys if it is new. -/
lemma keyCount_cons (key value : Value) (puts : List (Value × Value)) :
    keyCount ((key, value) :: puts) =
      if key ∈ puts.map Prod.fst then keyCount puts else keyCount puts + 1 := by
  rw [keyCount, List.map_cons]
  split
  · rename_i hmem
    rw [List.dedup_cons_of_mem hmem, keyCount]
  · rename_i hmem
    rw [List.dedup_cons_of_notMem hmem, List.length_cons, keyCount]

/-- One more is counted when the tally is stored anew. -/
lemma Stands.exists_of_storeTally (stands : Stands h s d n keyArray valueArray ks vs puts)
    (rep : h.Represents s) {m : ℕ} (htally : tally h d = .ok m)
    (hstore : Heap.store d tallySlot (Value.ofInt (m + 1)) h = .ok () h') :
    ∃ s', h'.Represents s' ∧ s.Retains [d] s' ∧
      Stands h' s' d (n + 1) keyArray valueArray ks vs puts := by
  obtain ⟨s', rep', hkeeps, -, hd⟩ := Heap.exists_of_store rep stands.dictionary hstore
  rw [stands.parts.ofInt_tally_succ rep htally] at hd
  exact ⟨s', rep', hkeeps, stands.toHolding.keep rep rep' hkeeps.toKeepsBut
    (by simpa using stands.keys_ne) (by simpa using stands.values_ne), hd, stands.keys_ne,
    stands.values_ne⟩

/-- An insertion that is not refused has found a place, and has counted the key if the place was free.
What is left is to store the entry there. -/
lemma exists_of_insert_place (rep : h.Represents s)
    (stands : Stands h s d n keyArray valueArray ks vs puts) (hknows : s.Knows key)
    (hok : insert d key value h = .ok () h') :
    ∃ h₂ h₃ s₂ keyArray₁ valueArray₁ ks₁ vs₁ home place found, h₂.Represents s₂ ∧
      s.Retains [d] s₂ ∧ s.Renews s₂ [keyArray, valueArray] [keyArray₁, valueArray₁] ∧
      ks₁.length = nextCapacity ks.length puts key ∧ ks₁[place]? = some found ∧
      Stands h₂ s₂ d (if found = h.nil then n + 1 else n) keyArray₁ valueArray₁ ks₁ vs₁ puts ∧
      h₂.identityHashOf key = .ok home ∧ IsFound h₂.nil key ks₁ home (some place) ∧
      Heap.store keyArray₁ place key h₂ = .ok () h₃ ∧
      Heap.store valueArray₁ place value h₃ = .ok () h' := by
  rw [insert, run_bind_eq_ok_iff] at hok
  obtain ⟨place, h₁, hplace, hok⟩ := hok
  obtain ⟨s₁, keyArray₁, valueArray₁, ks₁, vs₁, home, rep₁, hkeeps₁, hrenews₁, hlength₁, stands₁,
    hhome, hfound⟩ := exists_of_placeFor rep stands hknows hplace
  have hnil : h₁.nil = h.nil := Heap.nil_eq_of_keeps rep rep₁ hkeeps₁.toKeeps
  obtain ⟨found, hget⟩ : ∃ found, ks₁[place]? = some found :=
    ⟨_, List.getElem?_eq_getElem (Table.lt_of_isFound hfound)⟩
  rw [ask_bind_eq_ok_iff] at hok
  obtain ⟨_, hkeys, hok⟩ := hok
  obtain rfl := Except.ok.inj ((stands₁.parts.keys_eq rep₁).symm.trans hkeys)
  rw [ask_bind_eq_ok_iff] at hok
  obtain ⟨_, hvalues, hok⟩ := hok
  obtain rfl := Except.ok.inj ((stands₁.parts.values_eq rep₁).symm.trans hvalues)
  rw [ask_bind_eq_ok_iff] at hok
  obtain ⟨isFree, hfree, hok⟩ := hok
  rw [Heap.fetch_eq_of_hasSlots rep₁ stands₁.keys hget] at hfree
  obtain rfl := Except.ok.inj hfree
  split at hok
  · rename_i hnilAt
    rw [beq_iff_eq, hnil] at hnilAt
    rw [ask_bind_eq_ok_iff] at hok
    obtain ⟨tally, htally, hok⟩ := hok
    simp only [run_bind_eq_ok_iff, change_eq_ok_iff] at hok
    obtain ⟨_, h₂, hstoreTally, _, h₃, hstoreKey, hstoreValue⟩ := hok
    obtain ⟨s₂, rep₂, hkeeps₂, stands₂⟩ := stands₁.exists_of_storeTally rep₁ htally hstoreTally
    have hnil₂ : h₂.nil = h₁.nil := Heap.nil_eq_of_keeps rep₁ rep₂ hkeeps₂.toKeeps
    obtain ⟨_, hhome₁, hhome₂⟩ :=
      Heap.exists_identityHashOf rep₁ rep₂ hkeeps₂.toKeeps (hkeeps₁.knows hknows)
    obtain rfl := Except.ok.inj (hhome.symm.trans hhome₁)
    refine ⟨h₂, h₃, s₂, keyArray₁, valueArray₁, ks₁, vs₁, home, place, found, rep₂,
      hkeeps₁.trans hkeeps₂ (List.Subset.refl _), hrenews₁.retains hkeeps₂, hlength₁, hget, ?_,
      hhome₂, hnil₂.symm ▸ hfound, hstoreKey, hstoreValue⟩
    rwa [if_pos hnilAt]
  · rename_i hkeyAt
    rw [beq_iff_eq, hnil] at hkeyAt
    simp only [run_bind_eq_ok_iff, change_eq_ok_iff] at hok
    obtain ⟨_, h₃, hstoreKey, hstoreValue⟩ := hok
    refine ⟨h₁, h₃, s₁, keyArray₁, valueArray₁, ks₁, vs₁, home, place, found, rep₁, hkeeps₁,
      hrenews₁, hlength₁, hget, ?_, hhome, hfound, hstoreKey, hstoreValue⟩
    rwa [if_neg hkeyAt]

/-- What is stored into the arrays of a dictionary leaves its tally. -/
lemma Stands.of_holding (stands : Stands h s d n keyArray valueArray ks vs puts)
    (hkeeps : s.Retains [keyArray, valueArray] s') {ks' vs' : List Value}
    {puts' : List (Value × Value)} (holding : Holding h' s' keyArray valueArray ks' vs' puts') :
    Stands h' s' d n keyArray valueArray ks' vs' puts' :=
  ⟨holding, hkeeps.slots (by simp [stands.keys_ne.symm, stands.values_ne.symm]) stands.dictionary,
    stands.keys_ne, stands.values_ne⟩

/-- Insertion under a key that is not nil puts the entry, and counts the key if it is new. -/
theorem Stands.exists_of_insert (stands : Stands h s d n keyArray valueArray ks vs puts)
    (rep : h.Represents s) (hkey : key ≠ h.nil) (hknows : s.Knows key)
    (hok : insert d key value h = .ok () h') :
    ∃ s' keyArray' valueArray' ks' vs', h'.Represents s' ∧
      s.Retains [d, keyArray, valueArray] s' ∧
      s.Renews s' [keyArray, valueArray] [keyArray', valueArray'] ∧
      ks'.length = nextCapacity ks.length puts key ∧
      Stands h' s' d (if key ∈ puts.map Prod.fst then n else n + 1) keyArray' valueArray' ks' vs'
        ((key, value) :: puts) := by
  obtain ⟨h₂, h₃, s₂, keyArray₁, valueArray₁, ks₁, vs₁, home, place, found, rep₂, hkeeps₂, hrenews₂,
    hlength₁, hget, stands₂, hhome, hfound, hstoreKey, hstoreValue⟩ :=
    exists_of_insert_place rep stands hknows hok
  have hnil : h₂.nil = h.nil := Heap.nil_eq_of_keeps rep rep₂ hkeeps₂.toKeeps
  have hkey₂ : key ≠ h₂.nil := hnil.symm ▸ hkey
  have hnew := stands₂.found_eq_nil_iff hhome hkey₂ hfound hget
  rw [hnil] at hnew
  obtain ⟨s', rep', hkeeps', holding'⟩ := stands₂.toHolding.put rep₂ hhome hkey₂
    (hkeeps₂.knows hknows) hfound hstoreKey hstoreValue
  have stands' := stands₂.of_holding hkeeps' holding'
  refine ⟨s', keyArray₁, valueArray₁, ks₁.set place key, vs₁.set place value, rep',
    hkeeps₂.trans_renews hrenews₂ hkeeps', hrenews₂.retains hkeeps', ?_, ?_⟩
  · rw [List.length_set, hlength₁]
  · by_cases hput : key ∈ puts.map Prod.fst
    · rw [if_neg fun hfree => hnew.mp hfree hput] at stands'
      rwa [if_pos hput]
    · rw [if_pos (hnew.mpr hput)] at stands'
      rwa [if_neg hput]

/-- Insertion under nil puts no entry, but counts one. -/
theorem Stands.exists_of_insert_nil (stands : Stands h s d n keyArray valueArray ks vs puts)
    (rep : h.Represents s) (hknows : s.Knows h.nil) (hok : insert d h.nil value h = .ok () h') :
    ∃ s' keyArray' valueArray' ks' vs', h'.Represents s' ∧
      s.Retains [d, keyArray, valueArray] s' ∧
      Stands h' s' d (n + 1) keyArray' valueArray' ks' vs' puts := by
  obtain ⟨h₂, h₃, s₂, keyArray₁, valueArray₁, ks₁, vs₁, home, place, found, rep₂, hkeeps₂, hrenews₂,
    -, hget, stands₂, -, hfound, hstoreKey, hstoreValue⟩ :=
    exists_of_insert_place rep stands hknows hok
  have hnil : h₂.nil = h.nil := Heap.nil_eq_of_keeps rep rep₂ hkeeps₂.toKeeps
  -- Whether it has stopped at the key or at a free place, the search has come to a free place.
  obtain ⟨-, -, -, hfree, -⟩ := hfound
  rw [hnil, or_self] at hfree
  obtain rfl := Option.some.inj (hget.symm.trans hfree)
  rw [if_pos rfl] at stands₂
  rw [← hnil] at hfree hstoreKey
  obtain ⟨s', rep', hkeeps', holding'⟩ :=
    stands₂.toHolding.put_nil rep₂ hfree hstoreKey hstoreValue
  exact ⟨s', keyArray₁, valueArray₁, ks₁, vs₁.set place value, rep',
    hkeeps₂.trans_renews hrenews₂ hkeeps', stands₂.of_holding hkeeps' holding'⟩

/-- Insertion puts the entry. -/
theorem exists_of_insert (rep : h.Represents s)
    (contains : Contains h s d keyArray valueArray ks vs puts) (hkey : key ≠ h.nil)
    (hknows : s.Knows key) (hok : insert d key value h = .ok () h') :
    ∃ s' keyArray' valueArray' ks' vs', h'.Represents s' ∧
      s.Retains [d, keyArray, valueArray] s' ∧
      s.Renews s' [keyArray, valueArray] [keyArray', valueArray'] ∧
      ks'.length = nextCapacity ks.length puts key ∧
      Contains h' s' d keyArray' valueArray' ks' vs' ((key, value) :: puts) := by
  obtain ⟨s', keyArray', valueArray', ks', vs', hinserted⟩ :=
    contains.exists_of_insert rep hkey hknows hok
  rw [← keyCount_cons key value puts] at hinserted
  exact ⟨s', keyArray', valueArray', ks', vs', hinserted⟩

end Dictionary

end TalkMachine
