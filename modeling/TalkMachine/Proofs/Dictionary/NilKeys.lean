import TalkMachine.Proofs.Dictionary.Refinement

/-!
# Nil as a key

Nil marks the places of a table that are free, but it can be put as a key like any other value.
`Dictionary.Chronicle` is the history of a dictionary with arbitrary keys. What has been put under
keys other than nil makes a finite map all the same (`Dictionary.Chronicle.exists_answers`). Nil is
never entered: it is counted each time it is put, and it is found as long as a place is free, put or
not. So `Dictionary.Chronicle.counts_and_finds_iff` says exactly when the tally is the number of
entries and which keys are found just when they have been put.
-/

namespace TalkMachine

namespace Dictionary

variable {limit capacity n home : ℕ} {h h' : Heap} {s : ObjectMap} {d key keyArray valueArray : Value}
  {ks vs names : List Value} {puts : List (Value × Value)}

/-! ### What has been put -/

/-- What has been put under keys other than nil. -/
def named (nil : Value) (puts : List (Value × Value)) : List (Value × Value) :=
  puts.filter fun put => put.1 ≠ nil

/-- How often something has been put under nil. -/
def nilCount (nil : Value) (puts : List (Value × Value)) : ℕ :=
  puts.countP fun put => put.1 = nil

/-- What has been put last under a key other than nil. -/
lemma lookup_named {nil : Value} (hkey : key ≠ nil) (puts : List (Value × Value)) :
    (named nil puts).lookup key = puts.lookup key := by
  induction puts with
  | nil => rfl
  | cons put earlier ih =>
    obtain ⟨k, v⟩ := put
    rw [named] at ih ⊢
    by_cases hk : k = nil
    · subst hk
      rw [List.filter_cons_of_neg (by simp), ih, List.lookup_cons, beq_eq_false_iff_ne.mpr hkey]
    · rw [List.filter_cons_of_pos (by simpa using hk), List.lookup_cons, List.lookup_cons, ih]

/-! ### The history -/

/-- The history of the dictionary `d`, created with `capacity` places: the objects allocated so far, the
heap, and what has been put, the last one first. Any value or allocated object may be a key, nil among
them; in between the heap may be used for anything else, as long as nil stays and nothing is stored into
the dictionary or its arrays. -/
inductive Chronicle (limit capacity : ℕ) (d : Value) :
    List Value → Heap → List (Value × Value) → Prop
  | create {names : List Value} {h h' : Heap} {s : ObjectMap} (run : Heap.Run limit names h s)
      (hok : new capacity h = .ok d h') :
      Chronicle limit capacity d (names ++ d :: arrays h' d) h' []
  | put {names : List Value} {h h' : Heap} {puts : List (Value × Value)}
      (chronicle : Chronicle limit capacity d names h puts) {key value : Value}
      (hkey : key.isImmediate = true ∨ key ∈ names) (hok : insert d key value h = .ok () h') :
      Chronicle limit capacity d (names ++ arrays h' d) h' ((key, value) :: puts)
  | other {names : List Value} {h : Heap} {puts : List (Value × Value)}
      (chronicle : Chronicle limit capacity d names h puts) (action : Heap.Action)
      (htarget : ∀ name ∈ action.target?, name ∈ names)
      (hstore : ∀ name ∈ d :: arrays h d, ¬action.StoresInto name)
      (hnil : ∀ nil, action ≠ .setNil nil) :
      Chronicle limit capacity d (names ++ Heap.answered (outcome (action.onHeap h)))
        (stateAfter (action.onHeap h)) puts

/-- Whether a dictionary holds in these arrays what has been put under keys other than nil, and counts
each of these keys once and nil every time. -/
abbrev Records (h : Heap) (s : ObjectMap) (d keyArray valueArray : Value) (ks vs : List Value)
    (puts : List (Value × Value)) : Prop :=
  Stands h s d (keyCount (named h.nil puts) + nilCount h.nil puts) keyArray valueArray ks vs
    (named h.nil puts)

/-- It does so whatever is put next. -/
lemma Records.exists_of_insert (records : Records h s d keyArray valueArray ks vs puts)
    (rep : h.Represents s) (hknows : s.Knows key) {value : Value}
    (hok : insert d key value h = .ok () h') :
    ∃ s' keyArray' valueArray' ks' vs', h'.Represents s' ∧ s.Keeps s' ∧
      Records h' s' d keyArray' valueArray' ks' vs' ((key, value) :: puts) := by
  by_cases hkey : key = h.nil
  · subst hkey
    obtain ⟨s', keyArray', valueArray', ks', vs', rep', hretains, stands'⟩ :=
      records.exists_of_insert_nil rep hknows hok
    have hnil : h'.nil = h.nil := Heap.nil_eq_of_keeps rep rep' hretains.toKeeps
    have hnamed : named h.nil ((h.nil, value) :: puts) = named h.nil puts := by simp [named]
    have hcount : nilCount h.nil ((h.nil, value) :: puts) = nilCount h.nil puts + 1 := by
      simp [nilCount]
    refine ⟨s', keyArray', valueArray', ks', vs', rep', hretains.toKeeps, ?_⟩
    rwa [Records, hnil, hnamed, hcount]
  · obtain ⟨s', keyArray', valueArray', ks', vs', rep', hretains, -, -, stands'⟩ :=
      Stands.exists_of_insert records rep hkey hknows hok
    have hnil : h'.nil = h.nil := Heap.nil_eq_of_keeps rep rep' hretains.toKeeps
    have hnamed : named h.nil ((key, value) :: puts) = (key, value) :: named h.nil puts := by
      simp [named, hkey]
    have hcount : nilCount h.nil ((key, value) :: puts) = nilCount h.nil puts := by
      simp [nilCount, hkey]
    refine ⟨s', keyArray', valueArray', ks', vs', rep', hretains.toKeeps, ?_⟩
    rw [Records, hnil, hnamed, hcount, keyCount_cons]
    split at stands' <;> rename_i hput
    · rwa [if_pos hput]
    · rwa [if_neg hput, Nat.add_right_comm]

/-- A dictionary records what has been put into it. -/
lemma Chronicle.exists_records (hlimit : limit < 2 ^ 64)
    (chronicle : Chronicle limit capacity d names h puts) :
    ∃ s keyArray valueArray ks vs, h.Represents s ∧
      (∀ name ∈ names, ∃ o, s.objects name = some o) ∧ (∀ k ∈ puts.map Prod.fst, s.Knows k) ∧
      Records h s d keyArray valueArray ks vs puts := by
  induction chronicle with
  | create run hok =>
    obtain ⟨rep, hnames⟩ := run.represents hlimit
    obtain ⟨s', keyArray, valueArray, ks, vs, rep', hretains, -, -, contains⟩ :=
      exists_of_new rep hok
    exact ⟨s', keyArray, valueArray, ks, vs, rep',
      hretains.exists_object_append hnames (contains.exists_object rep'), by simp, contains⟩
  | put chronicle hkey hok ih =>
    obtain ⟨s, keyArray, valueArray, ks, vs, rep, hnames, hknows, records⟩ := ih
    have hknown := hkey.imp_right (hnames _)
    obtain ⟨s', keyArray', valueArray', ks', vs', rep', hkeeps, records'⟩ :=
      records.exists_of_insert rep hknown hok
    have harrays := (List.forall_mem_cons.mp (records'.parts.exists_object rep')).2
    refine ⟨s', keyArray', valueArray', ks', vs', rep', hkeeps.exists_object_append hnames harrays,
      ?_, records'⟩
    rw [List.map_cons, List.forall_mem_cons]
    exact ⟨hkeeps.knows hknown, fun k hk => hkeeps.knows (hknows k hk)⟩
  | @other names h puts chronicle action htarget hstore hsetNil ih =>
    obtain ⟨s, keyArray, valueArray, ks, vs, rep, hnames, hknows, records⟩ := ih
    obtain ⟨rep', hnames'⟩ := Heap.represents_step rep hnames htarget
    obtain ⟨changed, hkeeps, hchanged⟩ := Heap.exists_keepsBut_action rep hsetNil
    have hnil : (stateAfter (action.onHeap h)).nil = h.nil :=
      Heap.nil_eq_of_keeps rep rep' hkeeps.toKeeps
    rw [records.parts.arrays_eq rep] at hstore
    refine ⟨_, keyArray, valueArray, ks, vs, rep', hnames', fun k hk => hkeeps.knows (hknows k hk),
      ?_⟩
    rw [Records, hnil]
    exact records.keep rep rep' hkeeps fun name hname hmem => hstore name hname (hchanged name hmem)

/-! ### Answers -/

/-- Nil is found just when a place is free. -/
lemma HasParts.exists_find?_nil (rep : h.Represents s)
    (parts : HasParts s d n keyArray valueArray ks vs) (hlength : vs.length = ks.length)
    (hhome : h.identityHashOf h.nil = .ok home) :
    ∃ answer, find? h d h.nil = .ok answer ∧ (answer.isSome ↔ ∃ i : ℕ, ks[i]? = some h.nil) := by
  obtain ⟨result, hfound, hfind⟩ := parts.exists_find? rep hlength hhome
  refine ⟨_, hfind, ?_⟩
  cases result with
  | none =>
    have hnone : ¬∃ i : ℕ, ks[i]? = some h.nil :=
      fun ⟨i, hi⟩ => (Table.ne_of_isFound_none hfound i).1 hi
    simp [valueAt?, hnone]
  | some place =>
    have hlt : place < vs.length := hlength.symm ▸ Table.lt_of_isFound hfound
    obtain ⟨-, -, -, hfree, -⟩ := hfound
    rw [or_self] at hfree
    rw [valueAt?, if_pos hfree, List.getElem?_eq_getElem hlt]
    simpa using ⟨place, hfree⟩

/-- What a dictionary answers after these entries have been put under whatever keys, when it has the
entries `es` and so many places. They are those of the finite map of what has been put under keys other
than nil, and the values of these keys are those put last. The tally, of which 63 bits are kept, counts
these keys and how often nil has been put, and nil has a value just when there are fewer entries than
places. -/
structure Answers (h : Heap) (d : Value) (puts es : List (Value × Value)) (places : ℕ) : Prop where
  entries : Dictionary.entries h d = .ok es
  mem_entries_iff : ∀ k v, (k, v) ∈ es ↔ k ≠ h.nil ∧ puts.lookup k = some v
  length_eq : es.length = keyCount (named h.nil puts)
  capacity : Dictionary.capacity h d = .ok places
  length_le : es.length ≤ places
  places_lt : places < 2 ^ 61
  tally : Dictionary.tally h d =
    .ok ((((es.length + nilCount h.nil puts : ℕ) : ℤ).bmod (2 ^ 63)) % 2 ^ 64).toNat
  exists_hash : ∀ k ∈ puts.map Prod.fst, ∃ hash, h.identityHashOf k = .ok hash
  find? : ∀ k ≠ h.nil, ∀ hash, h.identityHashOf k = .ok hash →
    Dictionary.find? h d k = .ok (puts.lookup k)
  find?_nil : ∀ hash, h.identityHashOf h.nil = .ok hash →
    ∃ answer, Dictionary.find? h d h.nil = .ok answer ∧ (answer.isSome ↔ es.length < places)

/-- Whatever has been put under whatever keys, a dictionary answers so. -/
theorem Chronicle.exists_answers (hlimit : limit < 2 ^ 64)
    (chronicle : Chronicle limit capacity d names h puts) :
    ∃ es places, Answers h d puts es places := by
  obtain ⟨s, keyArray, valueArray, ks, vs, rep, -, hknows, records⟩ := chronicle.exists_records hlimit
  have table := records.table
  have hroom := Heap.length_lt_of_hasSlots rep records.keys
  have hlength := records.means.length_pairs_eq table
  obtain ⟨hle, hfull⟩ := records.keyCount_le
  refine ⟨pairs h.nil ks vs, ks.length,
    { entries := records.parts.entries_eq rep table.length_eq
      mem_entries_iff := fun k v => ?_
      length_eq := hlength
      capacity := records.parts.capacity_eq rep
      length_le := hlength.trans_le hle
      places_lt := by omega
      tally := hlength ▸ records.parts.tally_eq_bmod rep
      exists_hash := fun k hk => ?_
      find? := fun k hk hash hhash => ?_
      find?_nil := fun hash hhash => ?_ }⟩
  · by_cases hk : k = h.nil
    · simp [mem_pairs, hk]
    · rw [records.means k v, lookup_named hk]
      simp [hk]
  · obtain ⟨hash, hhash, -⟩ := Heap.exists_identityHashOf rep rep (.refl s) (hknows k hk)
    exact ⟨hash, hhash⟩
  · rw [records.parts.find?_eq rep table records.means hhash hk, lookup_named hk]
  · obtain ⟨answer, hfind, hanswer⟩ := records.parts.exists_find?_nil rep table.length_eq hhash
    refine ⟨answer, hfind, hanswer.trans ?_⟩
    rw [hlength, hle.lt_iff_ne, ne_eq, hfull]
    push Not
    rfl

/-! ### What a dictionary should answer -/

/-- Whether the tally is the number of entries, of which there are no more than places. -/
def Counts (h : Heap) (d : Value) : Prop :=
  ∃ n es places, tally h d = .ok n ∧ entries h d = .ok es ∧ Dictionary.capacity h d = .ok places ∧
    n = es.length ∧ n ≤ places

/-- Whether a key has a value just when something has been put under it. -/
def Finds (h : Heap) (d : Value) (puts : List (Value × Value)) (key : Value) : Prop :=
  ∃ answer, find? h d key = .ok answer ∧ (answer.isSome ↔ key ∈ puts.map Prod.fst)

/-- Whether there are fewer entries than places. -/
def HasFree (h : Heap) (d : Value) : Prop :=
  ∃ es places, entries h d = .ok es ∧ Dictionary.capacity h d = .ok places ∧ es.length < places

namespace Answers

variable {es : List (Value × Value)} {places : ℕ} (answers : Answers h d puts es places)
include answers

/-- The tally is right just when nil has been put a multiple of 2 ^ 63 times. -/
lemma counts_iff : Counts h d ↔ 2 ^ 63 ∣ nilCount h.nil puts := by
  have htally := answers.tally
  have hle := answers.length_le
  have hlt := answers.places_lt
  rw [Int.bmod_def] at htally
  constructor
  · rintro ⟨_, _, _, htally', hentries', -, rfl, -⟩
    obtain rfl := Except.ok.inj (answers.entries.symm.trans hentries')
    have heq := Except.ok.inj (htally.symm.trans htally')
    omega
  · intro hdvd
    have heq : ((((es.length + nilCount h.nil puts : ℕ) : ℤ).bmod (2 ^ 63)) % 2 ^ 64).toNat =
        es.length := by
      rw [Int.bmod_def]
      omega
    exact ⟨_, es, places, heq ▸ answers.tally, answers.entries, answers.capacity, rfl, hle⟩

/-- A key other than nil is found just when something has been put under it. -/
lemma finds_of_ne (hkey : key ≠ h.nil) {hash : ℕ} (hhash : h.identityHashOf key = .ok hash) :
    Finds h d puts key := by
  refine ⟨_, answers.find? key hkey hash hhash, ?_⟩
  rw [Option.isSome_iff_exists, Means.exists_lookup_iff]

/-- Whether places are free is told by the number of entries. -/
lemma hasFree_iff : HasFree h d ↔ es.length < places := by
  constructor
  · rintro ⟨_, _, hentries', hcapacity', hlt⟩
    obtain rfl := Except.ok.inj (answers.entries.symm.trans hentries')
    obtain rfl := Except.ok.inj (answers.capacity.symm.trans hcapacity')
    exact hlt
  · exact fun hlt => ⟨es, places, answers.entries, answers.capacity, hlt⟩

/-- Nil is found as if it had been put just when a place is free. -/
lemma finds_nil_iff {hash : ℕ} (hhash : h.identityHashOf h.nil = .ok hash) :
    Finds h d puts h.nil ↔ (HasFree h d ↔ h.nil ∈ puts.map Prod.fst) := by
  obtain ⟨answer, hanswer, hfree⟩ := answers.find?_nil hash hhash
  rw [answers.hasFree_iff, ← hfree]
  simp [Finds, hanswer]

end Answers

/-- The tally of a dictionary is the number of its entries, of which there are no more than places,
just when nil has not been put into it, or so often that the 63 bits of the tally have come round.
Each key other than nil is found just when something has been put under it. Nil is so only if it has
been put and a place is free, or if it has not been put and none is. -/
theorem Chronicle.counts_and_finds_iff (hlimit : limit < 2 ^ 64)
    (chronicle : Chronicle limit capacity d names h puts) :
    (Counts h d ↔ 2 ^ 63 ∣ nilCount h.nil puts) ∧
      ∀ key, (key ∈ puts.map Prod.fst ∨ ∃ hash, h.identityHashOf key = .ok hash) →
        (Finds h d puts key ↔ (key = h.nil → (HasFree h d ↔ h.nil ∈ puts.map Prod.fst))) := by
  obtain ⟨es, places, answers⟩ := chronicle.exists_answers hlimit
  refine ⟨answers.counts_iff, fun key hkey => ?_⟩
  obtain ⟨hash, hhash⟩ : ∃ hash, h.identityHashOf key = .ok hash :=
    hkey.elim (answers.exists_hash key) id
  by_cases hnil : key = h.nil
  · subst hnil
    rw [answers.finds_nil_iff hhash]
    exact ⟨fun hiff _ => hiff, fun hiff => hiff rfl⟩
  · exact iff_of_true (answers.finds_of_ne hnil hhash) fun h => absurd h hnil

/-- A heap with a nil. -/
def nilSample : Heap :=
  stateAfter ((Heap.Action.setNil (Value.ofAddress 8)).onHeap
    (stateAfter ((Heap.Action.allocate 0 0 .fixedSize 0 none).onHeap (Heap.new 512))))

/-- The heap on which a dictionary with one place has been created. -/
def emptySample : Heap :=
  stateAfter (new 1 nilSample)

/-- The heap on which 1 has been put into it, so that it is full. -/
def fullSample : Heap :=
  stateAfter (insert (Value.ofAddress 16) (Value.ofInt 1) (Value.ofInt 10) emptySample)

/-- The heap on which nil has been put into it instead. -/
def onceNilSample : Heap :=
  stateAfter (insert (Value.ofAddress 16) (Value.ofAddress 8) (Value.ofInt 10) emptySample)

/-- The heap on which nil has been put once more. -/
def twiceNilSample : Heap :=
  stateAfter (insert (Value.ofAddress 16) (Value.ofAddress 8) (Value.ofInt 20) onceNilSample)

/-- The dictionary has been created with its nil among the objects, and nothing has been put. -/
lemma exists_chronicle_emptySample : ∃ names, Value.ofAddress 8 ∈ names ∧
    Chronicle 512 1 (Value.ofAddress 16) names emptySample [] := by
  have run := (@Heap.Run.start 512).step (.allocate 0 0 .fixedSize 0 none) nofun
  have hcreate : new 1 nilSample = .ok (Value.ofAddress 16) emptySample :=
    eq_ok_of_outcome (by decide +kernel)
  exact ⟨_, by decide +kernel, .create (run.step (.setNil (Value.ofAddress 8)) nofun) hcreate⟩

/-- A full dictionary into which nil has not been put answers as it should, about nil as well. -/
theorem finds_fullSample : (512 : ℕ) < 2 ^ 64 ∧ ∃ names,
    Chronicle 512 1 (Value.ofAddress 16) names fullSample [(Value.ofInt 1, Value.ofInt 10)] ∧
    Counts fullSample (Value.ofAddress 16) ∧
    ∀ key hash, fullSample.identityHashOf key = .ok hash →
      Finds fullSample (Value.ofAddress 16) [(Value.ofInt 1, Value.ofInt 10)] key := by
  obtain ⟨names, -, hempty⟩ := exists_chronicle_emptySample
  have hput : insert (Value.ofAddress 16) (Value.ofInt 1) (Value.ofInt 10) emptySample =
      .ok () fullSample := eq_ok_of_outcome (by decide +kernel)
  have hfull := hempty.put (.inl (by decide)) hput
  have hentries : entries fullSample (Value.ofAddress 16) =
      .ok [(Value.ofInt 1, Value.ofInt 10)] := by decide +kernel
  have hcapacity : Dictionary.capacity fullSample (Value.ofAddress 16) = .ok 1 := by decide +kernel
  obtain ⟨hcounts, hfinds⟩ := Chronicle.counts_and_finds_iff (by decide) hfull
  refine ⟨by decide, _, hfull, hcounts.mpr (by decide +kernel), fun key hash hhash =>
    (hfinds key (.inr ⟨hash, hhash⟩)).mpr fun _ => iff_of_false ?_ (by decide +kernel)⟩
  rintro ⟨_, _, hentries', hcapacity', hlt⟩
  obtain rfl := Except.ok.inj (hentries.symm.trans hentries')
  obtain rfl := Except.ok.inj (hcapacity.symm.trans hcapacity')
  exact absurd hlt (by decide)

/-- A new dictionary finds nil, which has not been put; and when nil has been put twice, a dictionary
with one place counts two entries and has none. -/
theorem exists_miscounted :
    (∃ names, Chronicle 512 1 (Value.ofAddress 16) names emptySample [] ∧
      ¬Finds emptySample (Value.ofAddress 16) [] (Value.ofAddress 8)) ∧
    ∃ names, Chronicle 512 1 (Value.ofAddress 16) names twiceNilSample
        [(Value.ofAddress 8, Value.ofInt 20), (Value.ofAddress 8, Value.ofInt 10)] ∧
      tally twiceNilSample (Value.ofAddress 16) = .ok 2 ∧
      entries twiceNilSample (Value.ofAddress 16) = .ok [] ∧
      Dictionary.capacity twiceNilSample (Value.ofAddress 16) = .ok 1 ∧
      ¬Counts twiceNilSample (Value.ofAddress 16) := by
  obtain ⟨names, hnil, hempty⟩ := exists_chronicle_emptySample
  refine ⟨⟨names, hempty, ?_⟩, ?_⟩
  · have hfind : find? emptySample (Value.ofAddress 16) (Value.ofAddress 8) =
        .ok (some (Value.ofAddress 8)) := by decide +kernel
    rintro ⟨_, hanswer, hiff⟩
    obtain rfl := Except.ok.inj (hfind.symm.trans hanswer)
    simp at hiff
  · have honce : insert (Value.ofAddress 16) (Value.ofAddress 8) (Value.ofInt 10) emptySample =
        .ok () onceNilSample := eq_ok_of_outcome (by decide +kernel)
    have htwice : insert (Value.ofAddress 16) (Value.ofAddress 8) (Value.ofInt 20) onceNilSample =
        .ok () twiceNilSample := eq_ok_of_outcome (by decide +kernel)
    have htally : tally twiceNilSample (Value.ofAddress 16) = .ok 2 := by decide +kernel
    have hentries : entries twiceNilSample (Value.ofAddress 16) = .ok [] := by decide +kernel
    refine ⟨_, (hempty.put (.inr hnil) honce).put (.inr (List.mem_append_left _ hnil)) htwice,
      htally, hentries, by decide +kernel, ?_⟩
    rintro ⟨_, _, _, htally', hentries', -, rfl, -⟩
    obtain rfl := Except.ok.inj (hentries.symm.trans hentries')
    cases htally.symm.trans htally'

end Dictionary

end TalkMachine
