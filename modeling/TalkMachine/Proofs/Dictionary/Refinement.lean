import TalkMachine.Proofs.Dictionary.Changing

/-!
# A dictionary is a finite map

`Dictionary.History` is everything that can become of a dictionary: it is created on any heap, with
any capacity; entries are put, by calls that are not refused; and between the calls the heap may be
used for anything else, as long as nil stays and nothing is stored into the dictionary or its arrays.
`Dictionary.History.isFiniteMap` says what can be asked of it then: the answers are those of the list of
the entries put, the last one of a key first.
-/

namespace TalkMachine

namespace Dictionary

/-- The arrays of a dictionary. -/
def arrays (h : Heap) (d : Value) : List Value :=
  match keys h d, values h d with
  | .ok keyArray, .ok valueArray => [keyArray, valueArray]
  | _, _ => []

/-- The history of the dictionary `d`, created with `capacity` places: the objects allocated so far,
the heap, and the entries put, the last one first. -/
inductive History (limit capacity : ℕ) (d : Value) :
    List Value → Heap → List (Value × Value) → Prop
  | create {names : List Value} {h h' : Heap} {s : ObjectMap} (run : Heap.Run limit names h s)
      (hok : new capacity h = .ok d h') : History limit capacity d (names ++ d :: arrays h' d) h' []
  | put {names : List Value} {h h' : Heap} {puts : List (Value × Value)}
      (history : History limit capacity d names h puts) {key value : Value}
      (hkey : key.isImmediate = true ∨ key ∈ names) (hnil : key ≠ h.nil)
      (hok : insert d key value h = .ok () h') :
      History limit capacity d (names ++ arrays h' d) h' ((key, value) :: puts)
  | other {names : List Value} {h : Heap} {puts : List (Value × Value)}
      (history : History limit capacity d names h puts) (action : Heap.Action)
      (htarget : ∀ name ∈ action.target?, name ∈ names)
      (hstore : ∀ name ∈ d :: arrays h d, ¬action.StoresInto name)
      (hnil : ∀ nil, action ≠ .setNil nil) :
      History limit capacity d (names ++ Heap.answered (outcome (action.onHeap h)))
        (stateAfter (action.onHeap h)) puts

/-- The number of places after these entries have been put, the last one first, into a table that
was created with `initial` places: it changes only when a new key meets a full table. -/
def capacityAfter (initial : ℕ) : List (Value × Value) → ℕ
  | [] => initial
  | (key, _) :: earlier => nextCapacity (capacityAfter initial earlier) earlier key

variable {limit capacity : ℕ} {d : Value} {names : List Value} {h : Heap}
  {puts : List (Value × Value)}

namespace HasParts

variable {s : ObjectMap} {n : ℕ} {keyArray valueArray : Value} {ks vs : List Value}
  (rep : h.Represents s) (parts : HasParts s d n keyArray valueArray ks vs)
include rep parts

/-- The arrays of a dictionary on a heap. -/
lemma arrays_eq : arrays h d = [keyArray, valueArray] := by
  rw [arrays, parts.keys_eq rep, parts.values_eq rep]

/-- A dictionary and its arrays are allocated objects. -/
lemma exists_object : ∀ name ∈ d :: arrays h d, ∃ o, s.objects name = some o := by
  rw [parts.arrays_eq rep]
  simpa using ⟨parts.dictionary.imp fun _ => And.left, parts.keys.imp fun _ => And.left,
    parts.values.imp fun _ => And.left⟩

end HasParts

namespace Contains

variable {s : ObjectMap} {keyArray valueArray : Value} {ks vs : List Value}

/-- The arrays of a dictionary on a heap. -/
lemma arrays_eq (contains : Contains h s d keyArray valueArray ks vs puts)
    (rep : h.Represents s) : arrays h d = [keyArray, valueArray] :=
  contains.parts.arrays_eq rep

/-- A dictionary and its arrays are allocated objects. -/
lemma exists_object (contains : Contains h s d keyArray valueArray ks vs puts)
    (rep : h.Represents s) : ∀ name ∈ d :: arrays h d, ∃ o, s.objects name = some o :=
  contains.parts.exists_object rep

end Contains

/-- A dictionary contains what has been put into it. -/
lemma History.contains (hlimit : limit < 2 ^ 64) (history : History limit capacity d names h puts) :
    ∃ s keyArray valueArray ks vs, h.Represents s ∧
      (∀ name ∈ names, ∃ o, s.objects name = some o) ∧ ks.length = capacityAfter capacity puts ∧
      Contains h s d keyArray valueArray ks vs puts := by
  induction history with
  | create run hok =>
    obtain ⟨rep, hnames⟩ := run.represents hlimit
    obtain ⟨s', keyArray, valueArray, ks, vs, rep', hkeeps, -, hlength, contains⟩ :=
      exists_of_new rep hok
    exact ⟨s', keyArray, valueArray, ks, vs, rep',
      hkeeps.exists_object_append hnames (contains.exists_object rep'), hlength, contains⟩
  | put history hkey hnil hok ih =>
    obtain ⟨s, keyArray, valueArray, ks, vs, rep, hnames, hlength, contains⟩ := ih
    obtain ⟨s', keyArray', valueArray', ks', vs', rep', hkeeps, -, hlength', contains'⟩ :=
      exists_of_insert rep contains hnil (hkey.imp_right (hnames _)) hok
    have harrays := (List.forall_mem_cons.mp (contains'.exists_object rep')).2
    refine ⟨s', keyArray', valueArray', ks', vs', rep', hkeeps.exists_object_append hnames harrays,
      ?_, contains'⟩
    rw [hlength', hlength, capacityAfter]
  | other history action htarget hstore hnil ih =>
    obtain ⟨s, keyArray, valueArray, ks, vs, rep, hnames, hlength, contains⟩ := ih
    obtain ⟨rep', hnames'⟩ := Heap.represents_step rep hnames htarget
    obtain ⟨changed, hkeeps, hchanged⟩ := Heap.exists_keepsBut_action rep hnil
    rw [contains.arrays_eq rep] at hstore
    refine ⟨_, keyArray, valueArray, ks, vs, rep', hnames', hlength,
      contains.keep rep rep' hkeeps fun name hname hmem => ?_⟩
    exact hstore name hname (hchanged name hmem)

/-- A dictionary is a finite map, whatever has become of it. A key that has been put has the value
that was put for it last, and any other key with an identity hash that is not nil has none; the
entries are the keys with these values, each once; their number is the number of different keys, at
most the number of places; and the number of places changes only when a new key meets a full table:
it is then doubled, to at least `minCapacity`. -/
theorem History.isFiniteMap (hlimit : limit < 2 ^ 64)
    (history : History limit capacity d names h puts) :
    (∀ key, key ≠ h.nil → (key ∈ puts.map Prod.fst ∨ ∃ hash, h.identityHashOf key = .ok hash) →
      find? h d key = .ok (puts.lookup key)) ∧
    (∃ es, entries h d = .ok es ∧ (es.map Prod.fst).Nodup ∧
      ∀ key value, (key, value) ∈ es ↔ puts.lookup key = some value) ∧
    tally h d = .ok (keyCount puts) ∧ keyCount puts ≤ capacityAfter capacity puts ∧
    Dictionary.capacity h d = .ok (capacityAfter capacity puts) := by
  obtain ⟨s, keyArray, valueArray, ks, vs, rep, -, hlength, contains⟩ := history.contains hlimit
  have table := contains.table
  rw [← hlength]
  refine ⟨fun key hkey hhash => ?_, ⟨_, contains.parts.entries_eq rep table.length_eq,
    table.nodup_keys, contains.means⟩, contains.parts.tally_eq rep contains.keyCount_le.1,
    contains.keyCount_le.1, contains.parts.capacity_eq rep⟩
  obtain ⟨hash, hhash⟩ : ∃ hash, h.identityHashOf key = .ok hash := by
    rcases hhash with hput | hhash
    · obtain ⟨hash, hhash, -⟩ := Heap.exists_identityHashOf rep rep (.refl s)
        (contains.knows key hput)
      exact ⟨hash, hhash⟩
    · exact hhash
  exact contains.parts.find?_eq rep table contains.means hhash hkey

/-- A step that answered leaves its state. -/
lemma eq_ok_of_outcome {ε σ α : Type} {r : EStateM.Result ε σ α} {a : α}
    (hr : outcome r = .ok a) : r = .ok a (stateAfter r) := by
  cases r with
  | ok b s => rw [Except.ok.inj hr, stateAfter]
  | error e s => cases hr

/-- So does a step that was refused. -/
lemma eq_error_of_outcome {ε σ α : Type} {r : EStateM.Result ε σ α} {e : ε}
    (hr : outcome r = .error e) : r = .error e (stateAfter r) := by
  cases r with
  | ok a s => cases hr
  | error e' s => rw [Except.error.inj hr, stateAfter]

/-- A new heap on which a dictionary with one place has been created. -/
def createdSample : Heap :=
  stateAfter (new 1 (Heap.new 512))

/-- The heap after 1 has been put into the dictionary, which is full now. -/
def filledSample : Heap :=
  stateAfter (insert (Value.ofAddress 8) (Value.ofInt 1) (Value.ofInt 10) createdSample)

/-- The heap after 2, which has the same home, has been put as well. -/
def grownSample : Heap :=
  stateAfter (insert (Value.ofAddress 8) (Value.ofInt 2) (Value.ofInt 20) filledSample)

/-- The dictionary with two keys of the same home has grown and finds both. -/
theorem isFiniteMap_grownSample : (512 : ℕ) < 2 ^ 64 ∧ ∃ names, History 512 1 (Value.ofAddress 8) names
      grownSample [(Value.ofInt 2, Value.ofInt 20), (Value.ofInt 1, Value.ofInt 10)] ∧
    find? grownSample (Value.ofAddress 8) (Value.ofInt 1) = .ok (some (Value.ofInt 10)) ∧
    find? grownSample (Value.ofAddress 8) (Value.ofInt 2) = .ok (some (Value.ofInt 20)) ∧
    find? grownSample (Value.ofAddress 8) (Value.ofInt 3) = .ok none ∧
    tally grownSample (Value.ofAddress 8) = .ok 2 ∧
    Dictionary.capacity grownSample (Value.ofAddress 8) = .ok 16 := by
  have hcreate : new 1 (Heap.new 512) = .ok (Value.ofAddress 8) createdSample :=
    eq_ok_of_outcome (by decide +kernel)
  have hfill : insert (Value.ofAddress 8) (Value.ofInt 1) (Value.ofInt 10) createdSample =
      .ok () filledSample := eq_ok_of_outcome (by decide +kernel)
  have hgrow : insert (Value.ofAddress 8) (Value.ofInt 2) (Value.ofInt 20) filledSample =
      .ok () grownSample := eq_ok_of_outcome (by decide +kernel)
  have hcreated : History 512 1 (Value.ofAddress 8) _ createdSample [] := .create .start hcreate
  have hfilled := hcreated.put (.inl (by decide)) (by decide +kernel) hfill
  have hgrown := hfilled.put (.inl (by decide)) (by decide +kernel) hgrow
  obtain ⟨hfind, -, htally, -, hcapacity⟩ := History.isFiniteMap (by decide) hgrown
  refine ⟨by decide, _, hgrown, ?_, ?_, ?_, htally, hcapacity⟩
  · exact hfind _ (by decide +kernel) (.inl (by decide))
  · exact hfind _ (by decide +kernel) (.inl (by decide))
  · exact hfind _ (by decide +kernel) (.inr ⟨_, rfl⟩)

end Dictionary

end TalkMachine
