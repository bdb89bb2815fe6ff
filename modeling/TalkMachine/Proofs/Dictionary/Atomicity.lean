import TalkMachine.Proofs.Dictionary.Outcomes
import TalkMachine.Proofs.Dictionary.Refinement

/-!
# Insertions that are refused

A dictionary is asked for its tally, its entries and the values of its keys. Whatever has become of a
dictionary (`Dictionary.Career`), an insertion that is refused leaves all these answers as they were
(`Dictionary.SameMap`) just when the dictionary does not tear: the tally is changed before the arrays are
asked whether they accept stores (`Dictionary.Career.sameMap_iff`).
-/

namespace TalkMachine

namespace Dictionary

variable {limit capacity : ℕ} {h t : Heap} {s : ObjectMap} {d keyArray valueArray key : Value}
  {ks vs : List Value} {n : ℕ} {names : List Value}

/-! ### Answers that stay -/

/-- Whether a dictionary has the same tally and entries on two heaps, and the same value for each key
that is not nil and has an identity hash. -/
structure SameMap (h t : Heap) (d : Value) : Prop where
  tally : ∃ n, Dictionary.tally h d = .ok n ∧ Dictionary.tally t d = .ok n
  entries : ∃ es, Dictionary.entries h d = .ok es ∧ Dictionary.entries t d = .ok es
  find? : ∀ k ≠ h.nil, ∀ hash, h.identityHashOf k = .ok hash →
    ∃ answer, Dictionary.find? h d k = .ok answer ∧ Dictionary.find? t d k = .ok answer

section SameMap

variable (rep : h.Represents s) (parts : HasParts s d n keyArray valueArray ks vs)
  (hlength : vs.length = ks.length)
include rep parts

/-- A heap that has grown has the parts of a dictionary still. -/
lemma HasParts.growsTo (grows : h.GrowsTo t) :
    t.Represents { s with used := t.usedBytes } ∧
      HasParts { s with used := t.usedBytes } d n keyArray valueArray ks vs :=
  ⟨grows.represents rep, parts.dictionary, parts.keys, parts.values, parts.keys_ne, parts.values_ne,
    parts.values_ne_keys⟩

include hlength

/-- A heap that has grown answers the same about the dictionaries that were on it. -/
lemma sameMap_of_growsTo (grows : h.GrowsTo t) : SameMap h t d := by
  obtain ⟨rep', parts'⟩ := parts.growsTo rep grows
  refine ⟨⟨_, parts.tally_eq_bmod rep, parts'.tally_eq_bmod rep'⟩,
    ⟨_, parts.entries_eq rep hlength, ?_⟩, fun k _ hash hhash => ?_⟩
  · rw [parts'.entries_eq rep' hlength, grows.nil_eq]
  · obtain ⟨result, hfound, hfind⟩ := parts.exists_find? rep hlength hhash
    obtain ⟨result', hfound', hfind'⟩ :=
      parts'.exists_find? rep' hlength (grows.identityHashOf_eq hhash)
    rw [grows.nil_eq] at hfound'
    rw [hfound'.unique hfound] at hfind'
    exact ⟨_, hfind, hfind'⟩

/-- A dictionary without places has no entries, also after it has grown. -/
lemma sameMap_of_widened {s' : ObjectMap} {keyArray' valueArray' : Value} {ks' vs' : List Value}
    (hempty : ks = []) (widened : Widened h s d n ks keyArray' valueArray' ks' vs' t s') :
    SameMap h t d := by
  have parts' := widened.parts
  have rep' := widened.rep
  have hcount := widened.count_nil
  rw [hempty, List.length_nil, Nat.add_zero] at hcount
  have hall := List.count_eq_length.mp (List.count_le_length.antisymm hcount)
  have hfree : ks' = List.replicate ks'.length t.nil :=
    List.eq_replicate_of_mem fun k hk => (hall k hk).symm
  refine ⟨⟨_, parts.tally_eq_bmod rep, parts'.tally_eq_bmod rep'⟩, ⟨[], ?_, ?_⟩,
    fun k hk hash hhash => ⟨none, ?_, ?_⟩⟩
  · rw [parts.entries_eq rep hlength, hempty]
    rfl
  · rw [parts'.entries_eq rep' widened.length_eq, hfree, pairs_replicate]
  · obtain ⟨result, hfound, hfind⟩ := parts.exists_find? rep hlength hhash
    rw [hfind, hempty]
    cases result <;> rfl
  · obtain ⟨hash', hhash'⟩ := Heap.exists_identityHashOf_of_le widened.used_le hhash
    obtain ⟨result, hfound, hfind⟩ := parts'.exists_find? rep' widened.length_eq hhash'
    rw [hfind]
    cases result with
    | none => rfl
    | some place =>
      refine congrArg Except.ok (if_neg fun hplace => hk ?_)
      rw [← widened.nil_eq]
      exact (hall k (List.mem_of_getElem? hplace)).symm

end SameMap

/-- A dictionary that has been torn has another tally. -/
lemma not_sameMap_of_torn {tally : ℕ} (htally : Dictionary.tally h d = .ok tally)
    {s' : ObjectMap} (stays : Stays s d (tally + 1) keyArray valueArray ks vs t s') :
    ¬SameMap h t d := by
  intro same
  obtain ⟨m, hm, hm'⟩ := same.tally
  obtain rfl := Except.ok.inj (htally.symm.trans hm)
  have hnext := Except.ok.inj ((stays.parts.tally_eq_bmod stays.rep).symm.trans hm')
  rw [Int.bmod_def] at hnext
  omega

/-! ### What can become of a dictionary -/

/-- What can become of the dictionary `d`, created with `capacity` places, with the objects allocated so
far: values are put under any keys, whether this is refused or not, and between that the heap is used for
anything else, as long as nothing is stored into the dictionary or its arrays. Any of them may be made
immutable. -/
inductive Career (limit capacity : ℕ) (d : Value) : List Value → Heap → Prop
  | create {names : List Value} {h h' : Heap} {s : ObjectMap} (run : Heap.Run limit names h s)
      (hok : new capacity h = .ok d h') : Career limit capacity d (names ++ d :: arrays h' d) h'
  | put {names : List Value} {h : Heap} (career : Career limit capacity d names h)
      (key value : Value) :
      Career limit capacity d (names ++ arrays (stateAfter (insert d key value h)) d)
        (stateAfter (insert d key value h))
  | other {names : List Value} {h : Heap} (career : Career limit capacity d names h)
      (action : Heap.Action) (htarget : ∀ name ∈ action.target?, name ∈ names)
      (hstore : ∀ name ∈ d :: arrays h d, ¬action.StoresInto name) :
      Career limit capacity d (names ++ Heap.answered (outcome (action.onHeap h)))
        (stateAfter (action.onHeap h))

/-- Whatever comes of putting a key, the dictionary has its parts. -/
lemma Comes.exists_stays (rep : h.Represents s)
    (parts : HasParts s d n keyArray valueArray ks vs) (hlength : vs.length = ks.length)
    {result : EStateM.Result MachineError Heap Unit} (comes : Comes h s d key n ks result) :
    ∃ s' n' keyArray' valueArray' ks' vs',
      Stays s d n' keyArray' valueArray' ks' vs' (stateAfter result) s' := by
  cases comes with
  | refused htears grows =>
    obtain ⟨rep', parts'⟩ := parts.growsTo rep grows
    exact ⟨_, _, _, _, _, _, rep', fun ho => ⟨_, ho⟩, parts', hlength⟩
  | widened htears hempty widened => exact ⟨_, _, _, _, _, _, widened.toStays⟩
  | torn htears htally stays => exact ⟨_, _, _, _, _, _, stays⟩
  | done htears stays => exact ⟨_, _, _, _, _, _, stays⟩

/-- Whatever has become of a dictionary, it has its parts. -/
lemma Career.exists_parts (hlimit : limit < 2 ^ 64) (career : Career limit capacity d names h) :
    ∃ s n keyArray valueArray ks vs, h.Represents s ∧
      (∀ name ∈ names, ∃ o, s.objects name = some o) ∧
      HasParts s d n keyArray valueArray ks vs ∧ vs.length = ks.length := by
  induction career with
  | create run hok =>
    obtain ⟨rep, hnames⟩ := run.represents hlimit
    obtain ⟨s', keyArray, valueArray, ks, vs, rep', hretains, -, -, contains⟩ :=
      exists_of_new rep hok
    exact ⟨s', _, keyArray, valueArray, ks, vs, rep',
      hretains.exists_object_append hnames (contains.exists_object rep'), contains.parts,
      contains.table.length_eq⟩
  | put career key value ih =>
    obtain ⟨s, n, keyArray, valueArray, ks, vs, rep, hnames, parts, hlength⟩ := ih
    obtain ⟨s', n', keyArray', valueArray', ks', vs', stays⟩ :=
      (comes_insert rep parts hlength key value).exists_stays rep parts hlength
    refine ⟨s', n', keyArray', valueArray', ks', vs', stays.rep, fun name hname => ?_, stays.parts,
      stays.length_eq⟩
    rcases List.mem_append.mp hname with hold | hnew
    · exact (hnames name hold).elim fun _ => stays.known
    · exact stays.parts.exists_object stays.rep name (List.mem_cons_of_mem _ hnew)
  | other career action htarget hstore ih =>
    obtain ⟨s, n, keyArray, valueArray, ks, vs, rep, hnames, parts, hlength⟩ := ih
    obtain ⟨rep', hnames'⟩ := Heap.represents_step rep hnames htarget
    rw [parts.arrays_eq rep] at hstore
    exact ⟨_, n, keyArray, valueArray, ks, vs, rep', hnames',
      ⟨Heap.hasSlots_of_action rep (hstore _ (by simp)) parts.dictionary,
        Heap.hasSlots_of_action rep (hstore _ (by simp)) parts.keys,
        Heap.hasSlots_of_action rep (hstore _ (by simp)) parts.values, parts.keys_ne,
        parts.values_ne, parts.values_ne_keys⟩, hlength⟩

/-! ### Refusals -/

/-- Whatever has become of a dictionary, and whatever key and value are put into it: an insertion leaves
the tally, the entries and the values of all keys as they were whenever it is refused, exactly if it does
not tear the dictionary. It tears it, and is refused, if there is a free place for the key and the
dictionary accepts stores, but the array of keys or that of values does not. -/
theorem Career.sameMap_iff (hlimit : limit < 2 ^ 64) (career : Career limit capacity d names h)
    (key value : Value) :
    (∀ e t, insert d key value h = .error e t → SameMap h t d) ↔ ¬Tears h d key := by
  obtain ⟨s, n, keyArray, valueArray, ks, vs, rep, -, parts, hlength⟩ := career.exists_parts hlimit
  have comes := comes_insert rep parts hlength key value
  constructor
  · intro hsame htears
    generalize hresult : insert d key value h = result at comes
    cases comes with
    | refused hnot grows => exact hnot htears
    | widened hnot hempty widened => exact hnot htears
    | torn _ htally stays => exact not_sameMap_of_torn htally stays (hsame _ _ hresult)
    | done hnot stays => exact hnot htears
  · intro htears e t herror
    rw [herror] at comes
    cases comes with
    | refused _ grows => exact sameMap_of_growsTo rep parts hlength grows
    | widened _ hempty widened => exact sameMap_of_widened rep parts hlength hempty widened
    | torn hnot htally stays => exact absurd hnot htears

/-- An object is made immutable. -/
def locked (object : Value) (h : Heap) : Heap :=
  stateAfter ((Heap.Action.setFlags object ⟨true, false⟩).onHeap h)

/-- An immutable dictionary that is full has no place for another key, and all its answers stay. -/
theorem sameMap_lockedDictionary : (512 : ℕ) < 2 ^ 64 ∧ ∃ names,
    Career 512 1 (Value.ofAddress 8) names (locked (Value.ofAddress 8) filledSample) ∧
    ¬Tears (locked (Value.ofAddress 8) filledSample) (Value.ofAddress 8) (Value.ofInt 2) ∧
    ∃ t, insert (Value.ofAddress 8) (Value.ofInt 2) (Value.ofInt 20)
        (locked (Value.ofAddress 8) filledSample) =
          .error (.heap (.immutable (Value.ofAddress 8))) t ∧
      SameMap (locked (Value.ofAddress 8) filledSample) t (Value.ofAddress 8) := by
  have hcreate : new 1 (Heap.new 512) = .ok (Value.ofAddress 8) createdSample :=
    eq_ok_of_outcome (by decide +kernel)
  have hcareer := ((Career.create .start hcreate).put (Value.ofInt 1) (Value.ofInt 10)).other
    (.setFlags (Value.ofAddress 8) ⟨true, false⟩) (by rintro _ ⟨⟩; decide +kernel) fun _ _ => id
  have hfull : findPlace (locked (Value.ofAddress 8) filledSample) (Value.ofAddress 8)
      (Value.ofInt 2) = .ok none := by decide +kernel
  have htears : ¬Tears (locked (Value.ofAddress 8) filledSample) (Value.ofAddress 8)
      (Value.ofInt 2) := by
    rintro ⟨_, _, place, -, -, hplace, -⟩
    rw [hfull] at hplace
    cases hplace
  have herror : insert (Value.ofAddress 8) (Value.ofInt 2) (Value.ofInt 20)
      (locked (Value.ofAddress 8) filledSample) =
        .error (.heap (.immutable (Value.ofAddress 8))) _ := eq_error_of_outcome (by decide +kernel)
  exact ⟨by decide, _, hcareer, htears, _, herror,
    (hcareer.sameMap_iff (by decide) (Value.ofInt 2) (Value.ofInt 20)).mpr htears _ _ herror⟩

/-- A dictionary whose array of keys is immutable has no entries, but counts one after an insertion that
was refused. -/
theorem exists_torn : ∃ names,
    Career 512 1 (Value.ofAddress 8) names (locked (Value.ofAddress 40) createdSample) ∧
    ∃ t, insert (Value.ofAddress 8) (Value.ofInt 1) (Value.ofInt 2)
        (locked (Value.ofAddress 40) createdSample) =
          .error (.heap (.immutable (Value.ofAddress 40))) t ∧
      tally (locked (Value.ofAddress 40) createdSample) (Value.ofAddress 8) = .ok 0 ∧
      tally t (Value.ofAddress 8) = .ok 1 ∧ entries t (Value.ofAddress 8) = .ok [] := by
  have hcreate : new 1 (Heap.new 512) = .ok (Value.ofAddress 8) createdSample :=
    eq_ok_of_outcome (by decide +kernel)
  have hcareer := (Career.create .start hcreate).other
    (.setFlags (Value.ofAddress 40) ⟨true, false⟩) (by rintro _ ⟨⟩; decide +kernel) fun _ _ => id
  exact ⟨_, hcareer, _, eq_error_of_outcome (by decide +kernel), by decide +kernel,
    by decide +kernel, by decide +kernel⟩

end Dictionary

end TalkMachine
