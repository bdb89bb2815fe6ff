import TalkMachine.Proofs.Dictionary.Table
import TalkMachine.Proofs.Heap.Slots
import TalkMachine.Proofs.Value

/-!
# Reading dictionaries

A dictionary on the heap is three objects: the dictionary itself and its two arrays
(`Dictionary.HasParts`). Every question about it is answered from the lists of keys and values that
the arrays hold. Probing is a search in the list of keys (`Dictionary.exists_findPlaceIn`), so with
the invariant of the table the answers are those of the entries that were put.
-/

namespace TalkMachine

/-- A question to the heap that was answered. -/
@[simp] lemma Except.ofHeap_ok {α : Type} (a : α) :
    Except.ofHeap (.ok a : Except HeapError α) = .ok a :=
  rfl

namespace Dictionary

variable {h : Heap} {s : ObjectMap} {d keyArray valueArray key : Value} {ks vs : List Value}
  {n home : ℕ}

/-! ### Probing -/

/-- Probing goes on from where no place before had the key or was free, and finds what a search from
the home finds. -/
lemma exists_probe (rep : h.Represents s) (hkeys : s.HasSlots keyArray ks) (key : Value)
    (home steps m : ℕ) (hsteps : m + steps = ks.length)
    (hbefore : ∀ n < m, ks[(home + n) % ks.length]? ≠ some key ∧
      ks[(home + n) % ks.length]? ≠ some h.nil) :
    ∃ result, probe h keyArray key ks.length steps ((home + m) % ks.length) = .ok result ∧
      IsFound h.nil key ks home result := by
  induction steps generalizing m with
  | zero => exact ⟨none, rfl, fun n hn => hbefore n (by omega)⟩
  | succ steps ih =>
    have hpos : 0 < ks.length := by omega
    have hlt := Nat.mod_lt (home + m) hpos
    have hget : ks[(home + m) % ks.length]? = some ks[(home + m) % ks.length] :=
      List.getElem?_eq_getElem hlt
    have hfetch := Heap.fetch_eq_of_hasSlots rep hkeys hget
    rw [probe, hfetch]
    simp only [Bind.bind, Except.bind]
    split
    · rename_i hfound
      refine ⟨some ((home + m) % ks.length), rfl, m, by omega, rfl, ?_, hbefore⟩
      rw [hget]
      exact hfound.imp (congrArg some) (congrArg some)
    · rename_i hfound
      have hnext : (if (home + m) % ks.length + 1 = ks.length then 0
          else (home + m) % ks.length + 1) = (home + (m + 1)) % ks.length := by
        have hmod : (home + (m + 1)) % ks.length = ((home + m) % ks.length + 1) % ks.length := by
          rw [Nat.mod_add_mod, Nat.add_assoc]
        rw [hmod]
        split
        · rename_i hend
          rw [hend, Nat.mod_self]
        · exact (Nat.mod_eq_of_lt (by omega)).symm
      rw [hnext]
      refine ih (m + 1) (by omega) fun n hn => ?_
      rcases Nat.lt_succ_iff_lt_or_eq.mp hn with hlt | rfl
      · exact hbefore n hlt
      · rw [hget]
        simpa [not_or] using hfound

/-- The place of a key with a hash is what a search from its home finds. -/
lemma exists_findPlaceIn (rep : h.Represents s) (hkeys : s.HasSlots keyArray ks)
    (hhome : h.identityHashOf key = .ok home) :
    ∃ result, findPlaceIn h keyArray key = .ok result ∧ IsFound h.nil key ks home result := by
  rw [findPlaceIn, Heap.elementCount_eq_of_hasSlots rep hkeys]
  simp only [Bind.bind, Except.bind, hhome]
  split
  · rename_i hzero
    exact ⟨none, rfl, fun n hn => by omega⟩
  · obtain ⟨result, hprobe, hfound⟩ := exists_probe rep hkeys key home ks.length 0
      (by omega) (by omega)
    exact ⟨result, by rw [Nat.add_zero] at hprobe; rw [hprobe]; rfl, hfound⟩

/-- In an array with places, a key without a hash has no place. -/
lemma findPlaceIn_eq_error (rep : h.Represents s) (hkeys : s.HasSlots keyArray ks) (hne : ks ≠ [])
    {e : HeapError} (hhash : h.identityHashOf key = .error e) :
    findPlaceIn h keyArray key = .error (.heap e) := by
  rw [findPlaceIn, Heap.elementCount_eq_of_hasSlots rep hkeys]
  simp only [Bind.bind, Except.bind, hhash, List.length_eq_zero_iff, if_neg hne]
  rfl

/-- Where a place is found, the key has a hash, and a search from its home finds that place. -/
lemma exists_isFound (rep : h.Represents s) (hkeys : s.HasSlots keyArray ks) {place : ℕ}
    (hplace : findPlaceIn h keyArray key = .ok (some place)) :
    ∃ home, h.identityHashOf key = .ok home ∧ IsFound h.nil key ks home (some place) := by
  cases hhome : h.identityHashOf key with
  | ok home =>
    obtain ⟨result, hresult, hfound⟩ := exists_findPlaceIn rep hkeys hhome
    obtain rfl := Except.ok.inj (hresult.symm.trans hplace)
    exact ⟨home, rfl, hfound⟩
  | error e =>
    rw [findPlaceIn, Heap.elementCount_eq_of_hasSlots rep hkeys] at hplace
    simp only [Bind.bind, Except.bind, hhome] at hplace
    split at hplace <;> cases hplace

/-! ### The parts of a dictionary -/

/-- Whether a dictionary counts `n` entries and has these arrays, with these keys and values in
them. -/
structure HasParts (s : ObjectMap) (d : Value) (n : ℕ) (keyArray valueArray : Value)
    (ks vs : List Value) : Prop where
  dictionary : s.HasSlots d [Value.ofInt n, keyArray, valueArray]
  keys : s.HasSlots keyArray ks
  values : s.HasSlots valueArray vs
  keys_ne : keyArray ≠ d
  values_ne : valueArray ≠ d
  values_ne_keys : valueArray ≠ keyArray

namespace HasParts

variable (rep : h.Represents s) (parts : HasParts s d n keyArray valueArray ks vs)
include rep parts

/-- The array of keys. -/
lemma keys_eq : Dictionary.keys h d = .ok keyArray := by
  rw [Dictionary.keys, Heap.fetch_eq_of_hasSlots rep parts.dictionary rfl, Except.ofHeap_ok]

/-- The array of values. -/
lemma values_eq : Dictionary.values h d = .ok valueArray := by
  rw [Dictionary.values, Heap.fetch_eq_of_hasSlots rep parts.dictionary rfl, Except.ofHeap_ok]

/-- The number of places. -/
lemma capacity_eq : capacity h d = .ok ks.length := by
  rw [capacity, parts.keys_eq rep]
  simp only [Bind.bind, Except.bind, Heap.elementCount_eq_of_hasSlots rep parts.keys,
    Except.ofHeap_ok]

/-- The number of entries, of which 63 bits are kept. -/
lemma tally_eq_bmod : tally h d = .ok (((n : ℤ).bmod (2 ^ 63)) % 2 ^ 64).toNat := by
  rw [tally, Heap.fetch_eq_of_hasSlots rep parts.dictionary rfl, Except.ofHeap_ok]
  simp only [Bind.bind, Except.bind, Value.toInt?_ofInt_bmod, pure, Except.pure]
  rfl

/-- What is counted on from the tally is what is counted on from the number in its slot. -/
lemma ofInt_tally_succ {m : ℕ} (htally : tally h d = .ok m) :
    Value.ofInt (m + 1) = Value.ofInt ((n + 1 : ℕ) : ℤ) := by
  obtain rfl := Except.ok.inj ((parts.tally_eq_bmod rep).symm.trans htally)
  apply Value.ofInt_congr
  rw [Int.bmod_def]
  omega

/-- The number of entries, of which there are no more than places. -/
lemma tally_eq (hn : n ≤ ks.length) : tally h d = .ok n := by
  have hroom := Heap.length_lt_of_hasSlots rep parts.keys
  rw [parts.tally_eq_bmod rep, Int.bmod_eq_of_le (by omega) (by omega)]
  congr 1
  omega

/-- The place of a key. -/
lemma findPlace_eq (key : Value) : findPlace h d key = findPlaceIn h keyArray key := by
  rw [findPlace, parts.keys_eq rep]
  rfl

/-- The entry at a place of the table. -/
lemma entryAt_eq {i : ℕ} {k v : Value} (hk : ks[i]? = some k) (hv : vs[i]? = some v) :
    entryAt h keyArray valueArray i = .ok (if k = h.nil then none else some (k, v)) := by
  rw [entryAt, Heap.fetch_eq_of_hasSlots rep parts.keys hk]
  simp only [Bind.bind, Except.bind, Heap.fetch_eq_of_hasSlots rep parts.values hv]
  split <;> rfl

/-- The entries of the table, in the order of their places. -/
lemma entries_eq (hlength : vs.length = ks.length) : entries h d = .ok (pairs h.nil ks vs) := by
  have hmap : (List.range ks.length).mapM (entryAt h keyArray valueArray) =
      .ok ((ks.zip vs).map fun entry => if entry.1 = h.nil then none else some entry) := by
    rw [mapM_eq_ok_iff, List.forall₂_iff_get]
    refine ⟨by simp [hlength], fun i hi hi' => ?_⟩
    have hik : i < ks.length := by simpa using hi
    have hiv : i < vs.length := hlength.symm ▸ hik
    simpa using parts.entryAt_eq rep (List.getElem?_eq_getElem hik) (List.getElem?_eq_getElem hiv)
  rw [entries, parts.keys_eq rep, parts.values_eq rep]
  simp only [Bind.bind, Except.bind, Heap.elementCount_eq_of_hasSlots rep parts.keys, hmap, pure,
    Except.pure, Except.ofHeap_ok]
  congr 1
  rw [List.filterMap_map, pairs, ← List.filterMap_eq_filter]
  refine List.filterMap_congr fun entry _ => ?_
  by_cases hkey : entry.1 = h.nil <;> simp [hkey, Option.guard]

/-- The value of a key with a hash is the one that a search from its home comes to. -/
lemma exists_find? (hlength : vs.length = ks.length) (hhome : h.identityHashOf key = .ok home) :
    ∃ result, IsFound h.nil key ks home result ∧
      find? h d key = .ok (valueAt? key ks vs result) := by
  obtain ⟨result, hplace, hfound⟩ := exists_findPlaceIn rep parts.keys hhome
  refine ⟨result, hfound, ?_⟩
  rw [find?, parts.findPlace_eq rep, hplace]
  simp only [Bind.bind, Except.bind]
  cases result with
  | none => rfl
  | some place =>
    have hlt := Table.lt_of_isFound hfound
    have hget : ks[place]? = some ks[place] := List.getElem?_eq_getElem hlt
    have hlt' : place < vs.length := hlength.symm ▸ hlt
    have hvalue : vs[place]? = some vs[place] := List.getElem?_eq_getElem hlt'
    simp only [parts.keys_eq rep, parts.values_eq rep,
      Heap.fetch_eq_of_hasSlots rep parts.keys hget,
      Heap.fetch_eq_of_hasSlots rep parts.values hvalue, Except.ofHeap_ok, valueAt?, hget, hvalue,
      Option.some.injEq]
    split <;> rfl

/-- A key with a hash has the value that was put for it last, and any other key that is not nil has
none. -/
lemma find?_eq {puts : List (Value × Value)} (table : Table h.identityHashOf h.nil ks vs)
    (means : Means h.nil ks vs puts) (hhome : h.identityHashOf key = .ok home)
    (hkey : key ≠ h.nil) : find? h d key = .ok (puts.lookup key) := by
  have hlookup : ∀ {i : ℕ} {v : Value}, ks[i]? = some key → vs[i]? = some v →
      puts.lookup key = some v :=
    fun hk hv => (means key _).mp (mem_pairs.mpr ⟨hkey, _, hk, hv⟩)
  have hnone : (∀ i : ℕ, ks[i]? ≠ some key) → puts.lookup key = none := by
    intro habsent
    rw [Option.eq_none_iff_forall_ne_some]
    intro v hv
    obtain ⟨-, i, hi, -⟩ := mem_pairs.mp ((means key v).mpr hv)
    exact habsent i hi
  obtain ⟨result, hfound, hfind⟩ := parts.exists_find? rep table.length_eq hhome
  rw [hfind]
  cases result with
  | none =>
    rw [hnone fun i => (Table.ne_of_isFound_none hfound i).1]
    rfl
  | some place =>
    have hlt := Table.lt_of_isFound hfound
    have hlt' : place < vs.length := table.length_eq.symm ▸ hlt
    have hvalue : vs[place]? = some vs[place] := List.getElem?_eq_getElem hlt'
    rw [valueAt?]
    split
    · rename_i hplace
      rw [hlookup hplace hvalue, hvalue]
    · rename_i hother
      rw [hnone]
      intro i hi
      obtain rfl := Option.some.inj (table.eq_of_isFound hhome hkey hi hfound)
      exact hother hi

end HasParts

end Dictionary

end TalkMachine
