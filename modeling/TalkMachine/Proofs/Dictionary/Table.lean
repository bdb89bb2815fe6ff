import Mathlib.Data.List.Dedup
import Mathlib.Tactic.Linarith
import TalkMachine.Dictionary

/-!
# Tables with linear probing

A table is a list of keys, nil where a place is free, with a list of values beside it. Its invariant
(`Dictionary.Table`) is that no key stands twice, and that no place between the home of a key and the
place where it stands is free. So a search from the home of a key comes to the key if it is in the
table (`Table.eq_of_isFound`), and putting an entry where a search has stopped keeps the invariant
and changes the entries of that key only (`Table.put`, `Table.mem_pairs_put`).
-/

namespace TalkMachine

namespace Dictionary

variable {hash : Value → Except HeapError ℕ} {nil key : Value} {ks vs : List Value}

/-! ### Entries -/

/-- The entries of a table, in the order of their places. -/
def pairs (nil : Value) (ks vs : List Value) : List (Value × Value) :=
  (ks.zip vs).filter fun entry => entry.1 ≠ nil

/-- An entry is a key that is not nil with the value beside it. -/
lemma mem_pairs {k v : Value} :
    (k, v) ∈ pairs nil ks vs ↔ k ≠ nil ∧ ∃ i : ℕ, ks[i]? = some k ∧ vs[i]? = some v := by
  rw [pairs, List.mem_filter, List.mem_iff_getElem?, and_comm]
  simp only [List.getElem?_zip_eq_some, decide_eq_true_eq]

/-- The keys of the entries. -/
lemma map_fst_pairs (nil : Value) (hlength : vs.length = ks.length) :
    (pairs nil ks vs).map Prod.fst = ks.filter fun k => k ≠ nil := by
  have hkeys : (ks.zip vs).map Prod.fst = ks := List.map_fst_zip hlength.ge
  conv_rhs => rw [← hkeys, List.filter_map]
  rfl

/-- There are no more entries than places, and as many only if no place is free. -/
lemma length_pairs_eq_iff (hlength : vs.length = ks.length) :
    (pairs nil ks vs).length = ks.length ↔ ∀ i : ℕ, ks[i]? ≠ some nil := by
  have hcount := congrArg List.length (map_fst_pairs nil hlength)
  rw [List.length_map] at hcount
  rw [hcount, List.length_filter_eq_length_iff]
  simp only [decide_eq_true_eq, List.mem_iff_getElem?]
  exact ⟨fun h i hi => h nil ⟨i, hi⟩ rfl, fun h k ⟨i, hi⟩ hk => h i (hk ▸ hi)⟩

/-- There are no more entries than places. -/
lemma length_pairs_le (nil : Value) (ks vs : List Value) :
    (pairs nil ks vs).length ≤ ks.length := by
  refine (List.length_filter_le _ _).trans ?_
  rw [List.length_zip]
  exact min_le_left _ _

/-- A table without keys has no entries. -/
lemma pairs_replicate (nil : Value) (n : ℕ) (vs : List Value) :
    pairs nil (List.replicate n nil) vs = [] := by
  rw [List.eq_nil_iff_forall_not_mem]
  rintro ⟨k, v⟩ hmem
  obtain ⟨hk, i, hi, -⟩ := mem_pairs.mp hmem
  obtain ⟨hi', rfl⟩ := List.getElem?_eq_some_iff.mp hi
  exact hk (List.getElem_replicate ..)

/-! ### The invariant -/

/-- The invariant of a table whose keys have these hashes. -/
structure Table (hash : Value → Except HeapError ℕ) (nil : Value) (ks vs : List Value) : Prop where
  length_eq : vs.length = ks.length
  /-- No key stands twice. -/
  distinct : ∀ {i j : ℕ} {k : Value}, ks[i]? = some k → ks[j]? = some k → k ≠ nil → i = j
  /-- Each key stands so many places behind its home, round the end, and none of the places between
  is free. -/
  reached : ∀ {i : ℕ} {k : Value}, ks[i]? = some k → k ≠ nil → ∃ home n, hash k = .ok home ∧
    n < ks.length ∧ (home + n) % ks.length = i ∧ ∀ m < n, ks[(home + m) % ks.length]? ≠ some nil

/-- A table without keys. -/
lemma table_replicate (hash : Value → Except HeapError ℕ) (nil : Value) (n : ℕ) :
    Table hash nil (List.replicate n nil) (List.replicate n nil) := by
  have hfree : ∀ {i : ℕ} {k : Value}, (List.replicate n nil)[i]? = some k → k = nil := by
    intro i k hk
    obtain ⟨hi, rfl⟩ := List.getElem?_eq_some_iff.mp hk
    exact List.getElem_replicate ..
  exact ⟨rfl, fun hi _ hk => absurd (hfree hi) hk, fun hi hk => absurd (hfree hi) hk⟩

namespace Table

/-- The invariant speaks of the hashes of the keys in the table only. -/
lemma congr {hash' : Value → Except HeapError ℕ} (table : Table hash nil ks vs)
    (h : ∀ {i : ℕ} {k : Value}, ks[i]? = some k → k ≠ nil → hash' k = hash k) :
    Table hash' nil ks vs := by
  refine ⟨table.length_eq, table.distinct, fun hi hk => ?_⟩
  obtain ⟨home, n, hhome, hn⟩ := table.reached hi hk
  exact ⟨home, n, (h hi hk).trans hhome, hn⟩

/-- No key has two entries. -/
lemma nodup_keys (table : Table hash nil ks vs) : ((pairs nil ks vs).map Prod.fst).Nodup := by
  rw [map_fst_pairs nil table.length_eq, List.Nodup, List.pairwise_filter, List.pairwise_iff_getElem]
  intro i j hi hj hij hk _ heq
  have hne : ks[i] ≠ nil := by simpa using hk
  refine hij.ne (table.distinct (List.getElem?_eq_getElem hi) ?_ hne)
  rw [List.getElem?_eq_getElem hj, heq]

end Table

/-! ### Searching -/

/-- What a search for a key from its home answers: the first place with the key or free, going round
the end, or none when there is no such place. -/
def IsFound (nil key : Value) (ks : List Value) (home : ℕ) : Option ℕ → Prop
  | none => ∀ n < ks.length,
    ks[(home + n) % ks.length]? ≠ some key ∧ ks[(home + n) % ks.length]? ≠ some nil
  | some place => ∃ n < ks.length, (home + n) % ks.length = place ∧
    (ks[place]? = some key ∨ ks[place]? = some nil) ∧
    ∀ m < n, ks[(home + m) % ks.length]? ≠ some key ∧ ks[(home + m) % ks.length]? ≠ some nil

/-- A search comes to one place only. -/
lemma IsFound.unique {home : ℕ} {result result' : Option ℕ} (h : IsFound nil key ks home result)
    (h' : IsFound nil key ks home result') : result = result' := by
  cases result with
  | none =>
    cases result' with
    | none => rfl
    | some place' =>
      obtain ⟨n', hn', rfl, hplace', -⟩ := h'
      exact absurd hplace' (not_or.mpr (h n' hn'))
  | some place =>
    obtain ⟨n, hn, rfl, hplace, hbefore⟩ := h
    cases result' with
    | none => exact absurd hplace (not_or.mpr (h' n hn))
    | some place' =>
      obtain ⟨n', -, rfl, hplace', hbefore'⟩ := h'
      rcases Nat.lt_trichotomy n n' with hlt | rfl | hlt
      · exact absurd hplace (not_or.mpr (hbefore' n hlt))
      · rfl
      · exact absurd hplace' (not_or.mpr (hbefore n' hlt))

/-- What a search for a key answers: the value beside the place it has come to, if the key stands
there. -/
def valueAt? (key : Value) (ks vs : List Value) : Option ℕ → Option Value
  | none => none
  | some place => if ks[place]? = some key then vs[place]? else none

namespace Table

variable {home place : ℕ} {value : Value}

/-- A search for a key in the table comes to its place. -/
lemma eq_of_isFound (table : Table hash nil ks vs) (hhome : hash key = .ok home)
    (hkey : key ≠ nil) {i : ℕ} (hi : ks[i]? = some key) {result : Option ℕ}
    (h : IsFound nil key ks home result) : result = some i := by
  obtain ⟨home', n, hhome', hn, rfl, hpath⟩ := table.reached hi hkey
  obtain rfl : home' = home := Except.ok.inj (hhome'.symm.trans hhome)
  cases result with
  | none => exact absurd hi (h n hn).1
  | some place =>
    obtain ⟨n', hn', rfl, hplace, hbefore⟩ := h
    rcases hplace with hplace | hplace
    · exact congrArg some (table.distinct hplace hi hkey)
    · -- A free place cannot lie before the key, and the search would not have passed the key.
      rcases Nat.lt_trichotomy n' n with hlt | rfl | hlt
      · exact absurd hplace (hpath n' hlt)
      · exact absurd (Option.some.inj (hi.symm.trans hplace)) hkey
      · exact absurd hi (hbefore n hlt).1

/-- Every place is some number of steps behind the home. -/
lemma exists_steps (home : ℕ) {i n : ℕ} (hi : i < n) : ∃ m < n, (home + m) % n = i := by
  have hpos : 0 < n := by omega
  refine ⟨(i + n - home % n) % n, Nat.mod_lt _ hpos, ?_⟩
  have hmod := Nat.mod_lt home hpos
  have hsum : home + (i + n - home % n) = i + n * (home / n + 1) := by
    have hdiv := Nat.div_add_mod home n
    rw [Nat.mul_add, Nat.mul_one]
    omega
  rw [Nat.add_mod_mod, hsum, Nat.add_mul_mod_self_left, Nat.mod_eq_of_lt hi]

/-- A search that finds no place has seen every place, and none is free or has the key. -/
lemma ne_of_isFound_none (h : IsFound nil key ks home none) (i : ℕ) :
    ks[i]? ≠ some key ∧ ks[i]? ≠ some nil := by
  rcases Nat.lt_or_ge i ks.length with hi | hi
  · obtain ⟨n, hn, rfl⟩ := exists_steps home hi
    exact h n hn
  · simp [List.getElem?_eq_none hi]

/-- A place that a search has found lies in the table. -/
lemma lt_of_isFound (h : IsFound nil key ks home (some place)) : place < ks.length := by
  obtain ⟨n, hn, rfl, -⟩ := h
  exact Nat.mod_lt _ (by omega)

/-! ### Putting an entry -/

/-- The keys other than the one that was put stand where they stood. -/
lemma getElem?_put_of_ne (h : IsFound nil key ks home (some place)) {k : Value} (hnil : k ≠ nil)
    (hk : k ≠ key) (i : ℕ) : (ks.set place key)[i]? = some k ↔ ks[i]? = some k := by
  by_cases hi : place = i
  · subst hi
    obtain ⟨-, -, -, hplace, -⟩ := id h
    rw [List.getElem?_set_self (lt_of_isFound h)]
    rcases hplace with hplace | hplace <;> simp [hplace, hk.symm, hnil.symm]
  · rw [List.getElem?_set_ne hi]

/-- The key that was put stands at its place. -/
lemma getElem?_put_self (table : Table hash nil ks vs) (hhome : hash key = .ok home)
    (hkey : key ≠ nil) (h : IsFound nil key ks home (some place)) (i : ℕ) :
    (ks.set place key)[i]? = some key ↔ i = place := by
  constructor
  · intro hi
    by_cases hplace : place = i
    · exact hplace.symm
    · rw [List.getElem?_set_ne hplace] at hi
      exact (Option.some.inj (table.eq_of_isFound hhome hkey hi h)).symm
  · rintro rfl
    rw [List.getElem?_set_self (lt_of_isFound h)]

/-- No place becomes free. -/
lemma getElem?_eq_nil_of_put (hkey : key ≠ nil) {i : ℕ} (hi : (ks.set place key)[i]? = some nil) :
    ks[i]? = some nil := by
  by_cases hplace : place = i
  · subst hplace
    obtain ⟨hlt, hself⟩ := List.getElem?_eq_some_iff.mp hi
    rw [List.getElem_set_self] at hself
    exact absurd hself hkey
  · rwa [List.getElem?_set_ne hplace] at hi

/-- An entry that is put where a search for its key has stopped keeps the invariant. -/
theorem put (table : Table hash nil ks vs) (hhome : hash key = .ok home) (hkey : key ≠ nil)
    (h : IsFound nil key ks home (some place)) (value : Value) :
    Table hash nil (ks.set place key) (vs.set place value) := by
  refine ⟨by simp [table.length_eq], fun {i j k} hi hj hk => ?_, fun {i k} hi hk => ?_⟩
  · by_cases hkk : k = key
    · subst hkk
      rw [getElem?_put_self table hhome hkey h] at hi hj
      rw [hi, hj]
    · rw [getElem?_put_of_ne h hk hkk] at hi hj
      exact table.distinct hi hj hk
  · rw [List.length_set]
    by_cases hkk : k = key
    · subst hkk
      obtain rfl := (getElem?_put_self table hhome hkey h i).mp hi
      obtain ⟨n, hn, hplace, -, hbefore⟩ := h
      exact ⟨home, n, hhome, hn, hplace,
        fun m hm hnil => (hbefore m hm).2 (getElem?_eq_nil_of_put hkey hnil)⟩
    · rw [getElem?_put_of_ne h hk hkk] at hi
      obtain ⟨home', n, hhome', hn, hi', hpath⟩ := table.reached hi hk
      exact ⟨home', n, hhome', hn, hi',
        fun m hm hnil => hpath m hm (getElem?_eq_nil_of_put hkey hnil)⟩

/-- Putting an entry changes what the table says about its key only. -/
theorem mem_pairs_put (table : Table hash nil ks vs) (hhome : hash key = .ok home)
    (hkey : key ≠ nil) (h : IsFound nil key ks home (some place)) (value k v : Value) :
    (k, v) ∈ pairs nil (ks.set place key) (vs.set place value) ↔
      if k = key then v = value else (k, v) ∈ pairs nil ks vs := by
  have hlt : place < vs.length := table.length_eq.symm ▸ lt_of_isFound h
  rw [mem_pairs, mem_pairs]
  split
  · rename_i heq
    subst heq
    simp only [getElem?_put_self table hhome hkey h, exists_eq_left, List.getElem?_set_self hlt,
      Option.some.injEq]
    exact ⟨fun hv => hv.2.symm, fun hv => ⟨hkey, hv.symm⟩⟩
  · rename_i hk
    refine and_congr_right fun hnil => exists_congr fun i => ?_
    rw [getElem?_put_of_ne h hnil hk]
    refine and_congr_right fun hi => ?_
    by_cases hplace : place = i
    · -- Another key cannot stand at the place.
      subst hplace
      obtain ⟨-, -, -, hplace, -⟩ := h
      rcases hplace with hplace | hplace
      · exact absurd (Option.some.inj (hi.symm.trans hplace)) hk
      · exact absurd (Option.some.inj (hi.symm.trans hplace)) hnil
    · rw [List.getElem?_set_ne hplace]

end Table

/-! ### Values beside free places -/

section Free

variable {place : ℕ} (hfree : ks[place]? = some nil) (value : Value)
include hfree

/-- A value that is put beside a free place belongs to no entry. -/
lemma mem_pairs_set_free {k v : Value} :
    (k, v) ∈ pairs nil ks (vs.set place value) ↔ (k, v) ∈ pairs nil ks vs := by
  rw [mem_pairs, mem_pairs]
  refine and_congr_right fun hnil => exists_congr fun i => and_congr_right fun hi => ?_
  have hne : place ≠ i := by
    rintro rfl
    exact hnil (Option.some.inj (hi.symm.trans hfree))
  rw [List.getElem?_set_ne hne]

end Free

/-! ### What has been put -/

/-- The number of keys in a list of entries. -/
def keyCount (entries : List (Value × Value)) : ℕ :=
  (entries.map Prod.fst).dedup.length

/-- Whether the entries of a table are what was put into it, the last entry of a key first. -/
def Means (nil : Value) (ks vs : List Value) (puts : List (Value × Value)) : Prop :=
  ∀ k v, (k, v) ∈ pairs nil ks vs ↔ puts.lookup k = some v

namespace Means

variable {puts : List (Value × Value)}

/-- A key has been put just when it has a value. -/
lemma exists_lookup_iff {k : Value} :
    (∃ v, puts.lookup k = some v) ↔ k ∈ puts.map Prod.fst := by
  rw [← Option.isSome_iff_exists, List.lookup_isSome_iff]
  simp only [List.mem_map, beq_iff_eq, @eq_comm _ k]

/-- The keys of the entries are the keys that were put. -/
lemma mem_keys_iff (means : Means nil ks vs puts) {k : Value} :
    k ∈ (pairs nil ks vs).map Prod.fst ↔ k ∈ puts.map Prod.fst := by
  constructor
  · intro hmem
    obtain ⟨⟨k, v⟩, hentry, rfl⟩ := List.mem_map.mp hmem
    exact exists_lookup_iff.mp ⟨v, (means k v).mp hentry⟩
  · intro hmem
    obtain ⟨v, hv⟩ := exists_lookup_iff.mpr hmem
    exact List.mem_map.mpr ⟨(k, v), (means k v).mpr hv, rfl⟩

/-- There are as many entries as keys were put. -/
lemma length_pairs_eq (table : Table hash nil ks vs) (means : Means nil ks vs puts) :
    (pairs nil ks vs).length = keyCount puts := by
  have hperm : ((pairs nil ks vs).map Prod.fst).Perm (puts.map Prod.fst).dedup := by
    rw [List.perm_ext_iff_of_nodup table.nodup_keys (List.nodup_dedup _)]
    intro k
    rw [List.mem_dedup, means.mem_keys_iff]
  rw [keyCount, ← hperm.length_eq, List.length_map]

/-- Putting an entry adds it to what was put. -/
lemma put {home place : ℕ} (table : Table hash nil ks vs) (means : Means nil ks vs puts)
    (hhome : hash key = .ok home) (hkey : key ≠ nil) (h : IsFound nil key ks home (some place))
    (value : Value) :
    Means nil (ks.set place key) (vs.set place value) ((key, value) :: puts) := by
  intro k v
  rw [table.mem_pairs_put hhome hkey h, List.lookup_cons]
  by_cases hk : k = key
  · simp [hk, eq_comm]
  · rw [if_neg hk, means k v, beq_eq_false_iff_ne.mpr hk]

end Means

end Dictionary

end TalkMachine
