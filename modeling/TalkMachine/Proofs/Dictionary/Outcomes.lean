import TalkMachine.Proofs.Dictionary.Changing
import TalkMachine.Proofs.Heap.Growth

/-!
# What comes of putting a key

All that is used of a dictionary here is that it has its parts: nothing is known of what stands in its
arrays, or of which of its parts accept stores. Putting a key ends in one of four ways
(`Dictionary.Comes`). It is refused before anything of the dictionary has been changed; it is refused
after a dictionary without places has grown; it is refused by one of the arrays after the tally has been
changed (`Dictionary.Tears`); or the entry is put.
-/

namespace TalkMachine

namespace Dictionary

variable {h h' t : Heap} {s s' : ObjectMap} {d keyArray valueArray key value found : Value}
  {ks vs : List Value} {n place home : ℕ} {P : Heap → Prop}

/-! ### What steps keep -/

/-- A question keeps everything. -/
lemma maintains_ask {α : Type} (question : Heap → Except MachineError α) :
    Maintains P (ask question) := by
  intro h hP
  unfold ask
  cases question h <;> exact hP

/-- Filling two arrays keeps what stores into them keep. -/
lemma maintains_fill
    (hkeys : ∀ index value, Maintains P (Heap.store keyArray index value))
    (hvalues : ∀ index value, Maintains P (Heap.store valueArray index value))
    (entries : List (Value × Value)) : Maintains P (fill keyArray valueArray entries) := by
  induction entries with
  | nil => exact .pure ()
  | cons entry rest ih =>
    refine (maintains_ask _).bind fun place => ?_
    refine Maintains.bind ((hkeys ..).adaptExcept _) fun _ => ?_
    exact Maintains.bind ((hvalues ..).adaptExcept _) fun _ => ih

/-- A change that the heap refuses. -/
lemma change_eq_error {α : Type} {x : HeapM α} {e : HeapError} (herror : x h = .error e h') :
    change x h = .error (.heap e) h' := by
  unfold change EStateM.adaptExcept
  rw [herror]

/-! ### Parts that are replaced -/

namespace HasParts

variable (parts : HasParts s d n keyArray valueArray ks vs)
include parts

/-- A dictionary whose slots have been replaced, but not its arrays. -/
lemma replaceDictionary {n' : ℕ} (hkeeps : s.KeepsBut [d] s')
    (hd : s'.HasSlots d [Value.ofInt n', keyArray, valueArray]) :
    HasParts s' d n' keyArray valueArray ks vs :=
  ⟨hd, hkeeps.slots (by simpa using parts.keys_ne) parts.keys,
    hkeeps.slots (by simpa using parts.values_ne) parts.values, parts.keys_ne, parts.values_ne,
    parts.values_ne_keys⟩

/-- A dictionary whose keys have been replaced. -/
lemma replaceKeys {ks' : List Value} (hkeeps : s.KeepsBut [keyArray] s')
    (hkeys : s'.HasSlots keyArray ks') : HasParts s' d n keyArray valueArray ks' vs :=
  ⟨hkeeps.slots (by simpa using parts.keys_ne.symm) parts.dictionary, hkeys,
    hkeeps.slots (by simpa using parts.values_ne_keys) parts.values, parts.keys_ne, parts.values_ne,
    parts.values_ne_keys⟩

/-- A dictionary whose values have been replaced. -/
lemma replaceValues {vs' : List Value} (hkeeps : s.KeepsBut [valueArray] s')
    (hvalues : s'.HasSlots valueArray vs') : HasParts s' d n keyArray valueArray ks vs' :=
  ⟨hkeeps.slots (by simpa using parts.values_ne.symm) parts.dictionary,
    hkeeps.slots (by simpa using parts.values_ne_keys.symm) parts.keys, hvalues, parts.keys_ne,
    parts.values_ne, parts.values_ne_keys⟩

end HasParts

/-- Whether a heap holds all objects of an object map still, and the dictionary has these parts, with
as many values as keys. -/
structure Stays (s : ObjectMap) (d : Value) (n : ℕ) (keyArray valueArray : Value)
    (ks vs : List Value) (t : Heap) (s' : ObjectMap) : Prop where
  rep : t.Represents s'
  known : ∀ {name : Value} {o : Object}, s.objects name = some o → ∃ o', s'.objects name = some o'
  parts : HasParts s' d n keyArray valueArray ks vs
  length_eq : vs.length = ks.length

/-- It does so also for the objects of an object map from before. -/
lemma Stays.after {s₁ : ObjectMap}
    (hknown : ∀ {name o}, s.objects name = some o → ∃ o', s₁.objects name = some o')
    (stays : Stays s₁ d n keyArray valueArray ks vs t s') :
    Stays s d n keyArray valueArray ks vs t s' :=
  { stays with known := fun ho => (hknown ho).elim fun _ => stays.known }

/-! ### Growing -/

/-- Filling leaves as many keys and values as there were, and no more than one place less is free for
each entry. -/
lemma exists_slots_of_fill (rep : h.Represents s) (hkeys : s.HasSlots keyArray ks)
    (hvalues : s.HasSlots valueArray vs) (hne : valueArray ≠ keyArray)
    {entries : List (Value × Value)} (hok : fill keyArray valueArray entries h = .ok () h') :
    ∃ s' ks' vs', h'.Represents s' ∧ s.Retains [keyArray, valueArray] s' ∧
      s'.HasSlots keyArray ks' ∧ s'.HasSlots valueArray vs' ∧ ks'.length = ks.length ∧
      vs'.length = vs.length ∧ ∀ nil, ks.count nil ≤ ks'.count nil + entries.length := by
  induction entries generalizing h s ks vs with
  | nil =>
    rw [fill] at hok
    cases hok
    exact ⟨s, ks, vs, rep, .refl _ s, hkeys, hvalues, rfl, rfl, fun _ => le_rfl⟩
  | cons entry rest ih =>
    obtain ⟨k, v⟩ := entry
    rw [fill, ask_bind_eq_ok_iff] at hok
    obtain ⟨place, -, hok⟩ := hok
    simp only [run_bind_eq_ok_iff, change_eq_ok_iff] at hok
    obtain ⟨_, h₁, hstoreKey, _, h₂, hstoreValue, hok⟩ := hok
    obtain ⟨s₂, rep₂, hretains, hplace, hkeys₂, hvalues₂⟩ :=
      exists_of_stores rep hkeys hvalues hne hstoreKey hstoreValue
    obtain ⟨s', ks', vs', rep', hretains', hkeys', hvalues', hlength, hlength', hcount⟩ :=
      ih rep₂ hkeys₂ hvalues₂ hok
    refine ⟨s', ks', vs', rep', hretains.trans hretains' (by simp), hkeys', hvalues',
      by rw [hlength, List.length_set], by rw [hlength', List.length_set], fun nil => ?_⟩
    have hset : ks.count nil ≤ (ks.set place k).count nil + 1 := by
      rw [List.count_set hplace]
      split <;> split <;> omega
    have hrest := hcount nil
    rw [List.length_cons]
    omega

/-- A new array lies behind the bytes in use. -/
lemma growsTo_of_newArray (grows : h.GrowsTo t) {array : Value} (hok : newArray n t = .ok array h') :
    h.GrowsTo h' ∧ h.usedBytes ≤ array.raw.toNat := by
  rw [newArray, change_eq_ok_iff] at hok
  have grows' := Heap.GrowsTo.maintains_allocate 0 n .variableSize ClassIndex.array none grows
  rw [hok] at grows'
  exact ⟨grows', grows.used_le.trans (grows.bounded.allocates_of_ok hok).behind⟩

/-- Allocates two arrays and puts entries into them. -/
def freshArrays (size : ℕ) (entries : List (Value × Value)) : DictionaryM (Value × Value) := do
  let keys ← newArray size
  let values ← newArray size
  fill keys values entries
  return (keys, values)

/-- Growing is filling fresh arrays and giving them to the dictionary. -/
lemma grow_eq (d : Value) : grow d = (do
    let old ← ask (fun h => capacity h d)
    let entries ← ask (fun h => entries h d)
    let arrays ← freshArrays (max minCapacity (2 * old)) entries
    change (Heap.store d keysSlot arrays.1)
    change (Heap.store d valuesSlot arrays.2)) := by
  simp only [grow, freshArrays, bind_assoc, pure_bind]

/-- Whatever comes of filling fresh arrays, nothing in front of them is changed. If it is not refused,
there is a place less that is free for each entry at most. -/
lemma freshArrays_cases (rep : h.Represents s) (size : ℕ) (entries : List (Value × Value)) :
    (∃ e t, freshArrays size entries h = .error e t ∧ h.GrowsTo t) ∨
      ∃ keyArray valueArray t s' ks' vs',
        freshArrays size entries h = .ok (keyArray, valueArray) t ∧ h.GrowsTo t ∧
          t.Represents s' ∧ s.Retains [] s' ∧ s.Renews s' [] [keyArray, valueArray] ∧
          s'.HasSlots keyArray ks' ∧ s'.HasSlots valueArray vs' ∧ valueArray ≠ keyArray ∧
          ks'.length = size ∧ vs'.length = size ∧ size ≤ ks'.count t.nil + entries.length := by
  have refl := Heap.GrowsTo.refl (Heap.Bounded.of_represents rep)
  have hnewArray : ∀ {t}, h.GrowsTo t → h.GrowsTo (stateAfter (newArray size t)) :=
    fun grows => (Heap.GrowsTo.maintains_allocate ..).adaptExcept _ grows
  rw [freshArrays]
  cases hkeys : newArray size h with
  | error e h₁ =>
    have grows₁ := hnewArray refl
    rw [hkeys] at grows₁
    exact .inl ⟨e, h₁, run_bind_of_error hkeys, grows₁⟩
  | ok keyArray h₁ =>
    obtain ⟨grows₁, hkeysBehind⟩ := growsTo_of_newArray refl hkeys
    rw [run_bind_of_ok hkeys]
    cases hvalues : newArray size h₁ with
    | error e h₂ =>
      have grows₂ := hnewArray grows₁
      rw [hvalues] at grows₂
      exact .inl ⟨e, h₂, run_bind_of_error hvalues, grows₂⟩
    | ok valueArray h₂ =>
      obtain ⟨grows₂, hvaluesBehind⟩ := growsTo_of_newArray grows₁ hvalues
      obtain ⟨s₂, rep₂, hretains₂, hrenews₂, holding₂⟩ := exists_of_newArrays rep hkeys hvalues
      have grows₃ := maintains_fill (Heap.GrowsTo.maintains_store hkeysBehind)
        (Heap.GrowsTo.maintains_store hvaluesBehind) entries grows₂
      rw [run_bind_of_ok hvalues]
      cases hfill : fill keyArray valueArray entries h₂ with
      | error e h₃ =>
        rw [hfill] at grows₃
        exact .inl ⟨e, h₃, run_bind_of_error hfill, grows₃⟩
      | ok _ h₃ =>
        rw [hfill] at grows₃
        obtain ⟨s₃, ks', vs', rep₃, hretains₃, hkeys₃, hvalues₃, hlength, hlength', hcount⟩ :=
          exists_slots_of_fill rep₂ holding₂.keys holding₂.values holding₂.values_ne_keys hfill
        rw [List.length_replicate] at hlength hlength'
        have hfree := hcount h₂.nil
        rw [List.count_replicate_self, show h₂.nil = h₃.nil from
          grows₂.nil_eq.trans grows₃.nil_eq.symm] at hfree
        exact .inr ⟨keyArray, valueArray, h₃, s₃, ks', vs', run_bind_of_ok hfill, grows₃, rep₃,
          hretains₂.trans_new hretains₃ fun name hname => .inr (hrenews₂.objects_eq_none hname),
          hrenews₂.retains hretains₃, hkeys₃, hvalues₃, holding₂.values_ne_keys, hlength, hlength',
          hfree⟩

/-- A dictionary is given two arrays if it accepts stores, and is left as it is if it does not. -/
lemma storeArrays_cases (rep : h.Represents s) {old old' : Value}
    (hd : s.HasSlots d [Value.ofInt n, old, old']) (hkeys : s.HasSlots keyArray ks)
    (hvalues : s.HasSlots valueArray vs) (hkeys_ne : keyArray ≠ d) (hvalues_ne : valueArray ≠ d)
    (hne : valueArray ≠ keyArray) :
    (∃ e, (do
        change (Heap.store d keysSlot keyArray)
        change (Heap.store d valuesSlot valueArray) : DictionaryM Unit) h = .error e h) ∨
      s.IsMutable d ∧ ∃ t s', (do
        change (Heap.store d keysSlot keyArray)
        change (Heap.store d valuesSlot valueArray) : DictionaryM Unit) h = .ok () t ∧
          t.Represents s' ∧ t.usedBytes = h.usedBytes ∧ s.Retains [d] s' ∧
          HasParts s' d n keyArray valueArray ks vs := by
  rcases Heap.store_cases rep hd (show keysSlot < slotCount by decide) keyArray with
    ⟨-, herror⟩ | ⟨-, hmutable, h₁, s₁, hok₁, rep₁, hretains₁, hd₁⟩
  · exact .inl ⟨_, run_bind_of_error (change_eq_error herror)⟩
  · obtain ⟨_, t, hok₂, -⟩ := Heap.affords_store rep₁ (hretains₁.isMutable hmutable) hd₁
      (show valuesSlot < slotCount by decide) valueArray (Nat.zero_le _)
    obtain ⟨s₂, rep₂, hretains₂, -, hd₂⟩ := Heap.exists_of_store rep₁ hd₁ hok₂
    have hretains := hretains₁.trans hretains₂ (List.Subset.refl _)
    have hused := (Heap.usedBytes_of_store hok₂).trans (Heap.usedBytes_of_store hok₁)
    refine .inr ⟨hmutable, t, s₂, ?_, rep₂, hused, hretains, hd₂,
      hretains.slots (by simpa using hkeys_ne) hkeys,
      hretains.slots (by simpa using hvalues_ne) hvalues, hkeys_ne, hvalues_ne, hne⟩
    rw [run_bind_of_ok (change_eq_ok_iff.mpr hok₁), change_eq_ok_iff.mpr hok₂]

/-- What a dictionary that has grown has: arrays that are wider than the old ones, with one free place
more than there were places at least, and all its parts accept stores. -/
structure Widened (h : Heap) (s : ObjectMap) (d : Value) (n : ℕ) (ks : List Value)
    (keyArray valueArray : Value) (ks' vs' : List Value) (t : Heap) (s' : ObjectMap) : Prop
    extends Stays s d n keyArray valueArray ks' vs' t s' where
  nil_eq : t.nil = h.nil
  used_le : h.usedBytes ≤ t.usedBytes
  mutable : ∀ name ∈ [d, keyArray, valueArray], s'.IsMutable name
  length_lt : ks.length < ks'.length
  count_nil : ks'.length ≤ ks'.count t.nil + ks.length

/-- A dictionary grows to wider arrays, or it is refused and nothing of it is changed. -/
lemma grow_cases (rep : h.Represents s) (parts : HasParts s d n keyArray valueArray ks vs)
    (hlength : vs.length = ks.length) :
    (∃ e t, grow d h = .error e t ∧ h.GrowsTo t) ∨
      ∃ t s' keyArray' valueArray' ks' vs', grow d h = .ok () t ∧
        Widened h s d n ks keyArray' valueArray' ks' vs' t s' := by
  rw [grow_eq, run_bind_of_ok (ask_eq_ok_iff.mpr ⟨parts.capacity_eq rep, rfl⟩),
    run_bind_of_ok (ask_eq_ok_iff.mpr ⟨parts.entries_eq rep hlength, rfl⟩)]
  have hentries := length_pairs_le h.nil ks vs
  rcases freshArrays_cases rep (max minCapacity (2 * ks.length)) (pairs h.nil ks vs) with
    ⟨e, t, herror, grows⟩ | ⟨keyArray', valueArray', h₁, s₁, ks', vs', hok, grows, rep₁, hretains₁,
      hrenews, hkeys₁, hvalues₁, hne, hlength₁, hlength₁', hcount⟩
  · exact .inl ⟨e, t, run_bind_of_error herror, grows⟩
  rw [run_bind_of_ok hok]
  have hkeys_ne : keyArray' ≠ d := parts.dictionary.ne_of_none (hrenews.objects_eq_none (by simp))
  have hvalues_ne : valueArray' ≠ d :=
    parts.dictionary.ne_of_none (hrenews.objects_eq_none (by simp))
  rcases storeArrays_cases rep₁ (hretains₁.slots List.not_mem_nil parts.dictionary) hkeys₁ hvalues₁
    hkeys_ne hvalues_ne hne with ⟨e, herror⟩ | ⟨hmutable, t, s₂, hok₂, rep₂, hused, hretains₂,
      parts₂⟩
  · exact .inl ⟨e, h₁, herror, grows⟩
  have hnil : t.nil = h₁.nil := Heap.nil_eq_of_keeps rep₁ rep₂ hretains₂.toKeeps
  have hfresh := hrenews.isMutable hretains₁ (List.forall_mem_nil _)
  have hkeeps := hretains₁.toKeeps.trans hretains₂.toKeeps
  refine .inr ⟨t, s₂, keyArray', valueArray', ks', vs', hok₂,
    ⟨rep₂, hkeeps.exists_object, parts₂, ?_⟩, ?_, ?_, ?_, ?_, ?_⟩
  · rw [hlength₁, hlength₁']
  · exact hnil.trans grows.nil_eq
  · exact grows.used_le.trans hused.ge
  · rw [List.forall_mem_cons]
    exact ⟨hretains₂.isMutable hmutable, fun name hname => hretains₂.isMutable (hfresh name hname)⟩
  · rw [hlength₁, minCapacity]
    omega
  · rw [hlength₁, hnil]
    omega

/-! ### Putting the entry -/

/-- Stores a key and its value at a place of two arrays. -/
def storeEntry (keyArray valueArray key value : Value) (place : ℕ) : DictionaryM Unit := do
  change (Heap.store keyArray place key)
  change (Heap.store valueArray place value)

/-- Puts an entry at a place of a dictionary, and counts it if the place was free. -/
def enterAt (d key value : Value) (place : ℕ) : DictionaryM Unit := do
  let keys ← ask (fun h => keys h d)
  let values ← ask (fun h => values h d)
  let isFree ← ask (fun h => do return (← Except.ofHeap (h.fetch keys place)) == h.nil)
  if isFree then
    let tally ← ask (fun h => tally h d)
    change (Heap.store d tallySlot (Value.ofInt (tally + 1)))
  storeEntry keys values key value place

/-- Insertion looks for a place and puts the entry there. -/
lemma insert_eq (d key value : Value) : insert d key value = placeFor d key >>= enterAt d key value :=
  rfl

/-- An entry is stored unless one of the arrays does not accept it. The key is stored even if it is the
array of values that does not. -/
lemma storeEntry_cases (rep : h.Represents s) (parts : HasParts s d n keyArray valueArray ks vs)
    (hlength : vs.length = ks.length) (hplace : place < ks.length) (key value : Value) :
    (h.isImmutable keyArray = .ok true ∧
        ∃ e, storeEntry keyArray valueArray key value place h = .error e h) ∨
      (h.isImmutable valueArray = .ok true ∧ ∃ e t s',
        storeEntry keyArray valueArray key value place h = .error e t ∧
          Heap.store keyArray place key h = .ok () t ∧
          Stays s d n keyArray valueArray (ks.set place key) vs t s') ∨
      (h.isImmutable keyArray = .ok false ∧ h.isImmutable valueArray = .ok false ∧ ∃ t s',
        storeEntry keyArray valueArray key value place h = .ok () t ∧
          Stays s d n keyArray valueArray (ks.set place key) (vs.set place value) t s') := by
  rw [storeEntry]
  rcases Heap.store_cases rep parts.keys hplace key with
    ⟨himmutable, herror⟩ | ⟨hmutable, -, h₁, s₁, hok₁, rep₁, hretains₁, hkeys₁⟩
  · exact .inl ⟨himmutable, _, run_bind_of_error (change_eq_error herror)⟩
  have parts₁ := parts.replaceKeys hretains₁.toKeepsBut hkeys₁
  have hvalues := Heap.isImmutable_of_store rep parts.keys parts.values hok₁
  have hknown₁ : ∀ {name o}, s.objects name = some o → ∃ o', s₁.objects name = some o' :=
    hretains₁.exists_object
  rw [run_bind_of_ok (change_eq_ok_iff.mpr hok₁)]
  rcases Heap.store_cases rep₁ parts₁.values (hlength.symm ▸ hplace) value with
    ⟨himmutable, herror⟩ | ⟨hmutable', -, h₂, s₂, hok₂, rep₂, hretains₂, hvalues₂⟩
  · rw [hvalues] at himmutable
    exact .inr (.inl ⟨himmutable, _, h₁, s₁, change_eq_error herror, hok₁, rep₁, hknown₁, parts₁,
      by rw [List.length_set, hlength]⟩)
  · rw [hvalues] at hmutable'
    refine .inr (.inr ⟨hmutable, hmutable', h₂, s₂, change_eq_ok_iff.mpr hok₂, rep₂, fun ho => ?_,
      parts₁.replaceValues hretains₂.toKeepsBut hvalues₂, by simp [hlength]⟩)
    obtain ⟨o₁, ho₁⟩ := hknown₁ ho
    exact (hretains₂.shape ho₁).imp fun _ => And.left

section EnterAt

variable (rep : h.Represents s) (parts : HasParts s d n keyArray valueArray ks vs)
include rep parts

/-- An entry at a place that is not free is stored. -/
lemma enterAt_of_taken (hfound : ks[place]? = some found) (htaken : found ≠ h.nil)
    (key value : Value) :
    enterAt d key value place h = storeEntry keyArray valueArray key value place h := by
  have hask : (fun h : Heap => do return (← Except.ofHeap (h.fetch keyArray place)) == h.nil) h =
      (.ok false : Except MachineError Bool) := by
    simp [Heap.fetch_eq_of_hasSlots rep parts.keys hfound, htaken, Bind.bind, Except.bind, pure,
      Except.pure]
  rw [enterAt, run_bind_of_ok (ask_eq_ok_iff.mpr ⟨parts.keys_eq rep, rfl⟩),
    run_bind_of_ok (ask_eq_ok_iff.mpr ⟨parts.values_eq rep, rfl⟩),
    run_bind_of_ok (ask_eq_ok_iff.mpr ⟨hask, rfl⟩), if_neg Bool.false_ne_true]

/-- An entry at a free place is counted and stored. -/
lemma enterAt_of_free (hfree : ks[place]? = some h.nil) {tally : ℕ}
    (htally : Dictionary.tally h d = .ok tally) (key value : Value) :
    enterAt d key value place h = (do
      change (Heap.store d tallySlot (Value.ofInt (tally + 1)))
      storeEntry keyArray valueArray key value place) h := by
  have hask : (fun h : Heap => do return (← Except.ofHeap (h.fetch keyArray place)) == h.nil) h =
      (.ok true : Except MachineError Bool) := by
    simp [Heap.fetch_eq_of_hasSlots rep parts.keys hfree, Bind.bind, Except.bind, pure,
      Except.pure]
  rw [enterAt, run_bind_of_ok (ask_eq_ok_iff.mpr ⟨parts.keys_eq rep, rfl⟩),
    run_bind_of_ok (ask_eq_ok_iff.mpr ⟨parts.values_eq rep, rfl⟩),
    run_bind_of_ok (ask_eq_ok_iff.mpr ⟨hask, rfl⟩), if_pos rfl,
    run_bind_of_ok (ask_eq_ok_iff.mpr ⟨htally, rfl⟩)]

end EnterAt

/-- Whether there is a free place for a key and the dictionary accepts stores, but one of its arrays does
not. -/
def Tears (h : Heap) (d key : Value) : Prop :=
  ∃ keyArray valueArray place, keys h d = .ok keyArray ∧ values h d = .ok valueArray ∧
    findPlace h d key = .ok (some place) ∧ h.fetch keyArray place = .ok h.nil ∧
    h.isImmutable d = .ok false ∧
    (h.isImmutable keyArray = .ok true ∨ h.isImmutable valueArray = .ok true)

/-- What can come of putting a key into a dictionary with `n` for its tally and these keys. -/
inductive Comes (h : Heap) (s : ObjectMap) (d key : Value) (n : ℕ) (ks : List Value) :
    EStateM.Result MachineError Heap Unit → Prop
  /-- It is refused, and nothing of the dictionary is changed. -/
  | refused {e : MachineError} {t : Heap} (htears : ¬Tears h d key) (grows : h.GrowsTo t) :
      Comes h s d key n ks (.error e t)
  /-- It is refused after a dictionary without places has grown. -/
  | widened {e : MachineError} {t : Heap} {s' : ObjectMap} {keyArray valueArray : Value}
      {ks' vs' : List Value} (htears : ¬Tears h d key) (hempty : ks = [])
      (widened : Widened h s d n ks keyArray valueArray ks' vs' t s') :
      Comes h s d key n ks (.error e t)
  /-- It is refused after the tally has been changed. -/
  | torn {e : MachineError} {t : Heap} {s' : ObjectMap} {tally : ℕ} {keyArray valueArray : Value}
      {ks' vs' : List Value} (htears : Tears h d key) (htally : Dictionary.tally h d = .ok tally)
      (stays : Stays s d (tally + 1) keyArray valueArray ks' vs' t s') :
      Comes h s d key n ks (.error e t)
  /-- The entry is put. -/
  | done {t : Heap} {s' : ObjectMap} {n' : ℕ} {keyArray valueArray : Value} {ks' vs' : List Value}
      (htears : ¬Tears h d key) (stays : Stays s d n' keyArray valueArray ks' vs' t s') :
      Comes h s d key n ks (.ok () t)

section Comes

variable (rep : h.Represents s) (parts : HasParts s d n keyArray valueArray ks vs)
  (hlength : vs.length = ks.length)
include rep parts

/-- What it takes for a dictionary with these parts to tear. -/
lemma tears_iff : Tears h d key ↔ ∃ place, findPlace h d key = .ok (some place) ∧
    h.fetch keyArray place = .ok h.nil ∧ h.isImmutable d = .ok false ∧
    (h.isImmutable keyArray = .ok true ∨ h.isImmutable valueArray = .ok true) := by
  have hkeys := parts.keys_eq rep
  have hvalues := parts.values_eq rep
  constructor
  · rintro ⟨keyArray', valueArray', place, hkeys', hvalues', htears⟩
    obtain rfl := Except.ok.inj (hkeys.symm.trans hkeys')
    obtain rfl := Except.ok.inj (hvalues.symm.trans hvalues')
    exact ⟨place, htears⟩
  · rintro ⟨place, htears⟩
    exact ⟨keyArray, valueArray, place, hkeys, hvalues, htears⟩

include hlength

/-- What comes of putting an entry at a free place. -/
lemma comes_of_free (hplace : findPlace h d key = .ok (some place))
    (hfree : ks[place]? = some h.nil) (value : Value) :
    Comes h s d key n ks (enterAt d key value place h) := by
  have hlt := (List.getElem?_eq_some_iff.mp hfree).1
  have hfetch := Heap.fetch_eq_of_hasSlots rep parts.keys hfree
  have refl := Heap.GrowsTo.refl (Heap.Bounded.of_represents rep)
  obtain ⟨tally, htally⟩ : ∃ tally, Dictionary.tally h d = .ok tally := ⟨_, parts.tally_eq_bmod rep⟩
  rw [enterAt_of_free rep parts hfree htally]
  rcases Heap.store_cases rep parts.dictionary (show tallySlot < slotCount by decide)
    (Value.ofInt (tally + 1)) with
    ⟨himmutable, herror⟩ | ⟨hmutable, -, h₁, s₁, hok₁, rep₁, hretains₁, hd₁⟩
  · rw [run_bind_of_error (change_eq_error herror)]
    refine .refused (fun htears => ?_) refl
    obtain ⟨_, -, -, hmutable, -⟩ := (tears_iff rep parts).mp htears
    rw [himmutable] at hmutable
    cases hmutable
  have parts₁ : HasParts s₁ d (tally + 1) keyArray valueArray ks vs :=
    parts.replaceDictionary hretains₁.toKeepsBut hd₁
  have hkeys := Heap.isImmutable_of_store rep parts.dictionary parts.keys hok₁
  have hvalues := Heap.isImmutable_of_store rep parts.dictionary parts.values hok₁
  have hknown₁ : ∀ {name o}, s.objects name = some o → ∃ o', s₁.objects name = some o' :=
    hretains₁.exists_object
  rw [run_bind_of_ok (change_eq_ok_iff.mpr hok₁)]
  rcases storeEntry_cases rep₁ parts₁ hlength hlt key value with ⟨himmutable, e, herror⟩ |
    ⟨himmutable, e, t, s₂, herror, -, stays⟩ | ⟨hkeys₁, hvalues₁, t, s₂, hok₂, stays⟩
  · rw [herror]
    have htears : Tears h d key := (tears_iff rep parts).mpr
      ⟨place, hplace, hfetch, hmutable, .inl (hkeys ▸ himmutable)⟩
    exact .torn htears htally ⟨rep₁, hknown₁, parts₁, hlength⟩
  · rw [herror]
    have htears : Tears h d key := (tears_iff rep parts).mpr
      ⟨place, hplace, hfetch, hmutable, .inr (hvalues ▸ himmutable)⟩
    exact .torn htears htally (stays.after hknown₁)
  · rw [hok₂]
    refine .done (fun htears => ?_) (stays.after hknown₁)
    obtain ⟨_, -, -, -, himmutable⟩ := (tears_iff rep parts).mp htears
    rw [← hkeys, ← hvalues, hkeys₁, hvalues₁] at himmutable
    rcases himmutable with himmutable | himmutable <;> cases himmutable

/-- What comes of putting an entry where its key stands. -/
lemma comes_of_taken (hplace : findPlace h d key = .ok (some place)) (hkey : ks[place]? = some key)
    (hne : key ≠ h.nil) (value : Value) :
    Comes h s d key n ks (enterAt d key value place h) := by
  have hlt := (List.getElem?_eq_some_iff.mp hkey).1
  have hfetch := Heap.fetch_eq_of_hasSlots rep parts.keys hkey
  have refl := Heap.GrowsTo.refl (Heap.Bounded.of_represents rep)
  have htears : ¬Tears h d key := by
    rw [tears_iff rep parts]
    rintro ⟨place', hplace', hfree, -⟩
    obtain rfl := Option.some.inj (Except.ok.inj (hplace.symm.trans hplace'))
    exact hne (Except.ok.inj (hfetch.symm.trans hfree))
  rw [enterAt_of_taken rep parts hkey hne]
  rcases storeEntry_cases rep parts hlength hlt key value with ⟨-, e, herror⟩ |
    ⟨-, e, t, s₁, herror, hstore, -⟩ | ⟨-, -, t, s₁, hok, stays⟩
  · rw [herror]
    exact .refused htears refl
  · rw [herror, Heap.eq_of_store_of_fetch hfetch hstore]
    exact .refused htears refl
  · rw [hok]
    exact .done htears stays

/-- A place that was found is free or has the key. -/
lemma comes_of_place (hplace : findPlace h d key = .ok (some place)) (value : Value) :
    Comes h s d key n ks (enterAt d key value place h) := by
  rw [parts.findPlace_eq rep] at hplace
  obtain ⟨home, -, -, -, -, hfound, -⟩ := exists_isFound rep parts.keys hplace
  rw [← parts.findPlace_eq rep] at hplace
  rcases hfound with hkey | hfree
  · by_cases hne : key = h.nil
    · exact comes_of_free rep parts hlength hplace (hne ▸ hkey) value
    · exact comes_of_taken rep parts hlength hplace hkey hne value
  · exact comes_of_free rep parts hlength hplace hfree value

/-- Arrays that accept stores take an entry at any place. -/
lemma exists_of_storeEntry_of_isMutable
    (hmutable : ∀ name ∈ [keyArray, valueArray], s.IsMutable name) (hplace : place < ks.length)
    (key value : Value) : ∃ t s', storeEntry keyArray valueArray key value place h = .ok () t ∧
      Stays s d n keyArray valueArray (ks.set place key) (vs.set place value) t s' := by
  have hkeys := Heap.isImmutable_of_isMutable rep (hmutable keyArray (by simp))
  have hvalues := Heap.isImmutable_of_isMutable rep (hmutable valueArray (by simp))
  rcases storeEntry_cases rep parts hlength hplace key value with
    ⟨himmutable, -⟩ | ⟨himmutable, -⟩ | ⟨-, -, hok⟩
  · rw [hkeys] at himmutable
    cases himmutable
  · rw [hvalues] at himmutable
    cases himmutable
  · exact hok

/-- A dictionary whose parts accept stores takes an entry at any place. -/
lemma exists_of_enterAt (hmutable : ∀ name ∈ [d, keyArray, valueArray], s.IsMutable name)
    (hplace : place < ks.length) (key value : Value) : ∃ t s' n' ks' vs',
      enterAt d key value place h = .ok () t ∧ Stays s d n' keyArray valueArray ks' vs' t s' := by
  rw [List.forall_mem_cons] at hmutable
  have hget := List.getElem?_eq_getElem hplace
  by_cases hfree : ks[place] = h.nil
  · rw [hfree] at hget
    obtain ⟨tally, htally⟩ : ∃ tally, Dictionary.tally h d = .ok tally :=
      ⟨_, parts.tally_eq_bmod rep⟩
    obtain ⟨_, h₁, hok₁, -⟩ := Heap.affords_store rep hmutable.1 parts.dictionary
      (show tallySlot < slotCount by decide) (Value.ofInt (tally + 1)) (Nat.zero_le _)
    obtain ⟨s₁, rep₁, hretains₁, -, hd₁⟩ := Heap.exists_of_store rep parts.dictionary hok₁
    have parts₁ : HasParts s₁ d (tally + 1) keyArray valueArray ks vs :=
      parts.replaceDictionary hretains₁.toKeepsBut hd₁
    obtain ⟨t, s', hok₂, stays⟩ := exists_of_storeEntry_of_isMutable rep₁ parts₁ hlength
      (fun name hname => hretains₁.isMutable (hmutable.2 name hname)) hplace key value
    refine ⟨t, s', _, _, _, ?_, stays.after hretains₁.exists_object⟩
    rw [enterAt_of_free rep parts hget htally, run_bind_of_ok (change_eq_ok_iff.mpr hok₁), hok₂]
  · obtain ⟨t, s', hok, stays⟩ :=
      exists_of_storeEntry_of_isMutable rep parts hlength hmutable.2 hplace key value
    exact ⟨t, s', _, _, _, (enterAt_of_taken rep parts hget hfree key value).trans hok, stays⟩

end Comes

/-- A dictionary that has grown has a place for every key with an identity hash. -/
lemma Widened.exists_place {ks' vs' : List Value}
    (widened : Widened h s d n ks keyArray valueArray ks' vs' t s')
    (hhome : t.identityHashOf key = .ok home) :
    ∃ place, findPlace t d key = .ok (some place) ∧ place < ks'.length := by
  obtain ⟨result, hresult, hfound⟩ := exists_findPlaceIn widened.rep widened.parts.keys hhome
  rw [widened.parts.findPlace_eq widened.rep]
  cases result with
  | some place => exact ⟨place, hresult, Table.lt_of_isFound hfound⟩
  | none =>
    have hlength := widened.length_lt
    have hcount := widened.count_nil
    have hfree : t.nil ∈ ks' := List.count_pos_iff.mp (by omega)
    obtain ⟨i, hi⟩ := List.mem_iff_getElem?.mp hfree
    exact absurd hi (Table.ne_of_isFound_none hfound i).2

/-- What is found when there is a question about the place of a key. -/
lemma ask_findPlace {result : Option ℕ} (hplace : findPlace h d key = .ok result) :
    ask (fun h => findPlace h d key) h = .ok result h :=
  ask_eq_ok_iff.mpr ⟨hplace, rfl⟩

/-- Where there is no place for a key, the dictionary grows, and there must be one then. -/
lemma placeFor_of_none (hplace : findPlace h d key = .ok none) :
    placeFor d key h = (do
      grow d
      ask (fun h => findPlace h d key >>= requirePlace)) h := by
  rw [placeFor, run_bind_of_ok (ask_findPlace hplace)]

/-- What comes of putting a key for which there is no place yet. -/
lemma comes_of_none (rep : h.Represents s) (parts : HasParts s d n keyArray valueArray ks vs)
    (hlength : vs.length = ks.length) (hplace : findPlace h d key = .ok none) (value : Value) :
    Comes h s d key n ks (insert d key value h) := by
  have htears : ¬Tears h d key := by
    rw [tears_iff rep parts]
    rintro ⟨place, hplace', -⟩
    rw [hplace] at hplace'
    cases hplace'
  rw [insert_eq]
  rcases grow_cases rep parts hlength with
    ⟨e, t, herror, grows⟩ | ⟨t, s', keyArray', valueArray', ks', vs', hok, widened⟩
  · rw [run_bind_of_error ((placeFor_of_none hplace).trans (run_bind_of_error herror))]
    exact .refused htears grows
  have hplaceFor := (placeFor_of_none hplace).trans (run_bind_of_ok hok)
  cases hhome : t.identityHashOf key with
  | ok home =>
    obtain ⟨place, hplace', hlt⟩ := widened.exists_place hhome
    have hrequire : ask (fun h => findPlace h d key >>= requirePlace) t = .ok place t :=
      ask_eq_ok_iff.mpr ⟨bind_eq_ok_iff.mpr ⟨_, hplace', rfl⟩, rfl⟩
    obtain ⟨t', s'', _, _, _, hok', stays⟩ := exists_of_enterAt widened.rep widened.parts
      widened.length_eq widened.mutable hlt key value
    rw [run_bind_of_ok (hplaceFor.trans hrequire), hok']
    exact .done htears (stays.after widened.known)
  | error e =>
    -- A dictionary with places has asked for the identity hash before.
    have hempty : ks = [] := by
      by_contra hne
      cases hhash : h.identityHashOf key with
      | ok hash =>
        obtain ⟨hash', hhash'⟩ := Heap.exists_identityHashOf_of_le widened.used_le hhash
        rw [hhome] at hhash'
        cases hhash'
      | error e' =>
        rw [parts.findPlace_eq rep, findPlaceIn_eq_error rep parts.keys hne hhash] at hplace
        cases hplace
    have hrefused : findPlace t d key = .error (.heap e) := by
      rw [widened.parts.findPlace_eq widened.rep]
      exact findPlaceIn_eq_error widened.rep widened.parts.keys
        (List.ne_nil_of_length_pos (Nat.zero_lt_of_lt widened.length_lt)) hhome
    have hrequire : ask (fun h => findPlace h d key >>= requirePlace) t = .error (.heap e) t := by
      simp only [ask, hrefused, Bind.bind, Except.bind]
    rw [run_bind_of_error (hplaceFor.trans hrequire)]
    exact .widened htears hempty widened

/-- Putting any key ends in one of the four ways, whatever stands in the arrays of the dictionary. -/
theorem comes_insert (rep : h.Represents s) (parts : HasParts s d n keyArray valueArray ks vs)
    (hlength : vs.length = ks.length) (key value : Value) :
    Comes h s d key n ks (insert d key value h) := by
  cases hplace : findPlace h d key with
  | error e =>
    have hask : ask (fun h => findPlace h d key) h = .error e h := by simp only [ask, hplace]
    rw [insert_eq, placeFor, run_bind_of_error (run_bind_of_error hask)]
    refine .refused (fun htears => ?_) (.refl (.of_represents rep))
    obtain ⟨_, hplace', -⟩ := (tears_iff rep parts).mp htears
    rw [hplace] at hplace'
    cases hplace'
  | ok result =>
    cases result with
    | some place =>
      have hplaceFor : placeFor d key h = .ok place h := by
        rw [placeFor, run_bind_of_ok (ask_findPlace hplace)]
        rfl
      rw [insert_eq, run_bind_of_ok hplaceFor]
      exact comes_of_place rep parts hlength hplace value
    | none => exact comes_of_none rep parts hlength hplace value

end Dictionary

end TalkMachine
