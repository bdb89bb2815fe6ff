import TalkMachine.Proofs.Dictionary.Steps
import TalkMachine.Proofs.Heap.Altering
import TalkMachine.Proofs.Machine.Orderly

/-!
# Changes that leave classes alone

Allocation of what is to be a dictionary, a class or something else, and stores into objects of
which it is known which of these they are, keep the objects orderly and all superclasses. So do, in
sequence, the operations on dictionaries, also where they are refused half way.
-/

namespace TalkMachine

namespace Heap

open ObjectMap

variable {h h' : Heap} {s s' : ObjectMap} {name value : Value} {o o' : Object} {index : ℕ}

/-! ### Allocation -/

/-- Allocation settles if the fresh object is orderly. -/
lemma settles_allocate (rep : h.Represents s) (orderly : s.Orderly) {fixed indexed : ℕ}
    {format : ObjectFormat} {classIndex : ℕ} (hash : Option ℕ)
    (hfresh : classIndex ≤ Header.maxClassIndex → ∀ hash', (fresh fixed indexed format classIndex
      hash' (if format.isPointers then s.nil.raw else 0)).Orderly s) :
    Settles (allocate fixed indexed format classIndex hash) h s fun name s' =>
      classIndex ≤ Header.maxClassIndex ∧ s.objects name = none ∧
        (∃ address, s'.objects name = some (fresh fixed indexed format classIndex
          (hash.getD address) (if format.isPointers then s.nil.raw else 0))) ∧
        (s.Fills → s'.Fills) := by
  refine ensures_allocate rep hash (.refl rep orderly) ?_
  intro h' name address used hclass hnone hfills rep'
  exact ⟨⟨rep', orderly.put_new hnone (hfresh hclass _) used, .put_new hnone _ used⟩, hclass, hnone,
    ⟨address, objects_put_self s name _⟩, hfills⟩

/-- Allocation of what is neither a dictionary nor a class. -/
lemma settles_allocate_plain (rep : h.Represents s) (orderly : s.Orderly) (fixed indexed : ℕ)
    (format : ObjectFormat) {classIndex : ℕ} (hclass : classIndex < ClassIndex.metaclass)
    (hdictionary : classIndex ≠ ClassIndex.methodDictionary) (hash : Option ℕ) :
    Settles (allocate fixed indexed format classIndex hash) h s fun name s' =>
      s.objects name = none ∧ s'.IsPlain name ∧ (s.Fills → s'.Fills) :=
  (settles_allocate rep orderly hash fun _ _ =>
    ⟨fun hsame => absurd hsame hdictionary, fun hle => absurd hclass (Nat.not_lt.mpr hle)⟩).imp
    fun _ _ ⟨_, hnone, ⟨_, ho⟩, hfills⟩ => ⟨hnone, ⟨_, ho, hclass, hdictionary⟩, hfills⟩

/-- Allocation of a dictionary. Its arrays are nil at first. -/
lemma settles_allocate_dictionary (rep : h.Represents s) (orderly : s.Orderly) :
    Settles (allocate Dictionary.slotCount 0 .fixedSize ClassIndex.methodDictionary) h s
      fun name s' => s'.IsDictionary name := by
  obtain ⟨_, -, -, hnil⟩ := orderly.nil
  refine (settles_allocate rep orderly none fun hclass hash => ⟨fun _ => ?_, fun hle => ?_⟩).imp
    fun _ _ ⟨_, _, ⟨_, ho⟩, _⟩ => ⟨_, ho, rfl⟩
  · exact ⟨s.nil, s.nil, s.nil, Object.hasSlots_fresh s.nil rfl hclass, hnil, hnil⟩
  · exact absurd (show ClassIndex.metaclass ≤ ClassIndex.methodDictionary from hle) (by decide)

/-- Allocation of a class, with the hash that is to be its index. It has no superclass at first. -/
lemma settles_allocate_class (rep : h.Represents s) (orderly : s.Orderly) {classIndex : ℕ}
    (hclass : ClassIndex.metaclass ≤ classIndex) (hash : ℕ) :
    Settles (allocate ClassSlot.classSize 0 .fixedSize classIndex (some hash)) h s
      fun name s' => s.objects name = none ∧ ∃ o, s'.objects name = some o ∧
        o.classIndex = classIndex ∧ o.hash = hash % Header.hashRange ∧
        (⟨o.word 0⟩ : Value) = s.nil := by
  have hslots : ∀ hash', classIndex ≤ Header.maxClassIndex → (fresh ClassSlot.classSize 0 .fixedSize
      classIndex hash' s.nil.raw).HasSlots [s.nil, s.nil, s.nil, s.nil] := fun hash' hmax =>
    Object.hasSlots_fresh s.nil rfl hmax
  refine (settles_allocate rep orderly (some hash) fun hmax hash' => ⟨fun hsame => ?_, fun _ =>
    ⟨rfl, s.nil, s.nil, s.nil, s.nil, hslots hash' hmax, .inl rfl⟩⟩).imp
    fun name s' ⟨hmax, hnone, ⟨address, ho⟩, _⟩ =>
      ⟨hnone, _, ho, rfl, rfl, (hslots _ hmax).word rfl⟩
  have hsame : classIndex = ClassIndex.methodDictionary := hsame
  subst hsame
  exact absurd hclass (by decide)

/-! ### Stores -/

/-- A change of one object settles if it leaves the object orderly and in its shape, and as a class
with its superclass. -/
lemma settles_change {α : Type} {x : HeapM α} {f : Object → Except HeapError (α × Object)}
    (orderly : s.Orderly) (ho : s.objects name = some o)
    (hagree : Agree (x h) (ObjectMap.change name f s))
    (hf : ∀ a o', f o = .ok (a, o') → o.SameShape o' ∧ o'.Orderly s ∧
      (ClassIndex.metaclass ≤ o.classIndex → o'.word 0 = o.word 0)) :
    Settles x h s fun _ _ => True := by
  refine ensures_change ho hagree (fun rep' => ⟨rep', orderly, .refl s⟩) ?_
  intro a o' h' hfo rep'
  obtain ⟨hshape, horderly, hword⟩ := hf a o' hfo
  have hrelinks : s.Relinks (fun _ => none) (s.put name o') :=
    .replace ho hshape (fun hbehavior => congrArg Value.mk (hword hbehavior)) fun _ _ => rfl
  exact ⟨⟨rep', orderly.replace ho hshape hrelinks horderly, hrelinks⟩, trivial⟩

/-- Any change of a plain object that keeps its shape settles. -/
lemma settles_change_plain {α : Type} {x : HeapM α} {f : Object → Except HeapError (α × Object)}
    (orderly : s.Orderly) (hname : s.IsPlain name)
    (hagree : ∀ o, s.objects name = some o → Agree (x h) (ObjectMap.change name f s))
    (hshape : ∀ o a o', f o = .ok (a, o') → o.SameShape o') : Settles x h s fun _ _ => True := by
  obtain ⟨o, ho, hclass, hdictionary⟩ := hname
  have hbelow : ¬ClassIndex.metaclass ≤ o.classIndex := Nat.not_le.mpr hclass
  refine settles_change orderly ho (hagree o ho) fun a o' hok => ?_
  have hsame := (hshape o a o' hok).classIndex
  exact ⟨hshape o a o' hok, ⟨fun h => absurd (hsame ▸ h) hdictionary,
    fun h => absurd (hsame ▸ h) hbelow⟩, fun h => absurd h hbelow⟩

/-- A store into a plain object. -/
lemma settles_store_plain (rep : h.Represents s) (orderly : s.Orderly) (hname : s.IsPlain name)
    (index : ℕ) (value : Value) : Settles (store name index value) h s fun _ _ => True :=
  settles_change_plain orderly hname (fun _ ho => agree_store rep ho index value)
    fun _ _ _ => Object.sameShape_storeWord

/-- A store into a dictionary, of its tally or of a plain object. -/
lemma settles_store_dictionary (rep : h.Represents s) (orderly : s.Orderly)
    (hname : s.IsDictionary name) {index : ℕ} {value : Value}
    (hvalue : index = Dictionary.tallySlot ∨ s.IsPlain value) :
    Settles (store name index value) h s fun _ _ => True := by
  obtain ⟨o, ho, hclass⟩ := hname
  have hbelow : ¬ClassIndex.metaclass ≤ o.classIndex := by
    rw [hclass]
    decide
  refine settles_change orderly ho (agree_store rep ho index value) fun _ o' hok =>
    ⟨Object.sameShape_storeWord hok, ?_, fun h => absurd h hbelow⟩
  exact (orderly.object ho).storeWord (rep.holds ho).wellFormed hok (fun _ => hvalue)
    fun h => absurd h hbelow

/-- A store into a class of anything but its superclass. Its method dictionary must be one. -/
lemma settles_store_class (rep : h.Represents s) (orderly : s.Orderly)
    (hname : s.IsBehavior name) {index : ℕ} {value : Value} (hindex : index ≠ ClassSlot.superclass)
    (hvalue : index = ClassSlot.methodDictionary → s.IsDictionary value) :
    Settles (store name index value) h s fun _ _ => True := by
  obtain ⟨o, ho, hclass⟩ := hname
  have hwell := (rep.holds ho).wellFormed
  refine settles_change orderly ho (agree_store rep ho index value) fun _ o' hok =>
    ⟨Object.sameShape_storeWord hok, ?_, fun h => ?_⟩
  · refine (orderly.object ho).storeWord hwell hok (fun heq => ?_) fun _ h => .inr (hvalue h)
    rw [heq] at hclass
    exact absurd hclass (by decide)
  · have hword := (orderly.object ho).word_storeWord hwell h hok
    rw [if_neg hindex] at hword
    exact congrArg Value.raw hword

/-- A store of a superclass into a class is never refused. -/
lemma exists_store_superclass (rep : h.Represents s) (orderly : s.Orderly)
    (hname : s.IsBehavior name) (value : Value) :
    ∃ h' s', store name ClassSlot.superclass value h = .ok () h' ∧ h'.Represents s' ∧ s'.Orderly ∧
      s.Relinks (fun other => if other = name then some value else none) s' := by
  obtain ⟨o, ho, hclass⟩ := hname
  have hwell := (rep.holds ho).wellFormed
  obtain ⟨hmutable, _, _, _, _, hslots, -⟩ := (orderly.object ho).behavior hclass
  obtain ⟨o', hok⟩ : ∃ o', o.storeWord name ClassSlot.superclass value.raw = .ok ((), o') := by
    rw [Object.storeWord, hmutable, hslots.length]
    exact ⟨_, rfl⟩
  have hagree := agree_store rep ho ClassSlot.superclass value
  rw [ObjectMap.change, ho] at hagree
  simp only [hok] at hagree
  cases hstore : store name ClassSlot.superclass value h with
  | error e h' =>
    rw [hstore] at hagree
    exact hagree.elim
  | ok _ h' =>
    rw [hstore] at hagree
    have hword := (orderly.object ho).word_storeWord hwell hclass hok
    rw [if_pos rfl] at hword
    have hshape := Object.sameShape_storeWord hok
    have hrelinks : s.Relinks (fun other => if other = name then some value else none)
        (s.put name o') :=
      .replace ho hshape (fun _ => by rw [if_pos rfl, hword, Option.getD_some])
        fun other hother => if_neg hother
    have horderly : o'.Orderly s := (orderly.object ho).storeWord hwell hok
      (fun heq => by rw [heq] at hclass; exact absurd hclass (by decide))
      fun _ h => absurd h (by decide)
    exact ⟨h', s.put name o', rfl, hagree.2, orderly.replace ho hshape hrelinks horderly, hrelinks⟩

/-- Replacing the flags of a plain object. -/
lemma settles_setFlags (rep : h.Represents s) (orderly : s.Orderly) (hname : s.IsPlain name)
    (flags : HeaderFlags) : Settles (setFlags name flags) h s fun _ _ => True :=
  settles_change_plain orderly hname (fun _ ho => agree_setFlags rep ho flags)
    fun o a o' hok => by
      cases hok
      exact ⟨rfl, rfl, rfl, rfl, rfl⟩

/-- Allocation of bytes that are neither a dictionary nor a class. -/
lemma settles_allocateBytes (rep : h.Represents s) (orderly : s.Orderly) (contents : List UInt8)
    (format : ObjectFormat) {classIndex : ℕ} (hclass : classIndex < ClassIndex.metaclass)
    (hdictionary : classIndex ≠ ClassIndex.methodDictionary) :
    Settles (allocateBytes contents format classIndex) h s fun name s' => s'.IsPlain name := by
  refine (settles_allocate_plain rep orderly 0 contents.length format hclass hdictionary none).bind
    fun name h₁ s₁ hs₁ ⟨_, hname, _⟩ => ?_
  refine (settles_change_plain hs₁.orderly hname
    (fun _ ho => agree_storeBytes hs₁.rep ho 0 contents) fun _ _ _ =>
      Object.sameShape_storeBytes).bind fun _ h₂ s₂ hs₂ _ => ?_
  exact .pure hs₂.rep hs₂.orderly (hs₂.relinks.isPlain hname)

/-- An error by another name makes no difference. -/
lemma Settles.adaptExcept {ε ε' α : Type} {x : EStateM ε Heap α} {Q : α → ObjectMap → Prop}
    (hx : Settles x h s Q) (f : ε → ε') : Settles (x.adaptExcept f) h s Q :=
  Ensures.adaptExcept hx f

end Heap

/-! ### Dictionaries -/

namespace Dictionary

open Heap

variable {h : Heap} {s : ObjectMap} {d keyArray valueArray : Value}

/-- The arrays of a dictionary are plain objects. -/
lemma isPlain_of_arrays (rep : h.Represents s) (orderly : s.Orderly) (hd : s.IsDictionary d) :
    (∀ {keyArray}, keys h d = .ok keyArray → s.IsPlain keyArray) ∧
      ∀ {valueArray}, values h d = .ok valueArray → s.IsPlain valueArray := by
  obtain ⟨o, ho, hclass⟩ := hd
  obtain ⟨tally, keyArray, valueArray, hslots, hkeys, hvalues⟩ := (orderly.object ho).dictionary hclass
  have hfetch : ∀ {index value}, [tally, keyArray, valueArray][index]? = some value →
      h.fetch d index = .ok value := fetch_eq_of_hasSlots rep ⟨o, ho, hslots⟩
  rw [keys, values, hfetch (rfl : _ = some keyArray), hfetch (rfl : _ = some valueArray)]
  exact ⟨fun heq => Except.ok.inj heq ▸ hkeys, fun heq => Except.ok.inj heq ▸ hvalues⟩

/-- Each step of a change to a dictionary settles. -/
lemma steps_settled : Steps (fun h s => h.Represents s ∧ s.Orderly)
    (fun _ s h' s' => Settled s h' s') ObjectMap.IsDictionary ObjectMap.IsPlain where
  refl hready := .refl hready.1 hready.2
  trans hs hs' := hs.trans hs'
  ready_of hs := ⟨hs.rep, hs.orderly⟩
  isTable_of hs := hs.relinks.isDictionary
  isArray_of hs := hs.relinks.isPlain
  keys hready hd := (isPlain_of_arrays hready.1 hready.2 hd).1
  values hready hd := (isPlain_of_arrays hready.1 hready.2 hd).2
  allocateTable hready := settles_allocate_dictionary hready.1 hready.2
  allocateArray size hready := (settles_allocate_plain hready.1 hready.2 0 size .variableSize
    (by decide) (by decide) none).imp fun _ _ ⟨_, hname, _⟩ => hname
  storeTable _ _ hready hd hvalue := settles_store_dictionary hready.1 hready.2 hd hvalue
  storeArray index value hready hd := settles_store_plain hready.1 hready.2 hd index value

/-- A new dictionary is one. -/
lemma settles_new (rep : h.Represents s) (orderly : s.Orderly) (capacity : ℕ) :
    Settles (new capacity) h s fun name s' => s'.IsDictionary name :=
  steps_settled.new ⟨rep, orderly⟩ capacity

/-- Setting the value of a key, in what is a dictionary or nil. -/
lemma settles_insert (rep : h.Represents s) (orderly : s.Orderly)
    (hd : d = s.nil ∨ s.IsDictionary d) (key value : Value) :
    Settles (insert d key value) h s fun _ _ => True := by
  rcases hd with rfl | hd
  · have hkeys : keys h s.nil = .error (.heap (.indexOutOfBounds s.nil keysSlot 0)) := by
      rw [keys, orderly.fetch_nil rep]
      rfl
    rw [Settles, Ensures, insert_eq_error hkeys]
    exact ⟨s, .refl rep orderly⟩
  · exact steps_settled.insert ⟨rep, orderly⟩ hd key value

end Dictionary

end TalkMachine
