import TalkMachine.Machine.Class
import TalkMachine.Proofs.Heap.Slots

/-!
# Orderly objects

What a store may change depends on what it stores into. Objects are orderly when the values that are
stored into in the course of a change to a dictionary or a class cannot be a class by surprise: the
arrays of a dictionary are no dictionaries or classes, the method dictionary of a class is nil or a
dictionary, and nil has no slots (`ObjectMap.Orderly`). Which object is which is read off its class
index, which never changes.

`ObjectMap.Relinks` says that every class has kept its class, its hash and its superclass, apart from
superclasses that are listed. `Heap.Settled` is what the heap operations of this module lead to, also
when they are refused: orderly objects again, with no superclass replaced.
-/

namespace TalkMachine

/-! ### Orderly objects -/

namespace ObjectMap

/-- Whether a value is an object that is neither a dictionary nor a class. -/
def IsPlain (s : ObjectMap) (value : Value) : Prop :=
  ∃ o, s.objects value = some o ∧ o.classIndex < ClassIndex.metaclass ∧
    o.classIndex ≠ ClassIndex.methodDictionary

/-- Whether a value is a dictionary. -/
def IsDictionary (s : ObjectMap) (value : Value) : Prop :=
  ∃ o, s.objects value = some o ∧ o.classIndex = ClassIndex.methodDictionary

/-- Whether a value is a class, in the table or not. -/
def IsBehavior (s : ObjectMap) (value : Value) : Prop :=
  ∃ o, s.objects value = some o ∧ ClassIndex.metaclass ≤ o.classIndex

end ObjectMap

/-- Whether an object, if it is a dictionary or a class, refers to what it should. Classes are the
instances of Metaclass and of metaclasses, which have higher indices. -/
structure Object.Orderly (s : ObjectMap) (o : Object) : Prop where
  dictionary : o.classIndex = ClassIndex.methodDictionary →
    ∃ tally keys values, o.HasSlots [tally, keys, values] ∧ s.IsPlain keys ∧ s.IsPlain values
  behavior : ClassIndex.metaclass ≤ o.classIndex →
    o.flags.immutable = false ∧
    ∃ superclass dictionary format name, o.HasSlots [superclass, dictionary, format, name] ∧
      (dictionary = s.nil ∨ s.IsDictionary dictionary)

namespace ObjectMap

/-- Whether all objects are orderly, and nil is one without slots. -/
structure Orderly (s : ObjectMap) : Prop where
  nil : ∃ o, s.objects s.nil = some o ∧ o.slotCount = 0 ∧ s.IsPlain s.nil
  object : ∀ {name : Value} {o : Object}, s.objects name = some o → o.Orderly s

/-- Whether objects have kept their class index and their hash, and classes their superclass unless
another one is listed for them. -/
structure Relinks (changed : Value → Option Value) (s s' : ObjectMap) : Prop where
  nil_eq : s'.nil = s.nil
  kept : ∀ {name : Value} {o : Object}, s.objects name = some o →
    ∃ o', s'.objects name = some o' ∧ o'.classIndex = o.classIndex ∧ o'.hash = o.hash ∧
      (ClassIndex.metaclass ≤ o.classIndex →
        (⟨o'.word 0⟩ : Value) = (changed name).getD ⟨o.word 0⟩)

variable {s s' s'' : ObjectMap} {name value : Value} {o o' : Object} {used : ℕ}
  {changed changed' : Value → Option Value}

namespace Relinks

/-- Nothing is changed. -/
lemma refl (s : ObjectMap) : s.Relinks (fun _ => none) s :=
  ⟨rfl, fun ho => ⟨_, ho, rfl, rfl, fun _ => rfl⟩⟩

/-- One change after the other. The later superclass counts. -/
lemma trans (h : s.Relinks changed s') (h' : s'.Relinks changed' s'') :
    s.Relinks (fun name => (changed' name).or (changed name)) s'' := by
  refine ⟨h'.nil_eq.trans h.nil_eq, fun {name o} ho => ?_⟩
  obtain ⟨o', ho', hclass, hhash, hword⟩ := h.kept ho
  obtain ⟨o'', ho'', hclass', hhash', hword'⟩ := h'.kept ho'
  refine ⟨o'', ho'', hclass'.trans hclass, hhash'.trans hhash, fun hbehavior => ?_⟩
  rw [hword' (hclass ▸ hbehavior), hword hbehavior]
  cases changed' name <;> rfl

/-- Changes of which neither replaces a superclass. -/
lemma trans_quiet (h : s.Relinks (fun _ => none) s') (h' : s'.Relinks (fun _ => none) s'') :
    s.Relinks (fun _ => none) s'' :=
  h.trans h'

/-- Plain objects stay plain. -/
lemma isPlain (h : s.Relinks changed s') (hvalue : s.IsPlain value) : s'.IsPlain value := by
  obtain ⟨o, ho, hclass⟩ := hvalue
  obtain ⟨o', ho', hsame, -⟩ := h.kept ho
  exact ⟨o', ho', hsame ▸ hclass⟩

/-- Dictionaries stay dictionaries. -/
lemma isDictionary (h : s.Relinks changed s') (hvalue : s.IsDictionary value) :
    s'.IsDictionary value := by
  obtain ⟨o, ho, hclass⟩ := hvalue
  obtain ⟨o', ho', hsame, -⟩ := h.kept ho
  exact ⟨o', ho', hsame ▸ hclass⟩

/-- Classes stay classes. -/
lemma isBehavior (h : s.Relinks changed s') (hvalue : s.IsBehavior value) :
    s'.IsBehavior value := by
  obtain ⟨o, ho, hclass⟩ := hvalue
  obtain ⟨o', ho', hsame, -⟩ := h.kept ho
  exact ⟨o', ho', hsame ▸ hclass⟩

/-- An object that refers to what it should still does so. -/
lemma orderly (h : s.Relinks changed s') (ho : o.Orderly s) : o.Orderly s' := by
  refine ⟨fun hclass => ?_, fun hclass => ?_⟩
  · obtain ⟨tally, keys, values, hslots, hkeys, hvalues⟩ := ho.dictionary hclass
    exact ⟨tally, keys, values, hslots, h.isPlain hkeys, h.isPlain hvalues⟩
  · obtain ⟨hmutable, superclass, dictionary, format, name, hslots, hdictionary⟩ :=
      ho.behavior hclass
    refine ⟨hmutable, superclass, dictionary, format, name, hslots, ?_⟩
    exact hdictionary.imp (fun hnil => hnil.trans h.nil_eq.symm) h.isDictionary

/-- One object is put in the place of another of its shape, or under a new name. -/
lemma put (hshape : ∀ o, s.objects name = some o → o.SameShape o')
    (hword : ∀ o, s.objects name = some o → ClassIndex.metaclass ≤ o.classIndex →
      (⟨o'.word 0⟩ : Value) = (changed name).getD ⟨o.word 0⟩)
    (hother : ∀ other, other ≠ name → changed other = none) :
    s.Relinks changed { s.put name o' with used := used } := by
  refine ⟨rfl, fun {other o} ho => ?_⟩
  by_cases hsame : other = name
  · subst hsame
    exact ⟨o', objects_put_self s other o', (hshape o ho).classIndex, (hshape o ho).hash,
      hword o ho⟩
  · refine ⟨o, (objects_put_of_ne s hsame o').trans ho, rfl, rfl, fun _ => ?_⟩
    rw [hother other hsame]
    rfl

/-- An object is put under a new name. -/
lemma put_new (hnone : s.objects name = none) (o' : Object) (used : ℕ) :
    s.Relinks (fun _ => none) { s.put name o' with used := used } :=
  .put (fun _ ho => by rw [hnone] at ho; cases ho) (fun _ ho => by rw [hnone] at ho; cases ho)
    fun _ _ => rfl

/-- An object is put in the place of another of its shape. -/
lemma replace (ho : s.objects name = some o) (hshape : o.SameShape o')
    (hword : ClassIndex.metaclass ≤ o.classIndex →
      (⟨o'.word 0⟩ : Value) = (changed name).getD ⟨o.word 0⟩)
    (hother : ∀ other, other ≠ name → changed other = none) :
    s.Relinks changed (s.put name o') := by
  show s.Relinks changed { s.put name o' with used := s.used }
  refine Relinks.put (fun old hold => ?_) (fun old hold => ?_) hother <;>
    rw [hold] at ho <;> obtain rfl := Option.some.inj ho
  · exact hshape
  · exact hword

end Relinks

namespace Orderly

/-- Objects stay orderly when one that refers to what it should is put in the place of another of
its shape, or under a new name. -/
lemma put (h : s.Orderly) (hshape : ∀ o, s.objects name = some o → o.SameShape o')
    (hrelinks : s.Relinks changed { s.put name o' with used := used })
    (ho' : o'.Orderly { s.put name o' with used := used }) :
    Orderly { s.put name o' with used := used } := by
  refine ⟨?_, fun {other o} ho => ?_⟩
  · obtain ⟨o, ho, hslots, hplain⟩ := h.nil
    by_cases hname : s.nil = name
    · refine ⟨o', ?_, ?_, hrelinks.isPlain hplain⟩
      · show (s.put name o').objects s.nil = some o'
        rw [hname, objects_put_self]
      · rw [Object.slotCount, (hshape o (hname ▸ ho)).length]
        exact hslots
    · exact ⟨o, (objects_put_of_ne s hname o').trans ho, hslots, hrelinks.isPlain hplain⟩
  · rcases objects_put_cases ho with ⟨-, rfl⟩ | ⟨-, hold⟩
    · exact ho'
    · exact hrelinks.orderly (h.object hold)

/-- Objects stay orderly when one that refers to what it should is put under a new name. -/
lemma put_new (h : s.Orderly) (hnone : s.objects name = none) (ho' : o'.Orderly s) (used : ℕ) :
    Orderly { s.put name o' with used := used } :=
  h.put (fun _ ho => by rw [hnone] at ho; cases ho) (Relinks.put_new hnone o' used)
    ((Relinks.put_new hnone o' used).orderly ho')

/-- Objects stay orderly when one that refers to what it should is put in the place of another of
its shape. -/
lemma replace (h : s.Orderly) (ho : s.objects name = some o) (hshape : o.SameShape o')
    (hrelinks : s.Relinks changed (s.put name o')) (ho' : o'.Orderly s) :
    (s.put name o').Orderly := by
  show Orderly { s.put name o' with used := s.used }
  refine h.put (fun old hold => ?_) hrelinks (hrelinks.orderly ho')
  rw [hold] at ho
  obtain rfl := Option.some.inj ho
  exact hshape

/-- Nil has no slot to fetch. -/
lemma fetch_nil (h : s.Orderly) {heap : Heap} (rep : heap.Represents s) (index : ℕ) :
    heap.fetch s.nil index = .error (.indexOutOfBounds s.nil index 0) := by
  obtain ⟨o, ho, hslots, -⟩ := h.nil
  rw [((rep.holds ho).shows rep.usedBytes_lt).fetch, Object.fetch, hslots, if_pos (Nat.zero_le _)]

end Orderly

end ObjectMap

namespace Object

variable {s : ObjectMap} {o o' : Object} {name value : Value} {index : ℕ}

/-- A store into a class replaces its superclass just when it stores into that slot. -/
lemma Orderly.word_storeWord (orderly : o.Orderly s) (hwell : o.WellFormed)
    (hbehavior : ClassIndex.metaclass ≤ o.classIndex)
    (hok : o.storeWord name index value.raw = .ok ((), o')) :
    (⟨o'.word 0⟩ : Value) = if index = ClassSlot.superclass then value else ⟨o.word 0⟩ := by
  obtain ⟨-, superclass, dictionary, format, name, hslots, -⟩ := orderly.behavior hbehavior
  obtain ⟨-, hslots'⟩ := hslots.storeWord hwell hok
  rw [hslots.word (rfl : _ = some superclass)]
  refine hslots'.word ?_
  rw [List.getElem?_set]
  split <;> simp_all [ClassSlot.superclass]

/-- An orderly object is still so after a store by which neither a dictionary gets another array
than a plain object nor a class another method dictionary than nil or a dictionary. -/
lemma Orderly.storeWord (orderly : o.Orderly s) (hwell : o.WellFormed)
    (hok : o.storeWord name index value.raw = .ok ((), o'))
    (hdictionary : o.classIndex = ClassIndex.methodDictionary →
      index = Dictionary.tallySlot ∨ s.IsPlain value)
    (hbehavior : ClassIndex.metaclass ≤ o.classIndex → index = ClassSlot.methodDictionary →
      value = s.nil ∨ s.IsDictionary value) : o'.Orderly s := by
  have hclass := (sameShape_storeWord hok).classIndex
  refine ⟨fun heq => ?_, fun hle => ?_⟩
  · obtain ⟨tally, keys, values, hslots, hkeys, hvalues⟩ := orderly.dictionary (hclass ▸ heq)
    obtain ⟨hindex, hslots'⟩ := hslots.storeWord hwell hok
    have hvalue := hdictionary (hclass ▸ heq)
    match index, hindex with
    | 0, _ => exact ⟨value, keys, values, hslots', hkeys, hvalues⟩
    | 1, _ => exact ⟨tally, value, values, hslots', hvalue.resolve_left (by decide), hvalues⟩
    | 2, _ => exact ⟨tally, keys, value, hslots', hkeys, hvalue.resolve_left (by decide)⟩
  · obtain ⟨hmutable, superclass, dictionary, format, name, hslots, hold⟩ :=
      orderly.behavior (hclass ▸ hle)
    obtain ⟨hindex, hslots'⟩ := hslots.storeWord hwell hok
    refine ⟨(flags_storeWord hok).symm ▸ hmutable, ?_⟩
    match index, hindex with
    | 0, _ => exact ⟨value, dictionary, format, name, hslots', hold⟩
    | 1, _ => exact ⟨superclass, value, format, name, hslots', hbehavior (hclass ▸ hle) rfl⟩
    | 2, _ => exact ⟨superclass, dictionary, value, name, hslots', hold⟩
    | 3, _ => exact ⟨superclass, dictionary, format, value, hslots', hold⟩

end Object

/-! ### Changes that leave classes alone -/

namespace Heap

open ObjectMap

variable {h h' : Heap} {s s' s'' : ObjectMap} {name value : Value} {o : Object}

/-- Whether a heap represents orderly objects again, and no superclass has been replaced. -/
structure Settled (s : ObjectMap) (h' : Heap) (s' : ObjectMap) : Prop where
  rep : h'.Represents s'
  orderly : s'.Orderly
  relinks : s.Relinks (fun _ => none) s'

/-- Whether a change to a heap settles, also if it is refused, and what it answers has a property
together with the objects then. -/
def Settles {ε α : Type} (x : EStateM ε Heap α) (h : Heap) (s : ObjectMap)
    (Q : α → ObjectMap → Prop) : Prop :=
  Ensures (fun _ s h' s' => Settled s h' s') x h s fun a _ s' => Q a s'

/-- Nothing is changed. -/
lemma Settled.refl (rep : h.Represents s) (orderly : s.Orderly) : Settled s h s :=
  ⟨rep, orderly, .refl s⟩

/-- One change after the other. -/
lemma Settled.trans (hs : Settled s h s') (hs' : Settled s' h' s'') : Settled s h' s'' :=
  ⟨hs'.rep, hs'.orderly, hs.relinks.trans_quiet hs'.relinks⟩

namespace Settles

variable {ε α β : Type} {x : EStateM ε Heap α} {Q : α → ObjectMap → Prop}

/-- One change after the other. -/
lemma bind {f : α → EStateM ε Heap β} {R : β → ObjectMap → Prop} (hx : Settles x h s Q)
    (hf : ∀ a h' s', Settled s h' s' → Q a s' → Settles (f a) h' s' R) :
    Settles (x >>= f) h s R :=
  Ensures.bind (fun hs hs' => hs.trans hs') hx hf

/-- An answer without a change. -/
lemma pure {a : α} (rep : h.Represents s) (orderly : s.Orderly) (hQ : Q a s) :
    Settles (pure a : EStateM ε Heap α) h s Q :=
  Ensures.pure (.refl rep orderly) hQ

/-- A weaker property of the answer. -/
lemma imp (hx : Settles x h s Q) {R : α → ObjectMap → Prop} (hR : ∀ a s', Q a s' → R a s') :
    Settles x h s R :=
  Ensures.imp hx fun a _ s' _ hQ => hR a s' hQ

end Settles

end Heap

end TalkMachine
