import TalkMachine.Proofs.Machine.Changes
import TalkMachine.Proofs.Machine.Hierarchy

/-!
# The class table and the heap

Each class in the table is an object that carries its index as its hash (`Machine.Stored`), so that
every question about it is answered from that object: its superclass from its first slot, its class
from its class index. Changes to the heap that settle leave all the answers as they were
(`Machine.Quiet`); a store of a superclass changes one answer (`Machine.Stored.relinked`); and a pair
of fresh objects that is entered in the table is a new class with its metaclass
(`Machine.Stored.entered`).
-/

namespace TalkMachine

namespace Machine

variable {m m' m'' : Machine} {s s' s'' : ObjectMap} {cls metaclass value : Value} {o : Object}
  {index metaIndex : ℕ} {changed : Value → Option Value}

/-! ### Questions about classes -/

/-- Whether the heap of a machine represents orderly objects, among them each class in the table
with its index as its hash. -/
structure Stored (m : Machine) (s : ObjectMap) : Prop where
  rep : m.heap.Represents s
  orderly : s.Orderly
  nil_eq : s.nil = m.nil
  table : ∀ {index : ℕ} {cls : Value}, m.classAt? index = some cls →
    ∃ o, s.objects cls = some o ∧ o.hash = index ∧ ClassIndex.metaclass ≤ o.classIndex

namespace Stored

variable (stored : m.Stored s)
include stored

/-- The values that are classes are those in the table. -/
lemma isClass_iff : m.isClass value = true ↔ ∃ index, m.classAt? index = some value := by
  rw [isClass_eq_true_iff]
  constructor
  · rintro ⟨-, hash, -, hat⟩
    exact ⟨hash, hat⟩
  · rintro ⟨index, hat⟩
    obtain ⟨o, ho, rfl, -⟩ := stored.table hat
    have hold := stored.rep.holds ho
    exact ⟨hold.isObject, o.hash, (hold.shows stored.rep.usedBytes_lt).hash, hat⟩

/-- The object of a class. -/
lemma exists_object (hclass : m.isClass cls = true) :
    ∃ o, s.objects cls = some o ∧ ClassIndex.metaclass ≤ o.classIndex := by
  obtain ⟨index, hat⟩ := stored.isClass_iff.mp hclass
  obtain ⟨o, ho, -, hbehavior⟩ := stored.table hat
  exact ⟨o, ho, hbehavior⟩

/-- The superclass of a class stands in its first slot. -/
lemma superclass_eq (hclass : m.isClass cls = true) (ho : s.objects cls = some o) :
    m.superclass cls = .ok ⟨o.word 0⟩ := by
  obtain ⟨o', ho', hbehavior⟩ := stored.exists_object hclass
  obtain rfl := Option.some.inj (ho.symm.trans ho')
  obtain ⟨-, _, _, _, _, hslots, -⟩ := (stored.orderly.object ho).behavior hbehavior
  have hfetch : m.heap.fetch cls ClassSlot.superclass = .ok ⟨o.word 0⟩ := by
    rw [((stored.rep.holds ho).shows stored.rep.usedBytes_lt).fetch, Object.fetch, hslots.length]
    rfl
  rw [superclass, classSlot, hfetch, expectClass_eq_ok_iff.mpr hclass]
  rfl

/-- A class is a metaclass just when its class is Metaclass. -/
lemma isMetaclass_eq (hclass : m.isClass cls = true) (ho : s.objects cls = some o) :
    m.isMetaclass cls = (o.classIndex == ClassIndex.metaclass) := by
  rw [isMetaclass, hclass, ((stored.rep.holds ho).shows stored.rep.usedBytes_lt).classIndex]
  rfl

/-- The class of an object stands in the table at the class index of the object. -/
lemma classOf_eq (ho : s.objects cls = some o) :
    m.classOf cls = match m.classAt? o.classIndex with
      | some metaclass => .ok metaclass
      | none => .error (.invalidClass cls) := by
  rw [classOf, ((stored.rep.holds ho).shows stored.rep.usedBytes_lt).classIndex]
  rfl

/-- Classes keep all but the superclasses that a change of objects replaces. -/
lemma relinked (stored' : m'.Stored s') (hat : ∀ index, m'.classAt? index = m.classAt? index)
    (hrelinks : s.Relinks changed s') : m.Relinked m' changed := by
  have hclass : ∀ value, m'.isClass value = m.isClass value := fun value => by
    rw [Bool.eq_iff_iff, stored'.isClass_iff, stored.isClass_iff]
    simp only [hat]
  refine ⟨?_, hat, hclass, fun value => ?_, fun {cls} hcls => ?_, fun {cls} hcls => ?_⟩
  · rw [← stored'.nil_eq, ← stored.nil_eq, hrelinks.nil_eq]
  · cases hvalue : m.isClass value with
    | false =>
      rw [isMetaclass, isMetaclass, hclass, hvalue]
      rfl
    | true =>
      obtain ⟨o, ho, -⟩ := stored.exists_object hvalue
      obtain ⟨o', ho', hsame, -⟩ := hrelinks.kept ho
      rw [stored'.isMetaclass_eq ((hclass value).trans hvalue) ho', stored.isMetaclass_eq hvalue ho,
        hsame]
  · obtain ⟨o, ho, -⟩ := stored.exists_object hcls
    obtain ⟨o', ho', hsame, -⟩ := hrelinks.kept ho
    rw [stored'.classOf_eq ho', stored.classOf_eq ho, hat, hsame]
  · obtain ⟨o, ho, hbehavior⟩ := stored.exists_object hcls
    obtain ⟨o', ho', -, -, hword⟩ := hrelinks.kept ho
    rw [stored'.superclass_eq ((hclass cls).trans hcls) ho', stored.superclass_eq hcls ho,
      hword hbehavior]
    cases changed cls <;> rfl

end Stored

/-! ### Changes that leave the classes alone -/

/-- Whether a machine has come out of changes that left the classes alone: nil and the class table
are as before, apart from free places at its end, and no superclass has been replaced. -/
structure Quiet (m : Machine) (s : ObjectMap) (m' : Machine) (s' : ObjectMap) : Prop where
  stored : m'.Stored s'
  classAt?_eq : ∀ index, m'.classAt? index = m.classAt? index
  size_le : m.classTable.size ≤ m'.classTable.size
  relinks : s.Relinks (fun _ => none) s'

/-- Nothing is changed. -/
lemma Quiet.refl (stored : m.Stored s) : m.Quiet s m s :=
  ⟨stored, fun _ => rfl, le_rfl, .refl s⟩

/-- One change after the other. -/
lemma Quiet.trans (hq : m.Quiet s m' s') (hq' : m'.Quiet s' m'' s'') : m.Quiet s m'' s'' :=
  ⟨hq'.stored, fun index => (hq'.classAt?_eq index).trans (hq.classAt?_eq index),
    hq.size_le.trans hq'.size_le, hq.relinks.trans_quiet hq'.relinks⟩

/-- The classes are linked as before. -/
lemma Quiet.relinked (hq : m.Quiet s m' s') (stored : m.Stored s) :
    m.Relinked m' fun _ => none :=
  stored.relinked hq.stored hq.classAt?_eq hq.relinks

/-- Whether a change to a machine leaves the classes alone, also if it is refused, and what it
answers has a property together with the machine and the objects then. -/
def Settles {α : Type} (x : MachineM α) (m : Machine) (s : ObjectMap)
    (Q : α → Machine → ObjectMap → Prop) : Prop :=
  Ensures Quiet x m s Q

namespace Settles

variable {α β : Type} {x : MachineM α} {Q : α → Machine → ObjectMap → Prop}

/-- One change after the other. -/
lemma bind {f : α → MachineM β} {R : β → Machine → ObjectMap → Prop} (hx : Settles x m s Q)
    (hf : ∀ a m' s', m.Quiet s m' s' → Q a m' s' → Settles (f a) m' s' R) :
    Settles (x >>= f) m s R :=
  Ensures.bind (fun hq hq' => hq.trans hq') hx hf

/-- An answer without a change. -/
lemma pure {a : α} (stored : m.Stored s) (hQ : Q a m s) :
    Settles (pure a : MachineM α) m s Q :=
  Ensures.pure (.refl stored) hQ

end Settles

/-- A question changes nothing. -/
lemma settles_ask (stored : m.Stored s) {α : Type} {question : Machine → Except MachineError α}
    {Q : α → Machine → ObjectMap → Prop} (hQ : ∀ a, question m = .ok a → Q a m s) :
    Settles (ask question) m s Q := by
  rw [Settles, Ensures, ask]
  cases hanswer : question m with
  | ok a => exact ⟨s, .refl stored, hQ a hanswer⟩
  | error e => exact ⟨s, .refl stored⟩

/-- A machine with another heap that has settled. -/
lemma Stored.quiet_heap (stored : m.Stored s) {h' : Heap} (hs : Heap.Settled s h' s') :
    m.Quiet s { m with heap := h' } s' := by
  refine ⟨⟨hs.rep, hs.orderly, hs.relinks.nil_eq.trans stored.nil_eq, fun {index cls} hat => ?_⟩,
    fun _ => rfl, le_rfl, hs.relinks⟩
  obtain ⟨o, ho, hhash, hbehavior⟩ := stored.table hat
  obtain ⟨o', ho', hclass, hhash', -⟩ := hs.relinks.kept ho
  exact ⟨o', ho', hhash'.trans hhash, hclass ▸ hbehavior⟩

/-- A change to the heap that settles there settles in the machine. -/
lemma settles_onHeap (stored : m.Stored s) {α : Type} {x : EStateM MachineError Heap α}
    {Q : α → ObjectMap → Prop} (hx : Heap.Settles x m.heap s Q) :
    Settles (onHeap x) m s fun a _ s' => Q a s' := by
  rw [Heap.Settles, Ensures] at hx
  rw [Settles, Ensures]
  unfold onHeap
  cases hok : x m.heap with
  | ok a h' =>
    rw [hok] at hx
    obtain ⟨s', hs, hQ⟩ := hx
    simp only [hok]
    exact ⟨s', stored.quiet_heap hs, hQ⟩
  | error e h' =>
    rw [hok] at hx
    obtain ⟨s', hs⟩ := hx
    simp only [hok]
    exact ⟨s', stored.quiet_heap hs⟩

/-- The same for what only the heap can refuse. -/
lemma settles_change (stored : m.Stored s) {α : Type} {x : HeapM α} {Q : α → ObjectMap → Prop}
    (hx : Heap.Settles x m.heap s Q) : Settles (change x) m s fun a _ s' => Q a s' :=
  settles_onHeap stored (hx.adaptExcept _)

/-- A check before what settles. -/
lemma settles_guard (stored : m.Stored s) {α β : Type} {c : Prop} [Decidable c] {e : MachineError}
    {f : β → MachineM α} {x : MachineM α} {Q : α → Machine → ObjectMap → Prop}
    (hx : ¬c → Settles x m s Q) : Settles (if c then throw e >>= f else x) m s Q := by
  by_cases hc : c
  · rw [if_pos hc]
    exact ⟨s, .refl stored⟩
  · rw [if_neg hc]
    exact hx hc

/-- A machine with the same heap, the same nil and the same classes. -/
lemma Stored.quiet_of_heap_eq (stored : m.Stored s) (hheap : m'.heap = m.heap)
    (hnil : m'.nil = m.nil) (hat : ∀ index, m'.classAt? index = m.classAt? index)
    (hsize : m.classTable.size ≤ m'.classTable.size) : m.Quiet s m' s :=
  ⟨⟨hheap ▸ stored.rep, stored.orderly, stored.nil_eq.trans hnil.symm,
    fun h => stored.table ((hat _).symm.trans h)⟩, hat, hsize, .refl s⟩

/-- A longer class table has free places at its end. -/
lemma settles_growClassTable (stored : m.Stored s) (size : ℕ) :
    Settles (growClassTable size) m s fun _ m' _ => size ≤ m'.classTable.size := by
  refine ⟨s, stored.quiet_of_heap_eq rfl rfl (fun index => ?_) ?_, ?_⟩
  · simp only [classAt?, Array.getElem?_append, Array.getElem?_replicate]
    split
    · rfl
    · rename_i hindex
      rw [Array.getElem?_eq_none (Nat.not_lt.mp hindex)]
      split <;> simp
  · simp
  · simp only [Array.size_append, Array.size_replicate]
    omega

/-- A class index that is handed out is free. -/
lemma settles_reserveClassIndex (stored : m.Stored s) :
    Settles reserveClassIndex m s fun index m' _ => ClassIndex.firstDynamic ≤ index ∧
      m.classTable.size ≤ index ∧ index ≤ Header.maxClassIndex ∧ index < m'.classTable.size ∧
      m'.classAt? index = none := by
  rw [reserveClassIndex]
  refine (settles_ask (Q := fun index _ _ => index = max m.classTable.size ClassIndex.firstDynamic)
    stored fun _ h => (Except.ok.inj h).symm).bind fun index m₁ s₁ hq₁ hindex => ?_
  refine settles_guard hq₁.stored fun hmax => ?_
  refine (settles_growClassTable hq₁.stored (index + 1)).bind fun _ m₂ s₂ hq₂ hsize => ?_
  have hfree : m.classAt? index = none := by
    rw [classAt?, Array.getElem?_eq_none (by omega), Option.filter_none]
  refine .pure hq₂.stored ⟨by omega, by omega, Nat.not_lt.mp hmax, hsize, ?_⟩
  rw [hq₂.classAt?_eq, hq₁.classAt?_eq, hfree]

/-- A symbol is made when it is first asked for. -/
lemma settles_intern (stored : m.Stored s) (name : String) :
    Settles (intern name) m s fun _ _ _ => True := by
  rw [intern]
  refine (settles_ask (Q := fun _ _ _ => True) stored fun _ _ => trivial).bind
    fun symbol? m₁ s₁ hq₁ _ => ?_
  cases symbol? with
  | some symbol => exact .pure hq₁.stored trivial
  | none =>
    refine (settles_change hq₁.stored (Heap.settles_allocateBytes hq₁.stored.rep
      hq₁.stored.orderly _ _ (by decide) (by decide))).bind fun symbol m₂ s₂ hq₂ hsymbol => ?_
    refine (settles_change hq₂.stored (Heap.settles_setFlags hq₂.stored.rep hq₂.stored.orderly
      hsymbol ⟨true, false⟩)).bind fun _ m₃ s₃ hq₃ _ => ?_
    refine Settles.bind (Q := fun _ _ _ => True)
      ⟨s₃, hq₃.stored.quiet_of_heap_eq rfl rfl (fun _ => rfl) le_rfl, trivial⟩
      fun _ m₄ s₄ hq₄ _ => ?_
    exact .pure hq₄.stored trivial

/-- Filling the slots of a class other than its superclass. -/
lemma settles_fillClass {h : Heap} (rep : h.Represents s) (orderly : s.Orderly)
    (hcls : s.IsBehavior cls) {dictionary : Value} (hdictionary : s.IsDictionary dictionary)
    (spec : InstanceSpec) (name : Value) :
    Heap.Settles (fillClass cls dictionary spec name) h s fun _ _ => True := by
  rw [fillClass]
  refine (Heap.settles_store_class rep orderly hcls (by decide) fun _ => hdictionary).bind
    fun _ h₁ s₁ hs₁ _ => ?_
  have hcls₁ := hs₁.relinks.isBehavior hcls
  refine (Heap.settles_store_class hs₁.rep hs₁.orderly hcls₁ (by decide)
    fun h => absurd h (by decide)).bind fun _ h₂ s₂ hs₂ _ => ?_
  exact Heap.settles_store_class hs₂.rep hs₂.orderly (hs₂.relinks.isBehavior hcls₁) (by decide)
    fun h => absurd h (by decide)

/-! ### A class and its metaclass -/

/-- Whether an object is ready to be entered in the class table, at the index that is its hash. -/
structure Awaits (m : Machine) (s : ObjectMap) (cls : Value) (index classIndex : ℕ) : Prop where
  object : ∃ o, s.objects cls = some o ∧ o.classIndex = classIndex ∧ o.hash = index ∧
    (⟨o.word 0⟩ : Value) = m.nil
  behavior : ClassIndex.metaclass ≤ classIndex
  new : ∀ place, m.classAt? place ≠ some cls
  ne_nil : cls ≠ m.nil

/-- An object that waits is a class already. -/
lemma Awaits.isBehavior {classIndex : ℕ} (awaits : m.Awaits s cls index classIndex) :
    s.IsBehavior cls := by
  obtain ⟨o, ho, hclass, -⟩ := awaits.object
  exact ⟨o, ho, hclass ▸ awaits.behavior⟩

/-- An object that waits goes on waiting while classes are left alone. -/
lemma Awaits.keep {classIndex : ℕ} (awaits : m.Awaits s cls index classIndex)
    (stored : m.Stored s) (hq : m.Quiet s m' s') : m'.Awaits s' cls index classIndex := by
  obtain ⟨o, ho, hclass, hhash, hword⟩ := awaits.object
  obtain ⟨o', ho', hclass', hhash', hword'⟩ := hq.relinks.kept ho
  have hnil := (hq.relinked stored).nil_eq
  refine ⟨⟨o', ho', hclass'.trans hclass, hhash'.trans hhash, ?_⟩, awaits.behavior, fun place => ?_,
    hnil ▸ awaits.ne_nil⟩
  · rw [hword' (hclass ▸ awaits.behavior), hnil]
    exact hword
  · rw [hq.classAt?_eq]
    exact awaits.new place

/-- A class that is to be at an index. -/
lemma settles_allocateClass (stored : m.Stored s) {classIndex : ℕ}
    (hclass : ClassIndex.metaclass ≤ classIndex) (hindex : index ≤ Header.maxClassIndex) :
    Settles (change (Heap.allocate ClassSlot.classSize 0 .fixedSize classIndex (some index))) m s
      fun cls m' s' => s.objects cls = none ∧ m'.Awaits s' cls index classIndex := by
  refine Ensures.imp (settles_change stored
    (Heap.settles_allocate_class stored.rep stored.orderly hclass index)) ?_
  rintro cls m' s' hq ⟨hnone, o, ho, hclassIndex, hhash, hword⟩
  have hnil := (hq.relinked stored).nil_eq
  refine ⟨hnone, ⟨o, ho, hclassIndex, ?_, ?_⟩, hclass, fun place hat => ?_, fun heq => ?_⟩
  · rw [hhash, Nat.mod_eq_of_lt]
    exact Nat.lt_of_le_of_lt hindex (by decide)
  · rw [hword, hnil, stored.nil_eq]
  · obtain ⟨_, hold, -⟩ := stored.table ((hq.classAt?_eq place).symm.trans hat)
    rw [hnone] at hold
    cases hold
  · obtain ⟨_, hold, -⟩ := stored.orderly.nil
    rw [heq, hnil, ← stored.nil_eq, hold] at hnone
    cases hnone

/-- Whether two objects wait to become a class and its metaclass, at indices that are free. -/
structure AwaitsPair (m : Machine) (s : ObjectMap) (cls metaclass : Value) (index metaIndex : ℕ) :
    Prop where
  ofClass : m.Awaits s cls index metaIndex
  ofMetaclass : m.Awaits s metaclass metaIndex ClassIndex.metaclass
  index_lt : index < m.classTable.size
  metaIndex_lt : metaIndex < m.classTable.size
  indices_ne : index ≠ metaIndex
  free : m.classAt? index = none
  metaFree : m.classAt? metaIndex = none
  dynamic : ClassIndex.firstDynamic ≤ metaIndex

/-- The class table after a class and its metaclass have been entered. -/
def withPair (m : Machine) (cls metaclass : Value) (index metaIndex : ℕ) : Machine :=
  { m with
    classTable := (m.classTable.setIfInBounds index cls).setIfInBounds metaIndex metaclass }

namespace AwaitsPair

variable (pair : m.AwaitsPair s cls metaclass index metaIndex)
include pair

/-- The class and the metaclass stand at their indices, and the others at theirs. -/
lemma classAt?_withPair (place : ℕ) :
    (m.withPair cls metaclass index metaIndex).classAt? place =
      if place = metaIndex then some metaclass
      else if place = index then some cls else m.classAt? place := by
  simp only [withPair, classAt?, Array.getElem?_setIfInBounds, Array.size_setIfInBounds]
  by_cases hmeta : metaIndex = place
  · subst hmeta
    simp [pair.metaIndex_lt, pair.ofMetaclass.ne_nil]
  · rw [if_neg hmeta, if_neg (Ne.symm hmeta)]
    by_cases hclass : index = place
    · subst hclass
      simp [pair.index_lt, pair.ofClass.ne_nil]
    · rw [if_neg hclass, if_neg (Ne.symm hclass)]

/-- Classes from before keep their places. -/
lemma classAt?_withPair_of_some {place : ℕ} (h : m.classAt? place = some value) :
    (m.withPair cls metaclass index metaIndex).classAt? place = some value := by
  rw [pair.classAt?_withPair, if_neg, if_neg, h]
  · rintro rfl
    rw [pair.free] at h
    cases h
  · rintro rfl
    rw [pair.metaFree] at h
    cases h

/-- What stands in the table now is from before, the class or the metaclass. -/
lemma classAt?_withPair_cases {place : ℕ}
    (h : (m.withPair cls metaclass index metaIndex).classAt? place = some value) :
    m.classAt? place = some value ∨ (place = index ∧ value = cls) ∨
      (place = metaIndex ∧ value = metaclass) := by
  rw [pair.classAt?_withPair] at h
  split at h
  · exact .inr (.inr ⟨‹_›, (Option.some.inj h).symm⟩)
  · split at h
    · exact .inr (.inl ⟨‹_›, (Option.some.inj h).symm⟩)
    · exact .inl h

/-- The class and the metaclass are stored as classes are. -/
lemma stored_withPair (stored : m.Stored s) :
    (m.withPair cls metaclass index metaIndex).Stored s := by
  refine ⟨stored.rep, stored.orderly, stored.nil_eq, fun {place value} h => ?_⟩
  obtain ⟨o, ho, hclass, hhash, -⟩ := pair.ofClass.object
  obtain ⟨o', ho', hclass', hhash', -⟩ := pair.ofMetaclass.object
  rcases pair.classAt?_withPair_cases h with h | ⟨rfl, rfl⟩ | ⟨rfl, rfl⟩
  · exact stored.table h
  · exact ⟨o, ho, hhash, hclass ▸ pair.ofClass.behavior⟩
  · exact ⟨o', ho', hhash', hclass' ▸ pair.ofMetaclass.behavior⟩

/-- The classes are those from before, the class and the metaclass. -/
lemma isClass_withPair (stored : m.Stored s) (value : Value) :
    (m.withPair cls metaclass index metaIndex).isClass value = true ↔
      m.isClass value = true ∨ value = cls ∨ value = metaclass := by
  rw [(pair.stored_withPair stored).isClass_iff, stored.isClass_iff]
  constructor
  · rintro ⟨place, h⟩
    rcases pair.classAt?_withPair_cases h with h | ⟨-, h⟩ | ⟨-, h⟩
    · exact .inl ⟨place, h⟩
    · exact .inr (.inl h)
    · exact .inr (.inr h)
  · rintro (⟨place, h⟩ | rfl | rfl)
    · exact ⟨place, pair.classAt?_withPair_of_some h⟩
    · exact ⟨index, by
        rw [pair.classAt?_withPair, if_neg pair.indices_ne, if_pos rfl]⟩
    · exact ⟨metaIndex, by rw [pair.classAt?_withPair, if_pos rfl]⟩

/-- Once they are in the table, the two objects are a class and its metaclass. -/
theorem entered (stored : m.Stored s) :
    m.Entered (m.withPair cls metaclass index metaIndex) index cls metaclass := by
  have stored' := pair.stored_withPair stored
  have hisClass := pair.isClass_withPair stored
  have hcls := (hisClass cls).mpr (.inr (.inl rfl))
  have hmetaclass := (hisClass metaclass).mpr (.inr (.inr rfl))
  obtain ⟨o, ho, hclass, -, hword⟩ := pair.ofClass.object
  obtain ⟨o', ho', hclass', -, hword'⟩ := pair.ofMetaclass.object
  have hnew : ∀ {value : Value}, (∀ place, m.classAt? place ≠ some value) →
      m.isClass value = false := fun {value} h => by
    rw [Bool.eq_false_iff, ne_eq, stored.isClass_iff]
    exact fun ⟨place, hat⟩ => h place hat
  refine ⟨rfl, fun {place value} h => ?_, pair.classAt?_withPair_of_some, hisClass,
    fun {value} hvalue => ?_,
    fun {value other} hvalue hclassOf => ?_, fun {value} hvalue => ?_, hnew pair.ofClass.new,
    hnew pair.ofMetaclass.new, ?_, ?_, ?_, ?_, ?_⟩
  · exact (pair.classAt?_withPair_cases h).imp_right
      (.imp_right fun ⟨hplace, heq⟩ => ⟨hplace ▸ pair.dynamic, heq⟩)
  · obtain ⟨p, hp, -⟩ := stored.exists_object hvalue
    rw [stored'.isMetaclass_eq ((hisClass value).mpr (.inl hvalue)) hp,
      stored.isMetaclass_eq hvalue hp]
  · obtain ⟨p, hp, -⟩ := stored.exists_object hvalue
    rw [stored.classOf_eq hp] at hclassOf
    rw [stored'.classOf_eq hp]
    split at hclassOf
    · rename_i other' hat
      rw [pair.classAt?_withPair_of_some hat]
      exact hclassOf
    · cases hclassOf
  · obtain ⟨p, hp, -⟩ := stored.exists_object hvalue
    rw [stored'.superclass_eq ((hisClass value).mpr (.inl hvalue)) hp,
      stored.superclass_eq hvalue hp]
  · rw [stored'.isMetaclass_eq hcls ho, hclass, beq_eq_false_iff_ne]
    exact (Nat.lt_of_lt_of_le (by decide) pair.dynamic).ne'
  · rw [stored'.isMetaclass_eq hmetaclass ho', hclass', beq_self_eq_true]
  · rw [stored'.classOf_eq ho, hclass, pair.classAt?_withPair, if_pos rfl]
  · rw [stored'.superclass_eq hcls ho, hword]
  · rw [stored'.superclass_eq hmetaclass ho', hword']

end AwaitsPair

end Machine

end TalkMachine
