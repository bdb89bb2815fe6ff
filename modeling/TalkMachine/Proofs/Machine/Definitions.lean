import TalkMachine.Proofs.Machine.Arising
import TalkMachine.Proofs.Machine.Room

/-!
# Definitions in any machine

A definition needs nothing but a sound machine (`Machine.IsSound`), since it stores into nothing but
what it has made itself. It hands out its indices before it has checked anything, and enters the class
and its metaclass before it has made what belongs to them. So what it leaves in the class table when it
is refused depends on how far it has come (`Machine.Leaves`): nothing only if the table is full, else
one or two free places, or the two classes as far as they have been filled. If it is not refused, the
class has the slots that it was to have (`Machine.defineClass_cases`).
-/

namespace TalkMachine

namespace Heap

open ObjectMap

variable {h : Heap} {s : ObjectMap} {cls superclass a b c : Value} {o : Object}
  {allowed : Value → ℕ → Prop} {made : ℕ → Prop}

/-! ### Changes of objects -/

/-- Where only new objects have been altered, none from before has. -/
lemma StaysWithin.of_new {ε α : Type} {x : EStateM ε Heap α} {Q : α → ObjectMap → Prop}
    (hx : StaysWithin (fun value _ => s.objects value = none) made x h s Q) :
    StaysWithin allowed made x h s Q := by
  refine (Ensures.mono hx fun h' s' ha => ⟨ha.rep, ha.alters.mono ?_ fun _ => id⟩).imp
    fun _ _ _ _ hQ => hQ.2
  intro value o ho hnone
  rw [hnone] at ho
  cases ho

/-- Filling the slots of a class other than its superclass stores into the class only. -/
lemma staysWithin_fillClass (rep : h.Represents s) (ho : s.objects cls = some o)
    (hallowed : allowed cls o.classIndex) (hslots : o.HasSlots [superclass, a, b, c])
    (dictionary : Value) (spec : InstanceSpec) (name : Value) :
    StaysWithin allowed made (Machine.fillClass cls dictionary spec name) h s fun _ s' =>
      ∃ o', s' = s.put cls o' ∧ o.SameShape o' ∧
        o'.HasSlots [superclass, dictionary, spec.pack, name] := by
  rw [Machine.fillClass]
  refine (staysWithin_store rep ho hallowed ClassSlot.methodDictionary dictionary).bind ?_
  rintro _ h₁ s₁ ha₁ ⟨o₁, hok₁, rfl⟩
  have ho₁ := objects_put_self s cls o₁
  have hshape₁ := Object.sameShape_storeWord hok₁
  have hslots₁ := (hslots.storeWord (rep.holds ho).wellFormed hok₁).2
  refine (staysWithin_store ha₁.rep ho₁ (hshape₁.classIndex.symm ▸ hallowed) ClassSlot.format
    spec.pack).bind ?_
  rintro _ h₂ s₂ ha₂ ⟨o₂, hok₂, rfl⟩
  have ho₂ := objects_put_self (s.put cls o₁) cls o₂
  have hshape₂ := hshape₁.trans (Object.sameShape_storeWord hok₂)
  have hslots₂ := (hslots₁.storeWord (ha₁.rep.holds ho₁).wellFormed hok₂).2
  refine (staysWithin_store ha₂.rep ho₂ (hshape₂.classIndex.symm ▸ hallowed) ClassSlot.name name).imp ?_
  rintro _ s₃ - ⟨o₃, hok₃, rfl⟩
  refine ⟨o₃, ?_, hshape₂.trans (Object.sameShape_storeWord hok₃),
    (hslots₂.storeWord (ha₂.rep.holds ho₂).wellFormed hok₃).2⟩
  simp only [ObjectMap.put, Function.update_idem]

end Heap

/-- A new dictionary consists of new objects. -/
lemma Dictionary.staysWithin_new {h : Heap} {s : ObjectMap} (rep : h.Represents s) (capacity : ℕ) :
    Heap.StaysWithin (fun value _ => s.objects value = none) (fun _ => True) (new capacity) h s
      fun _ _ => True := by
  rw [new]
  refine Heap.StaysWithin.bind (Ensures.adaptExcept
    (Heap.staysWithin_allocate rep slotCount 0 .fixedSize none trivial) _) ?_
  rintro d h₁ s₁ ha₁ ⟨-, hnone, _, ho⟩
  refine Heap.StaysWithin.bind (Ensures.adaptExcept
    (Heap.staysWithin_allocate ha₁.rep 0 capacity .variableSize none trivial) _) ?_
  rintro keys h₂ s₂ ha₂ -
  refine Heap.StaysWithin.bind (Ensures.adaptExcept
    (Heap.staysWithin_allocate ha₂.rep 0 capacity .variableSize none trivial) _) ?_
  rintro values h₃ s₃ ha₃ -
  obtain ⟨o₃, ho₃, -⟩ := (ha₂.alters.trans ha₃.alters).kept ho
  have hfill : Heap.StaysWithin (fun value _ => s.objects value = none) (fun _ => True) _ h₃ s₃ _ :=
    Heap.staysWithin_storeAll ha₃.rep ho₃ hnone 0 [Value.ofInt 0, keys, values]
  simp only [Code.storeAll, bind_pure_unit] at hfill
  exact Heap.StaysWithin.bind (Ensures.adaptExcept hfill _) fun _ h₄ s₄ ha₄ _ =>
    .pure ha₄.rep trivial

namespace Machine

open Heap (objectSize)

variable {m m' m'' : Machine} {s s' s'' : ObjectMap} {cls metaclass superclass : Value} {limit : ℕ}

/-! ### Changes of a machine that are known of -/

/-- Whether a machine has come out of changes to its heap by which, of the objects that are spoken of,
only some may have been altered. -/
structure Alters (allowed : Value → Prop) (m : Machine) (s : ObjectMap) (m' : Machine)
    (s' : ObjectMap) : Prop where
  rep : m'.heap.Represents s'
  alters : s.Alters (fun value _ => allowed value) (fun _ => True) s'
  nil_eq : m'.nil = m.nil
  classTable_eq : m'.classTable = m.classTable

namespace Alters

variable {allowed allowed' : Value → Prop} {o o' : Object} {old : Value} {rest : List Value}

/-- Nothing is changed. -/
lemma refl (rep : m.heap.Represents s) : m.Alters allowed s m s :=
  ⟨rep, .refl s, rfl, rfl⟩

/-- One change after the other. -/
lemma trans (h : m.Alters allowed s m' s') (h' : m'.Alters allowed s' m'' s'') :
    m.Alters allowed s m'' s'' :=
  ⟨h'.rep, h.alters.trans h'.alters, h'.nil_eq.trans h.nil_eq,
    h'.classTable_eq.trans h.classTable_eq⟩

/-- More may have been altered. -/
lemma mono (h : m.Alters allowed s m' s') (hallowed : ∀ value, allowed value → allowed' value) :
    m.Alters allowed' s m' s' :=
  { h with alters := h.alters.mono (fun _ => hallowed _) fun _ => id }

/-- One change after the other leads on. -/
lemma bind {α β : Type} {x : MachineM α} {f : α → MachineM β} {Q : α → Machine → ObjectMap → Prop}
    {R : β → Machine → ObjectMap → Prop} (hx : Ensures (Alters allowed) x m s Q)
    (hf : ∀ a m' s', m.Alters allowed s m' s' → Q a m' s' → Ensures (Alters allowed) (f a) m' s' R) :
    Ensures (Alters allowed) (x >>= f) m s R :=
  Ensures.bind (fun h h' => h.trans h') hx hf

/-- A change of the heap alters what is altered there. -/
lemma ensures_onHeap {α : Type} {x : EStateM MachineError Heap α} {Q : α → ObjectMap → Prop}
    (hx : Heap.StaysWithin (fun value _ => allowed value) (fun _ => True) x m.heap s Q) :
    Ensures (Alters allowed) (onHeap x) m s fun a _ s' => Q a s' := by
  rw [Heap.StaysWithin, Ensures] at hx
  rw [Ensures]
  unfold onHeap
  cases hok : x m.heap with
  | ok a h' =>
    rw [hok] at hx
    obtain ⟨s', ha, hQ⟩ := hx
    simp only [hok]
    exact ⟨s', ⟨ha.rep, ha.alters, rfl, rfl⟩, hQ⟩
  | error e h' =>
    rw [hok] at hx
    obtain ⟨s', ha⟩ := hx
    simp only [hok]
    exact ⟨s', ha.rep, ha.alters, rfl, rfl⟩

/-- The same for a change that only the heap can refuse. -/
lemma ensures_change {α : Type} {x : HeapM α} {Q : α → ObjectMap → Prop}
    (hx : Heap.StaysWithin (fun value _ => allowed value) (fun _ => True) x m.heap s Q) :
    Ensures (Alters allowed) (change x) m s fun a _ s' => Q a s' :=
  ensures_onHeap (Ensures.adaptExcept hx _)

/-- To intern a name alters nothing. -/
lemma ensures_intern (rep : m.heap.Represents s) (name : String) :
    Ensures (Alters fun _ => False) (intern name) m s fun _ _ _ => True := by
  rw [Ensures]
  rcases intern_cases_of_represents rep name with ⟨symbol, -, hok⟩ | ⟨-, _, _, herror⟩ |
    ⟨-, symbol, h', _, hok, rep', hnone, hfills, -, o, used, rfl⟩
  · rw [hok]
    exact ⟨s, .refl rep, trivial⟩
  · rw [herror]
    exact ⟨s, .refl rep⟩
  · rw [hok]
    exact ⟨_, ⟨rep', .put_new hnone trivial hfills, rfl, rfl⟩, trivial⟩

/-- To make a dictionary alters nothing. -/
lemma ensures_newDictionary (rep : m.heap.Represents s) (capacity : ℕ) :
    Ensures (Alters fun _ => False) (onHeap (Dictionary.new capacity)) m s fun _ _ _ => True :=
  ensures_onHeap (Heap.StaysWithin.of_new (Dictionary.staysWithin_new rep capacity))

/-- To give a class another superclass alters the class and its own class, and leaves the other slots
as they are. -/
lemma ensures_setSuperclass (rep : m.heap.Represents s) (ho : s.objects cls = some o)
    (hslots : o.HasSlots (old :: rest)) (hat : m.classAt? o.classIndex = some metaclass)
    (ho' : s.objects metaclass = some o') (hne : metaclass ≠ cls) (hallowed : allowed cls)
    (hallowed' : allowed metaclass) (superclass : Value) :
    Ensures (Alters allowed) (setSuperclass cls superclass) m s fun _ _ s' =>
      ∃ above, s'.HasSlots cls (above :: rest) := by
  rw [setSuperclass]
  refine ensures_ask_bind_of_refl (.refl rep) fun _ _ => ?_
  refine ensures_ask_bind_of_refl (.refl rep) fun metaSuperclass _ => ?_
  refine bind (ensures_change (Heap.staysWithin_store rep ho hallowed ClassSlot.superclass
    superclass)) ?_
  rintro _ m₁ _ h₁ ⟨o₁, hok₁, rfl⟩
  have ho₁ := ObjectMap.objects_put_self s cls o₁
  have hslots₁ := (hslots.storeWord (rep.holds ho).wellFormed hok₁).2
  refine ensures_ask_bind_of_refl (.refl h₁.rep) fun isMetaclass _ => ?_
  cases isMetaclass with
  | true => exact .pure (.refl h₁.rep) ⟨superclass, o₁, ho₁, hslots₁⟩
  | false =>
    refine ensures_ask_bind_of_refl (.refl h₁.rep) fun found hclassOf => ?_
    have hindex := ((h₁.rep.holds ho₁).shows h₁.rep.usedBytes_lt).classIndex
    rw [classOf_eq_ok_iff hindex, (Object.sameShape_storeWord hok₁).classIndex,
      classAt?_congr h₁.classTable_eq h₁.nil_eq, hat] at hclassOf
    obtain rfl := Option.some.inj hclassOf
    refine (ensures_change (Heap.staysWithin_store h₁.rep
      ((ObjectMap.objects_put_of_ne s hne o₁).trans ho') hallowed' ClassSlot.superclass
      metaSuperclass)).imp ?_
    rintro _ m₂ _ - ⟨o₂, -, rfl⟩
    exact ⟨superclass, o₁, (ObjectMap.objects_put_of_ne _ hne.symm o₂).trans ho₁, hslots₁⟩

/-- To fill a class and its metaclass and to give the class its superclass alters these two, and the
class has the slots that it is to have then. -/
lemma ensures_finish (rep : m.heap.Represents s) (ho : s.objects cls = some o) {a b c : Value}
    (hslots : o.HasSlots [old, a, b, c]) (hat : m.classAt? o.classIndex = some metaclass)
    (ho' : s.objects metaclass = some o') {old' a' b' c' : Value}
    (hslots' : o'.HasSlots [old', a', b', c']) (hne : metaclass ≠ cls) (name : String)
    (superclass : Value) (spec : InstanceSpec) :
    Ensures (Alters fun value => value = cls ∨ value = metaclass) (do
      furnish cls metaclass name spec
      setSuperclass cls superclass
      return cls) m s fun answer _ s' => answer = cls ∧ ∃ above dictionary symbol,
        s'.HasSlots cls [above, dictionary, spec.pack, symbol] := by
  have hwider : ∀ {m m' : Machine} {s s' : ObjectMap}, m.Alters (fun _ => False) s m' s' →
      m.Alters (fun value => value = cls ∨ value = metaclass) s m' s' := fun h =>
    h.mono fun _ => False.elim
  simp only [furnish, bind_assoc]
  refine bind ((ensures_intern rep name).mono fun _ _ => hwider) ?_
  rintro symbol m₁ s₁ h₁ ⟨hk₁, -⟩
  have ho₁ := hk₁.alters.objects_eq ho False.elim
  have ho₁' := hk₁.alters.objects_eq ho' False.elim
  refine bind ((ensures_newDictionary h₁.rep 0).mono fun _ _ => hwider) ?_
  rintro dictionary m₂ s₂ h₂ ⟨hk₂, -⟩
  have ho₂ := hk₂.alters.objects_eq ho₁ False.elim
  have ho₂' := hk₂.alters.objects_eq ho₁' False.elim
  refine bind (ensures_change (Heap.staysWithin_fillClass h₂.rep ho₂ (.inl rfl) hslots dictionary spec
    symbol)) ?_
  rintro _ m₃ _ h₃ ⟨p, rfl, hshape, hfilled⟩
  have ho₃ := ObjectMap.objects_put_self s₂ cls p
  have ho₃' := (ObjectMap.objects_put_of_ne s₂ hne p).trans ho₂'
  refine bind ((ensures_newDictionary h₃.rep 0).mono fun _ _ => hwider) ?_
  rintro metaDictionary m₄ s₄ h₄ ⟨hk₄, -⟩
  have ho₄ := hk₄.alters.objects_eq ho₃ False.elim
  have ho₄' := hk₄.alters.objects_eq ho₃' False.elim
  refine bind (ensures_change (Heap.staysWithin_fillClass h₄.rep ho₄' (.inr rfl) hslots'
    metaDictionary ⟨.fixedSize, ClassSlot.classSize⟩ cls)) ?_
  rintro _ m₅ _ h₅ ⟨p', rfl, -, -⟩
  have ho₅ := (ObjectMap.objects_put_of_ne s₄ hne.symm p').trans ho₄
  have heq := (((h₁.trans h₂).trans h₃).trans h₄).trans h₅
  have hat₅ : m₅.classAt? p.classIndex = some metaclass := by
    rw [classAt?_congr heq.classTable_eq heq.nil_eq, hshape.classIndex, hat]
  refine bind (ensures_setSuperclass h₅.rep ho₅ hfilled hat₅ (ObjectMap.objects_put_self s₄ metaclass
    p') hne (.inl rfl) (.inr rfl) superclass) fun _ m₆ s₆ h₆ hslots₆ => ?_
  obtain ⟨above, habove⟩ := hslots₆
  exact .pure (.refl h₆.rep) ⟨rfl, above, dictionary, symbol, habove⟩

end Alters

/-! ### A pair and its places -/

/-- Allocates a class and its metaclass. -/
def allocatePair (index metaIndex : ℕ) : HeapM (Value × Value) := do
  let cls ← Heap.allocate ClassSlot.classSize 0 .fixedSize metaIndex (some index)
  let metaclass ←
    Heap.allocate ClassSlot.classSize 0 .fixedSize ClassIndex.metaclass (some metaIndex)
  return (cls, metaclass)

/-- Whether a class and its metaclass have been allocated behind everything else, and nothing has been
stored into them yet. -/
structure IsNewPair (h : Heap) (index metaIndex : ℕ) (cls metaclass : Value) (h' : Heap)
    (s' : ObjectMap) : Prop where
  rep : h'.Represents s'
  room_eq : h.room = h'.room + 2 * objectSize ClassSlot.classSize
  behind : h.usedBytes ≤ cls.raw.toNat ∧ h.usedBytes ≤ metaclass.raw.toNat
  ne : metaclass ≠ cls
  object : ∃ o, s'.objects cls = some o ∧ o.classIndex = metaIndex ∧ o.hash = index ∧
    o.HasSlots [h.nil, h.nil, h.nil, h.nil]
  metaObject : ∃ o, s'.objects metaclass = some o ∧ o.hash = metaIndex ∧
    o.HasSlots [h.nil, h.nil, h.nil, h.nil]

/-- A class that is allocated is a new object, and its bytes are taken up. -/
lemma allocateClass_cases {h : Heap} (rep : h.Represents s) {index metaIndex : ℕ}
    (hmax : index ≤ Header.maxClassIndex) (hmetaMax : metaIndex ≤ Header.maxClassIndex) :
    (h.room < objectSize ClassSlot.classSize ∧ ∃ requested limit,
      Heap.allocate ClassSlot.classSize 0 .fixedSize metaIndex (some index) h =
        .error (.outOfMemory requested limit) h) ∨
    ∃ cls h' s', Heap.allocate ClassSlot.classSize 0 .fixedSize metaIndex (some index) h = .ok cls h' ∧
      h'.Represents s' ∧ s.Alters (fun _ _ => False) (fun _ => True) s' ∧ s.objects cls = none ∧
      (∃ o, s'.objects cls = some o ∧ o.classIndex = metaIndex ∧ o.hash = index ∧
        o.HasSlots [s.nil, s.nil, s.nil, s.nil]) ∧
      h.Allocates ClassSlot.classSize 0 .fixedSize metaIndex (some index) cls h' := by
  rcases (Heap.Bounded.of_represents rep).allocate_cases (some index) hmetaMax
    (show ObjectFormat.fixedSize.admits ClassSlot.classSize 0 = true from rfl) with
    ⟨hroom, hrefused⟩ | ⟨-, cls, h', hok, hallocates⟩
  · exact .inl ⟨hroom, hrefused⟩
  · have hmade : Heap.StaysWithin (fun _ _ => False) (fun _ => True)
        (Heap.allocate ClassSlot.classSize 0 .fixedSize metaIndex (some index)) h s _ :=
      Heap.staysWithin_allocate rep ClassSlot.classSize 0 .fixedSize (some index) trivial
    obtain ⟨s', ha, hclass, hnone, address, ho⟩ := Ensures.of_ok hmade hok
    exact .inr ⟨cls, h', s', hok, ha.rep, ha.alters, hnone,
      ⟨_, ho, rfl, Nat.mod_eq_of_lt (Nat.lt_of_le_of_lt hmax (by decide)),
        Object.hasSlots_fresh s.nil rfl hclass⟩, hallocates⟩

/-- The room alone decides whether both are allocated, if their indices fit. -/
lemma allocatePair_cases {h : Heap} (hbounded : h.Bounded) {index metaIndex : ℕ}
    (hmax : index ≤ Header.maxClassIndex) (hmetaMax : metaIndex ≤ Header.maxClassIndex) :
    (h.room < 2 * objectSize ClassSlot.classSize ∧ ∃ requested limit h',
      allocatePair index metaIndex h = .error (.outOfMemory requested limit) h') ∨
    ∃ cls metaclass h' s', allocatePair index metaIndex h = .ok (cls, metaclass) h' ∧
      IsNewPair h index metaIndex cls metaclass h' s' := by
  rcases allocateClass_cases hbounded.represents_unpopulated hmax hmetaMax with
    ⟨hroom, requested, limit, hrefused⟩ |
    ⟨cls, h₁, s₁, hok, rep₁, alters₁, -, ⟨o, ho, hobject⟩, hallocates⟩
  · exact .inl ⟨by omega, requested, limit, h, run_bind_of_error hrefused⟩
  have hleft : h.room = h₁.room + objectSize ClassSlot.classSize := hallocates.room_eq
  rw [allocatePair, run_bind_of_ok hok]
  rcases allocateClass_cases rep₁ hmetaMax (show ClassIndex.metaclass ≤ Header.maxClassIndex by decide)
    with ⟨hroom, requested, limit, hrefused⟩ |
    ⟨metaclass, h₂, s₂, hok', rep₂, alters₂, hnone, ⟨o', ho', -, hmetaObject⟩, hallocates'⟩
  · exact .inl ⟨by omega, requested, limit, h₁, run_bind_of_error hrefused⟩
  · have hleft' : h₁.room = h₂.room + objectSize ClassSlot.classSize := hallocates'.room_eq
    have hused := hallocates.used_eq
    have hbehind := hallocates'.behind
    rw [alters₁.nil_eq] at hmetaObject
    refine .inr ⟨cls, metaclass, h₂, s₂, run_bind_of_ok hok', rep₂, by omega,
      ⟨hallocates.behind, by omega⟩, ?_, ⟨o, alters₂.objects_eq ho False.elim, hobject⟩, o', ho',
      hmetaObject⟩
    · rintro rfl
      rw [ho] at hnone
      cases hnone

/-- The class and its metaclass are entered once both have been allocated. -/
lemma enterPair_eq (index : ℕ) : enterPair index = (do
    let metaIndex ← reserveClassIndex
    let pair ← change (allocatePair index metaIndex)
    growClassTable (index + 1)
    enterClass index pair.1
    enterClass metaIndex pair.2
    return (metaIndex, pair.1, pair.2) : MachineM (ℕ × Value × Value)) := by
  have hpure : ∀ pair : Value × Value, change (pure pair) = (pure pair : MachineM _) := fun _ => rfl
  simp only [enterPair, allocatePair, change_bind, hpure, bind_assoc, pure_bind]

/-- Two classes that are entered at the last two places of the table take these. -/
lemma classTable_withClassAt_last {table : Array Value} {nil nil' : Value}
    (htable : m.classTable = (table.push nil).push nil') (cls metaclass : Value) :
    ((m.withClassAt table.size cls).withClassAt (table.size + 1) metaclass).classTable =
      (table.push cls).push metaclass := by
  refine Array.ext_getElem? fun place => ?_
  simp only [withClassAt, htable, Array.getElem?_setIfInBounds, Array.getElem?_push, Array.size_push,
    Array.size_setIfInBounds]
  grind

/-- Whether a class and its metaclass have been entered at the end of the class table. -/
structure EntersPair (m : Machine) (cls metaclass : Value) (m' : Machine) (s' : ObjectMap) : Prop
    extends IsNewPair m.heap m.classTable.size (m.classTable.size + 1) cls metaclass m'.heap s' where
  nil_eq : m'.nil = m.nil
  classTable_eq : m'.classTable = (m.classTable.push cls).push metaclass

/-- A pair is entered at an index that has just been handed out and at the next one, unless that does
not fit, or the bytes are not left for both classes. -/
lemma enterPair_cases (sound : m.IsSound) {m₁ : Machine} (hm₁ : m₁ = m.grown (m.classTable.size + 1)) :
    (Header.maxClassIndex ≤ m.classTable.size ∧ enterPair m.classTable.size m₁ =
      .error (.heap (.classIndexOutOfRange (m.classTable.size + 1))) m₁) ∨
    (m.classTable.size < Header.maxClassIndex ∧ m.room < 2 * objectSize ClassSlot.classSize ∧
      ∃ requested limit m', enterPair m.classTable.size m₁ =
          .error (.heap (.outOfMemory requested limit)) m' ∧
        m'.classTable = (m.classTable.push m.nil).push m.nil) ∨
    (m.classTable.size < Header.maxClassIndex ∧ ∃ cls metaclass m' s',
      enterPair m.classTable.size m₁ = .ok (m.classTable.size + 1, cls, metaclass) m' ∧
        m.EntersPair cls metaclass m' s') := by
  have hkernel := sound.kernel_le
  have htable₁ : m₁.classTable = m.classTable.push m.nil := hm₁ ▸ classTable_grown_succ m
  have hsize₁ : m₁.classTable.size = m.classTable.size + 1 := by rw [htable₁, Array.size_push]
  have hplace : max m₁.classTable.size ClassIndex.firstDynamic = m.classTable.size + 1 := by omega
  rw [enterPair_eq]
  rcases Nat.lt_or_ge m.classTable.size Header.maxClassIndex with hfits | hfull
  swap
  · refine .inl ⟨hfull, run_bind_of_error (reserveClassIndex_eq_error_iff.mpr ?_)⟩
    rw [hplace]
    exact ⟨Nat.lt_succ_of_le hfull, rfl, rfl⟩
  -- From here on there are two free places, and only the heap can refuse.
  refine .inr ?_
  obtain ⟨m₂, hm₂⟩ : ∃ m₂, m₂ = m₁.grown (m₁.classTable.size + 1) := ⟨_, rfl⟩
  have htable₂ : m₂.classTable = (m.classTable.push m.nil).push m.nil := by
    rw [hm₂, classTable_grown_succ, htable₁, hm₁]
    rfl
  have hheap₂ : m₂.heap = m.heap := by rw [hm₂, hm₁]; rfl
  have hreserve : reserveClassIndex m₁ = .ok (m.classTable.size + 1) m₂ :=
    reserveClassIndex_eq_ok_iff.mpr ⟨hplace.symm, hfits, hm₂.trans (by rw [hsize₁])⟩
  rw [run_bind_of_ok hreserve]
  rcases allocatePair_cases sound.bounded hfits.le hfits with
    ⟨hroom, requested, limit, h₃, hrefused⟩ | ⟨cls, metaclass, h₃, s₃, hok, isNew⟩
  · rw [← hheap₂] at hrefused
    have hchange := change_eq_error_iff.mpr ⟨_, h₃, hrefused, rfl, rfl⟩
    exact .inl ⟨hfits, hroom, requested, limit, _, run_bind_of_error hchange, htable₂⟩
  · rw [← hheap₂] at hok
    rw [run_bind_of_ok (change_eq_ok_iff.mpr ⟨h₃, hok, rfl⟩)]
    obtain ⟨m₃, hm₃⟩ : ∃ m₃, m₃ = m₂.withHeap h₃ := ⟨_, rfl⟩
    have htable₃ : m₃.classTable = (m.classTable.push m.nil).push m.nil := hm₃ ▸ htable₂
    have hgrown : m₃ = m₃.grown (m.classTable.size + 1) := (grown_of_le (by simp [htable₃])).symm
    rw [← hm₃, run_bind_of_ok (growClassTable_eq_ok_iff (u := ()).mpr hgrown)]
    refine .inr ⟨hfits, cls, metaclass, _, s₃, rfl, hm₃ ▸ isNew, ?_,
      classTable_withClassAt_last htable₃ cls metaclass⟩
    rw [hm₃, hm₂, hm₁]
    rfl

/-- A value that stands in the table at its hash is a class, unless it is nil. -/
lemma isClass_of_getElem? (rep : m.heap.Represents s) {o : Object} (ho : s.objects cls = some o)
    (hat : m.classTable[o.hash]? = some cls) (hne : cls ≠ m.nil) : m.isClass cls = true :=
  isClass_eq_true_iff.mpr ⟨(rep.holds ho).isObject, o.hash,
    ((rep.holds ho).shows rep.usedBytes_lt).hash, classAt?_eq_some_iff.mpr ⟨hat, hne⟩⟩

namespace EntersPair

variable {allowed : Value → Prop} (enters : m.EntersPair cls metaclass m' s')
include enters

/-- The class stands at the first index. -/
lemma getElem?_index : m'.classTable[m.classTable.size]? = some cls := by
  rw [enters.classTable_eq, Array.getElem?_push, Array.size_push, if_neg (by omega),
    Array.getElem?_push, if_pos rfl]

/-- The metaclass stands at the second one. -/
lemma getElem?_metaIndex : m'.classTable[m.classTable.size + 1]? = some metaclass := by
  rw [enters.classTable_eq, Array.getElem?_push, Array.size_push, if_pos rfl]

/-- Neither is nil. -/
lemma ne_nil (sound : m.IsSound) : cls ≠ m.nil ∧ metaclass ≠ m.nil := by
  have hlt := sound.nil_lt
  obtain ⟨hbehind, hbehind'⟩ := enters.behind
  exact ⟨fun heq => by rw [heq] at hbehind; omega, fun heq => by rw [heq] at hbehind'; omega⟩

/-- Both are classes, and stay so whatever is altered. -/
lemma isClass (sound : m.IsSound) (h : m'.Alters allowed s' m'' s'') :
    m''.isClass cls = true ∧ m''.isClass metaclass = true := by
  obtain ⟨hne, hmetaNe⟩ := enters.ne_nil sound
  have hnil : m''.nil = m.nil := h.nil_eq.trans enters.nil_eq
  obtain ⟨o, ho, -, hhash, -⟩ := enters.object
  obtain ⟨p, hp, hshape⟩ := h.alters.toKeeps.shape ho
  obtain ⟨o', ho', hhash', -⟩ := enters.metaObject
  obtain ⟨p', hp', hshape'⟩ := h.alters.toKeeps.shape ho'
  refine ⟨isClass_of_getElem? h.rep hp ?_ (hnil ▸ hne), isClass_of_getElem? h.rep hp' ?_
    (hnil ▸ hmetaNe)⟩
  · rw [hshape.hash, hhash, h.classTable_eq, enters.getElem?_index]
  · rw [hshape'.hash, hhash', h.classTable_eq, enters.getElem?_metaIndex]

end EntersPair

/-! ### What a definition comes to -/

/-- What a definition that is refused has left behind in the class table: nothing where the table is
full; a free place where the superclass is no class, or the metaclass has no place; two of them where
the bytes are not left for the class and its metaclass; and otherwise these two, which are classes now
though they have not been finished. -/
inductive Leaves (m : Machine) (superclass : Value) : MachineError → Machine → Prop
  | nothing (hfull : Header.maxClassIndex < m.classTable.size) :
      Leaves m superclass (.heap (.classIndexOutOfRange m.classTable.size)) m
  | place {e : MachineError} {m' : Machine} (hfits : m.classTable.size ≤ Header.maxClassIndex)
      (hcause : (superclass ≠ m.nil ∧ m.isClass superclass = false ∧ e = .invalidClass superclass) ∨
        (m.classTable.size = Header.maxClassIndex ∧
          e = .heap (.classIndexOutOfRange (m.classTable.size + 1))))
      (hheap : m'.heap = m.heap) (classTable_eq : m'.classTable = m.classTable.push m.nil) :
      Leaves m superclass e m'
  | places {requested limit : ℕ} {m' : Machine} (hfits : m.classTable.size < Header.maxClassIndex)
      (hroom : m.room < 2 * objectSize ClassSlot.classSize)
      (classTable_eq : m'.classTable = (m.classTable.push m.nil).push m.nil) :
      Leaves m superclass (.heap (.outOfMemory requested limit)) m'
  | classes {e : MachineError} {m' : Machine} {cls metaclass : Value}
      (hfits : m.classTable.size < Header.maxClassIndex)
      (hroom : 2 * objectSize ClassSlot.classSize ≤ m.room)
      (behind : m.heap.usedBytes ≤ cls.raw.toNat ∧ m.heap.usedBytes ≤ metaclass.raw.toNat)
      (isClass : m'.isClass cls = true ∧ m'.isClass metaclass = true)
      (classTable_eq : m'.classTable = (m.classTable.push cls).push metaclass) :
      Leaves m superclass e m'

/-- In a longer table there are no more classes. -/
lemma isClass_grown (m : Machine) (size : ℕ) (value : Value) :
    (m.grown size).isClass value = m.isClass value := by
  simp only [isClass, classAt?_grown]
  rfl

/-- A superclass that is refused before anything is made is neither nil nor a class. -/
lemma checkSuperclass_eq_error_iff {e : MachineError} : m.checkSuperclass superclass = .error e ↔
    superclass ≠ m.nil ∧ m.isClass superclass = false ∧ e = .invalidClass superclass := by
  rw [checkSuperclass, expectClass]
  split
  · simp [*]
  · cases m.isClass superclass <;> simp [*, eq_comm]

/-- What is left to do once a pair has been entered makes both classes, whether it is refused or not,
and gives the class its slots if it is not. -/
lemma finish_cases (sound : m.IsSound) {m₂ : Machine} {s₂ : ObjectMap}
    (enters : m.EntersPair cls metaclass m₂ s₂) (name : String) (superclass : Value)
    (spec : InstanceSpec) {rest : MachineM Value} (hrest : rest = do
      furnish cls metaclass name spec
      setSuperclass cls superclass
      return cls) :
    (∃ e m', rest m₂ = .error e m' ∧ m'.classTable = m₂.classTable ∧
      m'.isClass cls = true ∧ m'.isClass metaclass = true) ∨
    ∃ m' s' above dictionary symbol, rest m₂ = .ok cls m' ∧ m'.heap.Represents s' ∧
      m'.isClass cls = true ∧ s'.HasSlots cls [above, dictionary, spec.pack, symbol] := by
  obtain ⟨o, ho, hclass, -, hslots⟩ := enters.object
  obtain ⟨o', ho', -, hslots'⟩ := enters.metaObject
  have hat : m₂.classAt? o.classIndex = some metaclass := by
    rw [hclass]
    exact classAt?_eq_some_iff.mpr
      ⟨enters.getElem?_metaIndex, enters.nil_eq.symm ▸ (enters.ne_nil sound).2⟩
  have hfinish := Alters.ensures_finish enters.rep ho hslots hat ho' hslots' enters.ne name superclass
    spec
  rw [← hrest, Ensures] at hfinish
  cases hrun : rest m₂ with
  | error e m' =>
    rw [hrun] at hfinish
    obtain ⟨s', h⟩ := hfinish
    exact .inl ⟨e, m', rfl, h.classTable_eq, enters.isClass sound h⟩
  | ok answer m' =>
    rw [hrun] at hfinish
    obtain ⟨s', h, rfl, above, dictionary, symbol, hfilled⟩ := hfinish
    exact .inr ⟨m', s', above, dictionary, symbol, rfl, h.rep, (enters.isClass sound h).1, hfilled⟩

/-- What a definition comes to in a machine that is sound: it is refused and leaves something behind,
or the class has the slots that it was to have. -/
theorem defineClass_cases (sound : m.IsSound) (name : String) (superclass : Value)
    (spec : InstanceSpec) :
    (∃ e m', defineClass name superclass spec m = .error e m' ∧ m.Leaves superclass e m') ∨
    ∃ cls m' s' above dictionary symbol, defineClass name superclass spec m = .ok cls m' ∧
      m'.heap.Represents s' ∧ m'.isClass cls = true ∧
      s'.HasSlots cls [above, dictionary, spec.pack, symbol] := by
  have hplace : max m.classTable.size ClassIndex.firstDynamic = m.classTable.size :=
    max_eq_left sound.kernel_le
  rw [defineClass]
  rcases Nat.lt_or_ge Header.maxClassIndex m.classTable.size with hfull | hfits
  · have hrefused : reserveClassIndex m = .error (.heap (.classIndexOutOfRange m.classTable.size)) m :=
      reserveClassIndex_eq_error_iff.mpr (hplace.symm ▸ ⟨hfull, rfl, rfl⟩)
    exact .inl ⟨_, m, run_bind_of_error hrefused, .nothing hfull⟩
  obtain ⟨m₁, hm₁⟩ : ∃ m₁, m₁ = m.grown (m.classTable.size + 1) := ⟨_, rfl⟩
  have htable₁ : m₁.classTable = m.classTable.push m.nil := hm₁ ▸ classTable_grown_succ m
  have hnil₁ : m₁.nil = m.nil := hm₁ ▸ rfl
  have hreserve : reserveClassIndex m = .ok m.classTable.size m₁ :=
    reserveClassIndex_eq_ok_iff.mpr ⟨hplace.symm, hfits, hm₁⟩
  rw [run_bind_of_ok hreserve, createClass_eq_enterPair]
  cases hcheck : m₁.checkSuperclass superclass with
  | error e =>
    obtain ⟨hne, hnot, rfl⟩ := checkSuperclass_eq_error_iff.mp hcheck
    rw [hm₁, isClass_grown] at hnot
    refine .inl ⟨_, m₁, run_bind_of_error (run_ask_of_error hcheck), ?_⟩
    exact .place hfits (.inl ⟨hnil₁ ▸ hne, hnot, rfl⟩) (hm₁ ▸ rfl) htable₁
  | ok _ =>
    rw [run_bind_of_ok (run_ask_of_ok hcheck)]
    rcases enterPair_cases sound hm₁ with
      ⟨hfull, hrefused⟩ | ⟨hlt, hroom, requested, limit, m₂, hrefused, htable⟩ |
      ⟨hlt, cls, metaclass, m₂, s₂, hok, enters⟩
    · exact .inl ⟨_, m₁, run_bind_of_error hrefused,
        .place hfits (.inr ⟨Nat.le_antisymm hfits hfull, rfl⟩) (hm₁ ▸ rfl) htable₁⟩
    · exact .inl ⟨_, m₂, run_bind_of_error hrefused, .places hlt hroom htable⟩
    · -- The pair is in the table by now, and stays there whatever is refused later.
      rw [run_bind_of_ok hok]
      rcases finish_cases sound enters name superclass spec rfl with
        ⟨e, m', hrefused, htable, isClass⟩ | ⟨m', s', above, dictionary, symbol, hrun, hdefined⟩
      · have hroom : 2 * objectSize ClassSlot.classSize ≤ m.room :=
          (Nat.le_add_left _ _).trans_eq enters.room_eq.symm
        exact .inl ⟨e, m', hrefused,
          .classes hlt hroom enters.behind isClass (htable.trans enters.classTable_eq)⟩
      · exact .inr ⟨cls, m', s', above, dictionary, symbol, hrun, hdefined⟩

end Machine

end TalkMachine
