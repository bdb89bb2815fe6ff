import TalkMachine.Proofs.Machine.Pairs

/-!
# Making classes

To make a class is to allocate it and its metaclass, to enter both in the class table, to fill their
slots, and last to give the class its superclass. Until then nothing from before has been altered
but for what lies below the classes, and the two are a pair of which neither has a superclass
(`Machine.ensures_makeClass`). If there is no room for a step, the classes stay in the table as they
are, with nil for a method dictionary that has not been made; they are sheltered all the same.
-/

namespace TalkMachine

namespace Machine

variable {m m' m₀ : Machine} {s s' s₀ : ObjectMap} {cls metaclass superclass dictionary : Value}
  {o : Object} {index metaIndex : ℕ} {scope : Scope}

/-! ### Filling -/

/-- One change of the heap after the other. -/
lemma change_bind {α β : Type} (x : HeapM α) (f : α → HeapM β) :
    change (x >>= f) = change x >>= fun a => change (f a) := by
  funext m
  have hchange : ∀ {γ : Type} (y : HeapM γ) (m : Machine), change y m = match y m.heap with
      | .ok a h => .ok a (m.withHeap h)
      | .error e h => .error (.heap e) (m.withHeap h) := fun y m => by
    simp only [change, onHeap, EStateM.adaptExcept]
    cases y m.heap <;> rfl
  cases hx : x m.heap with
  | ok a h =>
    rw [run_bind_of_ok ((hchange x m).trans (by rw [hx])), hchange, hchange, run_bind_of_ok hx]
    rfl
  | error e h =>
    rw [run_bind_of_error ((hchange x m).trans (by rw [hx])), hchange, run_bind_of_error hx]

/-- Filling the slots of a class other than its superclass. -/
lemma ensures_fillClass (based : m.Based s) (ho : s.objects cls = some o)
    (hclass : ClassIndex.metaclass ≤ o.classIndex) (halters : scope.alters cls o.classIndex)
    {a b c : Value} (hslots : o.HasSlots [superclass, a, b, c]) (htable : s.IsTable dictionary)
    (spec : InstanceSpec) (name : Value) :
    Ensures (Evolves scope) (change (fillClass cls dictionary spec name)) m s fun _ m' s' =>
      m' = m.withHeap m'.heap ∧ ∃ o', s' = s.put cls o' ∧ o.SameShape o' ∧
        o'.HasSlots [superclass, dictionary, spec.pack, name] := by
  simp only [fillClass, change_bind]
  refine Evolves.bind (ensures_storeClass based ho hclass halters ClassSlot.methodDictionary
    dictionary fun _ => .inr htable) ?_
  rintro _ m₁ _ he₁ ⟨heq₁, o₁, hok₁, rfl⟩
  have ho₁ := ObjectMap.objects_put_self s cls o₁
  have hshape₁ := Object.sameShape_storeWord hok₁
  have hslots₁ := (hslots.storeWord (based.rep.holds ho).wellFormed hok₁).2
  refine Evolves.bind (ensures_storeClass he₁.based ho₁ (hshape₁.classIndex.symm ▸ hclass)
    (hshape₁.classIndex.symm ▸ halters) ClassSlot.format spec.pack fun h => absurd h (by decide)) ?_
  rintro _ m₂ _ he₂ ⟨heq₂, o₂, hok₂, rfl⟩
  have ho₂ := ObjectMap.objects_put_self (s.put cls o₁) cls o₂
  have hshape₂ := hshape₁.trans (Object.sameShape_storeWord hok₂)
  have hslots₂ := (hslots₁.storeWord (he₁.based.rep.holds ho₁).wellFormed hok₂).2
  refine (ensures_storeClass he₂.based ho₂ (hshape₂.classIndex.symm ▸ hclass)
    (hshape₂.classIndex.symm ▸ halters) ClassSlot.name name fun h => absurd h (by decide)).imp ?_
  rintro _ m₃ _ - ⟨heq₃, o₃, hok₃, rfl⟩
  refine ⟨?_, o₃, ?_, hshape₂.trans (Object.sameShape_storeWord hok₃),
    (hslots₂.storeWord (he₂.based.rep.holds ho₂).wellFormed hok₃).2⟩
  · rw [heq₃, heq₂, heq₁]
    rfl
  · simp only [ObjectMap.put, Function.update_idem]

/-! ### Entering -/

/-- A class that has been allocated in the course of changes is entered in the table. -/
lemma Evolves.enter (he : m₀.Evolves scope s₀ m s) (hdefines : scope.defines) (index : ℕ)
    (hnone : s₀.objects cls = none) (hne : cls ≠ m.nil)
    (ho : ∃ o, s.objects cls = some o ∧ o.hash = index ∧ ClassIndex.metaclass ≤ o.classIndex)
    (hsheltered : s.IsSheltered cls) (hlt : index < m.classTable.size)
    (hfree : m.classAt? index = none) : m₀.Evolves scope s₀ (m.withClassAt index cls) s := by
  have hat := classAt?_withClassAt hlt hne
  refine { he with
    based := { he.based with table := fun {place value} h => ?_ }
    classAt?_of := fun {place value} h => ?_
    classAt?_cases := fun {place value} h => ?_
    sheltered := fun hspares sheltered place value h => ?_ }
  · rw [hat] at h
    split at h
    · obtain rfl := Option.some.inj h
      exact ‹place = index› ▸ ho
    · exact he.based.table h
  · have hold := he.classAt?_of h
    rw [hat, if_neg, hold]
    rintro rfl
    rw [hfree] at hold
    cases hold
  · rw [hat] at h
    split at h
    · exact .inr ⟨hdefines, Option.some.inj h ▸ hnone⟩
    · exact he.classAt?_cases h
  · rw [hat] at h
    split at h
    · exact Option.some.inj h ▸ hsheltered
    · exact he.sheltered hspares sheltered h

/-- A class index that is handed out is free, and there is a place for it. -/
lemma ensures_reserveClassIndex (based : m.Based s) :
    Ensures (Evolves scope) reserveClassIndex m s fun index m' s' =>
      s' = s ∧ m' = m.grown (index + 1) ∧ index ≤ Header.maxClassIndex ∧
        index = max m.classTable.size ClassIndex.firstDynamic := by
  rw [reserveClassIndex]
  refine ensures_ask_bind based fun index hindex => ?_
  obtain rfl := Except.ok.inj hindex
  split
  · exact Ensures.bind (fun h h' => h.trans h') (ensures_throw based _ (Q := fun _ _ _ => False))
      fun _ _ _ _ hfalse => hfalse.elim
  · exact ⟨s, based.evolves_alike (.grown m _) rfl, rfl, rfl, Nat.not_lt.mp ‹_›, rfl⟩

/-- The scope in which classes are allocated. -/
def Scope.entering : Scope :=
  ⟨fun _ _ => False, fun index => ClassIndex.metaclass ≤ index, True, True⟩

/-- A class that is to be at an index is allocated. -/
lemma ensures_allocateClass (based : m.Based s) (hclass : ClassIndex.metaclass ≤ metaIndex)
    (hmax : index ≤ Header.maxClassIndex) :
    Ensures (Evolves .entering)
      (change (Heap.allocate ClassSlot.classSize 0 .fixedSize metaIndex (some index))) m s
      fun cls m' s' => m' = m.withHeap m'.heap ∧ s.objects cls = none ∧
        ∃ o, s'.objects cls = some o ∧ o.classIndex = metaIndex ∧ o.hash = index ∧
          o.HasSlots [m.nil, m.nil, m.nil, m.nil] := by
  refine (ensures_make based (Heap.staysWithin_allocate based.rep _ _ _ (some index) hclass)).imp ?_
  rintro cls m' s' - ⟨heq, -, hmetaMax, hnone, address, ho⟩
  refine ⟨heq, hnone, _, ho, rfl, Nat.mod_eq_of_lt (Nat.lt_of_le_of_lt hmax (by decide)), ?_⟩
  rw [based.nil_eq]
  exact Object.hasSlots_fresh m.nil rfl hmetaMax

/-- What is known of a class and its metaclass that have been entered. -/
structure Enters (m : Machine) (s : ObjectMap) (index metaIndex : ℕ) (cls metaclass : Value)
    (m' : Machine) (s' : ObjectMap) : Prop where
  newClass : s.objects cls = none
  newMetaclass : s.objects metaclass = none
  dynamic : ClassIndex.firstDynamic ≤ metaIndex
  indices_ne : index ≠ metaIndex
  metaFree : m.classAt? metaIndex = none
  classAt?_eq : ∀ place, m'.classAt? place =
    if place = metaIndex then some metaclass
    else if place = index then some cls else m.classAt? place
  object : ∃ o, s'.objects cls = some o ∧ o.classIndex = metaIndex ∧ o.hash = index ∧
    o.HasSlots [m.nil, m.nil, m.nil, m.nil]
  metaObject : ∃ o, s'.objects metaclass = some o ∧ o.classIndex = ClassIndex.metaclass ∧
    o.hash = metaIndex ∧ o.HasSlots [m.nil, m.nil, m.nil, m.nil]

/-- A class and its metaclass that have been allocated are entered. -/
lemma Evolves.enters (he : m₀.Evolves .entering s₀ m s) (based : m₀.Based s₀)
    (hat : ∀ place, m.classAt? place = m₀.classAt? place) (hlt : index < m.classTable.size)
    (hmetaLt : metaIndex < m.classTable.size) (hindex : index ≠ metaIndex)
    (hdynamic : ClassIndex.firstDynamic ≤ metaIndex) (hfree : m₀.classAt? index = none)
    (hmetaFree : m₀.classAt? metaIndex = none) (hnone : s₀.objects cls = none)
    (hmetaNone : s₀.objects metaclass = none)
    (ho : ∃ o, s.objects cls = some o ∧ o.classIndex = metaIndex ∧ o.hash = index ∧
      o.HasSlots [m₀.nil, m₀.nil, m₀.nil, m₀.nil])
    (ho' : ∃ o, s.objects metaclass = some o ∧ o.classIndex = ClassIndex.metaclass ∧
      o.hash = metaIndex ∧ o.HasSlots [m₀.nil, m₀.nil, m₀.nil, m₀.nil]) :
    m₀.Evolves .entering s₀ ((m.withClassAt index cls).withClassAt metaIndex metaclass) s ∧
      m₀.Enters s₀ index metaIndex cls metaclass
        ((m.withClassAt index cls).withClassAt metaIndex metaclass) s := by
  have hnil : s.nil = m₀.nil := he.based.nil_eq.trans he.nil_eq
  have hnotNil : cls ≠ m.nil := he.nil_eq ▸ based.ne_nil_of_none hnone
  have hmetaNotNil : metaclass ≠ m.nil := he.nil_eq ▸ based.ne_nil_of_none hmetaNone
  have hplaces := classAt?_withClassAt_withClassAt hlt hmetaLt hnotNil hmetaNotNil
  refine ⟨?_, hnone, hmetaNone, hdynamic, hindex, hmetaFree, fun place => hat place ▸ hplaces place, ho, ho'⟩
  obtain ⟨o, ho, hclass, hhash, hslots⟩ := ho
  obtain ⟨o', ho', hclass', hhash', hslots'⟩ := ho'
  have hle : ClassIndex.metaclass ≤ o.classIndex := hclass ▸ Nat.le_of_succ_le hdynamic
  have hentered := he.enter trivial index hnone hnotNil ⟨o, ho, hhash, hle⟩
    ⟨o, m₀.nil, m₀.nil, m₀.nil, m₀.nil, ho, hle, hslots, .inl hnil.symm⟩ hlt ((hat index).trans hfree)
  refine hentered.enter trivial metaIndex hmetaNone hmetaNotNil ⟨o', ho', hhash', hclass'.ge⟩
    ⟨o', m₀.nil, m₀.nil, m₀.nil, m₀.nil, ho', hclass'.ge, hslots', .inl hnil.symm⟩
    ((size_classTable_withClassAt m index cls).symm ▸ hmetaLt) ?_
  rw [classAt?_withClassAt hlt hnotNil, if_neg hindex.symm, hat, hmetaFree]

/-- A class and its metaclass are entered at indices that are free. -/
theorem ensures_enterPair (based : m.Based s) (hlt : index < m.classTable.size)
    (hmax : index ≤ Header.maxClassIndex) (hfree : m.classAt? index = none) :
    Ensures (Evolves .entering) (enterPair index) m s fun answer m' s' =>
      m.Enters s index answer.1 answer.2.1 answer.2.2 m' s' := by
  -- What is entered is new with respect to the machine from before, so that the relation starts there.
  show Ensures (fun _ _ m' s' => m.Evolves .entering s m' s') (enterPair index) m s _
  rw [enterPair]
  refine Ensures.bind (fun _ h => h) (ensures_reserveClassIndex based) ?_
  rintro metaIndex m₁ s₁ he₁ ⟨rfl, heq₁, hmetaMax, hmetaIndex⟩
  have hdynamic : ClassIndex.firstDynamic ≤ metaIndex := hmetaIndex ▸ le_max_right _ _
  refine Ensures.bind (fun _ h => h) ((ensures_allocateClass he₁.based (Nat.le_of_succ_le hdynamic)
    hmax).mono fun _ _ => he₁.trans) ?_
  rintro cls m₂ s₂ he₂ ⟨-, heq₂, hnone, o, ho, hclass, hhash, hslots⟩
  refine Ensures.bind (fun _ h => h) ((ensures_allocateClass he₂.based le_rfl hmetaMax).mono
    fun _ _ => he₂.trans) ?_
  rintro metaclass m₃ s₃ he₃ ⟨he₂₃, heq₃, hmetaNone, o', ho', hclass', hhash', hslots'⟩
  rw [he₁.nil_eq] at hslots
  rw [he₂.nil_eq] at hslots'
  have hat : ∀ place, (m₃.grown (index + 1)).classAt? place = m.classAt? place := fun place => by
    rw [classAt?_grown, ← classAt?_grown m (metaIndex + 1), ← heq₁, heq₃, heq₂]
    rfl
  have hsize : (m₃.grown (index + 1)).classTable.size =
      max (max m.classTable.size (metaIndex + 1)) (index + 1) := by
    rw [size_classTable_grown, ← size_classTable_grown m, ← heq₁, heq₃, heq₂]
    rfl
  obtain ⟨evolves, enters⟩ := (he₃.trans (he₃.based.evolves_alike (.grown m₃ (index + 1)) rfl)).enters
    based hat (by omega) (by omega) (show index ≠ metaIndex by omega) hdynamic hfree
    (classAt?_of_size_le (hmetaIndex ▸ le_max_left _ _)) hnone
    (he₂.alters.toKeeps.objects_eq_none hmetaNone)
    ⟨o, he₂₃.alters.objects_eq ho False.elim, hclass, hhash, hslots⟩ ⟨o', ho', hclass', hhash', hslots'⟩
  exact ⟨s₃, evolves, enters⟩

/-! ### A class without superclass -/

/-- A class and its metaclass are filled, so that they refer to each other. -/
lemma ensures_furnish (based : m.Based s) (tends : scope.Tends) (ho : s.objects cls = some o)
    {o' : Object} (ho' : s.objects metaclass = some o') (hne : metaclass ≠ cls)
    (hclass : ClassIndex.metaclass ≤ o.classIndex) (hclass' : ClassIndex.metaclass ≤ o'.classIndex)
    (halters : scope.alters cls o.classIndex) (halters' : scope.alters metaclass o'.classIndex)
    {nil : Value} (hslots : o.HasSlots [nil, nil, nil, nil])
    (hslots' : o'.HasSlots [nil, nil, nil, nil]) (name : String) (spec : InstanceSpec) :
    Ensures (Evolves scope) (furnish cls metaclass name spec) m s fun _ m' s' =>
      (∀ place, m'.classAt? place = m.classAt? place) ∧
      (∃ p dictionary symbol, s'.objects cls = some p ∧ o.SameShape p ∧
        p.HasSlots [nil, dictionary, spec.pack, symbol] ∧ m'.symbols[name]? = some symbol) ∧
      ∃ p dictionary format, s'.objects metaclass = some p ∧ o'.SameShape p ∧
        p.HasSlots [nil, dictionary, format, cls] := by
  have hkept : ∀ {s s' : ObjectMap} {value : Value} {o : Object},
      s.Alters (fun _ index => index < ClassIndex.metaclass) (fun _ => True) s' →
      ClassIndex.metaclass ≤ o.classIndex → s.objects value = some o → s'.objects value = some o :=
    fun alters hle ho => alters.objects_eq ho fun hlt => absurd hle (Nat.not_le.mpr hlt)
  rw [furnish]
  refine Evolves.bind (ensures_intern based name) ?_
  rintro symbol m₁ s₁ he₁ ⟨hsymbol, htable₁, alters₁⟩
  refine Evolves.bind (ensures_newDictionary he₁.based tends 0) ?_
  rintro dictionary m₂ s₂ he₂ ⟨heq₂, hdictionary, alters₂⟩
  have ho₂ : s₂.objects cls = some o := hkept alters₂ hclass (alters₁.objects_eq ho False.elim)
  have ho₂' : s₂.objects metaclass = some o' :=
    hkept alters₂ hclass' (alters₁.objects_eq ho' False.elim)
  refine Evolves.bind (ensures_fillClass he₂.based ho₂ hclass halters hslots hdictionary spec symbol) ?_
  rintro _ m₃ _ he₃ ⟨heq₃, p, rfl, hshape, hfilled⟩
  have hle : ClassIndex.metaclass ≤ p.classIndex := hshape.classIndex.symm ▸ hclass
  refine Evolves.bind (ensures_newDictionary he₃.based tends 0) ?_
  rintro metaDictionary m₄ s₄ he₄ ⟨heq₄, hmetaDictionary, alters₄⟩
  have ho₄ : s₄.objects cls = some p := hkept alters₄ hle (ObjectMap.objects_put_self s₂ cls p)
  have ho₄' : s₄.objects metaclass = some o' :=
    hkept alters₄ hclass' ((ObjectMap.objects_put_of_ne s₂ hne p).trans ho₂')
  refine (ensures_fillClass he₄.based ho₄' hclass' halters' hslots' hmetaDictionary
    ⟨.fixedSize, ClassSlot.classSize⟩ cls).imp ?_
  rintro _ m₅ _ he₅ ⟨heq₅, p', rfl, hshape', hfilled'⟩
  refine ⟨fun place => ?_, ⟨p, dictionary, symbol,
      (ObjectMap.objects_put_of_ne s₄ hne.symm p').trans ho₄, hshape, hfilled, ?_⟩,
    p', metaDictionary, _, ObjectMap.objects_put_self s₄ metaclass p', hshape', hfilled'⟩
  · rw [heq₅, heq₄, heq₃, heq₂]
    exact classAt?_congr htable₁ he₁.nil_eq place
  · exact (((he₂.trans he₃).trans he₄).trans he₅).symbol hsymbol

/-- The scope in which what is no class may be altered, and what is new. -/
def Scope.beside (s : ObjectMap) : Scope :=
  ⟨fun value index => index < ClassIndex.metaclass ∨ s.objects value = none,
    fun index => ClassIndex.symbol < index, True, True⟩

/-- Whether classes may be made within a scope. -/
structure Scope.Builds (scope : Scope) : Prop extends scope.Tends where
  altersAll : ∀ value index, scope.alters value index
  defines : scope.defines

/-- The scope in which classes are made. -/
def Scope.building : Scope :=
  ⟨fun _ _ => True, fun index => ClassIndex.symbol < index, True, True⟩

/-- Method dictionaries may be changed there. -/
lemma Scope.tends_beside (s : ObjectMap) : (Scope.beside s).Tends :=
  ⟨fun _ _ => .inl, fun _ => id⟩

/-- A class and its metaclass are made, which are a pair. -/
theorem ensures_makeClass (based : m.Based s) (hlt : index < m.classTable.size)
    (hmax : index ≤ Header.maxClassIndex) (hfree : m.classAt? index = none) (name : String)
    (spec : InstanceSpec) :
    Ensures (Evolves (.beside s)) (makeClass index name spec) m s fun cls m' s' =>
      ∃ p, m.Admits p s m' s' ∧ p.cls = cls ∧ p.IsFresh m.nil index name spec := by
  rw [makeClass]
  have hwider : ∀ m' s', m.Evolves .entering s m' s' → m.Evolves (.beside s) s m' s' := fun m' s' h =>
    h.mono (fun _ => False.elim) (fun _ hle => Nat.lt_of_lt_of_le (by decide) hle) id id
  refine Evolves.bind ((ensures_enterPair based hlt hmax hfree).mono hwider) ?_
  rintro ⟨metaIndex, cls, metaclass⟩ m₁ s₁ he₁ ⟨-, enters⟩
  obtain ⟨o, ho, hclass, hhash, hslots⟩ := enters.object
  obtain ⟨o', ho', hclass', hhash', hslots'⟩ := enters.metaObject
  have hle : ClassIndex.metaclass ≤ o.classIndex := hclass ▸ Nat.le_of_succ_le enters.dynamic
  have hne : metaclass ≠ cls := by
    rintro rfl
    obtain rfl := Option.some.inj (ho.symm.trans ho')
    exact absurd (hclass.symm.trans hclass') (Nat.lt_of_lt_of_le (by decide) enters.dynamic).ne'
  refine Evolves.bind (ensures_furnish he₁.based (Scope.tends_beside s) ho ho' hne hle hclass'.ge
    (Or.inr enters.newClass) (Or.inr enters.newMetaclass) hslots hslots' name spec) ?_
  rintro _ m₂ s₂ he₂ ⟨hat, ⟨p, dictionary, symbol, hp, hshape, hfilled, hsymbol⟩,
    p', metaDictionary, format, hp', hshape', hfilled'⟩
  have evolves := he₁.trans he₂
  have hplaces := fun place => (hat place).trans (enters.classAt?_eq place)
  have hreparents : s.Reparents (fun _ => none) s₂ := evolves.alters.reparents fun ho hcase =>
    hcase.resolve_right fun hnone => by
      rw [hnone] at ho
      cases ho
  refine .pure (.refl he₂.based) ⟨⟨index, metaIndex, cls, metaclass, m.nil, m.nil, name, spec⟩,
    ⟨evolves.any, hreparents, hplaces, ⟨?_, ?_, enters.dynamic, ⟨p, dictionary, symbol, hp,
      hshape.classIndex.trans hclass, hshape.hash.trans hhash, hfilled, hsymbol⟩,
      p', metaDictionary, format, hp', hshape'.classIndex.trans hclass', hshape'.hash.trans hhash',
      hfilled'⟩, hfree, enters.metaFree⟩, rfl, rfl, rfl, rfl, rfl, rfl⟩
  · exact (hplaces index).trans ((if_neg enters.indices_ne).trans (if_pos rfl))
  · exact (hplaces metaIndex).trans (if_pos rfl)

/-! ### A class with its superclass -/

/-- What making a class comes to: a new pair is entered, and its class is given the superclass. -/
def Creates (index : ℕ) (name : String) (superclass : Value) (spec : InstanceSpec) (m : Machine)
    (s : ObjectMap) (cls : Value) (m' : Machine) (s' : ObjectMap) : Prop :=
  ∃ p m₁ s₁, p.cls = cls ∧ p.IsFresh m.nil index name spec ∧ m.Admits p s m₁ s₁ ∧
    m₁.Redirects cls superclass s₁ m' s'

/-- Making a class at a free index. -/
theorem ensures_createClass (based : m.Based s) (hlt : index < m.classTable.size)
    (hmax : index ≤ Header.maxClassIndex) (hfree : m.classAt? index = none) (name : String)
    (superclass : Value) (spec : InstanceSpec) :
    Ensures (Evolves .building) (createClass index name superclass spec) m s fun cls m' s' =>
      m.Creates index name superclass spec s cls m' s' := by
  rw [createClass_eq]
  refine ensures_ask_bind based fun _ _ => ?_
  refine Evolves.bind ((ensures_makeClass based hlt hmax hfree name spec).mono fun _ _ h =>
    h.mono (fun _ _ => trivial) (fun _ => id) id id) ?_
  rintro cls m₁ s₁ he₁ ⟨-, p, admits, hcls, hfresh⟩
  refine Evolves.bind (ensures_setSuperclass he₁.based (fun _ _ _ => trivial) cls superclass) ?_
  exact fun _ m₂ s₂ he₂ hredirects =>
    .pure (.refl he₂.based) ⟨p, m₁, s₁, hcls, hfresh, admits, hredirects⟩

/-- Defining a class is making one at an index that is handed out. -/
theorem ensures_defineClass (based : m.Based s) (name : String) (superclass : Value)
    (spec : InstanceSpec) :
    Ensures (Evolves .building) (defineClass name superclass spec) m s fun cls m' s' =>
      ∃ index, ClassIndex.firstDynamic ≤ index ∧
        m.Creates index name superclass spec s cls m' s' := by
  rw [defineClass]
  refine Evolves.bind (ensures_reserveClassIndex based) ?_
  rintro index m₁ s₁ he₁ ⟨rfl, rfl, hmax, hindex⟩
  have hlt : index < (m.grown (index + 1)).classTable.size := by
    rw [size_classTable_grown]
    omega
  have hat := classAt?_grown m (index + 1)
  have hfree : (m.grown (index + 1)).classAt? index = none :=
    (hat index).trans (classAt?_of_size_le (hindex ▸ le_max_left _ _))
  refine (ensures_createClass he₁.based hlt hmax hfree name superclass spec).imp ?_
  rintro cls m' s' - ⟨p, m₁, s₁, hcls, hfresh, admits, hredirects⟩
  refine ⟨index, hindex ▸ le_max_right _ _, p, m₁, s₁, hcls, hfresh, ?_, hredirects⟩
  exact ⟨he₁.any.trans admits.evolves, admits.reparents, fun place => by
      rw [admits.classAt?_eq, hat], admits.hasPair, (hat _).symm.trans admits.free,
    (hat _).symm.trans admits.metaFree⟩

/-- Whether the metaclass of a pair inherits from the class of the superclass. -/
def Echoes (m : Machine) (p : ClassPair) : Prop :=
  m.isClass p.superclass = true ∧ m.classOf p.superclass = .ok p.metaSuperclass

/-- The class that has been made and its metaclass are a new pair. The metaclass inherits from the class
of the superclass, or where there is none from Class as far as that exists. -/
theorem Creates.exists_admits {name : String} {spec : InstanceSpec}
    (h : m.Creates index name superclass spec s cls m' s') :
    ∃ p, m.Admits p s m' s' ∧ p.cls = cls ∧ p.index = index ∧ p.name = name ∧ p.spec = spec ∧
      p.superclass = superclass ∧ ((superclass = m.nil ∧
        p.metaSuperclass = (m'.classAt? ClassIndex.classClass).getD m.nil) ∨ m'.Echoes p) := by
  obtain ⟨p, m₁, s₁, rfl, ⟨rfl, rfl, rfl, -, -⟩, admits, -, metaSuperclass, changed, hmeta, hreparented,
    rewires⟩ := h
  have based₁ := admits.evolves.based
  have pair := admits.hasPair
  obtain ⟨-, metaclass, hclassOf, rfl⟩ := hreparented.resolve_left fun h => by
    rw [pair.isMetaclass_cls based₁] at h
    cases h.1
  obtain rfl := Except.ok.inj (hclassOf.symm.trans (pair.classOf_cls based₁))
  have hne : p.cls ≠ p.metaclass := pair.cls_ne_metaclass pair based₁
  -- The class and its metaclass are new, so that no superclass from before is replaced.
  have hnew : ∀ {place value}, m₁.classAt? place = some value → m.classAt? place = none →
      s.objects value = none := fun hat hfree =>
    ((admits.evolves.classAt?_cases hat).resolve_left fun hold => by
      rw [hfree] at hold
      cases hold).2
  have hcls := hnew pair.classAt?_index admits.free
  have hmetaclass := hnew pair.classAt?_metaIndex admits.metaFree
  have hreparents : s.Reparents (fun _ => none) s' := by
    refine ⟨fun {value o above rest} ho hclass hslots => ?_⟩
    have hkept := (admits.reparents.trans_left rewires.reparents).kept ho hclass hslots
    rwa [if_neg, if_neg] at hkept
    · rintro rfl
      rw [hcls] at ho
      cases ho
    · rintro rfl
      rw [hmetaclass] at ho
      cases ho
  refine ⟨p.reparented fun other => if other = p.metaclass then some metaSuperclass
      else if other = p.cls then some superclass else none,
    ⟨admits.evolves.trans rewires.evolves, hreparents,
    fun place => (rewires.classAt?_eq place).trans (admits.classAt?_eq place),
    pair.keep rewires.evolves rewires.reparents, admits.free, admits.metaFree⟩, rfl, rfl, rfl, rfl, ?_,
    ?_⟩
  · simp [ClassPair.reparented, hne]
  · rcases metaSuperclass_cases hmeta with ⟨hnil, heq⟩ | ⟨hclass, hclassOf, -⟩
    · refine .inl ⟨hnil.trans admits.evolves.nil_eq, ?_⟩
      rw [rewires.classAt?_eq, ← admits.evolves.nil_eq, ← heq]
      simp [ClassPair.reparented]
    · refine .inr ?_
      have hstays := rewires.evolves.classOf_eq based₁ hclass hclassOf
      simpa [Echoes, ClassPair.reparented, hne] using hstays

end Machine

end TalkMachine
