import TalkMachine.Proofs.Machine.Reparenting

/-!
# Classes in pairs

Classes come in pairs: a class, whose instances carry its index, and its metaclass, of which it is the
only class that is an instance. Both stand in the class table at the indices that are their hashes,
and the metaclass refers back to the class (`Machine.HasPair`). Two things can happen to the pairs of
a machine: superclasses are replaced (`Machine.Rewires`), and another pair is entered
(`Machine.Admits`). Either way each class in the table belongs to a pair again (`Machine.Paired`).
-/

namespace TalkMachine

/-- A class and its metaclass, with the indices and the superclasses of both, the name of the class
and what its instances look like. -/
structure ClassPair where
  index : ℕ
  metaIndex : ℕ
  cls : Value
  metaclass : Value
  superclass : Value
  metaSuperclass : Value
  name : String
  spec : InstanceSpec

namespace ClassPair

/-- The pair after superclasses have been replaced. -/
def reparented (p : ClassPair) (changed : Value → Option Value) : ClassPair :=
  { p with
    superclass := (changed p.cls).getD p.superclass
    metaSuperclass := (changed p.metaclass).getD p.metaSuperclass }

/-- Whether a class is one of a pair, at its index. -/
def Includes (p : ClassPair) (place : ℕ) (value : Value) : Prop :=
  (place = p.index ∧ value = p.cls) ∨ (place = p.metaIndex ∧ value = p.metaclass)

/-- Whether a pair has been made for an index, and has no superclasses so far. -/
def IsFresh (p : ClassPair) (nil : Value) (index : ℕ) (name : String) (spec : InstanceSpec) : Prop :=
  p.index = index ∧ p.name = name ∧ p.spec = spec ∧ p.superclass = nil ∧ p.metaSuperclass = nil

/-- A pair for which nothing has been replaced. -/
lemma reparented_of_none {p : ClassPair} {changed : Value → Option Value} (hcls : changed p.cls = none)
    (hmetaclass : changed p.metaclass = none) : p.reparented changed = p := by
  rw [reparented, hcls, hmetaclass]
  rfl

/-- A pair for which both superclasses have been replaced. -/
lemma reparented_of_some {p : ClassPair} {changed : Value → Option Value}
    {superclass metaSuperclass : Value} (hcls : changed p.cls = some superclass)
    (hmetaclass : changed p.metaclass = some metaSuperclass) : p.reparented changed =
      { p with superclass := superclass, metaSuperclass := metaSuperclass } := by
  rw [reparented, hcls, hmetaclass]
  rfl

end ClassPair

namespace Machine

variable {m m' m'' : Machine} {s s' s'' : ObjectMap} {p q : ClassPair} {cls value metaclass : Value}
  {index place : ℕ} {changed : Value → Option Value} {scope : Scope}

/-! ### One pair -/

/-- A class that is no metaclass stays one. -/
lemma Ordinary.evolves (hordinary : m.Ordinary cls) (based : m.Based s)
    (he : m.Evolves scope s m' s') : m'.Ordinary cls := by
  obtain ⟨index, hat⟩ := based.isClass_iff.mp hordinary.1
  exact ⟨he.based.isClass_iff.mpr ⟨index, he.classAt?_of hat⟩,
    (he.isMetaclass_eq based hordinary.1).trans hordinary.2⟩

/-- Whether a class and its metaclass stand in the table and refer to each other. -/
structure HasPair (m : Machine) (s : ObjectMap) (p : ClassPair) : Prop where
  classAt?_index : m.classAt? p.index = some p.cls
  classAt?_metaIndex : m.classAt? p.metaIndex = some p.metaclass
  dynamic : ClassIndex.firstDynamic ≤ p.metaIndex
  object : ∃ o dictionary symbol, s.objects p.cls = some o ∧ o.classIndex = p.metaIndex ∧
    o.hash = p.index ∧ o.HasSlots [p.superclass, dictionary, p.spec.pack, symbol] ∧
    m.symbols[p.name]? = some symbol
  metaObject : ∃ o dictionary format, s.objects p.metaclass = some o ∧
    o.classIndex = ClassIndex.metaclass ∧ o.hash = p.metaIndex ∧
    o.HasSlots [p.metaSuperclass, dictionary, format, p.cls]

namespace HasPair

/-- The class of the class is the metaclass. -/
lemma classOf_cls (pair : m.HasPair s p) (based : m.Based s) : m.classOf p.cls = .ok p.metaclass := by
  obtain ⟨o, -, -, ho, hclass, -⟩ := pair.object
  rw [based.classOf_eq_ok_iff ho, hclass]
  exact pair.classAt?_metaIndex

/-- The class is no metaclass. -/
lemma isMetaclass_cls (pair : m.HasPair s p) (based : m.Based s) : m.isMetaclass p.cls = false := by
  obtain ⟨o, -, -, ho, hclass, -⟩ := pair.object
  rw [based.isMetaclass_eq pair.classAt?_index ho, hclass, beq_eq_false_iff_ne]
  exact (Nat.lt_of_lt_of_le (by decide) pair.dynamic).ne'

/-- The class is a class that is no metaclass. -/
lemma ordinary (pair : m.HasPair s p) (based : m.Based s) : m.Ordinary p.cls :=
  ⟨based.isClass_iff.mpr ⟨_, pair.classAt?_index⟩, pair.isMetaclass_cls based⟩

/-- The metaclass is one. -/
lemma isMetaclass_metaclass (pair : m.HasPair s p) (based : m.Based s) :
    m.isMetaclass p.metaclass = true := by
  obtain ⟨o, -, -, ho, hclass, -⟩ := pair.metaObject
  rw [based.isMetaclass_eq pair.classAt?_metaIndex ho, hclass, beq_self_eq_true]

/-- The class is the metaclass of no pair. -/
lemma cls_ne_metaclass (pair : m.HasPair s p) (pair' : m.HasPair s q) (based : m.Based s) :
    p.cls ≠ q.metaclass := by
  intro heq
  have hkind := pair.isMetaclass_cls based
  rw [heq, pair'.isMetaclass_metaclass based] at hkind
  cases hkind

/-- A metaclass belongs to one class. -/
lemma cls_eq (pair : m.HasPair s p) (pair' : m.HasPair s q) (heq : p.metaclass = q.metaclass) :
    p.cls = q.cls := by
  obtain ⟨o, _, _, ho, -, -, hslots⟩ := pair.metaObject
  obtain ⟨o', _, _, ho', -, -, hslots'⟩ := pair'.metaObject
  obtain rfl := Option.some.inj ((heq ▸ ho).symm.trans ho')
  have hslot : ∀ {a b c d : Value}, [a, b, c, d][3]? = some d := rfl
  exact (hslots.word hslot).symm.trans (hslots'.word hslot)

/-- The slots of the class are read as what they are. -/
lemma fetch_cls (pair : m.HasPair s p) (based : m.Based s) :
    m.heap.fetch p.cls ClassSlot.superclass = .ok p.superclass ∧
      m.heap.fetch p.cls ClassSlot.format = .ok p.spec.pack ∧
      ∃ symbol, m.heap.fetch p.cls ClassSlot.name = .ok symbol ∧ m.symbols[p.name]? = some symbol := by
  obtain ⟨o, dictionary, symbol, ho, -, -, hslots, hsymbol⟩ := pair.object
  have hfetch : ∀ {index value}, [p.superclass, dictionary, p.spec.pack, symbol][index]? = some value →
      m.heap.fetch p.cls index = .ok value := Heap.fetch_eq_of_hasSlots based.rep ⟨o, ho, hslots⟩
  exact ⟨hfetch rfl, hfetch rfl, symbol, hfetch rfl, hsymbol⟩

/-- The superclass of the metaclass is read as what it is, and so is the class. -/
lemma fetch_metaclass (pair : m.HasPair s p) (based : m.Based s) :
    m.heap.fetch p.metaclass ClassSlot.superclass = .ok p.metaSuperclass ∧
      m.heap.fetch p.metaclass ClassSlot.name = .ok p.cls := by
  obtain ⟨o, dictionary, format, ho, -, -, hslots⟩ := pair.metaObject
  have hfetch : ∀ {index value}, [p.metaSuperclass, dictionary, format, p.cls][index]? = some value →
      m.heap.fetch p.metaclass index = .ok value := Heap.fetch_eq_of_hasSlots based.rep ⟨o, ho, hslots⟩
  exact ⟨hfetch rfl, hfetch rfl⟩

/-- The superclass of the class is what it is, and so is that of the metaclass. -/
lemma superclass_eq (pair : m.HasPair s p) (based : m.Based s) :
    m.superclass p.cls = .ok p.superclass ∧ m.superclass p.metaclass = .ok p.metaSuperclass := by
  have hslot : ∀ {place value found}, m.classAt? place = some value →
      m.heap.fetch value ClassSlot.superclass = .ok found → m.superclass value = .ok found :=
    fun hat hfetch => by
      rw [superclass, classSlot, expectClass_eq_ok_iff.mpr (based.isClass_iff.mpr ⟨_, hat⟩), hfetch]
      rfl
  exact ⟨hslot pair.classAt?_index (pair.fetch_cls based).1,
    hslot pair.classAt?_metaIndex (pair.fetch_metaclass based).1⟩

/-- The class goes by its name. -/
lemma classNameIn?_cls (pair : m.HasPair s p) (based : m.Based s) (steps : ℕ) :
    m.classNameIn? (steps + 1) p.cls = some p.name := by
  obtain ⟨-, -, symbol, hfetch, hsymbol⟩ := pair.fetch_cls based
  simp only [classNameIn?, based.isClass_iff.mpr ⟨_, pair.classAt?_index⟩, hfetch,
    pair.isMetaclass_cls based, based.symbolName?_eq hsymbol, Bool.not_true, Bool.false_eq_true, if_false]

/-- The same where enough steps are allowed. -/
lemma className?_cls (pair : m.HasPair s p) (based : m.Based s) : m.className? p.cls = some p.name :=
  pair.classNameIn?_cls based _

/-- The metaclass goes by the name of the class. -/
lemma className?_metaclass (pair : m.HasPair s p) (based : m.Based s) :
    m.className? p.metaclass = some (p.name ++ " class") := by
  obtain ⟨steps, hsize⟩ : ∃ steps, m.classTable.size = steps + 1 := by
    exact Nat.exists_eq_succ_of_ne_zero (Nat.ne_zero_of_lt (lt_size_of_classAt? pair.classAt?_index))
  rw [className?, hsize, classNameIn?]
  simp only [based.isClass_iff.mpr ⟨_, pair.classAt?_metaIndex⟩, (pair.fetch_metaclass based).2,
    pair.isMetaclass_metaclass based, pair.classNameIn?_cls based, Bool.not_true, Bool.false_eq_true,
    if_false, if_true, Option.map_some]

/-- A pair stays one, with other superclasses if these have been replaced. -/
lemma keep (pair : m.HasPair s p) (evolves : m.Evolves scope s m' s')
    (reparents : s.Reparents changed s') : m'.HasPair s' (p.reparented changed) := by
  obtain ⟨o, dictionary, symbol, ho, hclass, hhash, hslots, hsymbol⟩ := pair.object
  obtain ⟨oMeta, dictionary', format, hoMeta, hclassMeta, hhashMeta, hslotsMeta⟩ := pair.metaObject
  have hbehavior : ClassIndex.metaclass ≤ p.metaIndex := Nat.le_of_succ_le pair.dynamic
  obtain ⟨o', ho', hshape, hslots'⟩ := reparents.kept ho (hclass ▸ hbehavior) hslots
  obtain ⟨oMeta', hoMeta', hshapeMeta, hslotsMeta'⟩ := reparents.kept hoMeta hclassMeta.ge hslotsMeta
  exact ⟨evolves.classAt?_of pair.classAt?_index, evolves.classAt?_of pair.classAt?_metaIndex,
    pair.dynamic, ⟨o', dictionary, symbol, ho', hshape.classIndex.trans hclass,
      hshape.hash.trans hhash, hslots', evolves.symbol hsymbol⟩,
    ⟨oMeta', dictionary', format, hoMeta', hshapeMeta.classIndex.trans hclassMeta,
      hshapeMeta.hash.trans hhashMeta, hslotsMeta'⟩⟩

end HasPair

/-! ### Another pair -/

/-- Whether a machine has come out of changes by which a pair of new objects was entered, and no
superclass has been replaced. -/
structure Admits (p : ClassPair) (m : Machine) (s : ObjectMap) (m' : Machine) (s' : ObjectMap) :
    Prop where
  evolves : m.Evolves .any s m' s'
  reparents : s.Reparents (fun _ => none) s'
  classAt?_eq : ∀ place, m'.classAt? place =
    if place = p.metaIndex then some p.metaclass
    else if place = p.index then some p.cls else m.classAt? place
  hasPair : m'.HasPair s' p
  free : m.classAt? p.index = none
  metaFree : m.classAt? p.metaIndex = none

namespace Admits

variable (h : m.Admits p s m' s')
include h

/-- The other pairs stay. -/
lemma hasPair_of (pair : m.HasPair s q) : m'.HasPair s' q :=
  pair.keep h.evolves h.reparents

/-- What stands in the table was there before, or is of the new pair. -/
lemma classAt?_cases (hat : m'.classAt? place = some value) :
    m.classAt? place = some value ∨ p.Includes place value := by
  rw [h.classAt?_eq] at hat
  split at hat
  · exact .inr (.inr ⟨‹_›, (Option.some.inj hat).symm⟩)
  · split at hat
    · exact .inr (.inl ⟨‹_›, (Option.some.inj hat).symm⟩)
    · exact .inl hat

end Admits

/-! ### All pairs -/

/-- Whether each class in the table belongs to a pair with a property. -/
def Paired (m : Machine) (s : ObjectMap) (P : ClassPair → Prop) : Prop :=
  ∀ place value, m.classAt? place = some value →
    ∃ p, m.HasPair s p ∧ p.Includes place value ∧ P p

namespace Paired

variable {P P' : ClassPair → Prop}

/-- A weaker property. -/
lemma imp (paired : m.Paired s P) (h : ∀ p, m.HasPair s p → P p → P' p) : m.Paired s P' := by
  intro place value hat
  obtain ⟨p, pair, hincludes, hP⟩ := paired _ _ hat
  exact ⟨p, pair, hincludes, h p pair hP⟩

/-- Each class belongs to a pair again when superclasses have been replaced. -/
theorem rewires (paired : m.Paired s P) (h : m.Rewires changed s m' s')
    (hP : ∀ p, m.HasPair s p → P p → P' (p.reparented changed)) : m'.Paired s' P' := by
  intro place value hat
  obtain ⟨p, pair, hincludes, hp⟩ := paired _ _ ((h.classAt?_eq place).symm.trans hat)
  exact ⟨p.reparented changed, pair.keep h.evolves h.reparents, hincludes, hP p pair hp⟩

/-- Each class belongs to a pair again when another pair has been entered. -/
theorem admits (paired : m.Paired s P) (h : m.Admits q s m' s')
    (hP : ∀ p, m.HasPair s p → P p → P' p) (hq : P' q) : m'.Paired s' P' := by
  intro place value hat
  rcases h.classAt?_cases hat with hold | hincludes
  · obtain ⟨p, pair, hincludes, hp⟩ := paired _ _ hold
    exact ⟨p, h.hasPair_of pair, hincludes, hP p pair hp⟩
  · exact ⟨q, h.hasPair, hincludes, hq⟩

variable (paired : m.Paired s P) (based : m.Based s)
include paired based

/-- A class that is no metaclass is the class of a pair. -/
lemma exists_of_ordinary (hordinary : m.Ordinary cls) : ∃ p, m.HasPair s p ∧ p.cls = cls ∧ P p := by
  obtain ⟨index, hat⟩ := based.isClass_iff.mp hordinary.1
  obtain ⟨p, pair, ⟨-, rfl⟩ | ⟨-, rfl⟩, hp⟩ := paired _ _ hat
  · exact ⟨p, pair, rfl, hp⟩
  · exact absurd (pair.isMetaclass_metaclass based) (by simp [hordinary.2])

/-- A metaclass is the metaclass of a pair. -/
lemma exists_of_isMetaclass (hmeta : m.isMetaclass cls = true) :
    ∃ p, m.HasPair s p ∧ p.metaclass = cls ∧ P p := by
  obtain ⟨index, hat⟩ := based.isClass_iff.mp (isClass_of_isMetaclass hmeta)
  obtain ⟨p, pair, ⟨-, rfl⟩ | ⟨-, rfl⟩, hp⟩ := paired _ _ hat
  · rw [pair.isMetaclass_cls based] at hmeta
    cases hmeta
  · exact ⟨p, pair, rfl, hp⟩

/-- A class at a fixed index is no metaclass. -/
lemma ordinary_of_lt (hat : m.classAt? index = some cls) (hindex : index < ClassIndex.firstDynamic) :
    m.Ordinary cls := by
  obtain ⟨p, pair, ⟨-, rfl⟩ | ⟨rfl, -⟩, -⟩ := paired _ _ hat
  · exact pair.ordinary based
  · exact absurd hindex (Nat.not_lt.mpr pair.dynamic)

end Paired

end Machine

end TalkMachine
