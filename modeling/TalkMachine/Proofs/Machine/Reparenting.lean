import TalkMachine.Proofs.Machine.Inheritance
import TalkMachine.Proofs.Machine.Making

/-!
# Classes and what is stored into them

Once it has been filled, a class is stored into for one purpose only: to give it another superclass.
`ObjectMap.Reparents` says that classes have kept all other slots, and which superclasses have been
replaced; a change that alters no class replaces none. Giving a class another superclass replaces
that of its metaclass along with it (`Machine.ensures_setSuperclass`), whatever the two classes are,
metaclasses included. Method dictionaries can be changed without a store into a class
(`Machine.ensures_addMethod`), as long as each of them is a table.
-/

namespace TalkMachine

/-! ### Replaced superclasses -/

namespace ObjectMap

variable {s s' s'' : ObjectMap} {cls value : Value} {o o' : Object}
  {changed changed' : Value → Option Value} {allowed : Value → ℕ → Prop} {made : ℕ → Prop}

/-- Whether classes have kept their slots, apart from superclasses that are listed with what has
replaced them. -/
structure Reparents (changed : Value → Option Value) (s s' : ObjectMap) : Prop where
  kept : ∀ {cls : Value} {o : Object} {superclass : Value} {rest : List Value},
    s.objects cls = some o → ClassIndex.metaclass ≤ o.classIndex → o.HasSlots (superclass :: rest) →
    ∃ o', s'.objects cls = some o' ∧ o.SameShape o' ∧
      o'.HasSlots ((changed cls).getD superclass :: rest)

namespace Reparents

/-- Nothing is replaced. -/
lemma refl (s : ObjectMap) : s.Reparents (fun _ => none) s :=
  ⟨fun ho _ hslots => ⟨_, ho, .refl _, hslots⟩⟩

/-- One change after the other. The later superclass counts. -/
lemma trans (h : s.Reparents changed s') (h' : s'.Reparents changed' s'') :
    s.Reparents (fun cls => (changed' cls).or (changed cls)) s'' := by
  refine ⟨fun {cls o superclass rest} ho hclass hslots => ?_⟩
  obtain ⟨o', ho', hshape, hslots'⟩ := h.kept ho hclass hslots
  obtain ⟨o'', ho'', hshape', hslots''⟩ := h'.kept ho' (hshape.classIndex.symm ▸ hclass) hslots'
  refine ⟨o'', ho'', hshape.trans hshape', ?_⟩
  cases hchanged : changed' cls <;> rw [hchanged] at hslots'' <;> exact hslots''

/-- A change after one that has replaced no superclass. -/
lemma trans_left (h : s.Reparents (fun _ => none) s') (h' : s'.Reparents changed s'') :
    s.Reparents changed s'' := by
  have htrans := h.trans h'
  simp only [Option.or_none] at htrans
  exact htrans

/-- A store into the first slot of a class replaces its superclass. -/
lemma put_superclass (ho : s.objects cls = some o) (hwell : o.WellFormed)
    (hok : o.storeWord cls ClassSlot.superclass value.raw = .ok ((), o')) :
    s.Reparents (fun other => if other = cls then some value else none) (s.put cls o') := by
  refine ⟨fun {other p superclass rest} hp _ hslots => ?_⟩
  by_cases hsame : other = cls
  · subst hsame
    obtain rfl := Option.some.inj (ho.symm.trans hp)
    rw [if_pos rfl]
    exact ⟨o', objects_put_self s other o', Object.sameShape_storeWord hok,
      (hslots.storeWord hwell hok).2⟩
  · rw [if_neg hsame]
    exact ⟨p, (objects_put_of_ne s hsame o').trans hp, .refl p, hslots⟩

end Reparents

/-- A change that alters no class replaces no superclass. -/
lemma Alters.reparents (h : s.Alters allowed made s')
    (hbelow : ∀ {cls o}, s.objects cls = some o → allowed cls o.classIndex →
      o.classIndex < ClassIndex.metaclass) : s.Reparents (fun _ => none) s' :=
  ⟨fun {_ o _ _} ho hclass hslots =>
    ⟨o, h.objects_eq ho fun hallowed => absurd (hbelow ho hallowed) (Nat.not_lt.mpr hclass), .refl o,
      hslots⟩⟩

end ObjectMap

namespace Machine

variable {m m' : Machine} {s s' : ObjectMap} {cls value superclass metaclass : Value} {o : Object}
  {index : ℕ} {changed : Value → Option Value} {scope : Scope}

/-! ### Changes of superclasses only -/

/-- A class stays one, with the same class. -/
lemma Evolves.classOf_eq (h : m.Evolves scope s m' s') (based : m.Based s)
    (hclass : m.isClass cls = true) (hclassOf : m.classOf cls = .ok metaclass) :
    m'.isClass cls = true ∧ m'.classOf cls = .ok metaclass := by
  obtain ⟨index, hat⟩ := based.isClass_iff.mp hclass
  obtain ⟨o, ho, -⟩ := based.table hat
  obtain ⟨o', ho', hshape⟩ := h.alters.toKeeps.shape ho
  refine ⟨h.based.isClass_iff.mpr ⟨index, h.classAt?_of hat⟩, (h.based.classOf_eq_ok_iff ho').mpr ?_⟩
  rw [hshape.classIndex]
  exact h.classAt?_of ((based.classOf_eq_ok_iff ho).mp hclassOf)

/-- A class stays a metaclass, or none. -/
lemma Evolves.isMetaclass_eq (h : m.Evolves scope s m' s') (based : m.Based s)
    (hclass : m.isClass cls = true) : m'.isMetaclass cls = m.isMetaclass cls := by
  obtain ⟨index, hat⟩ := based.isClass_iff.mp hclass
  obtain ⟨o, ho, -⟩ := based.table hat
  obtain ⟨o', ho', hshape⟩ := h.alters.toKeeps.shape ho
  rw [h.based.isMetaclass_eq (h.classAt?_of hat) ho', based.isMetaclass_eq hat ho, hshape.classIndex]

/-- The scope that excludes nothing. -/
def Scope.any : Scope :=
  ⟨fun _ _ => True, fun _ => True, True, False⟩

/-- Any change stays within the scope that excludes nothing. -/
lemma Evolves.any (h : m.Evolves scope s m' s') : m.Evolves .any s m' s' :=
  h.mono (fun _ _ => trivial) (fun _ _ => trivial) (fun _ => trivial) False.elim

/-- Whether a machine has come out of changes by which no class was entered, and which superclasses
have been replaced. -/
structure Rewires (changed : Value → Option Value) (m : Machine) (s : ObjectMap) (m' : Machine)
    (s' : ObjectMap) : Prop where
  evolves : m.Evolves .any s m' s'
  reparents : s.Reparents changed s'
  classAt?_eq : ∀ index, m'.classAt? index = m.classAt? index

/-- A change that alters no class and enters none. -/
lemma Evolves.rewires (h : m.Evolves scope s m' s')
    (hbelow : ∀ {cls o}, s.objects cls = some o → scope.alters cls o.classIndex →
      o.classIndex < ClassIndex.metaclass) (hdefines : ¬scope.defines) :
    m.Rewires (fun _ => none) s m' s' :=
  ⟨h.any, h.alters.reparents hbelow, h.classAt?_eq hdefines⟩

/-! ### Stores into a class -/

/-- A store into a class spares method dictionaries unless it replaces one by what is none. -/
lemma ensures_storeClass (based : m.Based s) (ho : s.objects cls = some o)
    (hclass : ClassIndex.metaclass ≤ o.classIndex) (halters : scope.alters cls o.classIndex)
    (index : ℕ) (value : Value)
    (hvalue : index = ClassSlot.methodDictionary → value = s.nil ∨ s.IsTable value) :
    Ensures (Evolves scope) (change (Heap.store cls index value)) m s fun _ m' s' =>
      m' = m.withHeap m'.heap ∧ ∃ o', o.storeWord cls index value.raw = .ok ((), o') ∧
        s' = s.put cls o' := by
  have hstore : Ensures (fun _ s h' s' => h'.Represents s' ∧ (s' = s ∨
      ∃ o', o.storeWord cls index value.raw = .ok ((), o') ∧ s' = s.put cls o'))
      (Heap.store cls index value) m.heap s fun _ _ s' =>
        ∃ o', o.storeWord cls index value.raw = .ok ((), o') ∧ s' = s.put cls o' :=
    Heap.ensures_change ho (Heap.agree_store based.rep ho index value)
      (fun rep' => ⟨rep', .inl rfl⟩) fun hok rep' => ⟨⟨rep', .inr ⟨_, hok, rfl⟩⟩, _, hok, rfl⟩
  refine (ensures_change hstore fun {h' s'} hs => ?_).imp fun _ _ _ _ hQ => ⟨hQ.1, hQ.2.2⟩
  obtain ⟨rep', rfl | ⟨o', hok, rfl⟩⟩ := hs
  · exact based.evolves (.withHeap m h') rep' (.refl _) fun _ sheltered => sheltered
  · have alters : s.Alters scope.alters scope.makes (s.put cls o') :=
      .put ho (Object.sameShape_storeWord hok) (Object.flags_storeWord hok) halters
        (Heap.mutable_of_storeWord hok)
    refine based.evolves (.withHeap m h') rep' alters fun _ sheltered place other hat => ?_
    have htable : ∀ d, s.IsTable d → (s.put cls o').IsTable d := fun d hd =>
      hd.keep alters.toKeeps fun p hp htable => by
        rw [ObjectMap.objects_put_of_ne, hp]
        rintro rfl
        obtain rfl := Option.some.inj (ho.symm.trans hp)
        rw [htable] at hclass
        exact absurd hclass (by decide)
    by_cases hsame : other = cls
    · subst hsame
      obtain ⟨_, superclass, dictionary, format, name, hother, -, hslots, hdictionary⟩ :=
        sheltered hat
      obtain rfl := Option.some.inj (ho.symm.trans hother)
      obtain ⟨hindex, hslots'⟩ := hslots.storeWord (based.rep.holds ho).wellFormed hok
      have ho' := ObjectMap.objects_put_self s other o'
      have hclass' := (Object.sameShape_storeWord hok).classIndex.symm ▸ hclass
      have hdictionary' := hdictionary.imp_right (htable dictionary)
      match index, hindex, hvalue, hslots' with
      | 0, _, _, hslots' =>
        exact ⟨o', value, dictionary, format, name, ho', hclass', hslots', hdictionary'⟩
      | 1, _, hvalue, hslots' => exact ⟨o', superclass, value, format, name, ho', hclass', hslots',
          (hvalue rfl).imp_right (htable value)⟩
      | 2, _, _, hslots' =>
        exact ⟨o', superclass, dictionary, value, name, ho', hclass', hslots', hdictionary'⟩
      | 3, _, _, hslots' =>
        exact ⟨o', superclass, dictionary, format, value, ho', hclass', hslots', hdictionary'⟩
    · exact (sheltered hat).keep alters.toKeeps
        (fun p hp _ => (ObjectMap.objects_put_of_ne s hsame o').trans hp) htable

/-- Giving a class in the table another superclass by itself. -/
lemma ensures_storeSuperclass (based : m.Based s) (hat : m.classAt? index = some cls)
    (halters : ∀ value index, ClassIndex.metaclass ≤ index → scope.alters value index)
    (superclass : Value) :
    Ensures (Evolves scope) (change (Heap.store cls ClassSlot.superclass superclass)) m s
      fun _ m' s' => m' = m.withHeap m'.heap ∧
        s.Reparents (fun other => if other = cls then some superclass else none) s' := by
  obtain ⟨o, ho, -, hclass⟩ := based.table hat
  refine (ensures_storeClass based ho hclass (halters _ _ hclass) ClassSlot.superclass superclass
    fun hindex => absurd hindex (by decide)).imp ?_
  rintro _ m' _ - ⟨heq, o', hok, rfl⟩
  exact ⟨heq, .put_superclass ho (based.rep.holds ho).wellFormed hok⟩

/-- What a change of superclass replaces: that of the class, and that of its metaclass unless the
class is a metaclass itself. -/
def Reparented (m : Machine) (cls superclass metaSuperclass : Value)
    (changed : Value → Option Value) : Prop :=
  (m.isMetaclass cls = true ∧ changed = fun other => if other = cls then some superclass else none) ∨
    (m.isMetaclass cls = false ∧ ∃ metaclass, m.classOf cls = .ok metaclass ∧ changed = fun other =>
      if other = metaclass then some metaSuperclass
      else if other = cls then some superclass else none)

/-- Whether a class has been given another superclass, and its metaclass the one that goes with it. -/
def Redirects (cls superclass : Value) (m : Machine) (s : ObjectMap) (m' : Machine)
    (s' : ObjectMap) : Prop :=
  m.isClass cls = true ∧ ∃ metaSuperclass changed,
    m.metaSuperclass cls superclass = .ok metaSuperclass ∧
    m.Reparented cls superclass metaSuperclass changed ∧ m.Rewires changed s m' s'

/-- Giving a class another superclass. -/
theorem ensures_setSuperclass (based : m.Based s)
    (halters : ∀ value index, ClassIndex.metaclass ≤ index → scope.alters value index)
    (cls superclass : Value) :
    Ensures (Evolves scope) (setSuperclass cls superclass) m s fun _ m' s' =>
      m.Redirects cls superclass s m' s' := by
  rw [setSuperclass]
  refine ensures_ask_bind based fun _ hexpect => ?_
  have hclass := expectClass_eq_ok_iff.mp hexpect
  obtain ⟨index, hat⟩ := based.isClass_iff.mp hclass
  refine ensures_ask_bind based fun metaSuperclass hmeta => ?_
  refine Evolves.bind (ensures_storeSuperclass based hat halters superclass) ?_
  rintro _ m₁ s₁ he₁ ⟨heq₁, hreparents₁⟩
  have hat₁ : m₁.classAt? index = some cls := he₁.classAt?_of hat
  have hplaces₁ : ∀ index, m₁.classAt? index = m.classAt? index := fun _ => heq₁ ▸ rfl
  obtain ⟨o, ho, -⟩ := based.table hat
  obtain ⟨o₁, ho₁, hshape⟩ := he₁.alters.toKeeps.shape ho
  refine ensures_ask_bind he₁.based fun isMetaclass hask => ?_
  obtain rfl := Except.ok.inj hask
  rw [he₁.isMetaclass_eq based hclass]
  cases hcase : m.isMetaclass cls with
  | true =>
    exact .pure (.refl he₁.based) ⟨hclass, metaSuperclass, _, hmeta, .inl ⟨hcase, rfl⟩, he₁.any,
      hreparents₁, hplaces₁⟩
  | false =>
    refine ensures_ask_bind he₁.based fun metaclass hclassOf₁ => ?_
    obtain ⟨metaIndex, hmetaAt⟩ := exists_classAt?_of_classOf hclassOf₁
    have hclassOf : m.classOf cls = .ok metaclass := by
      rw [he₁.based.classOf_eq_ok_iff ho₁, hshape.classIndex, hplaces₁] at hclassOf₁
      exact (based.classOf_eq_ok_iff ho).mpr hclassOf₁
    refine (ensures_storeSuperclass he₁.based hmetaAt halters metaSuperclass).imp ?_
    rintro _ m₂ s₂ he₂ ⟨heq₂, hreparents₂⟩
    refine ⟨hclass, metaSuperclass, _, hmeta, .inr ⟨hcase, metaclass, hclassOf, rfl⟩,
      (he₁.trans he₂).any, ?_, fun index => ?_⟩
    · convert hreparents₁.trans hreparents₂ using 2
      split <;> simp only [Option.some_or, Option.none_or]
    · rw [heq₂]
      exact hplaces₁ index

/-! ### Method dictionaries -/

/-- Whether method dictionaries may be changed within a scope. -/
structure Scope.Tends (scope : Scope) : Prop where
  alters : ∀ value index, index < ClassIndex.metaclass → scope.alters value index
  makes : ∀ index, ClassIndex.symbol < index → scope.makes index

/-- The scope in which method dictionaries are changed and classes are not. -/
def Scope.tending : Scope :=
  ⟨fun _ index => index < ClassIndex.metaclass, fun index => ClassIndex.symbol < index, False, True⟩

/-- Method dictionaries may be changed there. -/
lemma Scope.tends_tending : Scope.tending.Tends :=
  ⟨fun _ _ => id, fun _ => id⟩

/-- A change that tends to tables. -/
lemma Based.evolves_tended (based : m.Based s) (tends : scope.Tends) {h' : Heap}
    (ht : Heap.Tended s h' s') : m.Evolves scope s (m.withHeap h') s' := by
  refine based.evolves (.withHeap m h') ht.rep (ht.alters.mono (fun _ => tends.alters _ _) ?_)
    fun _ sheltered => sheltered.keep (.withHeap m h') ht.alters.toKeeps (fun _ ho hclass =>
      ht.alters.objects_eq ho fun hbelow => absurd hbelow (Nat.not_lt.mpr hclass)) ht.isTable
  rintro _ (rfl | rfl) <;> exact tends.makes _ (by decide)

/-- A new method dictionary. -/
lemma ensures_newDictionary (based : m.Based s) (tends : scope.Tends) (capacity : ℕ) :
    Ensures (Evolves scope) (onHeap (Dictionary.new capacity)) m s fun dictionary m' s' =>
      m' = m.withHeap m'.heap ∧ s'.IsTable dictionary ∧
        s.Alters (fun _ index => index < ClassIndex.metaclass) (fun _ => True) s' :=
  (ensures_onHeap (Dictionary.staysTended_new based.rep based.isPlain_nil capacity)
    (based.evolves_tended tends)).imp fun _ _ _ _ ⟨heq, ht, htable⟩ =>
      ⟨heq, htable, ht.alters.mono (fun _ => id) fun _ _ => trivial⟩

/-- Setting the value of a key in what is nil, which is refused, or a table. -/
lemma ensures_insert (based : m.Based s) (tends : scope.Tends) {dictionary : Value}
    (htable : dictionary = m.nil ∨ s.IsTable dictionary) (key value : Value) :
    Ensures (Evolves scope) (onHeap (Dictionary.insert dictionary key value)) m s
      fun _ _ s' => s'.IsTable dictionary ∧
        s.Alters (fun _ index => index < ClassIndex.metaclass) (fun _ => True) s' := by
  rcases htable with rfl | htable
  · have hkeys : Dictionary.keys m.heap m.nil =
        .error (.heap (.indexOutOfBounds m.nil Dictionary.keysSlot 0)) := by
      rw [Dictionary.keys, based.fetch_nil]
      rfl
    have hinsert : onHeap (Dictionary.insert m.nil key value) m =
        .error (.heap (.indexOutOfBounds m.nil Dictionary.keysSlot 0)) m := by
      simp only [onHeap, Dictionary.insert_eq_error hkeys]
    rw [Ensures, hinsert]
    exact ⟨s, .refl based⟩
  · refine (ensures_onHeap (Dictionary.staysTended_insert based.rep based.isPlain_nil htable key value)
      (based.evolves_tended tends)).imp ?_
    rintro _ m' s' - ⟨-, ht, -⟩
    exact ⟨ht.isTable _ htable, ht.alters.mono (fun _ => id) fun _ _ => trivial⟩

/-- Putting a method into a class. -/
theorem ensures_addMethod (based : m.Based s) (sheltered : m.Sheltered s) (tends : scope.Tends)
    (cls selector method : Value) :
    Ensures (Evolves scope) (addMethod cls selector method) m s fun _ _ _ => True := by
  rw [addMethod]
  exact ensures_ask_bind based fun dictionary hdictionary => (ensures_insert based tends
    (based.isTable_of_methodDictionary sheltered hdictionary) selector method).imp
      fun _ _ _ _ _ => trivial

end Machine

end TalkMachine
