import TalkMachine.Proofs.Machine.Classification
import TalkMachine.Proofs.Machine.Definitions
import TalkMachine.Proofs.Machine.Interning

/-!
# What instances of a class look like

A class keeps in one integer what its instances look like. This has 16 bits for the number of named
fields, so that it is read back as it was written just when the number fits
(`InstanceSpec.unpack?_pack_iff`). Then a class is what it was defined as, and so are its instances, in
whatever machine it was defined, and as long as the integer is not replaced
(`Machine.Arises.isDefinedAs`): operations that spare classes leave all slots of a class as they are,
apart from its superclass, also where they are refused (`Operation.exists_retains`). A larger number is
not refused, however, and the instances have other fields than they were to have
(`Machine.exists_truncated`).
-/

namespace TalkMachine

open Machine

/-! ### Packed specifications -/

namespace InstanceSpec

variable {spec : InstanceSpec}

/-- A number of named fields that has been read has 16 bits. -/
lemma fixedFields_lt_of_unpack? {value : Value} (h : unpack? value = some spec) :
    spec.fixedFields < 2 ^ 16 := by
  simp only [unpack?, Option.bind_eq_bind, Option.bind_eq_some_iff] at h
  obtain ⟨n, -, found, -, hspec⟩ := h
  obtain rfl := Option.some.inj hspec
  dsimp only
  omega

/-- A specification is read back if the number of its named fields has 16 bits. -/
lemma unpack?_pack (hfields : spec.fixedFields < 2 ^ 16) : unpack? spec.pack = some spec := by
  obtain ⟨format, fields⟩ := spec
  replace hfields : fields < 2 ^ 16 := hfields
  have hcode : format.baseCode < 32 := ObjectFormat.code_lt format.divisor_pos
  have hor : format.baseCode * 0x10000 ||| fields = format.baseCode * 0x10000 + fields := by
    rw [Nat.mul_comm, ← Nat.two_pow_add_eq_or_of_lt hfields]
  obtain ⟨n, hn⟩ : ∃ n : ℕ, n = format.baseCode * 0x10000 + fields := ⟨_, rfl⟩
  have hint : (pack ⟨format, fields⟩).toInt? = some (n : ℤ) := by
    rw [pack, hor, ← hn, Value.toInt?_ofInt_natCast (by omega)]
  have hformat : ((n : ℤ) / 0x10000 % 0x100).toNat = format.code 0 := by
    rw [ObjectFormat.code]
    omega
  have hfixed : ((n : ℤ) % 0x10000).toNat = fields := by
    omega
  simp only [unpack?, hint, Option.bind_eq_bind, Option.bind_some, hformat, hfixed,
    ObjectFormat.ofCode?_code format.divisor_pos]
  rfl

/-- A specification is read back just when the number of its named fields has 16 bits. -/
theorem unpack?_pack_iff : unpack? spec.pack = some spec ↔ spec.fixedFields < 2 ^ 16 :=
  ⟨fixedFields_lt_of_unpack?, unpack?_pack⟩

/-- More named fields are cut off without a word. -/
example : unpack? (pack ⟨.fixedSize, 65541⟩) = some ⟨.fixedSize, 5⟩ := by decide

end InstanceSpec

namespace Machine

variable {m m' m'' : Machine} {s s' s'' : ObjectMap} {cls : Value} {scope : Scope} {index : ℕ}

/-! ### Classes that keep their slots -/

/-- Whether a machine has come out of changes that spare classes, and each class that was in the table
has kept all its slots apart from its superclass. -/
structure Retains (m : Machine) (s : ObjectMap) (m' : Machine) (s' : ObjectMap) : Prop where
  evolves : m.Evolves .sparing s m' s'
  kept : ∀ {index : ℕ} {cls superclass : Value} {rest : List Value}, m.classAt? index = some cls →
    s.HasSlots cls (superclass :: rest) → ∃ superclass', s'.HasSlots cls (superclass' :: rest)

namespace Retains

/-- Nothing is changed. -/
lemma refl (based : m.Based s) : m.Retains s m s :=
  ⟨.refl based, fun _ hslots => ⟨_, hslots⟩⟩

/-- One change after the other. -/
lemma trans (h : m.Retains s m' s') (h' : m'.Retains s' m'' s'') : m.Retains s m'' s'' := by
  refine ⟨h.evolves.trans h'.evolves, fun hat hslots => ?_⟩
  obtain ⟨_, hslots'⟩ := h.kept hat hslots
  exact h'.kept (h.evolves.classAt?_of hat) hslots'

/-- One change after the other leads on. -/
lemma bind {α β : Type} {x : MachineM α} {f : α → MachineM β} {Q : α → Machine → ObjectMap → Prop}
    {R : β → Machine → ObjectMap → Prop} (hx : Ensures Retains x m s Q)
    (hf : ∀ a m' s', m.Retains s m' s' → Q a m' s' → Ensures Retains (f a) m' s' R) :
    Ensures Retains (x >>= f) m s R :=
  Ensures.bind (fun h h' => h.trans h') hx hf

/-- A change by which superclasses are replaced at most. -/
lemma of_reparents {changed : Value → Option Value} (based : m.Based s)
    (he : m.Evolves scope s m' s') (hspares : scope.spares) (hreparents : s.Reparents changed s') :
    m.Retains s m' s' := by
  refine ⟨he.mono (fun _ _ => trivial) (fun _ _ => trivial) (fun _ => trivial) fun _ => hspares,
    fun {index cls superclass rest} hat ⟨o, ho, hslots⟩ => ?_⟩
  obtain ⟨_, hsame, -, hclass⟩ := based.table hat
  obtain rfl := Option.some.inj (ho.symm.trans hsame)
  obtain ⟨o', ho', -, hslots'⟩ := hreparents.kept ho hclass hslots
  exact ⟨_, o', ho', hslots'⟩

/-- A change by which no class is altered. -/
lemma of_evolves (based : m.Based s) (he : m.Evolves scope s m' s') (hspares : scope.spares)
    (hnot : ∀ {index cls}, m.classAt? index = some cls → ∀ index', ClassIndex.metaclass ≤ index' →
      ¬scope.alters cls index') : m.Retains s m' s' := by
  refine ⟨he.mono (fun _ _ => trivial) (fun _ _ => trivial) (fun _ => trivial) fun _ => hspares,
    fun {index cls superclass rest} hat ⟨o, ho, hslots⟩ => ?_⟩
  obtain ⟨_, hsame, -, hclass⟩ := based.table hat
  obtain rfl := Option.some.inj (ho.symm.trans hsame)
  exact ⟨superclass, o, he.alters.objects_eq ho fun halters => absurd halters (hnot hat _ hclass),
    hslots⟩

end Retains

/-- Giving a class in the table another superclass by itself. -/
lemma retains_storeSuperclass (based : m.Based s) (hat : m.classAt? index = some cls)
    (superclass : Value) :
    Ensures Retains (change (Heap.store cls ClassSlot.superclass superclass)) m s
      fun _ _ _ => True := by
  have hstored : Ensures (Evolves .sparing) _ m s _ :=
    ensures_storeSuperclass based hat (fun _ _ _ => trivial) superclass
  rw [Ensures] at hstored ⊢
  cases hrun : change (Heap.store cls ClassSlot.superclass superclass) m with
  | error e m' =>
    rw [state_eq_of_change_error Heap.state_eq_of_store_error hrun]
    exact ⟨s, .refl based⟩
  | ok _ m' =>
    rw [hrun] at hstored
    obtain ⟨s', he, -, hreparents⟩ := hstored
    exact ⟨s', .of_reparents based he trivial hreparents, trivial⟩

/-- Giving a class another superclass, and its metaclass the one that goes with it. -/
lemma retains_setSuperclass (based : m.Based s) (cls superclass : Value) :
    Ensures Retains (setSuperclass cls superclass) m s fun _ _ _ => True := by
  rw [setSuperclass]
  refine ensures_ask_bind_of_refl (.refl based) fun _ hexpect => ?_
  obtain ⟨index, hat⟩ := based.isClass_iff.mp (expectClass_eq_ok_iff.mp hexpect)
  refine ensures_ask_bind_of_refl (.refl based) fun metaSuperclass _ => ?_
  refine Retains.bind (retains_storeSuperclass based hat superclass) fun _ m₁ s₁ h₁ _ => ?_
  have based₁ := h₁.evolves.based
  refine ensures_ask_bind_of_refl (.refl based₁) fun isMetaclass _ => ?_
  cases isMetaclass with
  | true => exact .pure (.refl based₁) trivial
  | false =>
    refine ensures_ask_bind_of_refl (.refl based₁) fun metaclass hclassOf => ?_
    obtain ⟨metaIndex, hmetaAt⟩ := exists_classAt?_of_classOf hclassOf
    exact retains_storeSuperclass based₁ hmetaAt metaSuperclass

/-- Making a class at a free index. -/
lemma retains_createClass (based : m.Based s) (hlt : index < m.classTable.size)
    (hmax : index ≤ Header.maxClassIndex) (hfree : m.classAt? index = none) (name : String)
    (superclass : Value) (spec : InstanceSpec) :
    Ensures Retains (createClass index name superclass spec) m s fun _ _ _ => True := by
  have hnew : ∀ {index cls}, m.classAt? index = some cls → ∀ index', ClassIndex.metaclass ≤ index' →
      ¬(Scope.beside s).alters cls index' := by
    rintro index cls hat index' hclass (hlt | hnone)
    · exact absurd hlt (Nat.not_lt.mpr hclass)
    · obtain ⟨o, ho, -⟩ := based.table hat
      rw [hnone] at ho
      cases ho
  rw [createClass_eq]
  refine ensures_ask_bind_of_refl (.refl based) fun _ _ => ?_
  refine Retains.bind ((ensures_makeClass based hlt hmax hfree name spec).mono fun _ _ he =>
    .of_evolves based he trivial hnew) fun cls m₁ s₁ h₁ _ => ?_
  exact Retains.bind (retains_setSuperclass h₁.evolves.based cls superclass) fun _ _ _ h₂ _ =>
    .pure (.refl h₂.evolves.based) trivial

/-- Defining a class. -/
lemma retains_defineClass (based : m.Based s) (name : String) (superclass : Value)
    (spec : InstanceSpec) :
    Ensures Retains (defineClass name superclass spec) m s fun _ _ _ => True := by
  have hreserve : Ensures (Evolves .entering) _ m s _ := ensures_reserveClassIndex based
  rw [defineClass]
  refine Retains.bind (hreserve.mono fun _ _ he => .of_evolves based he trivial fun _ _ _ => id) ?_
  rintro index m₁ s₁ h₁ ⟨-, rfl, rfl, hmax, hindex⟩
  refine retains_createClass h₁.evolves.based ?_ hmax ?_ name superclass spec
  · rw [size_classTable_grown]
    omega
  · rw [classAt?_grown]
    exact classAt?_of_size_le (hindex ▸ le_max_left _ _)

/-- The scope in which classes are left alone, but instances of classes and metaclasses are not. -/
def Scope.leaving (m : Machine) : Scope :=
  ⟨fun value index => index < ClassIndex.metaclass ∨ m.isClass value = false, fun _ => True, False, True⟩

/-- Method dictionaries may be changed there. -/
lemma Scope.tends_leaving (m : Machine) : (Scope.leaving m).Tends :=
  ⟨fun _ _ => .inl, fun _ _ => trivial⟩

end Machine

namespace Operation

variable {m : Machine} {s : ObjectMap} {op : Operation}

/-- By an operation that spares classes each class keeps all its slots apart from its superclass. -/
theorem exists_retains (based : m.Based s) (sheltered : m.Sheltered s) (hspares : op.SparesClasses m) :
    ∃ s', m.Retains s (stateAfter (op.run m)) s' := by
  have leaves (hfits : op.Fits (.leaving m) m s) : ∃ s', m.Retains s (stateAfter (op.run m)) s' := by
    obtain ⟨s', he⟩ := (ensures_run based hfits).exists_stateAfter
    refine ⟨s', .of_evolves based he trivial ?_⟩
    rintro index cls hat index' hclass (hlt | hnot)
    · exact absurd hlt (Nat.not_lt.mpr hclass)
    · rw [based.isClass_iff.mpr ⟨index, hat⟩] at hnot
      cases hnot
  cases op with
  | defineClass name superclass spec =>
    have hdefine := retains_defineClass based name superclass spec
    exact (Retains.bind (R := fun _ _ _ => True) hdefine fun _ _ _ h _ =>
      .pure (.refl h.evolves.based) trivial).exists_stateAfter
  | setSuperclass cls superclass =>
    exact (retains_setSuperclass based cls superclass).exists_stateAfter
  | native host send stack method receiver arguments =>
    obtain ⟨hkernel, contains, hstores⟩ := hspares
    refine leaves ⟨Scope.tends_leaving m, hkernel, fun _ _ _ => trivial, fun hstore => ?_⟩
    have hnot := hstores hstore
    refine contains.mayStore based (fun _ => .inr ?_) fun _ => hnot
    exact Bool.eq_false_iff.mpr fun hclass => hnot (.inl hclass)
  | addMethod | installNatives => exact leaves ⟨Scope.tends_leaving m, sheltered⟩
  | newString | newArray | newAssociation => exact leaves (Scope.tends_leaving m)
  | intern => exact leaves trivial
  | instantiate => exact leaves fun _ _ => trivial

end Operation

namespace Machine

variable {m m' m₁ : Machine} {s : ObjectMap} {cls superclass value : Value} {name : String}
  {spec : InstanceSpec} {limit : ℕ}

/-- Any number of them. -/
theorem exists_retains_of_leads (based : m.Based s) (sheltered : m.Sheltered s)
    (steps : Relation.ReflTransGen (Leads Operation.SparesClasses) m m') :
    ∃ s', m.Retains s m' s' := by
  refine exists_of_leads (P := m.Retains s) steps (.refl based) ?_
  intro m₁ s₁ op h hspares
  obtain ⟨s', h'⟩ := op.exists_retains h.evolves.based (h.evolves.sheltered trivial sheltered) hspares
  exact ⟨s', h.trans h'⟩

/-! ### What has been defined -/

/-- Whether a class is what it was defined as: this is answered when it is asked, and each instance
that is made shows it. The slots of an instance, with the two words that may stand before them, are to
be counted in 64 bits. -/
structure IsDefinedAs (m : Machine) (cls : Value) (spec : InstanceSpec) : Prop where
  instanceSpec_eq : m.instanceSpec cls = .ok spec
  showsNew : ∀ {indexed : ℕ} {value : Value} {m' : Machine},
    spec.fixedFields + spec.format.slotsFor indexed < 2 ^ 64 - 2 →
    instantiate cls indexed m = .ok value m' →
      m'.classOf value = .ok cls ∧ ∃ classIndex hash fill,
        m'.heap.ShowsNew value spec.fixedFields indexed spec.format classIndex hash fill

/-- To make an instance is to allocate what the class says that it looks like. -/
lemma exists_allocates_of_instantiate (hbounded : m.heap.Bounded)
    (hspec : m.instanceSpec cls = .ok spec) {indexed : ℕ}
    (hok : instantiate cls indexed m = .ok value m') :
    ∃ index h', m.classAt? index = some cls ∧ m' = m.withHeap h' ∧
      m.heap.Allocates spec.fixedFields indexed spec.format index none value h' := by
  rw [instantiate] at hok
  obtain ⟨index, _, hask, hrest⟩ := run_bind_eq_ok_iff.mp hok
  obtain ⟨hindex, rfl⟩ := ask_eq_ok_iff.mp hask
  obtain ⟨-, hmake⟩ := run_guard_eq_ok_iff.mp hrest
  obtain ⟨found, _, hask', hchange⟩ := run_bind_eq_ok_iff.mp hmake
  obtain ⟨hfound, rfl⟩ := ask_eq_ok_iff.mp hask'
  obtain rfl := Except.ok.inj (hfound.symm.trans hspec)
  obtain ⟨h', hallocate, rfl⟩ := change_eq_ok_iff.mp hchange
  exact ⟨index, h', classAt?_of_classIndexOfClass hindex, rfl, hbounded.allocates_of_ok hallocate⟩

/-- A class whose instances look like it is what it was defined as. -/
lemma isDefinedAs_of_instanceSpec (hbounded : m.heap.Bounded)
    (hspec : m.instanceSpec cls = .ok spec) : m.IsDefinedAs cls spec := by
  refine ⟨hspec, fun {indexed value m'} _ hok => ?_⟩
  obtain ⟨index, h', hat, rfl, hallocates⟩ := exists_allocates_of_instantiate hbounded hspec hok
  have hshows := hallocates.showsNew (hallocates.bounded hbounded).usedBytes_lt
  exact ⟨(classOf_eq_ok_iff hshows.classIndexOf).mpr hat, _, _, _, hshows⟩

/-- The class that has been defined has the specification in its slot for that. -/
lemma exists_hasPair_of_defineClass (based : m.Based s)
    (hok : defineClass name superclass spec m = .ok cls m') :
    ∃ s' p, m.Evolves .building s m' s' ∧ m'.HasPair s' p ∧ p.cls = cls ∧ p.spec = spec ∧
      ClassIndex.firstDynamic ≤ p.index := by
  obtain ⟨s', he, index, hdynamic, hcreates⟩ :=
    (ensures_defineClass based name superclass spec).of_ok hok
  obtain ⟨p, admits, hcls, rfl, -, hspec, -⟩ := hcreates.exists_admits
  exact ⟨s', p, he, admits.hasPair, hcls, hspec, hdynamic⟩

/-- Where classes have been spared, a class that is defined keeps its slot for that as long as they are
spared. -/
lemma fetch_format_of_leads (based : m.Based s) (sheltered : m.Sheltered s)
    (hok : defineClass name superclass spec m = .ok cls m₁) {m₂ : Machine}
    (later : Relation.ReflTransGen (Leads Operation.SparesClasses) m₁ m₂) :
    m₂.heap.Bounded ∧ m₂.isClass cls = true ∧
      m₂.heap.fetch cls ClassSlot.format = .ok spec.pack := by
  obtain ⟨s₁, p, he₁, pair, rfl, rfl, -⟩ := exists_hasPair_of_defineClass based hok
  obtain ⟨o, dictionary, symbol, ho, -, -, hslots, -⟩ := pair.object
  obtain ⟨s₂, h₂⟩ := exists_retains_of_leads he₁.based (he₁.sheltered trivial sheltered) later
  have rep₂ := h₂.evolves.based.rep
  obtain ⟨superclass', hslots₂⟩ := h₂.kept pair.classAt?_index ⟨o, ho, hslots⟩
  exact ⟨.of_represents rep₂,
    h₂.evolves.based.isClass_iff.mpr ⟨_, h₂.evolves.classAt?_of pair.classAt?_index⟩,
    Heap.fetch_eq_of_hasSlots rep₂ hslots₂ rfl⟩

/-- In a machine that has arisen in any way, a class that is defined answers what it was defined as just
when the number of named fields has 16 bits. Then it is what it was defined as wherever its slot for
that holds what it holds now; and this stays so if classes have been spared and are spared, whatever
operations follow, refused ones among them. -/
theorem Arises.isDefinedAs (hlimit : limit < 2 ^ 64) (arises : m.Arises limit)
    (hok : defineClass name superclass spec m = .ok cls m₁) :
    (m₁.instanceSpec cls = .ok spec ↔ spec.fixedFields < 2 ^ 16) ∧
      (spec.fixedFields < 2 ^ 16 →
        (∀ m₂ : Machine, m₂.Arises limit → m₂.isClass cls = true →
          m₂.heap.fetch cls ClassSlot.format = m₁.heap.fetch cls ClassSlot.format →
          m₂.IsDefinedAs cls spec) ∧
        (Reached Operation.SparesClasses limit m →
          ∀ m₂, Relation.ReflTransGen (Leads Operation.SparesClasses) m₁ m₂ →
            m₂.IsDefinedAs cls spec)) := by
  rcases defineClass_cases (arises.isSound hlimit) name superclass spec with ⟨e, m', herror, -⟩ |
    ⟨cls', m', s', above, dictionary, symbol, hok', rep, hclass, hslots⟩
  · rw [herror] at hok
    cases hok
  obtain ⟨rfl, rfl⟩ := EStateM.Result.ok.inj (hok'.symm.trans hok)
  have hformat : m'.heap.fetch cls' ClassSlot.format = .ok spec.pack :=
    Heap.fetch_eq_of_hasSlots rep hslots rfl
  have hdefined : spec.fixedFields < 2 ^ 16 → ∀ m₂ : Machine, m₂.heap.Bounded →
      m₂.isClass cls' = true → m₂.heap.fetch cls' ClassSlot.format = .ok spec.pack →
      m₂.IsDefinedAs cls' spec := fun hfields m₂ hbounded₂ hclass₂ hformat₂ =>
    isDefinedAs_of_instanceSpec hbounded₂
      ((instanceSpec_eq_ok_iff hclass₂ hformat₂).mpr (InstanceSpec.unpack?_pack hfields))
  refine ⟨(instanceSpec_eq_ok_iff hclass hformat).trans InstanceSpec.unpack?_pack_iff,
    fun hfields => ⟨fun m₂ arises₂ hclass₂ hsame => ?_, fun ⟨m₀, hnew, steps⟩ m₂ later => ?_⟩⟩
  · exact hdefined hfields m₂ (arises₂.isSound hlimit).bounded hclass₂ (hsame.trans hformat)
  · obtain ⟨s₀, founded, -⟩ := exists_founded_of_new hlimit hnew
    obtain ⟨s, he⟩ := exists_evolves_of_leads founded.based founded.sheltered steps
    obtain ⟨hbounded₂, hclass₂, hformat₂⟩ := fetch_format_of_leads he.based
      (he.sheltered trivial founded.sheltered) hok later
    exact hdefined hfields m₂ hbounded₂ hclass₂ hformat₂

/-! ### Definitions in a fresh machine -/

/-- A fresh machine defines a class below Object and makes an instance of it, which looks like what is
read back from the class. -/
lemma exists_defined (name : String) (spec found : InstanceSpec)
    (hunpack : InstanceSpec.unpack? spec.pack = some found)
    (hadmits : found.format.admits found.fixedFields 0 = true)
    (hcost : freshCost + classCost name +
      Heap.objectSize (found.fixedFields + found.format.slotsFor 0) ≤ 1048576) :
    ∃ m object cls m₁ value m₂, Machine.new 1048576 = .ok m ∧
      m.classAt? ClassIndex.object = some object ∧ defineClass name object spec m = .ok cls m₁ ∧
      instantiate cls 0 m₁ = .ok value m₂ ∧ m₁.IsDefinedAs cls found := by
  obtain ⟨m, hnew, hroom, building⟩ := exists_new (show 1048576 < 2 ^ 64 by norm_num) (by omega)
  obtain ⟨s, founded, -⟩ := exists_founded_of_new (by norm_num) hnew
  obtain ⟨s₀, stored⟩ := building.stored
  obtain ⟨object, hobject, hordinary⟩ := building.exists_kernelClass
    (show ClassIndex.object < ClassIndex.firstDynamic by decide) (by decide)
  obtain ⟨cls, m₁, hok, htaken⟩ := affords_defineClass stored building.hierarchy
    (max_lt building.size_lt (by decide)) (.inr hordinary) name spec (by omega)
  obtain ⟨s₁, p, he₁, pair, rfl, rfl, hdynamic⟩ := exists_hasPair_of_defineClass founded.based hok
  obtain ⟨value, m₂, hmake, -⟩ := pair.affords_instantiate he₁.based hunpack
    (Nat.lt_of_lt_of_le (by decide) hdynamic) 0 hadmits (by omega)
  exact ⟨m, object, p.cls, m₁, value, m₂, hnew, kernelClass_eq_ok_iff.mp hobject, hok, hmake,
    isDefinedAs_of_instanceSpec (.of_represents he₁.based.rep)
      ((pair.instanceSpec_cls_eq_ok_iff he₁.based).mpr hunpack)⟩

/-- A class with 65535 named fields that is defined in a fresh machine is still what it was defined as
after an instance has been made. -/
theorem Arises.isDefinedAs_largest :
    ∃ m object cls m₁ value m₂, (1048576 : ℕ) < 2 ^ 64 ∧ m.Arises 1048576 ∧
      defineClass "Wide" object ⟨.variableSizeIvars, 65535⟩ m = .ok cls m₁ ∧
      m₁.instanceSpec cls = .ok ⟨.variableSizeIvars, 65535⟩ ∧ instantiate cls 0 m₁ = .ok value m₂ ∧
      m₂.IsDefinedAs cls ⟨.variableSizeIvars, 65535⟩ := by
  have hlimit : (1048576 : ℕ) < 2 ^ 64 := by norm_num
  obtain ⟨m, object, cls, m₁, value, m₂, hnew, -, hok, hmake, -⟩ := exists_defined "Wide"
    ⟨.variableSizeIvars, 65535⟩ _ (InstanceSpec.unpack?_pack (by decide)) rfl (by decide +kernel)
  have hrun : (Operation.instantiate cls 0).run m₁ = .ok () m₂ :=
    run_bind_eq_ok_iff.mpr ⟨value, m₂, hmake, rfl⟩
  have leads : Leads Operation.SparesClasses m₁ m₂ := ⟨.instantiate cls 0, trivial, by rw [hrun]; rfl⟩
  obtain ⟨hiff, hdefined⟩ := Arises.isDefinedAs hlimit (.new hnew) hok
  exact ⟨m, object, cls, m₁, value, m₂, hlimit, .new hnew, hok, hiff.mpr (by decide), hmake,
    (hdefined (by decide)).2 ⟨m, hnew, .refl⟩ m₂ (.single leads)⟩

/-- A class with 65536 named fields is defined in a fresh machine, and its instances have none. -/
theorem exists_truncated :
    ∃ m object cls m₁ value m₂, Machine.new 1048576 = .ok m ∧
      m.classAt? ClassIndex.object = some object ∧
      defineClass "Wide" object ⟨.fixedSize, 65536⟩ m = .ok cls m₁ ∧
      m₁.instanceSpec cls = .ok ⟨.fixedSize, 0⟩ ∧ instantiate cls 0 m₁ = .ok value m₂ ∧
      m₂.heap.slotCount value = .ok 0 := by
  obtain ⟨m, object, cls, m₁, value, m₂, hnew, hobject, hok, hmake, hdefined⟩ := exists_defined "Wide"
    ⟨.fixedSize, 65536⟩ ⟨.fixedSize, 0⟩ (by decide) (by decide) (by decide +kernel)
  obtain ⟨-, _, _, _, hshows⟩ := hdefined.showsNew (by decide) hmake
  exact ⟨m, object, cls, m₁, value, m₂, hnew, hobject, hok, hdefined.instanceSpec_eq, hmake,
    hshows.slotCount⟩

end Machine

end TalkMachine
