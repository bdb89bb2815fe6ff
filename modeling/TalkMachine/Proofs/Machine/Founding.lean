import TalkMachine.Proofs.Machine.ClassMaking
import TalkMachine.Proofs.Machine.Fresh

/-!
# How a fresh machine comes about

A fresh machine has come, within the scope in which classes are made, from a machine that has nothing
but nil, true and false (`Machine.exists_founded_of_new`). Each kernel class is one of a pair, at its
index, and the metaclass of each inherits from the metaclass of the superclass; that of Object, which
has no superclass, from Class.
-/

namespace TalkMachine

namespace Machine

variable {m m' : Machine} {s s' : ObjectMap} {cls dictionary : Value} {scope : Scope} {p : ClassPair}

/-! ### Native methods -/

/-- The object of a native method is new. -/
lemma ensures_newNativeMethod (based : m.Based s) (tends : scope.Tends) (selector : Value)
    (argumentCount index : ℕ) :
    Ensures (Evolves scope) (change (newNativeMethod selector argumentCount index)) m s
      fun _ _ s' => s.Alters (fun _ _ => False) (fun _ => True) s' := by
  have hfill := Heap.staysWithin_fill based.rep NativeSlot.size 0 .fixedSize
    (tends.makes ClassIndex.nativeMethod (by decide))
    [selector, Value.ofInt argumentCount, Value.ofInt index]
  simp only [Code.storeAll, bind_assoc, pure_bind] at hfill
  exact (ensures_make based hfill).imp fun _ _ _ _ hQ => hQ.2.1

/-- Putting native methods into what is nil or a table. -/
lemma ensures_installInto (based : m.Based s) (tends : scope.Tends)
    (htable : dictionary = m.nil ∨ s.IsTable dictionary) (entries : List NativeEntry) :
    Ensures (Evolves scope) (installInto dictionary entries) m s fun _ _ _ => True := by
  induction entries generalizing m s with
  | nil => exact .pure (.refl based) trivial
  | cons entry rest ih =>
    have hkeep : ∀ {m m' : Machine} {s s' : ObjectMap}, m.Evolves scope s m' s' →
        s.Alters (fun _ _ => False) (fun _ => True) s' →
        (dictionary = m.nil ∨ s.IsTable dictionary) → dictionary = m'.nil ∨ s'.IsTable dictionary :=
      fun he alters => .imp (fun hnil => hnil.trans he.nil_eq.symm) fun htable =>
        htable.keep alters.toKeeps fun _ ho _ => alters.objects_eq ho False.elim
    rw [installInto]
    refine Evolves.bind (ensures_intern based entry.selector) ?_
    rintro selector m₁ s₁ he₁ ⟨-, -, alters₁⟩
    refine Evolves.bind (Q := fun _ m₂ s₂ => s₂ = s₁ ∧ m₂.nil = m₁.nil)
      ⟨s₁, he₁.based.evolves_alike ⟨rfl, rfl, rfl, rfl, fun _ => rfl⟩ rfl, rfl, rfl⟩ ?_
    rintro index m₂ _ he₂ ⟨rfl, hnil₂⟩
    refine Evolves.bind (ensures_newNativeMethod he₂.based tends selector entry.argumentCount index)
      fun method m₃ s₃ he₃ alters₃ => ?_
    have htable₃ := hkeep he₃ alters₃ (hnil₂ ▸ hkeep he₁ alters₁ htable)
    refine Evolves.bind (ensures_insert he₃.based tends htable₃ selector method) ?_
    rintro _ m₄ s₄ he₄ ⟨htable₄, -⟩
    exact ih he₄.based (.inr htable₄)

/-- Putting native methods into a class. -/
theorem ensures_installNatives (based : m.Based s) (sheltered : m.Sheltered s) (tends : scope.Tends)
    (cls : Value) (entries : List NativeEntry) :
    Ensures (Evolves scope) (installNatives cls entries) m s fun _ _ _ => True := by
  rw [installNatives]
  exact ensures_ask_bind based fun _ hdictionary => ensures_installInto based tends
    (based.isTable_of_methodDictionary sheltered hdictionary) entries

/-- The native methods of the kernel. -/
lemma ensures_installKernelNatives (based : m.Based s) (sheltered : m.Sheltered s)
    (tends : scope.Tends) (hspares : scope.spares) (table : List (ℕ × List NativeEntry)) :
    Ensures (Evolves scope) (installKernelNatives table) m s fun _ _ _ => True := by
  induction table generalizing m s with
  | nil => exact .pure (.refl based) trivial
  | cons row rest ih =>
    rw [installKernelNatives]
    refine ensures_ask_bind based fun cls _ => ?_
    exact Evolves.bind (ensures_installNatives based sheltered tends cls row.2) fun _ _ _ he _ =>
      ih he.based (he.sheltered hspares sheltered)

/-- The symbols of special selectors. -/
lemma ensures_internSpecialSelectors (based : m.Based s) (selectors : List SpecialSelector) :
    Ensures (Evolves scope) (internSpecialSelectors selectors) m s fun _ _ _ => True := by
  induction selectors generalizing m s with
  | nil => exact .pure (.refl based) trivial
  | cons selector rest ih =>
    rw [internSpecialSelectors]
    refine Evolves.bind (ensures_intern based selector.name) fun symbol m₁ s₁ he₁ _ => ?_
    exact Evolves.bind (Q := fun _ _ _ => True)
      ⟨s₁, he₁.based.evolves_alike ⟨rfl, rfl, rfl, rfl, fun _ => rfl⟩ rfl, trivial⟩
      fun _ _ _ he₂ _ => ih he₂.based

/-! ### Kernel classes -/

/-- The metaclass of a pair still inherits from the class of the superclass. -/
lemma Echoes.keep (h : m.Echoes p) (based : m.Based s) (he : m.Evolves scope s m' s') : m'.Echoes p :=
  he.classOf_eq based h.1 h.2

/-- Whether a kernel class is one of a pair, at its index. -/
def HasKernelClass (m : Machine) (s : ObjectMap) (k : KernelClass) : Prop :=
  ∃ p, m.HasPair s p ∧ p.index = k.index ∧ p.name = k.name ∧ p.spec = k.spec

/-- A kernel class stays one of a pair. -/
lemma HasKernelClass.keep {k : KernelClass} (h : m.HasKernelClass s k) (he : m.Evolves scope s m' s')
    {changed : Value → Option Value} (hreparents : s.Reparents changed s') :
    m'.HasKernelClass s' k := by
  obtain ⟨p, pair, hp⟩ := h
  exact ⟨p.reparented changed, pair.keep he hreparents, hp⟩

/-- The superclass of a class that is listed with the index of one or with none. -/
def listedSuperclass (m : Machine) (superclass : Option ℕ) : Except MachineError Value :=
  superclass.elim (.ok m.nil) m.kernelClass

/-- It stays the same while the classes stay in their places. -/
lemma listedSuperclass_keep {superclass : Option ℕ} {value : Value} (hnil : m'.nil = m.nil)
    (hat : ∀ {index cls}, m.classAt? index = some cls → m'.classAt? index = some cls)
    (h : m.listedSuperclass superclass = .ok value) :
    m'.listedSuperclass superclass = .ok value := by
  cases superclass with
  | none => exact congrArg _ (hnil.trans (Except.ok.inj h))
  | some index => exact kernelClass_eq_ok_iff.mpr (hat (kernelClass_eq_ok_iff.mp h))

/-- Whether a kernel class has the superclass that it is listed with. -/
def Inherits (m : Machine) (s : ObjectMap) (k : KernelClass) : Prop :=
  ∃ p, m.HasPair s p ∧ p.index = k.index ∧ m.listedSuperclass k.superclass = .ok p.superclass

/-- A kernel class keeps its superclass where none is replaced but those of metaclasses. -/
lemma Inherits.keep {k : KernelClass} (h : m.Inherits s k) (based : m.Based s)
    (he : m.Evolves scope s m' s') {changed : Value → Option Value}
    (hreparents : s.Reparents changed s')
    (hchanged : ∀ cls, m.isMetaclass cls = false → changed cls = none) : m'.Inherits s' k := by
  obtain ⟨p, pair, hindex, hsuperclass⟩ := h
  have hsame : (p.reparented changed).superclass = p.superclass := by
    rw [ClassPair.reparented, hchanged _ (pair.isMetaclass_cls based), Option.getD_none]
  exact ⟨_, pair.keep he hreparents, hindex,
    hsame ▸ listedSuperclass_keep he.nil_eq he.classAt?_of hsuperclass⟩

/-- Whether a pair is linked as far as it can be before Object is linked to Class: Object has no
superclass, and the metaclass of any other class inherits from the class of the superclass. -/
def IsRooted (m : Machine) (p : ClassPair) : Prop :=
  (p.index = ClassIndex.object ∧ p.superclass = m.nil) ∨ (p.index ≠ ClassIndex.object ∧ m.Echoes p)

/-- A pair stays linked as it is. -/
lemma IsRooted.keep (h : m.IsRooted p) (based : m.Based s) (he : m.Evolves scope s m' s') :
    m'.IsRooted p :=
  h.imp (.imp_right fun hnil => hnil.trans he.nil_eq.symm) (.imp_right fun h => h.keep based he)

/-- Only a class that is listed without a superclass gets nil for one. -/
lemma listedSuperclass_eq_nil_iff {superclass : Option ℕ} {value : Value}
    (h : m.listedSuperclass superclass = .ok value) : superclass = none ↔ value = m.nil := by
  cases superclass with
  | none => exact iff_of_true rfl (Except.ok.inj h).symm
  | some index =>
    exact iff_of_false (Option.some_ne_none _) (ne_nil_of_classAt? (kernelClass_eq_ok_iff.mp h))

/-- A kernel class that is made at a free index, without a superclass just if it is Object, is one of a
pair that is linked to that of its superclass. -/
lemma exists_pair_of_createClass (based : m.Based s)
    (hsize : ClassIndex.firstDynamic ≤ m.classTable.size) {k : KernelClass} {superclass cls : Value}
    (hindex : k.index < ClassIndex.firstDynamic)
    (hroot : k.superclass = none ↔ k.index = ClassIndex.object) (hfree : m.classAt? k.index = none)
    (hsuperclass : m.listedSuperclass k.superclass = .ok superclass)
    (hok : createClass k.index k.name superclass k.spec m = .ok cls m') :
    ∃ p s', m.Evolves .building s m' s' ∧ m.Admits p s m' s' ∧ p.index = k.index ∧ m'.IsRooted p ∧
      m'.HasKernelClass s' k ∧ m'.Inherits s' k := by
  obtain ⟨s', he, hcreates⟩ := (ensures_createClass based (hindex.trans_le hsize)
    (hindex.le.trans (by decide)) hfree k.name superclass k.spec).of_ok hok
  obtain ⟨p, admits, -, hp, hname, hspec, hsuper, hlinked⟩ := hcreates.exists_admits
  have hrooted : m'.IsRooted p := by
    rw [IsRooted, hp, hsuper, he.nil_eq]
    rcases hlinked with ⟨h, -⟩ | hechoes
    · exact .inl ⟨hroot.mp ((listedSuperclass_eq_nil_iff hsuperclass).mpr h), h⟩
    · refine .inr ⟨fun hobject => ne_nil_of_isClass hechoes.1 ?_, hechoes⟩
      rw [hsuper, he.nil_eq]
      exact (listedSuperclass_eq_nil_iff hsuperclass).mp (hroot.mpr hobject)
  exact ⟨p, s', he, admits, hp, hrooted, ⟨p, admits.hasPair, hp, hname, hspec⟩, p, admits.hasPair, hp,
    hsuper ▸ listedSuperclass_keep he.nil_eq he.classAt?_of hsuperclass⟩

/-- Kernel classes that are made one after the other at free indices, the first of them Object, are
pairs, each linked to that of its superclass. -/
lemma exists_pairs_of_createKernelClasses (based : m.Based s) (paired : m.Paired s m.IsRooted)
    (hsize : ClassIndex.firstDynamic ≤ m.classTable.size) {kernel : List KernelClass}
    (hnodup : (kernel.map KernelClass.index).Nodup)
    (hindices : ∀ k ∈ kernel, k.index < ClassIndex.firstDynamic ∧
      (k.superclass = none ↔ k.index = ClassIndex.object))
    (hfree : ∀ k ∈ kernel, m.classAt? k.index = none)
    (hok : createKernelClasses kernel m = .ok () m') :
    ∃ s', m.Evolves .building s m' s' ∧ s.Reparents (fun _ => none) s' ∧ m'.Paired s' m'.IsRooted ∧
      ∀ k ∈ kernel, m'.HasKernelClass s' k ∧ m'.Inherits s' k := by
  induction kernel generalizing m s with
  | nil =>
    cases hok
    exact ⟨s, .refl based, .refl s, paired, List.forall_mem_nil _⟩
  | cons k rest ih =>
    rw [List.map_cons, List.nodup_cons] at hnodup
    rw [List.forall_mem_cons] at hindices hfree
    rw [createKernelClasses] at hok
    obtain ⟨superclass, _, hask, hmake⟩ := run_bind_eq_ok_iff.mp hok
    obtain ⟨hsuperclass, rfl⟩ := ask_eq_ok_iff.mp hask
    obtain ⟨cls, m₁, hcreate, hrest⟩ := run_bind_eq_ok_iff.mp hmake
    have hlisted : m.listedSuperclass k.superclass = .ok superclass := by
      rw [listedSuperclass]
      cases hk : k.superclass <;> rw [hk] at hsuperclass <;> exact hsuperclass
    obtain ⟨p, s₁, he₁, admits, hp, hrooted, haskernel, inherits⟩ := exists_pair_of_createClass based
      hsize hindices.1.1 hindices.1.2 hfree.1 hlisted hcreate
    have hsize₁ : ClassIndex.firstDynamic ≤ m₁.classTable.size :=
      admits.hasPair.dynamic.trans (lt_size_of_classAt? admits.hasPair.classAt?_metaIndex).le
    have hfree₁ : ∀ k' ∈ rest, m₁.classAt? k'.index = none := fun k' hk' => by
      have hlt := Nat.lt_of_lt_of_le (hindices.2 k' hk').1 admits.hasPair.dynamic
      rw [admits.classAt?_eq, if_neg hlt.ne, if_neg, hfree.2 k' hk']
      rw [hp]
      exact fun heq => hnodup.1 (heq ▸ List.mem_map_of_mem hk')
    obtain ⟨s', he', hreparents', paired', hkernel⟩ := ih he₁.based
      (paired.admits admits (fun q _ hq => hq.keep based he₁) hrooted) hsize₁ hnodup.2 hindices.2
      hfree₁ hrest
    exact ⟨s', he₁.trans he', admits.reparents.trans_left hreparents', paired',
      List.forall_mem_cons.mpr ⟨⟨haskernel.keep he' hreparents',
        inherits.keep he₁.based he' hreparents' fun _ _ => rfl⟩, hkernel⟩⟩

/-- Whether a pair is linked: the metaclass inherits from the class of the superclass, or where there is
none from Class. -/
def IsParallel (m : Machine) (p : ClassPair) : Prop :=
  (p.superclass = m.nil ∧ m.classAt? ClassIndex.classClass = some p.metaSuperclass) ∨ m.Echoes p

/-- Linking the metaclass of Object to Class links all pairs, and replaces no superclass but that of
the metaclass. -/
lemma exists_pairs_of_linkObjectMetaclass (based : m.Based s) (paired : m.Paired s m.IsRooted)
    (hok : linkObjectMetaclass m = .ok () m') :
    ∃ s' changed, m.Evolves .building s m' s' ∧ s.Reparents changed s' ∧
      (∀ cls, m.isMetaclass cls = false → changed cls = none) ∧ m'.Paired s' m'.IsParallel := by
  rw [linkObjectMetaclass] at hok
  obtain ⟨⟨metaclass, classClass⟩, _, hask, hchange⟩ := run_bind_eq_ok_iff.mp hok
  obtain ⟨hanswer, rfl⟩ := ask_eq_ok_iff.mp hask
  obtain ⟨object, hobject, hanswer⟩ := bind_eq_ok_iff.mp hanswer
  obtain ⟨classClass', hclassClass, hanswer⟩ := bind_eq_ok_iff.mp hanswer
  obtain ⟨metaclass', hclassOf, hanswer⟩ := bind_eq_ok_iff.mp hanswer
  obtain ⟨rfl, rfl⟩ := Prod.mk.inj (Except.ok.inj hanswer)
  rw [kernelClass_eq_ok_iff] at hobject hclassClass
  obtain ⟨metaIndex, hmetaAt⟩ := exists_classAt?_of_classOf hclassOf
  have halters : ∀ value index, ClassIndex.metaclass ≤ index → Scope.building.alters value index :=
    fun _ _ _ => trivial
  obtain ⟨s', he, heq, hreparents⟩ :=
    (ensures_storeSuperclass based hmetaAt halters _).of_ok hchange
  have hat : ∀ index, m'.classAt? index = m.classAt? index := fun _ => heq ▸ rfl
  obtain ⟨root, pairRoot, hroot, -⟩ := paired.exists_of_ordinary based
    (paired.ordinary_of_lt based hobject (by decide))
  have hmetaclass := Except.ok.inj ((hroot ▸ pairRoot.classOf_cls based).symm.trans hclassOf)
  refine ⟨s', _, he, hreparents, fun cls hcls => if_neg ?_, ?_⟩
  · rintro rfl
    rw [← hmetaclass, pairRoot.isMetaclass_metaclass based] at hcls
    cases hcls
  refine paired.rewires ⟨he.any, hreparents, hat⟩ fun p pair hrooted => ?_
  have hne : p.cls ≠ metaclass' := hmetaclass ▸ pair.cls_ne_metaclass pairRoot based
  rcases hrooted with ⟨hindex, hnil⟩ | ⟨hindex, hechoes⟩
  · have hcls : p.cls = object := Option.some.inj ((hindex ▸ pair.classAt?_index).symm.trans hobject)
    have hsame := Except.ok.inj ((hcls ▸ pair.classOf_cls based).symm.trans hclassOf)
    refine .inl ⟨?_, ?_⟩
    · simp [ClassPair.reparented, hne, hnil, he.nil_eq]
    · simp [ClassPair.reparented, hsame, hat, hclassClass]
  · have hother : p.metaclass ≠ metaclass' := fun heq => by
      have hcls := pair.cls_eq pairRoot (heq.trans hmetaclass.symm)
      exact hindex (based.index_eq (hcls.trans hroot ▸ pair.classAt?_index) hobject)
    rw [ClassPair.reparented_of_none (if_neg hne) (if_neg hother)]
    exact .inr (hechoes.keep based he)

/-! ### The fresh machine -/

/-- Whether a machine has nothing but nil, true and false. -/
structure IsBare (m : Machine) (s : ObjectMap) : Prop where
  based : m.Based s
  booleans_ne : m.trueObject ≠ m.falseObject
  classAt?_eq : ∀ index, m.classAt? index = none
  size_le : ClassIndex.firstDynamic ≤ m.classTable.size
  cases : ∀ {value : Value} {o : Object}, s.objects value = some o →
    (value = m.nil ∧ o.classIndex = ClassIndex.undefinedObject) ∨
    (value = m.trueObject ∧ o.classIndex = ClassIndex.trueClass) ∨
    (value = m.falseObject ∧ o.classIndex = ClassIndex.falseClass)

/-- A constant is an object without slots, beside those from before. -/
lemma exists_of_allocateConstant {h h' : Heap} (rep : h.Represents s) (fills : s.Fills)
    {classIndex : ℕ} {name : Value}
    (hok : Heap.allocate 0 0 .empty classIndex none h = .ok name h') :
    ∃ s' o, h'.Represents s' ∧ s'.Fills ∧ s'.limit = s.limit ∧ s'.nil = s.nil ∧
      s'.objects name = some o ∧
      o.classIndex = classIndex ∧ o.slotCount = 0 ∧ s.objects name = none ∧
      (∀ {value p}, s.objects value = some p → s'.objects value = some p) ∧
      ∀ {value p}, s'.objects value = some p →
        (value = name ∧ p.classIndex = classIndex) ∨ s.objects value = some p := by
  obtain ⟨-, hnone, address, used, _, rfl, rep', hfills⟩ := Heap.exists_fresh_of_allocate rep hok
  refine ⟨_, _, rep', hfills fills, rfl, rfl, ObjectMap.objects_put_self s name _, rfl,
    Heap.slotCount_fresh .., hnone, fun ho => (ObjectMap.follows_put_of_none hnone _ used).same ho nofun,
    fun ho => ?_⟩
  exact (ObjectMap.objects_put_cases ho).imp (fun ⟨hname, heq⟩ => ⟨hname, heq ▸ rfl⟩) And.right

/-- The machine with which filling begins is bare. -/
lemma exists_isBare {limit : ℕ} (hlimit : limit < 2 ^ 64) {nil yes no : Value} {h : Heap}
    (hok : allocateConstants (Heap.new limit) = .ok (nil, yes, no) h) :
    ∃ s, (bare h nil yes no).IsBare s ∧ s.limit = max limit wordSize := by
  rw [allocateConstants] at hok
  simp only [run_bind_eq_ok_iff] at hok
  obtain ⟨nil', h₁, hnil, _, h₂, hset, yes', h₃, hyes, no', h₄, hno, hanswer⟩ := hok
  obtain ⟨-, rfl⟩ := EStateM.Result.ok.inj hset
  obtain ⟨heq, rfl⟩ := EStateM.Result.ok.inj hanswer
  obtain ⟨rfl, hbooleans⟩ := Prod.mk.inj heq
  obtain ⟨rfl, rfl⟩ := Prod.mk.inj hbooleans
  obtain ⟨s₁, o, rep₁, fills₁, hlimit₁, -, ho, hclass, hslots, -, -, hcases₁⟩ := exists_of_allocateConstant
    (Heap.Represents.new hlimit) (ObjectMap.fills_new limit) hnil
  have fills₂ : { s₁ with nil := nil' }.Fills := fills₁
  obtain ⟨s₃, _, rep₃, fills₃, hlimit₃, hnil₃, hyes₃, -, -, -, hsame₃, hcases₃⟩ :=
    exists_of_allocateConstant (Heap.agree_setNil rep₁ nil').2 fills₂ hyes
  obtain ⟨s₄, -, rep₄, fills₄, hlimit₄, hnil₄, -, -, -, hnone₄, hsame₄, hcases₄⟩ :=
    exists_of_allocateConstant rep₃ fills₃ hno
  refine ⟨s₄, ⟨⟨rep₄, fills₄, hnil₄.trans hnil₃, ⟨o, hsame₄ (hsame₃ ho), hclass, hslots⟩,
    fun {index cls} hat => ?_, fun {name symbol} hsymbol => ?_⟩, fun heq => ?_, classAt?_bare,
    by simp [bare], fun {value o} ho => ?_⟩, hlimit₄.trans (hlimit₃.trans hlimit₁)⟩
  · rw [classAt?_bare] at hat
    cases hat
  · simp [bare] at hsymbol
  · rw [show yes' = no' from heq, hnone₄] at hyes₃
    cases hyes₃
  · rcases hcases₄ ho with hcase | ho
    · exact .inr (.inr hcase)
    rcases hcases₃ ho with hcase | ho
    · exact .inr (.inl hcase)
    · exact .inl ((hcases₁ ho).resolve_right fun h => absurd h.symm (Option.some_ne_none _))

/-- What is known of a fresh machine: it is based, all its classes are in pairs that are linked, among
them the kernel classes, each with the superclass that it is listed with and a table for its methods;
and whatever it holds beside nil, true and false has been made on the way. -/
structure Founded (m : Machine) (s : ObjectMap) : Prop where
  based : m.Based s
  sheltered : m.Sheltered s
  paired : m.Paired s m.IsParallel
  kernel : ∀ k ∈ KernelClass.all, m.HasKernelClass s k
  inherits : ∀ k ∈ KernelClass.all, m.Inherits s k
  origin : ∃ (m₀ : Machine) (s₀ : ObjectMap), m₀.IsBare s₀ ∧ m₀.Evolves .building s₀ m s

/-- The pairs stay linked while no class is altered. -/
lemma IsParallel.keep (h : m.IsParallel p) (based : m.Based s) (he : m.Evolves scope s m' s') :
    m'.IsParallel p :=
  h.imp (fun ⟨hnil, hat⟩ => ⟨hnil.trans he.nil_eq.symm, he.classAt?_of hat⟩) fun hechoes =>
    hechoes.keep based he

/-- Filling a bare machine. -/
lemma IsBare.exists_founded (isBare : m.IsBare s) (hok : bootstrap m = .ok () m') :
    ∃ s', m'.Founded s' ∧ s'.limit = s.limit := by
  have hnone : ∀ {index cls}, m.classAt? index ≠ some cls := fun {index cls} hat => by
    rw [isBare.classAt?_eq] at hat
    cases hat
  rw [bootstrap] at hok
  simp only [run_bind_eq_ok_iff] at hok
  obtain ⟨_, m₁, hclasses, _, m₂, hlink, _, m₃, hselectors, hnatives⟩ := hok
  obtain ⟨s₁, he₁, hreparents₁, paired₁, hkernel₁⟩ := exists_pairs_of_createKernelClasses isBare.based
    (fun _ _ hat => absurd hat hnone) isBare.size_le (by decide) (by decide)
    (fun k _ => isBare.classAt?_eq k.index) hclasses
  obtain ⟨s₂, changed, he₂, hreparents₂, hchanged, paired₂⟩ :=
    exists_pairs_of_linkObjectMetaclass he₁.based paired₁ hlink
  have sheltered₂ : m₂.Sheltered s₂ :=
    he₂.sheltered trivial (he₁.sheltered trivial fun hat => absurd hat hnone)
  -- What remains alters no class.
  obtain ⟨s₃, (he₃ : m₂.Evolves .tending s₂ m₃ s₃), -⟩ :=
    (ensures_internSpecialSelectors he₂.based _).of_ok hselectors
  obtain ⟨s₄, he₄, -⟩ := (ensures_installKernelNatives he₃.based (he₃.sheltered trivial sheltered₂)
    Scope.tends_tending trivial _).of_ok hnatives
  have he := he₃.trans he₄
  have hreparents := he.alters.reparents fun _ hlt => hlt
  have whole : m.Evolves .building s m' s₄ := (he₁.trans he₂).trans
    (he.mono (fun _ _ => trivial) (fun _ => id) (fun _ => trivial) id)
  refine ⟨s₄, ⟨he.based, he.sheltered trivial sheltered₂, ?_, fun k hk => ?_, fun k hk => ?_, m, s,
    isBare, whole⟩, whole.alters.limit_eq⟩
  · exact paired₂.rewires (he.rewires (fun _ => id) id) fun p _ hp => hp.keep he₂.based he
  · exact ((hkernel₁ k hk).1.keep he₂ hreparents₂).keep he hreparents
  · exact ((hkernel₁ k hk).2.keep he₁.based he₂ hreparents₂ hchanged).keep he₂.based he hreparents
      fun _ _ => rfl

/-- What is known of a fresh machine. -/
theorem exists_founded_of_new {limit : ℕ} (hlimit : limit < 2 ^ 64)
    (hnew : Machine.new limit = .ok m) : ∃ s, m.Founded s ∧ s.limit = max limit wordSize := by
  obtain ⟨nil, yes, no, h, hconstants, hboot⟩ := new_eq_ok_iff.mp hnew
  obtain ⟨s₀, isBare, hs₀⟩ := exists_isBare hlimit hconstants
  obtain ⟨s, founded, hs⟩ := isBare.exists_founded hboot
  exact ⟨s, founded, hs.trans hs₀⟩

end Machine

end TalkMachine
