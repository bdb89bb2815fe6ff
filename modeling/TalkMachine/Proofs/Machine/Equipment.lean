import TalkMachine.Proofs.Machine.ClassMaking
import TalkMachine.Proofs.Machine.Methods

/-!
# Making and equipping classes

What the making of classes does to the methods of all classes. A class that is made enters the table
with its metaclass, and both have a dictionary without entries
(`Machine.Equipped.exists_of_createClass`); a class whose superclass is replaced keeps its own.
-/

namespace TalkMachine

namespace Machine

variable {m m' : Machine} {s : ObjectMap} {cls superclass symbol : Value}
  {owner : Value → Option Value} {methods : Value → Option ClassMethods} {own : ClassMethods}
  {index size : ℕ} {name : String} {spec : InstanceSpec}

/-! ### The class table -/

/-- Whether every class in the table has methods. -/
def Complete (m : Machine) (methods : Value → Option ClassMethods) : Prop :=
  ∀ index cls, m.classAt? index = some cls → ∃ own, methods cls = some own

/-- The methods of all classes when a class and its metaclass have got dictionaries without entries. -/
def withNewPair (methods : Value → Option ClassMethods)
    (cls dictionary metaclass metaDictionary : Value) : Value → Option ClassMethods :=
  Function.update (Function.update methods cls (some ⟨dictionary, []⟩)) metaclass
    (some ⟨metaDictionary, []⟩)

/-- When a class and its metaclass have entered the table with such dictionaries, every class has
methods again. -/
lemma Complete.withNewPair (complete : m.Complete methods)
    {dictionary metaclass metaDictionary : Value} (hat : ∀ place value, m'.classAt? place = some value →
      value = metaclass ∨ value = cls ∨ m.classAt? place = some value) :
    m'.Complete (withNewPair methods cls dictionary metaclass metaDictionary) := by
  intro place value hvalue
  simp only [Machine.withNewPair, Function.update_apply]
  by_cases hmeta : value = metaclass
  · exact ⟨_, if_pos hmeta⟩
  rw [if_neg hmeta]
  by_cases hcls : value = cls
  · exact ⟨_, if_pos hcls⟩
  rw [if_neg hcls]
  exact complete place value (((hat place value hvalue).resolve_left hmeta).resolve_left hcls)

/-- Whether a class and its metaclass have entered the table with slots that are all nil. Both are new,
and nothing has been stored into. -/
structure EntersUnfilled (m : Machine) (s : ObjectMap) (index : ℕ) (cls metaclass : Value)
    (m' : Machine) (s' : ObjectMap) : Prop where
  retains : s.Retains [] s'
  new : s.objects cls = none
  metaNew : s.objects metaclass = none
  ne : metaclass ≠ cls
  slots : s'.HasSlots cls [s'.nil, s'.nil, s'.nil, s'.nil]
  metaSlots : s'.HasSlots metaclass [s'.nil, s'.nil, s'.nil, s'.nil]
  natives_eq : m'.natives = m.natives
  nil_eq : m'.nil = m.nil
  symbols_eq : m'.symbols = m.symbols
  size_eq : m'.classTable.size = max m.classTable.size ClassIndex.firstDynamic + 1
  classAt?_eq : ∀ place, m'.classAt? place =
    if place = max m.classTable.size ClassIndex.firstDynamic then some metaclass
    else if place = index then some cls else m.classAt? place

/-- Whether a class and its metaclass have been made. Both are new, stand in the table and have method
dictionaries without entries. Nothing has been stored into but classes, objects from before belong to
whom they did, and no symbol is lost. -/
structure MakesPair (m : Machine) (s : ObjectMap) (owner : Value → Option Value)
    (methods : Value → Option ClassMethods) (index : ℕ)
    (cls metaclass dictionary metaDictionary : Value) (m' : Machine) (s' : ObjectMap)
    (owner' : Value → Option Value) : Prop where
  equipped : m'.Equipped s' owner' (withNewPair methods cls dictionary metaclass metaDictionary)
  complete : m'.Complete (withNewPair methods cls dictionary metaclass metaDictionary)
  retains : ∃ changed, s.Retains changed s' ∧ ∀ value ∈ changed, ∃ own,
    withNewPair methods cls dictionary metaclass metaDictionary value = some own
  new : s.objects cls = none
  metaNew : s.objects metaclass = none
  owner_eq : ∀ {value : Value} {o : Object}, s.objects value = some o → owner' value = owner value
  natives_eq : m'.natives = m.natives
  nil_eq : m'.nil = m.nil
  symbol : ∀ {name : String} {symbol : Value}, m.symbols[name]? = some symbol →
    m'.symbols[name]? = some symbol
  size_eq : m'.classTable.size = max m.classTable.size ClassIndex.firstDynamic + 1
  classAt?_eq : ∀ place, m'.classAt? place =
    if place = max m.classTable.size ClassIndex.firstDynamic then some metaclass
    else if place = index then some cls else m.classAt? place

/-- Objects keep their shape. -/
lemma MakesPair.keeps {s' : ObjectMap} {owner' : Value → Option Value}
    {metaclass dictionary metaDictionary : Value}
    (makes : m.MakesPair s owner methods index cls metaclass dictionary metaDictionary m' s' owner') :
    s.Keeps s' := by
  obtain ⟨_, hretains, -⟩ := makes.retains
  exact hretains.toKeeps

namespace Equipped

variable (equipped : m.Equipped s owner methods)
include equipped

/-- Another superclass is no other method, and nothing is stored into but classes. -/
lemma exists_of_setSuperclass (complete : m.Complete methods)
    (hok : setSuperclass cls superclass m = .ok () m') :
    ∃ s' changed, m'.Equipped s' owner methods ∧ s.Retains changed s' ∧
      (∀ name ∈ changed, ∃ own, methods name = some own) ∧ m'.natives = m.natives ∧
      m.Remembers m' := by
  rw [setSuperclass] at hok
  simp only [run_bind_eq_ok_iff, ask_eq_ok_iff, change_eq_ok_iff] at hok
  obtain ⟨⟨⟩, _, ⟨hclass, rfl⟩, metaSuperclass, _, ⟨-, rfl⟩, _, _, ⟨h₁, hstore, rfl⟩, isMetaclass, _,
    ⟨-, rfl⟩, hok⟩ := hok
  obtain ⟨-, hash, -, hat⟩ := isClass_eq_true_iff.mp (expectClass_eq_ok_iff.mp hclass)
  obtain ⟨own, hcls⟩ := complete hash cls hat
  obtain ⟨s₁, equipped₁, hretains₁⟩ := equipped.exists_of_store hcls (by decide) hstore
  split at hok
  · simp only [run_bind_eq_ok_iff, ask_eq_ok_iff, change_eq_ok_iff] at hok
    obtain ⟨metaclass, _, ⟨hclassOf, rfl⟩, h₂, hstore₂, rfl⟩ := hok
    obtain ⟨index, hat⟩ := exists_classAt?_of_classOf hclassOf
    obtain ⟨own', hmetaclass⟩ := complete index metaclass hat
    obtain ⟨s₂, equipped₂, hretains₂⟩ := equipped₁.exists_of_store hmetaclass (by decide) hstore₂
    refine ⟨s₂, [cls, metaclass], equipped₂, ?_, ?_, rfl,
      (Remembers.withHeap m h₁).trans (.withHeap _ h₂)⟩
    · exact (hretains₁.mono (by simp)).trans hretains₂ (by simp)
    · simpa using ⟨⟨own, hcls⟩, own', hmetaclass⟩
  · cases hok
    exact ⟨s₁, [cls], equipped₁, hretains₁, by simpa using ⟨own, hcls⟩, rfl, .withHeap m h₁⟩

/-- A class and its metaclass enter the table, and the methods of the other classes stay. -/
lemma exists_of_enterPair {metaIndex : ℕ} {metaclass : Value}
    (hindex : index < max m.classTable.size ClassIndex.firstDynamic)
    (hok : enterPair index m = .ok (metaIndex, cls, metaclass) m') :
    ∃ s', m'.Equipped s' owner methods ∧ m.EntersUnfilled s index cls metaclass m' s' := by
  rw [enterPair] at hok
  simp only [run_bind_eq_ok_iff, reserveClassIndex_eq_ok_iff, change_eq_ok_iff,
    growClassTable_eq_ok_iff, enterClass_eq_ok_iff] at hok
  obtain ⟨metaIndex, _, ⟨hmetaIndex, -, rfl⟩, cls, _, ⟨h₁, hallocate, rfl⟩, metaclass, _,
    ⟨h₂, hmetaAllocate, rfl⟩, _, _, rfl, _, _, rfl, _, _, rfl, ⟨⟩⟩ := hok
  rw [← hmetaIndex] at hindex
  obtain ⟨s₁, rep₁, hretains₁, hnone, -, hslots₁⟩ :=
    Heap.exists_of_allocate equipped.rep rfl hallocate
  obtain ⟨s₂, rep₂, hretains₂, hmetaNone₁, -, hmetaSlots₂⟩ :=
    Heap.exists_of_allocate rep₁ rfl hmetaAllocate
  have hretains : s.Retains [] s₂ := hretains₁.trans hretains₂ (List.Subset.refl _)
  have hmetaNone := hretains₁.objects_eq_none hmetaNone₁
  have hne : ∀ {value}, s.objects value = none → value ≠ m.nil := by
    rintro _ hvalue rfl
    obtain ⟨o, ho⟩ := equipped.nil
    rw [equipped.nil_eq, hvalue] at ho
    cases ho
  have hsize₂ : ((m.grown (metaIndex + 1)).withHeap h₁ |>.withHeap h₂).classTable.size =
      metaIndex + 1 := (size_classTable_grown m _).trans (by omega)
  have hsize₃ := size_classTable_grown ((m.grown (metaIndex + 1)).withHeap h₁ |>.withHeap h₂)
    (index + 1)
  rw [hsize₂, max_eq_left (by omega)] at hsize₃
  refine ⟨s₂, equipped.keep rep₂ hretains (fun _ hname => absurd hname List.not_mem_nil) rfl rfl,
    hretains, hnone, hmetaNone, hslots₁.ne_of_none hmetaNone₁, ?_, ?_, rfl, rfl, rfl, ?_,
    fun place => ?_⟩
  · rw [hretains.nil_eq]
    exact hretains₂.slots List.not_mem_nil hslots₁
  · rw [hretains.nil_eq, ← hretains₁.nil_eq]
    exact hmetaSlots₂
  · rw [size_classTable_withClassAt, size_classTable_withClassAt, hsize₃, hmetaIndex]
  · have hentered := classAt?_withClassAt_withClassAt
      ((hindex.trans (Nat.lt_succ_self metaIndex)).trans_eq hsize₃.symm)
      ((Nat.lt_succ_self metaIndex).trans_eq hsize₃.symm) (hne hnone) (hne hmetaNone) place
    rw [← hmetaIndex, hentered, classAt?_grown]
    exact congrArg _ (congrArg _ (classAt?_grown m _ place))

/-- A class and its metaclass whose slots are nil get dictionaries without entries. -/
lemma exists_of_furnish {metaclass : Value} (hcls : methods cls = none)
    (hmetaclass : methods metaclass = none) (howner : owner cls = none)
    (hmetaOwner : owner metaclass = none) (hne : metaclass ≠ cls)
    (hslots : s.HasSlots cls [s.nil, s.nil, s.nil, s.nil])
    (hmetaSlots : s.HasSlots metaclass [s.nil, s.nil, s.nil, s.nil])
    (hok : furnish cls metaclass name spec m = .ok () m') :
    ∃ s' owner' dictionary metaDictionary,
      m'.Equipped s' owner' (withNewPair methods cls dictionary metaclass metaDictionary) ∧
      s.Retains [cls, metaclass] s' ∧
      (∀ value o, s.objects value = some o → owner' value = owner value) ∧
      m'.natives = m.natives ∧ m.Remembers m' := by
  rw [furnish] at hok
  simp only [run_bind_eq_ok_iff, change_eq_ok_iff, onHeap_eq_ok_iff] at hok
  obtain ⟨symbol, m₁, hintern, dictionary, _, ⟨h₂, hnew, rfl⟩, _, _, ⟨h₃, hfill, rfl⟩, metaDictionary,
    _, ⟨h₄, hmetaNew, rfl⟩, h₅, hmetaFill, rfl⟩ := hok
  obtain ⟨s₁, equipped₁, hretains₁, -, hnatives₁, remembers₁⟩ := equipped.exists_of_intern hintern
  obtain ⟨s₃, owner₃, equipped₃, hretains₃, howner₃⟩ := equipped₁.exists_of_equip hcls howner
    (hretains₁.nil_eq.symm ▸ hretains₁.slots List.not_mem_nil hslots) hnew hfill
  have hmetaSlots₁ := hretains₁.slots List.not_mem_nil hmetaSlots
  have hmetaSlots₃ := hretains₃.slots (by simpa using hne) hmetaSlots₁
  obtain ⟨o, ho, -⟩ := hmetaSlots₁
  obtain ⟨s₅, owner₅, equipped₅, hretains₅, howner₅⟩ := equipped₃.exists_of_equip
    (by rw [Function.update_of_ne hne]; exact hmetaclass)
    ((howner₃ metaclass o ho).trans hmetaOwner)
    ((hretains₃.nil_eq.trans hretains₁.nil_eq).symm ▸ hmetaSlots₃) hmetaNew hmetaFill
  have hfilled := (hretains₃.mono (by simp)).trans hretains₅
    (show [metaclass] ⊆ [cls, metaclass] by simp)
  refine ⟨s₅, owner₅, dictionary, metaDictionary, equipped₅,
    (hretains₁.mono (List.nil_subset _)).trans hfilled (List.Subset.refl _), fun value o ho => ?_,
    hnatives₁, (((remembers₁.trans (.withHeap _ h₂)).trans (.withHeap _ h₃)).trans
      (.withHeap _ h₄)).trans (.withHeap _ h₅)⟩
  obtain ⟨o₁, ho₁⟩ := hretains₁.exists_object ho
  obtain ⟨o₃, ho₃⟩ := hretains₃.exists_object ho₁
  rw [howner₅ value o₃ ho₃, howner₃ value o₁ ho₁]

/-- A class that is made enters the table with its metaclass, and both have a method dictionary
without entries. -/
theorem exists_of_createClass (complete : m.Complete methods)
    (hindex : index < max m.classTable.size ClassIndex.firstDynamic)
    (hok : createClass index name superclass spec m = .ok cls m') :
    ∃ s' owner' metaclass dictionary metaDictionary,
      m.MakesPair s owner methods index cls metaclass dictionary metaDictionary m' s' owner' := by
  rw [createClass_eq_enterPair] at hok
  simp only [run_bind_eq_ok_iff, ask_eq_ok_iff] at hok
  obtain ⟨_, _, ⟨-, rfl⟩, ⟨metaIndex, cls, metaclass⟩, m₁, henter, _, m₂, hfurnish, _, _, hset, ⟨⟩⟩ :=
    hok
  obtain ⟨s₁, equipped₁, enters⟩ := equipped.exists_of_enterPair hindex henter
  obtain ⟨s₂, owner₂, dictionary, metaDictionary, equipped₂, hretains₂, howner₂, hnatives₂,
    remembers₂⟩ := equipped₁.exists_of_furnish (equipped.methods_eq_none enters.new)
    (equipped.methods_eq_none enters.metaNew) (equipped.owner_eq_none enters.new)
    (equipped.owner_eq_none enters.metaNew) enters.ne enters.slots enters.metaSlots hfurnish
  have hat₂ : ∀ place, m₂.classAt? place = m₁.classAt? place := fun place =>
    classAt?_congr remembers₂.classTable_eq remembers₂.nil_eq place
  have complete₂ : m₂.Complete (withNewPair methods cls dictionary metaclass metaDictionary) := by
    refine complete.withNewPair fun place value hvalue => ?_
    rw [hat₂, enters.classAt?_eq] at hvalue
    split at hvalue
    · exact .inl (Option.some.inj hvalue).symm
    · split at hvalue
      · exact .inr (.inl (Option.some.inj hvalue).symm)
      · exact .inr (.inr hvalue)
  obtain ⟨s', changed, equipped', hretains', hchanged, hnatives', remembers'⟩ :=
    equipped₂.exists_of_setSuperclass complete₂ hset
  have hat' : ∀ place, m'.classAt? place = m₂.classAt? place := fun place =>
    classAt?_congr remembers'.classTable_eq remembers'.nil_eq place
  have remembers := remembers₂.trans remembers'
  have hretains : s.Retains [cls, metaclass] s₂ :=
    (enters.retains.mono (List.nil_subset _)).trans hretains₂ (List.Subset.refl _)
  refine ⟨s', owner₂, metaclass, dictionary, metaDictionary, equipped',
    fun place value hvalue => complete₂ place value (hat' place ▸ hvalue),
    ⟨[cls, metaclass] ++ changed, ?_, ?_⟩, enters.new, enters.metaNew, fun {value o} ho => ?_, ?_, ?_,
    fun hsymbol => ?_, ?_, fun place => ?_⟩
  · exact (hretains.mono (List.subset_append_left _ _)).trans hretains' (List.subset_append_right _ _)
  · refine List.forall_mem_append.mpr ⟨?_, hchanged⟩
    rw [List.forall_mem_cons, List.forall_mem_singleton]
    refine ⟨⟨⟨dictionary, []⟩, ?_⟩, ⟨metaDictionary, []⟩, Function.update_self _ _ _⟩
    rw [withNewPair, Function.update_of_ne enters.ne.symm, Function.update_self]
  · obtain ⟨o₁, ho₁⟩ := enters.retains.exists_object ho
    exact howner₂ value o₁ ho₁
  · rw [hnatives', hnatives₂, enters.natives_eq]
  · rw [remembers.nil_eq, enters.nil_eq]
  · exact remembers.symbol (enters.symbols_eq ▸ hsymbol)
  · rw [remembers.classTable_eq, enters.size_eq]
  · rw [hat', hat₂, enters.classAt?_eq]

end Equipped

end Machine

end TalkMachine
