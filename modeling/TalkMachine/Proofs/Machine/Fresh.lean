import TalkMachine.Machine.Bootstrap
import TalkMachine.Proofs.Machine.Inheritance

/-!
# The classes of a fresh machine

A fresh machine has a hierarchy (`Machine.exists_stored_of_new`). It begins without classes; each
kernel class is made at an index that is free, behind its superclass; linking the metaclass of
Object to Class gives a metaclass a superclass that is no metaclass; and neither symbols nor native
methods touch a class.
-/

namespace TalkMachine

namespace Machine

variable {m m' : Machine} {s : ObjectMap} {cls dictionary : Value}

/-! ### Symbols and native methods -/

/-- The symbols of special selectors leave the classes alone. -/
lemma settles_internSpecialSelectors (stored : m.Stored s) (selectors : List SpecialSelector) :
    Settles (internSpecialSelectors selectors) m s fun _ _ _ => True := by
  induction selectors generalizing m s with
  | nil => exact .pure stored trivial
  | cons selector rest ih =>
    rw [internSpecialSelectors]
    refine (settles_intern stored selector.name).bind fun symbol m₁ s₁ hq₁ _ => ?_
    refine Settles.bind (Q := fun _ _ _ => True)
      ⟨s₁, hq₁.stored.quiet_of_heap_eq rfl rfl (fun _ => rfl) le_rfl, trivial⟩
      fun _ m₂ s₂ hq₂ _ => ih hq₂.stored

/-- The object of a native method. -/
lemma settles_newNativeMethod {h : Heap} (rep : h.Represents s) (orderly : s.Orderly)
    (selector : Value) (argumentCount index : ℕ) :
    Heap.Settles (newNativeMethod selector argumentCount index) h s fun _ _ => True := by
  rw [newNativeMethod]
  refine (Heap.settles_allocate_plain rep orderly _ _ _ (by decide) (by decide) none).bind
    fun method h₁ s₁ hs₁ ⟨_, hmethod₁, _⟩ => ?_
  refine (Heap.settles_store_plain hs₁.rep hs₁.orderly hmethod₁ _ _).bind
    fun _ h₂ s₂ hs₂ _ => ?_
  have hmethod₂ := hs₂.relinks.isPlain hmethod₁
  refine (Heap.settles_store_plain hs₂.rep hs₂.orderly hmethod₂ _ _).bind
    fun _ h₃ s₃ hs₃ _ => ?_
  refine (Heap.settles_store_plain hs₃.rep hs₃.orderly (hs₃.relinks.isPlain hmethod₂) _ _).bind
    fun _ h₄ s₄ hs₄ _ => ?_
  exact .pure hs₄.rep hs₄.orderly trivial

/-- Putting native methods into what is nil or a dictionary. -/
lemma settles_installInto (stored : m.Stored s)
    (hdictionary : dictionary = s.nil ∨ s.IsDictionary dictionary) (entries : List NativeEntry) :
    Settles (installInto dictionary entries) m s fun _ _ _ => True := by
  induction entries generalizing m s with
  | nil => exact .pure stored trivial
  | cons entry rest ih =>
    have hkeep : ∀ {s s' : ObjectMap}, s.Relinks (fun _ => none) s' →
        (dictionary = s.nil ∨ s.IsDictionary dictionary) →
        (dictionary = s'.nil ∨ s'.IsDictionary dictionary) := fun hrelinks h =>
      h.imp (fun hnil => hnil.trans hrelinks.nil_eq.symm) hrelinks.isDictionary
    rw [installInto]
    refine (settles_intern stored entry.selector).bind fun selector m₁ s₁ hq₁ _ => ?_
    refine Settles.bind (Q := fun _ _ _ => True)
      ⟨s₁, hq₁.stored.quiet_of_heap_eq rfl rfl (fun _ => rfl) le_rfl, trivial⟩
      fun index m₂ s₂ hq₂ _ => ?_
    refine (settles_change hq₂.stored (settles_newNativeMethod hq₂.stored.rep hq₂.stored.orderly
      selector entry.argumentCount index)).bind fun method m₃ s₃ hq₃ _ => ?_
    have hdictionary₃ := hkeep ((hq₁.trans hq₂).trans hq₃).relinks hdictionary
    refine (settles_onHeap hq₃.stored (Dictionary.settles_insert hq₃.stored.rep hq₃.stored.orderly
      hdictionary₃ selector method)).bind fun _ m₄ s₄ hq₄ _ => ?_
    exact ih hq₄.stored (hkeep hq₄.relinks hdictionary₃)

/-- The method dictionary of a class is nil or a dictionary. -/
lemma Stored.isDictionary_of_methodDictionary (stored : m.Stored s)
    (h : m.methodDictionary cls = .ok dictionary) :
    dictionary = s.nil ∨ s.IsDictionary dictionary := by
  obtain ⟨_, hclass, hfetch⟩ := bind_eq_ok_iff.mp h
  obtain ⟨o, ho, hbehavior⟩ := stored.exists_object (expectClass_eq_ok_iff.mp hclass)
  obtain ⟨-, superclass, found, format, name, hslots, hfound⟩ :=
    (stored.orderly.object ho).behavior hbehavior
  have hslot : [superclass, found, format, name][ClassSlot.methodDictionary]? = some found := rfl
  rw [Heap.fetch_eq_of_hasSlots stored.rep ⟨o, ho, hslots⟩ hslot] at hfetch
  obtain rfl := Except.ok.inj hfetch
  exact hfound

/-- Native methods that are put into a class leave the classes alone. -/
lemma settles_installNatives (stored : m.Stored s) (cls : Value) (entries : List NativeEntry) :
    Settles (installNatives cls entries) m s fun _ _ _ => True := by
  rw [installNatives]
  refine (settles_ask (Q := fun dictionary _ s => dictionary = s.nil ∨ s.IsDictionary dictionary)
    stored fun _ => stored.isDictionary_of_methodDictionary).bind
    fun dictionary m₁ s₁ hq₁ hdictionary => ?_
  exact settles_installInto hq₁.stored hdictionary entries

/-- A method that is put into a class leaves the classes alone. -/
lemma settles_addMethod (stored : m.Stored s) (cls selector method : Value) :
    Settles (addMethod cls selector method) m s fun _ _ _ => True := by
  rw [addMethod]
  refine (settles_ask (Q := fun dictionary _ s => dictionary = s.nil ∨ s.IsDictionary dictionary)
    stored fun _ => stored.isDictionary_of_methodDictionary).bind
    fun dictionary m₁ s₁ hq₁ hdictionary => ?_
  exact settles_onHeap hq₁.stored (Dictionary.settles_insert hq₁.stored.rep hq₁.stored.orderly
    hdictionary selector method)

/-- The native methods of the kernel leave the classes alone. -/
lemma settles_installKernelNatives (stored : m.Stored s) (table : List (ℕ × List NativeEntry)) :
    Settles (installKernelNatives table) m s fun _ _ _ => True := by
  induction table generalizing m s with
  | nil => exact .pure stored trivial
  | cons row rest ih =>
    obtain ⟨index, entries⟩ := row
    rw [installKernelNatives]
    refine (settles_ask (Q := fun _ _ _ => True) stored fun _ _ => trivial).bind
      fun cls m₁ s₁ hq₁ _ => ?_
    exact (settles_installNatives hq₁.stored cls entries).bind fun _ m₂ s₂ hq₂ _ => ih hq₂.stored

/-! ### Kernel classes -/

/-- The class at the index of a kernel class. -/
lemma kernelClass_eq_ok_iff {index : ℕ} : m.kernelClass index = .ok cls ↔
    m.classAt? index = some cls := by
  rw [kernelClass]
  cases m.classAt? index <;> simp

/-- Kernel classes that are made one after the other at free indices keep the hierarchy. -/
lemma exists_of_createKernelClasses (stored : m.Stored s) (hierarchy : m.Hierarchy)
    (hsize : ClassIndex.firstDynamic ≤ m.classTable.size) {kernel : List KernelClass}
    (hnodup : (kernel.map KernelClass.index).Nodup)
    (hindices : ∀ k ∈ kernel, k.index < ClassIndex.firstDynamic ∧
      ∀ index ∈ k.superclass, index < ClassIndex.firstDynamic)
    (hfree : ∀ k ∈ kernel, m.classAt? k.index = none)
    (hok : createKernelClasses kernel m = .ok () m') : ∃ s', m'.Stored s' ∧ m'.Hierarchy := by
  induction kernel generalizing m s with
  | nil =>
    cases hok
    exact ⟨s, stored, hierarchy⟩
  | cons k rest ih =>
    rw [List.map_cons, List.nodup_cons] at hnodup
    rw [List.forall_mem_cons] at hindices hfree
    rw [createKernelClasses] at hok
    obtain ⟨superclass, _, hask, hmake⟩ := run_bind_eq_ok_iff.mp hok
    obtain ⟨hsuperclass, rfl⟩ := ask_eq_ok_iff.mp hask
    obtain ⟨cls, m₁, hcreate, hrest⟩ := run_bind_eq_ok_iff.mp hmake
    have hordinary : m.isMetaclass superclass = false := by
      cases hk : k.superclass with
      | none =>
        rw [hk] at hsuperclass
        exact MayInherit.isMetaclass_eq (.inl (Except.ok.inj hsuperclass).symm)
      | some index =>
        rw [hk] at hsuperclass
        exact (hierarchy.kernel (hindices.1.2 index hk)
          (kernelClass_eq_ok_iff.mp hsuperclass)).2
    obtain ⟨hindex, -⟩ := hindices.1
    obtain ⟨s₁, hd, -⟩ := (develops_createClass stored hierarchy (hindex.trans_le hsize)
      (hindex.le.trans (by decide)) hfree.1 (fun _ => rfl) hordinary k.name k.spec).of_ok hcreate
    refine ih hd.stored hd.hierarchy (hsize.trans hd.size_le) hnodup.2 hindices.2
      (fun k' hk' => ?_) hrest
    rw [Option.eq_none_iff_forall_ne_some]
    intro other hother
    rcases hd.classAt?_cases (hindices.2 k' hk').1 hother with hold | hsame
    · rw [hfree.2 k' hk'] at hold
      cases hold
    · exact hnodup.1 (hsame ▸ List.mem_map_of_mem hk')

/-- Linking the metaclass of Object to Class keeps the hierarchy. -/
lemma exists_of_linkObjectMetaclass (stored : m.Stored s) (hierarchy : m.Hierarchy)
    (hok : linkObjectMetaclass m = .ok () m') : ∃ s', m'.Stored s' ∧ m'.Hierarchy := by
  rw [linkObjectMetaclass] at hok
  obtain ⟨⟨metaclass, classClass⟩, _, hask, hchange⟩ := run_bind_eq_ok_iff.mp hok
  obtain ⟨hanswer, rfl⟩ := ask_eq_ok_iff.mp hask
  obtain ⟨object, hobject, hanswer⟩ := bind_eq_ok_iff.mp hanswer
  obtain ⟨classClass', hclassClass, hanswer⟩ := bind_eq_ok_iff.mp hanswer
  obtain ⟨metaclass', hclassOf, hanswer⟩ := bind_eq_ok_iff.mp hanswer
  obtain ⟨rfl, rfl⟩ := Prod.mk.inj (Except.ok.inj hanswer)
  rw [kernelClass_eq_ok_iff] at hobject hclassClass
  obtain ⟨_, hclassOf', hmeta, -⟩ :=
    hierarchy.exists_metaclass (hierarchy.kernel (by decide) hobject)
  obtain rfl := Except.ok.inj (hclassOf.symm.trans hclassOf')
  obtain ⟨m₂, s₂, hstore, stored₂, -, relinked⟩ :=
    stored.exists_store_superclass (isClass_of_isMetaclass hmeta) classClass'
  obtain ⟨-, rfl⟩ := EStateM.Result.ok.inj (hstore.symm.trans hchange)
  exact ⟨s₂, stored₂, hierarchy.relink_metaclass relinked hmeta
    (.inr (hierarchy.kernel (by decide) hclassClass))⟩

/-! ### The fresh machine -/

/-- A machine without classes has a hierarchy. -/
lemma hierarchy_of_forall_none (hnone : ∀ value, m.isClass value = false)
    (hat : ∀ index, m.classAt? index = none) : m.Hierarchy := by
  have hordinary : ∀ {cls}, ¬m.Ordinary cls := fun {cls} h => by
    rw [Ordinary, hnone] at h
    cases h.1
  refine ⟨fun h => absurd h hordinary, fun h => absurd h hordinary, fun h => absurd h hordinary,
    fun h => ?_, fun h => absurd h hordinary, fun _ h => ?_⟩
  · rw [isMetaclass, hnone] at h
    cases h
  · rw [hat] at h
    cases h

/-- The heap after nil has been allocated, which is its only object. -/
lemma exists_of_allocateNil {limit : ℕ} (hlimit : limit < 2 ^ 64) {nil : Value} {h : Heap}
    (hok : Heap.allocate 0 0 .empty ClassIndex.undefinedObject none (Heap.new limit) = .ok nil h) :
    ∃ s, { h with nil := nil }.Represents s ∧ s.Orderly ∧ s.Fills ∧ s.nil = nil := by
  obtain ⟨-, -, address, used, _, rfl, rep, hfills⟩ :=
    Heap.exists_fresh_of_allocate (Heap.Represents.new hlimit) hok
  have fills := hfills (ObjectMap.fills_new limit)
  have hclass : ClassIndex.undefinedObject < ClassIndex.metaclass ∧
      ClassIndex.undefinedObject ≠ ClassIndex.methodDictionary := by decide
  have ho := ObjectMap.objects_put_self (ObjectMap.new limit) nil (ObjectMap.fresh 0 0 .empty
    ClassIndex.undefinedObject ((none : Option ℕ).getD address) (ObjectMap.new limit).nil.raw)
  refine ⟨_, (Heap.agree_setNil rep nil).2, ⟨⟨_, ho, ?_, _, ho, hclass⟩,
    fun {name o} hobject => ?_⟩, fills, rfl⟩
  · exact Heap.slotCount_fresh ..
  · rcases ObjectMap.objects_put_cases hobject with ⟨-, rfl⟩ | ⟨-, hold⟩
    · exact ⟨fun h => absurd h hclass.2, fun h => absurd hclass.1 (Nat.not_lt.mpr h)⟩
    · cases hold

/-- The heap after nil, true and false have been allocated. -/
lemma exists_of_allocateConstants {limit : ℕ} (hlimit : limit < 2 ^ 64) {nil yes no : Value}
    {h : Heap} (hok : allocateConstants (Heap.new limit) = .ok (nil, yes, no) h) :
    ∃ s, h.Represents s ∧ s.Orderly ∧ s.Fills ∧ s.nil = nil ∧
      ∀ value ∈ [nil, yes, no], ∃ o, s.objects value = some o := by
  rw [allocateConstants] at hok
  simp only [run_bind_eq_ok_iff] at hok
  obtain ⟨nil', h₁, hnil, _, h₂, hset, yes', h₃, hyes, no', h₄, hno, hanswer⟩ := hok
  obtain ⟨-, rfl⟩ := EStateM.Result.ok.inj hset
  obtain ⟨heq, rfl⟩ := EStateM.Result.ok.inj hanswer
  obtain ⟨rfl, hbooleans⟩ := Prod.mk.inj heq
  obtain ⟨rfl, rfl⟩ := Prod.mk.inj hbooleans
  obtain ⟨s₂, rep₂, orderly₂, fills₂, hnil₂⟩ := exists_of_allocateNil hlimit hnil
  obtain ⟨s₃, hs₃, -, ⟨oYes, hoYes, -⟩, hfills₃⟩ := (Heap.settles_allocate_plain rep₂ orderly₂ 0 0
    .empty (by decide) (by decide) none).of_ok hyes
  obtain ⟨s₄, hs₄, -, ⟨oNo, hoNo, -⟩, hfills₄⟩ := (Heap.settles_allocate_plain hs₃.rep hs₃.orderly 0 0
    .empty (by decide) (by decide) none).of_ok hno
  have hnil₄ : s₄.nil = nil' := (hs₃.trans hs₄).relinks.nil_eq.trans hnil₂
  obtain ⟨oNil, hoNil, -⟩ := hs₄.orderly.nil
  obtain ⟨oYes', hoYes', -⟩ := hs₄.relinks.kept hoYes
  refine ⟨s₄, hs₄.rep, hs₄.orderly, hfills₄ (hfills₃ fills₂), hnil₄, ?_⟩
  simpa using ⟨⟨oNil, hnil₄ ▸ hoNil⟩, ⟨oYes', hoYes'⟩, ⟨oNo, hoNo⟩⟩

/-- A machine that has nil, true and false only. -/
def bare (h : Heap) (nil yes no : Value) : Machine where
  heap := h
  nil := nil
  trueObject := yes
  falseObject := no
  classTable := Array.replicate ClassIndex.firstDynamic nil
  symbols := ∅
  natives := #[]
  specialSelectors := #[]
  registry := StackRegistry.empty
  handlerCalls := 0

section Bare

variable {h : Heap} {nil yes no : Value}

/-- A fresh machine is a bare one that has been filled. -/
lemma new_eq_ok_iff {limit : ℕ} : Machine.new limit = .ok m ↔ ∃ nil yes no h,
    allocateConstants (Heap.new limit) = .ok (nil, yes, no) h ∧
      bootstrap (bare h nil yes no) = .ok () m := by
  rw [Machine.new]
  constructor
  · intro hnew
    split at hnew
    · cases hnew
    · rename_i nil yes no h hconstants
      simp only at hnew
      split at hnew
      · rename_i m' hboot
        obtain rfl := Except.ok.inj hnew
        exact ⟨nil, yes, no, h, hconstants, hboot⟩
      · cases hnew
  · rintro ⟨nil, yes, no, h, hconstants, hboot⟩
    rw [bare] at hboot
    simp only [hconstants, hboot]

/-- A bare machine has no classes. -/
lemma classAt?_bare (index : ℕ) : (bare h nil yes no).classAt? index = none := by
  simp only [bare, classAt?, Array.getElem?_replicate]
  split <;> simp

/-- A bare machine has a hierarchy. -/
lemma exists_stored_bare (rep : h.Represents s) (orderly : s.Orderly) (hnil : s.nil = nil) :
    (bare h nil yes no).Stored s ∧ (bare h nil yes no).Hierarchy := by
  have stored : (bare h nil yes no).Stored s := ⟨rep, orderly, hnil, fun {index cls} hat => by
    rw [classAt?_bare] at hat
    cases hat⟩
  refine ⟨stored, hierarchy_of_forall_none (fun value => ?_) classAt?_bare⟩
  rw [Bool.eq_false_iff, ne_eq, stored.isClass_iff]
  rintro ⟨index, hat⟩
  rw [classAt?_bare] at hat
  cases hat

end Bare

/-- A machine that is filled gets a hierarchy. -/
lemma exists_of_bootstrap (stored : m.Stored s) (hierarchy : m.Hierarchy)
    (hsize : ClassIndex.firstDynamic ≤ m.classTable.size)
    (hnone : ∀ index, m.classAt? index = none) (hok : bootstrap m = .ok () m') :
    ∃ s', m'.Stored s' ∧ m'.Hierarchy := by
  rw [bootstrap] at hok
  simp only [run_bind_eq_ok_iff] at hok
  obtain ⟨_, m₁, hkernel, _, m₂, hlink, _, m₃, hselectors, hnatives⟩ := hok
  obtain ⟨s₁, stored₁, hierarchy₁⟩ := exists_of_createKernelClasses stored hierarchy hsize
    (by decide) (by decide) (fun k _ => hnone k.index) hkernel
  obtain ⟨s₂, stored₂, hierarchy₂⟩ := exists_of_linkObjectMetaclass stored₁ hierarchy₁ hlink
  obtain ⟨s₃, hq₃, -⟩ := (settles_internSpecialSelectors stored₂ _).of_ok hselectors
  obtain ⟨s₄, hq₄, -⟩ := (settles_installKernelNatives hq₃.stored _).of_ok hnatives
  exact ⟨s₄, hq₄.stored, hierarchy₂.keep ((hq₃.trans hq₄).relinked stored₂)⟩

/-- The classes of a fresh machine form a hierarchy. -/
theorem exists_stored_of_new {limit : ℕ} (hlimit : limit < 2 ^ 64)
    (hnew : Machine.new limit = .ok m) : ∃ s, m.Stored s ∧ m.Hierarchy := by
  obtain ⟨nil, yes, no, h, hconstants, hboot⟩ := new_eq_ok_iff.mp hnew
  obtain ⟨s, rep, orderly, -, hnil, -⟩ := exists_of_allocateConstants hlimit hconstants
  obtain ⟨stored, hierarchy⟩ := exists_stored_bare rep orderly hnil
  exact exists_of_bootstrap stored hierarchy (by simp [bare]) classAt?_bare hboot

end Machine

end TalkMachine
