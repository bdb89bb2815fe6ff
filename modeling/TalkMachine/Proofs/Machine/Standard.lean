import TalkMachine.Proofs.Machine.Classification

/-!
# The kernel as it is listed

In a fresh machine each kernel class has the superclass that it is listed with
(`Machine.exists_standard_of_new`). This stays so as long as pairs of classes stay as they are, whatever
classes are added to them (`Machine.Standard.keep`).
-/

namespace TalkMachine

namespace Machine

variable {m m' : Machine} {s s' : ObjectMap} {p : ClassPair} {cls : Value} {index limit : ℕ}

/-! ### Superclasses of pairs -/

/-- A slot of a class is read from the heap. -/
lemma classSlot_eq_ok_iff {slot : ℕ} {value : Value} (hclass : m.isClass cls = true) :
    m.classSlot cls slot = .ok value ↔ m.heap.fetch cls slot = .ok value := by
  rw [classSlot, expectClass_eq_ok_iff.mpr hclass]
  cases m.heap.fetch cls slot <;> simp [bind, Except.bind, Except.ofHeap]

/-- The superclass of the class of a pair. -/
lemma HasPair.superclass_cls (pair : m.HasPair s p) (based : m.Based s) :
    m.superclass p.cls = .ok p.superclass :=
  (classSlot_eq_ok_iff (based.isClass_iff.mpr ⟨_, pair.classAt?_index⟩)).mpr
    (pair.fetch_cls based).1

/-! ### Standard machines -/

/-- Whether all classes of a machine are in pairs, among them the kernel classes with the superclasses
that they are listed with. Besides, true is not false. -/
structure Standard (m : Machine) (s : ObjectMap) : Prop where
  classified : Classified (fun _ _ => True) m s
  inherits : ∀ k ∈ KernelClass.all, m.Inherits s k
  booleans_ne : m.trueObject ≠ m.falseObject

namespace Standard

variable (h : m.Standard s)
include h

/-- The objects of such a machine are based. -/
lemma based : m.Based s :=
  h.classified.based

/-- A kernel class has the superclass that it is listed with. -/
lemma superclass_eq {superclass : Option ℕ}
    (hk : (index, superclass) ∈ KernelClass.all.map fun k => (k.index, k.superclass))
    (hat : m.classAt? index = some cls) : m.superclass cls = m.listedSuperclass superclass := by
  obtain ⟨k, hmem, heq⟩ := List.mem_map.mp hk
  obtain ⟨rfl, rfl⟩ := Prod.mk.inj heq
  obtain ⟨p, pair, hindex, hsuperclass⟩ := h.inherits k hmem
  obtain rfl := Option.some.inj ((hindex ▸ pair.classAt?_index).symm.trans hat)
  rw [pair.superclass_cls h.based, hsuperclass]

/-- A machine stays standard when all pairs stay as they are and each other class is in one as well. -/
theorem keep (based' : m'.Based s') (sheltered' : m'.Sheltered s')
    (paired' : m'.Paired s' fun _ => True) (hpairs : ∀ p, m.HasPair s p → m'.HasPair s' p)
    (hnil : m'.nil = m.nil)
    (hat : ∀ {index cls}, m.classAt? index = some cls → m'.classAt? index = some cls)
    (hbooleans : m'.trueObject = m.trueObject ∧ m'.falseObject = m.falseObject) : m'.Standard s' := by
  refine ⟨⟨based', sheltered', paired', fun k hk => ?_⟩, fun k hk => ?_, ?_⟩
  · obtain ⟨p, pair, hp⟩ := h.classified.kernel k hk
    exact ⟨p, hpairs p pair, hp⟩
  · obtain ⟨p, pair, hindex, hsuperclass⟩ := h.inherits k hk
    exact ⟨p, hpairs p pair, hindex, listedSuperclass_keep hnil hat hsuperclass⟩
  · rw [hbooleans.1, hbooleans.2]
    exact h.booleans_ne

/-- It stays so when nothing happens to classes. -/
theorem rewires (rewires : m.Rewires (fun _ => none) s m' s') (sheltered' : m'.Sheltered s') :
    m'.Standard s' := by
  have he := rewires.evolves
  exact h.keep he.based sheltered' (h.classified.paired.rewires rewires fun _ _ => id)
    (fun p pair => pair.keep he rewires.reparents) he.nil_eq he.classAt?_of
    ⟨he.trueObject_eq, he.falseObject_eq⟩

/-- It stays so when another pair is entered. -/
theorem admits (admits : m.Admits p s m' s') (sheltered' : m'.Sheltered s') : m'.Standard s' := by
  have he := admits.evolves
  exact h.keep he.based sheltered' (h.classified.paired.admits admits (fun _ _ => id) trivial)
    (fun _ => admits.hasPair_of) he.nil_eq he.classAt?_of ⟨he.trueObject_eq, he.falseObject_eq⟩

end Standard

/-- A fresh machine is standard. -/
theorem exists_standard_of_new (hlimit : limit < 2 ^ 64) (hnew : Machine.new limit = .ok m) :
    ∃ s, m.Standard s := by
  obtain ⟨s, founded, -⟩ := exists_founded_of_new hlimit hnew
  obtain ⟨m₀, s₀, isBare, he⟩ := founded.origin
  refine ⟨s, founded.classified fun _ _ => trivial, founded.inherits, ?_⟩
  rw [he.trueObject_eq, he.falseObject_eq]
  exact isBare.booleans_ne

end Machine

end TalkMachine
