import TalkMachine.Proofs.Machine.Operations
import TalkMachine.Proofs.Machine.Provision

/-!
# Classes and their places

What an operation that succeeds makes of classes is one of three things: nothing, another superclass,
or another pair (`Operation.exists_advances`). So each class stands in the table at the index that is
its hash; the class of a class that is no metaclass is a metaclass, which refers back to it and belongs
to no other; and the class of a metaclass is Metaclass (`Machine.Reached.placed`). Native methods are
left out, since they may store into classes.
-/

namespace TalkMachine

open Machine

namespace Machine

variable {m m' : Machine} {s s' : ObjectMap} {p : ClassPair} {op : Operation} {scope : Scope}
  {cls value : Value} {index limit : ℕ} {P : Machine → ClassPair → Prop}

/-! ### What becomes of classes -/

/-- The scope in which classes are left alone. -/
def Scope.quiet : Scope :=
  ⟨fun _ index => index < ClassIndex.metaclass, fun _ => True, False, True⟩

/-- Method dictionaries may be changed there. -/
lemma Scope.tends_quiet : Scope.quiet.Tends :=
  ⟨fun _ _ => id, fun _ _ => trivial⟩

/-- Classes may be made within the scope in which they are made. -/
lemma Scope.builds_building : Scope.building.Builds :=
  ⟨⟨fun _ _ _ => trivial, fun _ => id⟩, fun _ _ => trivial, trivial⟩

/-- What has become of classes by an operation: nothing; or a class has got another superclass, just
by the operation for that; or a pair has been entered, whose metaclass inherits from the class of the
superclass, or where there is none from Class as far as that exists. -/
inductive Advances (m : Machine) (s : ObjectMap) (m' : Machine) (s' : ObjectMap) : Operation → Prop
  | keeps {op : Operation} (rewires : m.Rewires (fun _ => none) s m' s') : Advances m s m' s' op
  | redirects {cls superclass : Value} (redirects : m.Redirects cls superclass s m' s') :
      Advances m s m' s' (.setSuperclass cls superclass)
  | admits {op : Operation} {p : ClassPair} (admits : m.Admits p s m' s')
      (linked : (p.superclass = m.nil ∧
        p.metaSuperclass = (m'.classAt? ClassIndex.classClass).getD m.nil) ∨ m'.Echoes p) :
      Advances m s m' s' op

/-- Whatever becomes of classes, superclasses are replaced at most. -/
lemma Advances.exists_reparents (h : m.Advances s m' s' op) :
    ∃ changed, m.Evolves .any s m' s' ∧ s.Reparents changed s' := by
  cases h with
  | keeps rewires => exact ⟨_, rewires.evolves, rewires.reparents⟩
  | redirects redirects =>
    obtain ⟨-, _, changed, -, -, rewires⟩ := redirects
    exact ⟨changed, rewires.evolves, rewires.reparents⟩
  | admits admits => exact ⟨_, admits.evolves, admits.reparents⟩

end Machine

namespace Operation

variable {m m' : Machine} {s : ObjectMap} {op : Operation}

/-- Whether an operation is none that carries out a native method. -/
def IsDirect : Operation → Prop
  | native .. => False
  | _ => True

/-- What an operation that succeeds makes of classes. -/
theorem exists_advances (based : m.Based s) (sheltered : m.Sheltered s) (hdirect : op.IsDirect)
    (hok : op.run m = .ok () m') : ∃ s', m'.Sheltered s' ∧ m.Advances s m' s' op := by
  have keeps (hfits : op.Fits .quiet m s) : ∃ s', m'.Sheltered s' ∧ m.Advances s m' s' op := by
    obtain ⟨s', he, -⟩ := (ensures_run based hfits).of_ok hok
    exact ⟨s', he.sheltered trivial sheltered, .keeps (he.rewires (fun _ => id) id)⟩
  cases op with
  | defineClass name superclass spec =>
    obtain ⟨cls, m₁, hdefine, hpure⟩ := run_bind_eq_ok_iff.mp hok
    cases hpure
    obtain ⟨s', he, index, -, hcreates⟩ := (ensures_defineClass based name superclass spec).of_ok hdefine
    obtain ⟨p, admits, -, -, -, -, hsuperclass, hlinked⟩ := hcreates.exists_admits
    exact ⟨s', he.sheltered trivial sheltered,
      .admits admits (hlinked.imp_left fun h => ⟨hsuperclass.trans h.1, h.2⟩)⟩
  | setSuperclass cls superclass =>
    obtain ⟨s', he, hredirects⟩ := (ensures_setSuperclass based
      (fun value index _ => Scope.builds_building.altersAll value index) cls superclass).of_ok hok
    exact ⟨s', he.sheltered trivial sheltered, .redirects hredirects⟩
  | addMethod | installNatives => exact keeps ⟨Scope.tends_quiet, sheltered⟩
  | newString | newArray | newAssociation => exact keeps Scope.tends_quiet
  | intern => exact keeps trivial
  | instantiate => exact keeps fun _ _ => trivial
  | native => exact hdirect.elim

end Operation

namespace Machine

variable {m m' : Machine} {s s' : ObjectMap} {p : ClassPair} {op : Operation} {scope : Scope}
  {cls value : Value} {index limit : ℕ} {P : Machine → ClassPair → Prop}

/-! ### Machines with all their classes in pairs -/

/-- Whether all classes are in pairs with a property, the kernel classes among them, and have method
dictionaries that can be used. -/
structure Classified (P : Machine → ClassPair → Prop) (m : Machine) (s : ObjectMap) : Prop where
  based : m.Based s
  sheltered : m.Sheltered s
  paired : m.Paired s (P m)
  kernel : ∀ k ∈ KernelClass.all, m.HasKernelClass s k

/-- A fresh machine is one. -/
lemma Founded.classified (founded : m.Founded s) (hP : ∀ p, m.IsParallel p → P m p) :
    Classified P m s :=
  ⟨founded.based, founded.sheltered, founded.paired.imp fun p _ => hP p, founded.kernel⟩

namespace Classified

/-- A machine whose classes are in pairs stays one. -/
lemma advances (h : Classified P m s) (advances : m.Advances s m' s' op) (sheltered' : m'.Sheltered s')
    (paired' : m'.Paired s' (P m')) : Classified P m' s' := by
  obtain ⟨changed, he, hreparents⟩ := advances.exists_reparents
  exact ⟨he.based, sheltered', paired', fun k hk => (h.kernel k hk).keep he hreparents⟩

variable (h : Classified P m s)
include h

/-- A kernel class stands at its index, and goes by its name. -/
lemma exists_kernelClass {name : String}
    (hk : (index, name) ∈ KernelClass.all.map fun k => (k.index, k.name)) :
    ∃ cls, m.classAt? index = some cls ∧ m.className? cls = some name := by
  obtain ⟨k, hmem, heq⟩ := List.mem_map.mp hk
  obtain ⟨rfl, rfl⟩ := Prod.mk.inj heq
  obtain ⟨p, pair, hindex, hname, -⟩ := h.kernel k hmem
  exact ⟨p.cls, hindex ▸ pair.classAt?_index, hname ▸ pair.className?_cls h.based⟩

end Classified

/-! ### Room for instances -/

/-- What instances of a class look like is read from its slot for that. -/
lemma instanceSpec_eq_ok_iff (hclass : m.isClass cls = true) {format : Value}
    (hfetch : m.heap.fetch cls ClassSlot.format = .ok format) {spec : InstanceSpec} :
    m.instanceSpec cls = .ok spec ↔ InstanceSpec.unpack? format = some spec := by
  have hslot : m.classSlot cls ClassSlot.format = .ok format := by
    rw [classSlot, expectClass_eq_ok_iff.mpr hclass, hfetch]
    rfl
  rw [instanceSpec, hslot]
  cases hunpack : InstanceSpec.unpack? format <;>
    simp [bind, Except.bind, hunpack, pure, Except.pure, throw, throwThe, MonadExceptOf.throw]

/-- What instances of the class of a pair look like. -/
lemma HasPair.instanceSpec_cls_eq_ok_iff (pair : m.HasPair s p) (based : m.Based s)
    {spec : InstanceSpec} :
    m.instanceSpec p.cls = .ok spec ↔ InstanceSpec.unpack? p.spec.pack = some spec := by
  obtain ⟨o, _, _, ho, -, -, hslots, -⟩ := pair.object
  exact instanceSpec_eq_ok_iff (based.isClass_iff.mpr ⟨_, pair.classAt?_index⟩)
    (Heap.fetch_eq_of_hasSlots based.rep ⟨o, ho, hslots⟩ rfl)

/-- An instance of the class of a pair is made as soon as there is room, unless its instances are
immediate or there can be none of that size. -/
lemma HasPair.affords_instantiate (pair : m.HasPair s p) (based : m.Based s) {spec : InstanceSpec}
    (hunpack : InstanceSpec.unpack? p.spec.pack = some spec)
    (hindex : ClassIndex.smallFloat < p.index) (indexed : ℕ)
    (hadmits : spec.format.admits spec.fixedFields indexed = true) :
    Affords room (Heap.objectSize (spec.fixedFields + spec.format.slotsFor indexed))
      (instantiate p.cls indexed) m := by
  obtain ⟨o, _, _, ho, -, hhash, -⟩ := pair.object
  have hclass := based.isClass_iff.mpr ⟨_, pair.classAt?_index⟩
  have hanswer : m.classIndexOfClass p.cls = .ok p.index := by
    rw [classIndexOfClass, expectClass_eq_ok_iff.mpr hclass, based.identityHashOf_eq ho, hhash]
    rfl
  have hmax : p.index ≤ Header.maxClassIndex :=
    hhash ▸ Nat.le_of_lt_succ (based.rep.holds ho).wellFormed.hash_lt
  have hinstances := (pair.instanceSpec_cls_eq_ok_iff based).mpr hunpack
  rw [instantiate]
  refine affords_ask_bind hanswer ?_
  rw [if_neg]
  · exact affords_ask_bind hinstances (affords_change (Heap.affords_allocate hmax hadmits none _))
  · simp only [ClassIndex.smallInteger, ClassIndex.character, ClassIndex.smallFloat] at hindex ⊢
    omega

/-- The same for a kernel class. -/
lemma HasKernelClass.affords_instantiate {k : KernelClass} (h : m.HasKernelClass s k)
    (based : m.Based s) (hunpack : InstanceSpec.unpack? k.spec.pack = some k.spec)
    (hindex : ClassIndex.smallFloat < k.index) (indexed : ℕ)
    (hadmits : k.spec.format.admits k.spec.fixedFields indexed = true) :
    ∃ cls, m.classAt? k.index = some cls ∧ Affords room
      (Heap.objectSize (k.spec.fixedFields + k.spec.format.slotsFor indexed))
      (instantiate cls indexed) m := by
  obtain ⟨p, pair, hplace, -, hspec⟩ := h
  have hpair : InstanceSpec.unpack? p.spec.pack = some k.spec := by rw [hspec, hunpack]
  exact ⟨p.cls, hplace ▸ pair.classAt?_index,
    pair.affords_instantiate based hpair (hplace ▸ hindex) indexed hadmits⟩

/-! ### Classes in their places -/

/-- Whether a class stands at the index that is its hash. If it is no metaclass, its class is a
metaclass that refers back to it and is the class of no other class. If it is one, its class is
Metaclass, and it refers to a class that is no metaclass, by whose name it goes. -/
structure Placed (m : Machine) (index : ℕ) (cls : Value) : Prop where
  identityHashOf : m.heap.identityHashOf cls = .ok index
  isClass : m.isClass cls = true
  ordinary : m.isMetaclass cls = false → ∃ metaclass, m.classOf cls = .ok metaclass ∧
    m.isMetaclass metaclass = true ∧ m.heap.fetch metaclass ClassSlot.name = .ok cls ∧
    ∀ other, m.isClass other = true → m.classOf other = .ok metaclass → other = cls
  metaclass : m.isMetaclass cls = true →
    (∃ kind, m.classOf cls = .ok kind ∧ m.classAt? ClassIndex.metaclass = some kind ∧
      m.className? kind = some "Metaclass") ∧
    ∃ owner name, m.heap.fetch cls ClassSlot.name = .ok owner ∧ m.Ordinary owner ∧
      m.classOf owner = .ok cls ∧ m.className? owner = some name ∧
      m.className? cls = some (name ++ " class")

/-- The class of a metaclass is Metaclass. -/
lemma HasPair.classOf_metaclass (pair : m.HasPair s p) (based : m.Based s) {kind : Value}
    (hkind : m.classAt? ClassIndex.metaclass = some kind) : m.classOf p.metaclass = .ok kind := by
  obtain ⟨o, -, -, ho, hclass, -⟩ := pair.metaObject
  rw [based.classOf_eq_ok_iff ho, hclass]
  exact hkind

/-- A class in the table is in its place. -/
theorem Classified.placed_of_classAt (h : Classified P m s) (hat : m.classAt? index = some cls) :
    m.Placed index cls := by
  obtain ⟨o, ho, rfl, -⟩ := h.based.table hat
  obtain ⟨kind, hkind, hname⟩ := h.exists_kernelClass
    (show (ClassIndex.metaclass, "Metaclass") ∈ _ by decide)
  have hnot := (h.paired.ordinary_of_lt h.based hkind (by decide)).2
  refine ⟨h.based.identityHashOf_eq ho, h.based.isClass_iff.mpr ⟨_, hat⟩, fun hordinary => ?_,
    fun hmeta => ?_⟩
  · obtain ⟨p, pair, rfl, -⟩ := h.paired.exists_of_ordinary h.based
      ⟨h.based.isClass_iff.mpr ⟨_, hat⟩, hordinary⟩
    refine ⟨p.metaclass, pair.classOf_cls h.based, pair.isMetaclass_metaclass h.based,
      (pair.fetch_metaclass h.based).2, fun other hother hclassOf => ?_⟩
    cases hcase : m.isMetaclass other with
    | true =>
      obtain ⟨q, pair', rfl, -⟩ := h.paired.exists_of_isMetaclass h.based hcase
      obtain rfl := Except.ok.inj ((pair'.classOf_metaclass h.based hkind).symm.trans hclassOf)
      rw [pair.isMetaclass_metaclass h.based] at hnot
      cases hnot
    | false =>
      obtain ⟨q, pair', rfl, -⟩ := h.paired.exists_of_ordinary h.based ⟨hother, hcase⟩
      exact pair'.cls_eq pair (Except.ok.inj ((pair'.classOf_cls h.based).symm.trans hclassOf))
  · obtain ⟨p, pair, rfl, -⟩ := h.paired.exists_of_isMetaclass h.based hmeta
    exact ⟨⟨kind, pair.classOf_metaclass h.based hkind, hkind, hname⟩, p.cls, p.name,
      (pair.fetch_metaclass h.based).2, pair.ordinary h.based, pair.classOf_cls h.based,
      pair.className?_cls h.based, pair.className?_metaclass h.based⟩

/-- An instance that is made is one of its class, and classes are left alone. -/
lemma exists_evolves_of_instantiate (based : m.Based s) {indexed : ℕ}
    (hok : instantiate cls indexed m = .ok value m') :
    ∃ s', m.Evolves .quiet s m' s' ∧ m'.classOf value = .ok cls := by
  have hmakes : ∀ index, m.classAt? index = some cls → Scope.quiet.makes index := fun _ _ => trivial
  obtain ⟨s', he, -, index, o, hat, -, ho, rfl, -⟩ :=
    (ensures_instantiate based cls indexed hmakes).of_ok hok
  exact ⟨s', he, (he.based.classOf_eq_ok_iff ho).mpr (he.classAt?_of hat)⟩

/-- Whether an operation may be done while classes stay in their places: it carries out no native
method, and succeeds. -/
def MayClassify (m : Machine) (op : Operation) : Prop :=
  op.IsDirect ∧ op.Succeeds m

/-- What becomes of classes by an operation that may be done. -/
lemma Classified.exists_advances (h : Classified P m s) (hmay : MayClassify m op) :
    ∃ s', (stateAfter (op.run m)).Sheltered s' ∧ m.Advances s (stateAfter (op.run m)) s' op := by
  obtain ⟨hdirect, m', hok⟩ := hmay
  rw [hok]
  exact op.exists_advances h.based h.sheltered hdirect hok

/-- All classes are in pairs again after an operation that may be done. -/
theorem Classified.step (h : Classified (fun _ _ => True) m s) (hmay : MayClassify m op) :
    ∃ s', Classified (fun _ _ => True) (stateAfter (op.run m)) s' := by
  obtain ⟨s', sheltered', advances⟩ := h.exists_advances hmay
  refine ⟨s', h.advances advances sheltered' ?_⟩
  cases advances with
  | keeps rewires => exact h.paired.rewires rewires fun _ _ _ => trivial
  | redirects redirects =>
    obtain ⟨-, _, _, -, -, rewires⟩ := redirects
    exact h.paired.rewires rewires fun _ _ _ => trivial
  | admits admits => exact h.paired.admits admits (fun _ _ _ => trivial) trivial

/-- In a machine that has been reached by operations that succeed, native methods apart, each class is
in its place, and each instance that is made is one of its class. -/
theorem Reached.placed (hlimit : limit < 2 ^ 64) (reached : Reached MayClassify limit m) :
    (∀ index cls, m.classAt? index = some cls → m.Placed index cls) ∧
      ∀ cls indexed value m', instantiate cls indexed m = .ok value m' → m'.classOf value = .ok cls := by
  obtain ⟨s, h⟩ := reached.induction (P := Classified fun _ _ => True) hlimit
    (fun founded => founded.classified fun _ _ => trivial) fun h => h.step
  constructor
  · intro index cls hat
    exact h.placed_of_classAt hat
  · intro cls indexed value m' hok
    obtain ⟨_, -, hclassOf⟩ := exists_evolves_of_instantiate h.based hok
    exact hclassOf

/-- An instance of Object that is made in a fresh machine is one of Object, which is still in its place
then. -/
theorem Reached.placed_object :
    ∃ m object value m', (1048576 : ℕ) < 2 ^ 64 ∧ Reached MayClassify 1048576 m ∧
      instantiate object 0 m = .ok value m' ∧ m'.classOf value = .ok object ∧
      Reached MayClassify 1048576 m' ∧ m'.classAt? ClassIndex.object = some object ∧
      m'.Placed ClassIndex.object object := by
  have hlimit : (1048576 : ℕ) < 2 ^ 64 := by norm_num
  have hcost : freshCost + Heap.objectSize (0 + ObjectFormat.fixedSize.slotsFor 0) ≤ 1048576 := by
    decide +kernel
  obtain ⟨m, hnew, hroom, -⟩ := exists_new hlimit (by omega)
  obtain ⟨s, founded, -⟩ := exists_founded_of_new hlimit hnew
  have hobject : (⟨ClassIndex.object, "Object", none, ⟨.fixedSize, 0⟩⟩ : KernelClass) ∈
    KernelClass.all := .head _
  obtain ⟨object, hat, haffords⟩ := (founded.kernel _ hobject).affords_instantiate founded.based
    (by decide) (by decide) 0 (by decide)
  obtain ⟨value, m', hok, -⟩ := haffords (by dsimp only; omega)
  have reached : Reached MayClassify 1048576 m := ⟨m, hnew, .refl⟩
  have hrun : (Operation.instantiate object 0).run m = .ok () m' :=
    run_bind_eq_ok_iff.mpr ⟨value, m', hok, rfl⟩
  have reached' : Reached MayClassify 1048576 m' :=
    ⟨m, hnew, .single ⟨.instantiate object 0, ⟨trivial, m', hrun⟩, by rw [hrun]; rfl⟩⟩
  obtain ⟨s', he, -⟩ := exists_evolves_of_instantiate founded.based hok
  have hat' := he.classAt?_of hat
  exact ⟨m, object, value, m', hlimit, reached, hok, (Reached.placed hlimit reached).2 _ _ _ _ hok,
    reached', hat', (Reached.placed hlimit reached').1 _ _ hat'⟩

end Machine

end TalkMachine
