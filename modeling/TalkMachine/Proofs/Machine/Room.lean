import TalkMachine.Proofs.Dictionary.Room
import TalkMachine.Proofs.Machine.Inheritance
import TalkMachine.Proofs.Machine.Tracking

/-!
# Room for classes

As long as bytes are left, a class can be made whose superclass is none or a class that is no
metaclass (`Machine.affords_createClass`), and native methods can be put into a class
(`Machine.affords_installInto`). Neither can fail in another way: a class that has just been made is
on no line, so that it may take any superclass, and the keys that are put are symbols.
-/

namespace TalkMachine

namespace Machine

open Heap (objectSize)
open Dictionary (insertCost capacityAfter keyCount minCapacity slotCount)

variable {m m' : Machine} {s s' : ObjectMap} {cls metaclass superclass : Value} {index : ℕ}

/-- The number of bytes that are left. -/
def room (m : Machine) : ℕ :=
  m.heap.room

/-! ### Questions and changes -/

section Steps

variable {α β : Type} {c : ℕ}

/-- A change of the heap takes what it takes there. -/
lemma affords_onHeap {x : EStateM MachineError Heap α} (hx : Affords Heap.room c x m.heap) :
    Affords room c (onHeap x) m := fun hroom => by
  obtain ⟨a, h', hok, htaken⟩ := hx hroom
  exact ⟨a, m.withHeap h', onHeap_eq_ok_iff.mpr ⟨h', hok, rfl⟩, htaken⟩

/-- The same for a change that only the heap can refuse. -/
lemma affords_change {x : HeapM α} (hx : Affords Heap.room c x m.heap) :
    Affords room c (change x) m :=
  affords_onHeap (hx.adaptExcept _)

/-- A question that is answered takes no room. -/
lemma affords_ask_bind {question : Machine → Except MachineError α} {f : α → MachineM β} {a : α}
    (hanswer : question m = .ok a) (hf : Affords room c (f a) m) :
    Affords room c (ask question >>= f) m :=
  .bind_of_ok (run_ask_of_ok hanswer) le_rfl hf

end Steps

/-! ### Symbols -/

/-- The bytes that a symbol takes at most. -/
def symbolCost (name : String) : ℕ :=
  objectSize (ObjectFormat.indexable8.slotsFor (Text.utf8 name).length)

/-- A symbol takes the bytes of its name, if any. -/
lemma affords_intern (rep : m.heap.Represents s) (name : String) :
    Affords room (symbolCost name) (intern name) m := by
  rw [intern]
  refine affords_ask_bind (a := m.symbols[name]?) rfl ?_
  cases m.symbols[name]? with
  | some symbol => exact (Affords.pure symbol).mono (Nat.zero_le _)
  | none =>
    refine ((affords_change (Heap.affords_allocateBytes rep _ (by decide))).bind (d := 0)
      fun symbol m₁ hok => ?_).mono le_rfl
    obtain ⟨h₁, hallocate, rfl⟩ := change_eq_ok_iff.mp hok
    obtain ⟨s₁, o, rep₁, -, ho, -⟩ := Heap.exists_of_allocateBytes rep hallocate
    refine (affords_change (Heap.affords_setFlags rep₁ ho _)).bind_free fun _ m₂ _ => ?_
    exact .bind_of_ok rfl le_rfl (.pure symbol)

/-! ### Superclasses -/

/-- Whether a class may take a superclass: none, or a class that is no metaclass and on whose line
it is not. -/
def MayTake (m : Machine) (cls superclass : Value) : Prop :=
  superclass = m.nil ∨ m.Ordinary superclass ∧ ∃ line, m.Line superclass line ∧ cls ∉ line

/-- It stays so while classes are left alone. -/
lemma MayTake.keep (h : m.MayTake cls superclass) (stored : m.Stored s) (hq : m.Quiet s m' s') :
    m'.MayTake cls superclass := by
  have relinked := hq.relinked stored
  rw [MayTake, relinked.nil_eq, relinked.ordinary_iff]
  exact h.imp_right <| And.imp_right fun ⟨line, hline, hmem⟩ =>
    ⟨line, relinked.line hline fun _ _ => rfl, hmem⟩

/-- The superclass of the metaclass is known then. -/
lemma Hierarchy.exists_metaSuperclass (hierarchy : m.Hierarchy) (hmay : m.MayTake cls superclass) :
    ∃ metaSuperclass, m.metaSuperclass cls superclass = .ok metaSuperclass := by
  rcases hmay with rfl | ⟨hordinary, line, hline, hmem⟩
  · exact ⟨_, if_pos rfl⟩
  obtain ⟨metaSuperclass, hclassOf, -⟩ := hierarchy.exists_metaclass hordinary
  exact ⟨metaSuperclass, (metaSuperclass_eq hordinary.1 hline hmem).trans hclassOf⟩

/-- A store of a superclass into a class takes no room. -/
lemma Stored.affords_store_superclass (stored : m.Stored s) (hcls : m.isClass cls = true)
    (superclass : Value) :
    Affords room 0 (change (Heap.store cls ClassSlot.superclass superclass)) m := by
  obtain ⟨m', s', hstore, -⟩ := stored.exists_store_superclass hcls superclass
  refine .of_ok hstore ?_
  obtain ⟨h', hok, rfl⟩ := change_eq_ok_iff.mp hstore
  exact (Heap.room_of_store hok).ge

/-- A superclass that a class may take is taken. -/
theorem affords_setSuperclass (stored : m.Stored s) (hierarchy : m.Hierarchy)
    (hordinary : m.Ordinary cls) (hmay : m.MayTake cls superclass) :
    Affords room 0 (setSuperclass cls superclass) m := by
  obtain ⟨metaSuperclass, hmeta⟩ := hierarchy.exists_metaSuperclass hmay
  obtain ⟨metaclass, hclassOf, hmetaclass, -⟩ := hierarchy.exists_metaclass hordinary
  rw [setSuperclass]
  refine affords_ask_bind (expectClass_eq_ok_iff.mpr hordinary.1) (affords_ask_bind hmeta ?_)
  refine (stored.affords_store_superclass hordinary.1 superclass).bind_free fun _ m₁ hok => ?_
  obtain ⟨_, s₁, hstore, stored₁, -, relinked₁⟩ :=
    stored.exists_store_superclass hordinary.1 superclass
  obtain ⟨-, rfl⟩ := EStateM.Result.ok.inj (hstore.symm.trans hok)
  have hclassOf₁ := (relinked₁.classOf_eq hordinary.1).trans hclassOf
  have hclass₁ := (relinked₁.isClass_eq metaclass).trans (isClass_of_isMetaclass hmetaclass)
  refine affords_ask_bind (a := m.isMetaclass cls) (by rw [relinked₁.isMetaclass_eq]) ?_
  rw [hordinary.2]
  exact affords_ask_bind hclassOf₁ (stored₁.affords_store_superclass hclass₁ metaSuperclass)

/-! ### Classes -/

/-- The bytes that an empty dictionary takes. -/
def dictionaryCost : ℕ :=
  objectSize slotCount + (objectSize 0 + objectSize 0)

/-- The bytes that a class takes with its metaclass. -/
def classCost (name : String) : ℕ :=
  objectSize ClassSlot.classSize + (objectSize ClassSlot.classSize +
    (symbolCost name + (dictionaryCost + dictionaryCost)))

/-- The slots of a class can be filled. -/
lemma affords_fillClass {h : Heap} (rep : h.Represents s) (orderly : s.Orderly)
    (hcls : s.IsBehavior cls) (dictionary : Value) (spec : InstanceSpec) (name : Value) :
    Affords Heap.room 0 (fillClass cls dictionary spec name) h := by
  obtain ⟨o, ho, hbehavior⟩ := hcls
  obtain ⟨hmutable, superclass, _, _, _, hslots, -⟩ := (orderly.object ho).behavior hbehavior
  rw [fillClass]
  refine Heap.affords_store_bind rep ⟨o, ho, hmutable⟩ ⟨o, ho, hslots⟩
    (by simp [ClassSlot.methodDictionary]) fun h₁ s₁ rep₁ hmutable₁ hslots₁ => ?_
  refine Heap.affords_store_bind rep₁ hmutable₁ hslots₁ (by simp [ClassSlot.format])
    fun h₂ s₂ rep₂ hmutable₂ hslots₂ => ?_
  exact Heap.affords_store rep₂ hmutable₂ hslots₂ (by simp [ClassSlot.name]) name

/-- A class and its metaclass that are in the table can be filled. -/
lemma affords_fillClasses (stored : m.Stored s) (hierarchy : m.Hierarchy)
    (hordinary : m.Ordinary cls) (hmetaclass : s.IsBehavior metaclass)
    (hmay : m.MayTake cls superclass) (name : String) (spec metaSpec : InstanceSpec) :
    Affords room (symbolCost name + (dictionaryCost + dictionaryCost)) (do
      let symbol ← intern name
      let dictionary ← onHeap (Dictionary.new 0)
      change (fillClass cls dictionary spec symbol)
      let metaDictionary ← onHeap (Dictionary.new 0)
      change (fillClass metaclass metaDictionary metaSpec cls)
      setSuperclass cls superclass
      return cls : MachineM Value) m := by
  have hcls : s.IsBehavior cls := stored.exists_object hordinary.1
  refine (affords_intern stored.rep name).bind fun symbol m₁ hintern => ?_
  obtain ⟨s₁, hq₁, -⟩ := (settles_intern stored name).of_ok hintern
  refine (affords_onHeap (Dictionary.affords_new hq₁.stored.rep 0)).bind fun dictionary m₂ hnew => ?_
  obtain ⟨s₂, hq₂, hdictionary⟩ := (settles_onHeap hq₁.stored (Dictionary.settles_new
    hq₁.stored.rep hq₁.stored.orderly 0)).of_ok hnew
  have hcls₂ := (hq₁.trans hq₂).relinks.isBehavior hcls
  refine (affords_change (affords_fillClass hq₂.stored.rep hq₂.stored.orderly hcls₂ _ _ _)).bind_free
    fun _ m₃ hfill => ?_
  obtain ⟨s₃, hq₃, -⟩ := (settles_change hq₂.stored (settles_fillClass hq₂.stored.rep
    hq₂.stored.orderly hcls₂ hdictionary spec symbol)).of_ok hfill
  refine ((affords_onHeap (Dictionary.affords_new hq₃.stored.rep 0)).bind (d := 0)
    fun metaDictionary m₄ hmetaNew => ?_).mono le_rfl
  obtain ⟨s₄, hq₄, hmetaDictionary⟩ := (settles_onHeap hq₃.stored (Dictionary.settles_new
    hq₃.stored.rep hq₃.stored.orderly 0)).of_ok hmetaNew
  have hq := ((hq₁.trans hq₂).trans hq₃).trans hq₄
  have hmetaclass₄ := hq.relinks.isBehavior hmetaclass
  refine (affords_change (affords_fillClass hq₄.stored.rep hq₄.stored.orderly hmetaclass₄
    _ _ _)).bind_free fun _ m₅ hmetaFill => ?_
  obtain ⟨s₅, hq₅, -⟩ := (settles_change hq₄.stored (settles_fillClass hq₄.stored.rep
    hq₄.stored.orderly hmetaclass₄ hmetaDictionary metaSpec cls)).of_ok hmetaFill
  have hq := hq.trans hq₅
  have relinked := hq.relinked stored
  exact (affords_setSuperclass hq₅.stored (hierarchy.keep relinked)
    (relinked.ordinary_iff.mpr hordinary) (hmay.keep stored hq)).bind_free fun _ _ _ => .pure cls

/-- A class can be made at a free index, as long as the index of its metaclass fits a header. -/
theorem affords_createClass (stored : m.Stored s) (hierarchy : m.Hierarchy)
    (hindex : index < m.classTable.size) (hfree : m.classAt? index = none)
    (hmax : max m.classTable.size ClassIndex.firstDynamic ≤ Header.maxClassIndex)
    (hmay : m.MayInherit superclass) (name : String) (spec : InstanceSpec) :
    Affords room (classCost name) (createClass index name superclass spec) m := by
  rw [createClass]
  refine affords_ask_bind (a := ()) ?_ ?_
  · rw [checkSuperclass]
    split
    · rfl
    · exact expectClass_eq_ok_iff.mpr (hmay.resolve_left ‹_›).1
  have hreserve := reserveClassIndex_eq_ok_iff.mpr ⟨rfl, hmax, rfl⟩
  refine .bind_of_ok hreserve le_rfl ?_
  obtain ⟨s₁, hq₁, hdynamic, hfresh, hmetaMax, hmetaLt, hmetaFree⟩ :=
    (settles_reserveClassIndex stored).of_ok hreserve
  generalize m.grown _ = m₁ at hq₁ hmetaLt hmetaFree ⊢
  generalize max m.classTable.size ClassIndex.firstDynamic = metaIndex at *
  have hclass : ClassIndex.metaclass ≤ metaIndex := Nat.le_of_succ_le hdynamic
  have hindexMax : index ≤ Header.maxClassIndex := (hindex.le.trans hfresh).trans hmetaMax
  have hadmits : ObjectFormat.fixedSize.admits ClassSlot.classSize 0 = true := rfl
  refine (affords_change (Heap.affords_allocate hmetaMax hadmits _ _)).bind
    fun cls m₂ hallocate => ?_
  obtain ⟨s₂, hq₂, -, hcls⟩ :=
    (settles_allocateClass hq₁.stored hclass hindexMax).of_ok hallocate
  refine (affords_change (Heap.affords_allocate (by decide) hadmits _ _)).bind
    fun metaclass m₃ hmetaAllocate => ?_
  obtain ⟨s₃, hq₃, -, hmetaclass⟩ :=
    (settles_allocateClass hq₂.stored le_rfl hmetaMax).of_ok hmetaAllocate
  refine (Affords.of_ok (a := ()) (growClassTable_eq_ok_iff.mpr rfl) le_rfl).bind_free
    fun _ m₄ hgrow => ?_
  obtain ⟨s₄, hq₄, hsize⟩ := (settles_growClassTable hq₃.stored (index + 1)).of_ok hgrow
  have hqMeta := (hq₂.trans hq₃).trans hq₄
  have hq := hq₁.trans hqMeta
  have pair : m₄.AwaitsPair s₄ cls metaclass index metaIndex :=
    { ofClass := hcls.keep hq₂.stored (hq₃.trans hq₄)
      ofMetaclass := hmetaclass.keep hq₃.stored hq₄
      index_lt := hindex.trans_le hq.size_le
      metaIndex_lt := hmetaLt.trans_le hqMeta.size_le
      indices_ne := (hindex.trans_le hfresh).ne
      free := (hq.classAt?_eq index).trans hfree
      metaFree := (hqMeta.classAt?_eq metaIndex).trans hmetaFree
      dynamic := hdynamic }
  have entered := pair.entered hq₄.stored
  have hierarchy₄ := hierarchy.keep (hq.relinked stored)
  have hmay₅ : (m₄.withPair cls metaclass index metaIndex).MayTake cls superclass := by
    refine (hmay.keep stored hq).imp (fun hnil => hnil.trans entered.nil_eq.symm)
      fun hordinary => ⟨entered.ordinary_iff.mpr (.inl hordinary), ?_⟩
    obtain ⟨line, hline⟩ := hierarchy₄.exists_line_of_ordinary hordinary
    refine ⟨line, entered.line hline, fun hmem => ?_⟩
    exact absurd (hline.isClass_of_mem cls hmem) (by simp [entered.cls_new])
  refine .bind_of_ok rfl le_rfl (.bind_of_ok rfl le_rfl ?_)
  exact affords_fillClasses (pair.stored_withPair hq₄.stored) (entered.hierarchy hierarchy₄)
    entered.ordinary_cls pair.ofMetaclass.isBehavior hmay₅ name spec _

/-- A class can be defined, as long as the indices of its metaclass and itself fit a header. -/
theorem affords_defineClass (stored : m.Stored s) (hierarchy : m.Hierarchy)
    (hmax : max m.classTable.size ClassIndex.firstDynamic < Header.maxClassIndex)
    (hmay : m.MayInherit superclass) (name : String) (spec : InstanceSpec) :
    Affords room (classCost name) (defineClass name superclass spec) m := by
  have hreserve := reserveClassIndex_eq_ok_iff.mpr ⟨rfl, hmax.le, rfl⟩
  obtain ⟨s₁, hq₁, -, -, -, hlt, hfree⟩ := (settles_reserveClassIndex stored).of_ok hreserve
  refine .bind_of_ok hreserve le_rfl ?_
  refine affords_createClass hq₁.stored (hierarchy.keep (hq₁.relinked stored)) hlt hfree ?_
    (hmay.keep stored hq₁) name spec
  rw [size_classTable_grown]
  omega

/-! ### Methods -/

section Methods

variable {owner : Value → Option Value} {methods : Value → Option ClassMethods} {own : ClassMethods}
  {selector dictionary : Value} {count : ℕ}

/-- The bytes that putting a method into a class takes at most, into which so many have been put. -/
def putCost (count : ℕ) : ℕ :=
  insertCost (max minCapacity (2 * count))

/-- A method can be put into a class. -/
lemma Equipped.affords_insert (equipped : m.Equipped s owner methods) (hcls : methods cls = some own)
    (hcount : own.puts.length ≤ count) (hknows : s.Knows selector) (method : Value) :
    Affords Heap.room (putCost count) (Dictionary.insert own.dictionary selector method) m.heap := by
  obtain ⟨_, _, _, keyArray, valueArray, ks, vs, -, contains, hcapacity, hparts⟩ :=
    equipped.hasMethods hcls
  refine (Dictionary.affords_insert equipped.rep contains (fun part hmem => (hparts part hmem).2)
    hknows method).mono (Dictionary.insertCost_mono ?_)
  have hle := Dictionary.capacityAfter_le own.puts
  omega

/-- The same for a method that is added by its class. -/
lemma Tracks.affords_addMethod (tracks : m.Tracks s owner methods)
    (hdictionary : m.methodDictionary cls = .ok dictionary)
    (hcount : ∀ own, methods cls = some own → own.puts.length ≤ count)
    (hknows : s.Knows selector) (method : Value) :
    Affords room (putCost count) (addMethod cls selector method) m := by
  obtain ⟨own, hcls, rfl⟩ := tracks.exists_methods hdictionary
  exact affords_ask_bind hdictionary (affords_onHeap (tracks.equipped.affords_insert hcls
    (hcount own hcls) hknows method))

/-- The object of a native method takes its slots. -/
lemma affords_newNativeMethod {h : Heap} (rep : h.Represents s) (selector : Value)
    (argumentCount index : ℕ) : Affords Heap.room (objectSize NativeSlot.size)
      (newNativeMethod selector argumentCount index) h := by
  have hadmits : ObjectFormat.fixedSize.admits NativeSlot.size 0 = true := rfl
  rw [newNativeMethod]
  refine (Heap.affords_allocate (by decide) hadmits none h).bind (d := 0)
    fun method h₁ hallocate => ?_
  obtain ⟨s₁, rep₁, -, -, hmutable₁, hslots₁⟩ := Heap.exists_of_allocate rep rfl hallocate
  replace hslots₁ : s₁.HasSlots method [s.nil, s.nil, s.nil] := hslots₁
  refine Heap.affords_store_bind rep₁ hmutable₁ hslots₁ (by simp [NativeSlot.selector])
    fun h₂ s₂ rep₂ hmutable₂ hslots₂ => ?_
  refine Heap.affords_store_bind rep₂ hmutable₂ hslots₂ (by simp [NativeSlot.argumentCount])
    fun h₃ s₃ rep₃ hmutable₃ hslots₃ => ?_
  exact Heap.affords_store_bind rep₃ hmutable₃ hslots₃ (by simp [NativeSlot.index])
    fun _ _ _ _ _ => .pure method

/-- The bytes that a table of native methods takes at most in a class into which so many methods have
been put. -/
def installCost : (count : ℕ) → List NativeEntry → ℕ
  | _, [] => 0
  | count, entry :: rest =>
    symbolCost entry.selector +
      (objectSize NativeSlot.size + (putCost count + installCost (count + 1) rest))

/-- The native methods of a table can be put into a class. -/
theorem Equipped.affords_installInto (equipped : m.Equipped s owner methods)
    (hcls : methods cls = some own) (hcount : own.puts.length ≤ count) (entries : List NativeEntry) :
    Affords room (installCost count entries) (installInto own.dictionary entries) m := by
  induction entries generalizing m s owner methods own count with
  | nil => exact .pure ()
  | cons entry rest ih =>
    rw [installInto]
    refine (affords_intern equipped.rep entry.selector).bind fun selector m₁ hintern => ?_
    obtain ⟨s₁, equipped₁, -, hselector, -⟩ := equipped.exists_of_intern hintern
    obtain ⟨hnil, o, ho⟩ := equipped₁.symbol hselector
    refine .bind_of_ok (show _ = EStateM.Result.ok _ (m₁.withNative entry.native) from rfl) le_rfl ?_
    have equipped₂ : (m₁.withNative entry.native).Equipped s₁ owner methods :=
      equipped₁.keep equipped₁.rep (.refl [] s₁) (List.forall_mem_nil _) rfl rfl
    refine (affords_change (affords_newNativeMethod equipped₂.rep _ _ _)).bind
      fun method m₃ hchange => ?_
    obtain ⟨h₃, hmethod, rfl⟩ := change_eq_ok_iff.mp hchange
    obtain ⟨s₃, equipped₃, hretains₃, -⟩ := equipped₂.exists_of_newNativeMethod hmethod
    have hnil₃ : selector ≠ s₃.nil := hretains₃.nil_eq ▸ hnil
    have hknows₃ : s₃.Knows selector := hretains₃.knows (.inr ⟨o, ho⟩)
    refine (affords_onHeap (equipped₃.affords_insert hcls hcount hknows₃ method)).bind
      fun _ m₄ hput => ?_
    obtain ⟨h₄, hinsert, rfl⟩ := onHeap_eq_ok_iff.mp hput
    obtain ⟨s₄, owner₄, equipped₄, -⟩ := equipped₃.exists_of_insert hcls hnil₃ hknows₃ hinsert
    exact (ih equipped₄ (Function.update_self cls _ methods) (Nat.succ_le_succ hcount) :)

/-- The same for a table that is installed in a class. -/
lemma Tracks.affords_installNatives (tracks : m.Tracks s owner methods)
    (hdictionary : m.methodDictionary cls = .ok dictionary)
    (hcount : ∀ own, methods cls = some own → own.puts.length ≤ count)
    (entries : List NativeEntry) :
    Affords room (installCost count entries) (installNatives cls entries) m := by
  obtain ⟨own, hcls, rfl⟩ := tracks.exists_methods hdictionary
  exact affords_ask_bind hdictionary
    (tracks.equipped.affords_installInto hcls (hcount own hcls) entries)

end Methods

end Machine

end TalkMachine
