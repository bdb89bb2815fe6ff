import TalkMachine.Proofs.Machine.ClassTable
import TalkMachine.Proofs.Machine.Steps

/-!
# Changes to the hierarchy

Giving a class another superclass and defining a class keep the hierarchy, also where they are
refused half way, as long as the superclass that is asked for is no metaclass
(`Machine.develops_setSuperclass`, `Machine.develops_createClass`). The check before a change of
superclass looks for the class on the line of the new superclass. It does not look at the line of
the metaclass, which changes as well; but as long as all classes that are no metaclasses inherit from
such classes, the metaclasses go along their lines.

All that can come of these changes, whatever the classes are, is said by `Machine.Directs` and
`Machine.Makes`.
-/

namespace TalkMachine

namespace Machine

variable {m m' m'' : Machine} {s s' s'' : ObjectMap} {cls metaclass superclass metaSuperclass : Value}
  {index fixed : ℕ}

/-- Whether a machine has come out of changes by which its classes form a hierarchy again, and at
most one of the fixed indices has been taken. -/
structure Develops (fixed : ℕ) (m : Machine) (s : ObjectMap) (m' : Machine) (s' : ObjectMap) :
    Prop where
  stored : m'.Stored s'
  hierarchy : m'.Hierarchy
  size_le : m.classTable.size ≤ m'.classTable.size
  classAt?_cases : ∀ {place : ℕ} {cls : Value}, place < ClassIndex.firstDynamic →
    m'.classAt? place = some cls → m.classAt? place = some cls ∨ place = fixed

namespace Develops

/-- Nothing is changed. -/
lemma refl (stored : m.Stored s) (hierarchy : m.Hierarchy) : m.Develops fixed s m s :=
  ⟨stored, hierarchy, le_rfl, fun _ => .inl⟩

/-- One change after the other. -/
lemma trans (hd : m.Develops fixed s m' s') (hd' : m'.Develops fixed s' m'' s'') :
    m.Develops fixed s m'' s'' :=
  ⟨hd'.stored, hd'.hierarchy, hd.size_le.trans hd'.size_le, fun hplace h =>
    (hd'.classAt?_cases hplace h).elim (hd.classAt?_cases hplace) .inr⟩

end Develops

/-- Replaced superclasses that leave a hierarchy. -/
lemma Relinked.develops {changed : Value → Option Value} (relinked : m.Relinked m' changed)
    (stored' : m'.Stored s') (hierarchy' : m'.Hierarchy) (htable : m'.classTable = m.classTable) :
    m.Develops fixed s m' s' :=
  ⟨stored', hierarchy', htable ▸ le_rfl, fun _ h => .inl ((relinked.classAt?_eq _).symm.trans h)⟩

/-- A change that leaves the classes alone. -/
lemma Quiet.develops (hq : m.Quiet s m' s') (stored : m.Stored s) (hierarchy : m.Hierarchy) :
    m.Develops fixed s m' s' :=
  ⟨hq.stored, hierarchy.keep (hq.relinked stored), hq.size_le,
    fun _ h => .inl ((hq.classAt?_eq _).symm.trans h)⟩

/-- The same for a step, of which more is known. -/
lemma Settles.develops {α : Type} {x : MachineM α} {Q : α → Machine → ObjectMap → Prop}
    (hx : Settles x m s Q) (stored : m.Stored s) (hierarchy : m.Hierarchy) :
    Ensures (Develops fixed) x m s fun a m' s' => m.Quiet s m' s' ∧ Q a m' s' :=
  Ensures.mono hx fun _ _ hq => hq.develops stored hierarchy

/-! ### Another superclass -/

/-- What is known when the superclass of the metaclass has been found: that there is none to
follow, or that the class is not on the line of the new superclass. -/
lemma metaSuperclass_cases (h : m.metaSuperclass cls superclass = .ok metaSuperclass) :
    (superclass = m.nil ∧
      metaSuperclass = (m.classAt? ClassIndex.classClass).getD m.nil) ∨
    (m.isClass superclass = true ∧ m.classOf superclass = .ok metaSuperclass ∧
      ∃ line, m.Line superclass line ∧ cls ∉ line) := by
  rw [Machine.metaSuperclass] at h
  split at h
  · rename_i hnil
    exact .inl ⟨hnil, (Except.ok.inj h).symm⟩
  · obtain ⟨_, hclass, h⟩ := bind_eq_ok_iff.mp h
    obtain ⟨_, hacyclic, h⟩ := bind_eq_ok_iff.mp h
    exact .inr ⟨expectClass_eq_ok_iff.mp hclass, h, exists_line_of_checkAcyclic hacyclic⟩

/-- A class on whose line the other one is not is taken. -/
lemma metaSuperclass_eq (hclass : m.isClass superclass = true) {line : List Value}
    (hline : m.Line superclass line) (hmem : cls ∉ line) :
    m.metaSuperclass cls superclass = m.classOf superclass := by
  rw [Machine.metaSuperclass, if_neg (ne_nil_of_isClass hclass), expectClass_eq_ok_iff.mpr hclass,
    checkAcyclic_eq_ok hline hmem (Nat.le_succ_of_le hline.length_le)]
  rfl

/-- A store of a superclass into a class is not refused, and does nothing else. -/
lemma Stored.exists_store_superclass (stored : m.Stored s) (hcls : m.isClass cls = true)
    (superclass : Value) :
    ∃ m' s', change (Heap.store cls ClassSlot.superclass superclass) m = .ok () m' ∧
      m'.Stored s' ∧ m'.classTable = m.classTable ∧
      m.Relinked m' fun value => if value = cls then some superclass else none := by
  obtain ⟨h', s', hok, rep', orderly', hrelinks⟩ := Heap.exists_store_superclass stored.rep
    stored.orderly (stored.exists_object hcls) superclass
  have stored' : { m with heap := h' }.Stored s' := by
    refine ⟨rep', orderly', hrelinks.nil_eq.trans stored.nil_eq, fun {index cls} hat => ?_⟩
    obtain ⟨o, ho, hhash, hbehavior⟩ := stored.table hat
    obtain ⟨o', ho', hclass, hhash', -⟩ := hrelinks.kept ho
    exact ⟨o', ho', hhash'.trans hhash, hclass ▸ hbehavior⟩
  refine ⟨{ m with heap := h' }, s', ?_, stored', rfl,
    stored.relinked stored' (fun _ => rfl) hrelinks⟩
  simp only [change, onHeap, EStateM.adaptExcept, hok]

/-- Whether nothing has happened to a machine but that one class has got another superclass. -/
structure Links (cls superclass : Value) (m m' : Machine) (s' : ObjectMap) : Prop where
  stored : m'.Stored s'
  classTable_eq : m'.classTable = m.classTable
  relinked : m.Relinked m' fun value => if value = cls then some superclass else none

/-- What can come of giving a class another superclass: it is refused; a metaclass gets the superclass,
and nothing else happens; or any other class gets it, and its metaclass the one that goes with it,
unless the class has no class. -/
inductive Directs (m : Machine) (cls superclass : Value) :
    EStateM.Result MachineError Machine Unit → Prop
  | refused {e : MachineError} (hnot : m.isClass cls = true →
      ∀ metaSuperclass, m.metaSuperclass cls superclass ≠ .ok metaSuperclass) :
    Directs m cls superclass (.error e m)
  | ofMetaclass {metaSuperclass : Value} {m₁ : Machine} {s₁ : ObjectMap}
      (hcls : m.isMetaclass cls = true)
      (hmeta : m.metaSuperclass cls superclass = .ok metaSuperclass)
      (links : m.Links cls superclass m₁ s₁) : Directs m cls superclass (.ok () m₁)
  | halfway {metaSuperclass : Value} {e : MachineError} {m₁ : Machine} {s₁ : ObjectMap}
      (hcls : m.Ordinary cls) (hmeta : m.metaSuperclass cls superclass = .ok metaSuperclass)
      (links : m.Links cls superclass m₁ s₁) (hnone : m.classOf cls = .error e) :
    Directs m cls superclass (.error e m₁)
  | ofClass {metaclass metaSuperclass : Value} {m₁ m₂ : Machine} {s₁ s₂ : ObjectMap}
      (hcls : m.Ordinary cls) (hmeta : m.metaSuperclass cls superclass = .ok metaSuperclass)
      (links : m.Links cls superclass m₁ s₁) (hclassOf : m.classOf cls = .ok metaclass)
      (metaLinks : m₁.Links metaclass metaSuperclass m₂ s₂) : Directs m cls superclass (.ok () m₂)

/-- The class of a value is a class. -/
lemma Stored.isClass_of_classOf (stored : m.Stored s) {value found : Value}
    (h : m.classOf value = .ok found) : m.isClass found = true :=
  stored.isClass_iff.mpr (exists_classAt?_of_classOf h)

/-- One of these comes of giving a class another superclass. -/
theorem Stored.directs (stored : m.Stored s) (cls superclass : Value) :
    m.Directs cls superclass (setSuperclass cls superclass m) := by
  rw [setSuperclass]
  cases hexpect : m.expectClass cls with
  | error e =>
    rw [run_bind_of_error (run_ask_of_error hexpect)]
    refine .refused fun hclass => ?_
    rw [expectClass_eq_ok_iff.mpr hclass] at hexpect
    cases hexpect
  | ok _ =>
  rw [run_bind_of_ok (run_ask_of_ok hexpect)]
  have hclass := expectClass_eq_ok_iff.mp hexpect
  cases hmeta : m.metaSuperclass cls superclass with
  | error e =>
    rw [run_bind_of_error (run_ask_of_error hmeta)]
    exact .refused fun _ _ hok => by rw [hmeta] at hok; cases hok
  | ok metaSuperclass =>
  rw [run_bind_of_ok (run_ask_of_ok hmeta)]
  obtain ⟨m₁, s₁, hstore, stored₁, htable₁, relinked₁⟩ :=
    stored.exists_store_superclass hclass superclass
  have links : m.Links cls superclass m₁ s₁ := ⟨stored₁, htable₁, relinked₁⟩
  have hask : ask (fun m => .ok (m.isMetaclass cls)) m₁ = .ok (m.isMetaclass cls) m₁ := by
    simp only [ask, relinked₁.isMetaclass_eq]
  rw [run_bind_of_ok hstore, run_bind_of_ok hask]
  cases hkind : m.isMetaclass cls with
  | true => exact .ofMetaclass hkind hmeta links
  | false =>
  simp only [Bool.not_false, if_true]
  have hclassOf₁ : m₁.classOf cls = m.classOf cls := relinked₁.classOf_eq hclass
  cases hclassOf : m.classOf cls with
  | error e =>
    rw [run_bind_of_error (run_ask_of_error (hclassOf₁.trans hclassOf))]
    exact .halfway ⟨hclass, hkind⟩ hmeta links hclassOf
  | ok metaclass =>
    obtain ⟨m₂, s₂, hstore₂, stored₂, htable₂, relinked₂⟩ := stored₁.exists_store_superclass
      ((relinked₁.isClass_eq metaclass).trans (stored.isClass_of_classOf hclassOf)) metaSuperclass
    rw [run_bind_of_ok (run_ask_of_ok (hclassOf₁.trans hclassOf)), hstore₂]
    exact .ofClass ⟨hclass, hkind⟩ hmeta links hclassOf ⟨stored₂, htable₂, relinked₂⟩

/-- Whatever comes of it, superclasses are replaced at most. -/
lemma Stored.exists_relinked_setSuperclass (stored : m.Stored s) (cls superclass : Value) :
    ∃ s' changed, (stateAfter (setSuperclass cls superclass m)).Stored s' ∧
      m.Relinked (stateAfter (setSuperclass cls superclass m)) changed := by
  have directs := stored.directs cls superclass
  generalize setSuperclass cls superclass m = result at directs ⊢
  cases directs with
  | refused => exact ⟨s, _, stored, (Quiet.refl stored).relinked stored⟩
  | ofMetaclass _ _ links | halfway _ _ links => exact ⟨_, _, links.stored, links.relinked⟩
  | ofClass _ _ links _ metaLinks =>
    exact ⟨_, _, metaLinks.stored, links.relinked.trans metaLinks.relinked⟩

/-- A class and its metaclass have got other superclasses. -/
lemma Links.relinked_trans {m₁ : Machine} {s₁ : ObjectMap} (links : m.Links cls superclass m₁ s₁)
    (metaLinks : m₁.Links metaclass metaSuperclass m' s') :
    m.Relinked m' fun value => if value = metaclass then some metaSuperclass
      else if value = cls then some superclass else none := by
  convert links.relinked.trans metaLinks.relinked using 2
  split <;> rfl

/-- The hierarchy stays when a class that is no metaclass gets another superclass of this kind. -/
lemma Hierarchy.links (hierarchy : m.Hierarchy) {m₁ : Machine} {s₁ : ObjectMap}
    (hcls : m.Ordinary cls) (hsuperclass : m.isMetaclass superclass = false)
    (hmeta : m.metaSuperclass cls superclass = .ok metaSuperclass)
    (links : m.Links cls superclass m₁ s₁) (hclassOf : m.classOf cls = .ok metaclass)
    (metaLinks : m₁.Links metaclass metaSuperclass m' s') : m'.Hierarchy := by
  have relinked := links.relinked_trans metaLinks
  rcases metaSuperclass_cases hmeta with ⟨rfl, hnone⟩ | ⟨hclass, hclassOf', line, hline, hmem⟩
  · refine hierarchy.relink_class relinked hcls hclassOf .nil List.not_mem_nil (.inl ⟨rfl, ?_⟩)
    cases hat : m.classAt? ClassIndex.classClass with
    | none => exact .inl (by rw [hnone, hat, Option.getD_none])
    | some classClass =>
      rw [hat, Option.getD_some] at hnone
      exact .inr (hnone ▸ hierarchy.kernel (by decide) hat)
  · exact hierarchy.relink_class relinked hcls hclassOf hline hmem
      (.inr ⟨⟨hclass, hsuperclass⟩, hclassOf'⟩)

/-- Giving a class or metaclass another superclass that is no metaclass keeps the hierarchy. -/
theorem develops_setSuperclass (stored : m.Stored s) (hierarchy : m.Hierarchy)
    (hsuperclass : m.isMetaclass superclass = false) :
    Ensures (Develops fixed) (setSuperclass cls superclass) m s fun _ _ _ => True := by
  have directs := stored.directs cls superclass
  rw [Ensures]
  generalize setSuperclass cls superclass m = result at directs ⊢
  cases directs with
  | refused => exact ⟨s, .refl stored hierarchy⟩
  | ofMetaclass hkind hmeta links =>
    have hnext : superclass = m.nil ∨ m.Ordinary superclass :=
      (metaSuperclass_cases hmeta).imp And.left fun h => ⟨h.1, hsuperclass⟩
    exact ⟨_, links.relinked.develops links.stored
      (hierarchy.relink_metaclass links.relinked hkind hnext) links.classTable_eq, trivial⟩
  | halfway hcls _ _ hnone =>
    obtain ⟨metaclass, hclassOf, -⟩ := hierarchy.exists_metaclass hcls
    rw [hclassOf] at hnone
    cases hnone
  | ofClass hcls hmeta links hclassOf metaLinks =>
    exact ⟨_, (links.relinked_trans metaLinks).develops metaLinks.stored
      (hierarchy.links hcls hsuperclass hmeta links hclassOf metaLinks)
      (metaLinks.classTable_eq.trans links.classTable_eq), trivial⟩

/-! ### A new class -/

/-- What a class may inherit from: nothing, or a class that is no metaclass. -/
def MayInherit (m : Machine) (superclass : Value) : Prop :=
  superclass = m.nil ∨ m.Ordinary superclass

/-- What a class may inherit from is no metaclass. -/
lemma MayInherit.isMetaclass_eq (h : m.MayInherit superclass) : m.isMetaclass superclass = false := by
  rcases h with rfl | h
  · rw [isMetaclass, isClass_nil]
    rfl
  · exact h.2

/-- It stays so while classes are left alone. -/
lemma MayInherit.keep (h : m.MayInherit superclass) (stored : m.Stored s)
    (hq : m.Quiet s m' s') : m'.MayInherit superclass := by
  have relinked := hq.relinked stored
  rwa [MayInherit, relinked.ordinary_iff, relinked.nil_eq]

/-- It stays so when a class enters the table with its metaclass. -/
lemma MayInherit.entered (h : m.MayInherit superclass) (entered : m.Entered m' index cls metaclass) :
    m'.MayInherit superclass :=
  h.imp (fun hnil => hnil.trans entered.nil_eq.symm) fun h => entered.ordinary_iff.mpr (.inl h)

/-- Whether a class has been made without a superclass at an index, or the classes have been left alone
because it has not come to that. -/
inductive Makes (index : ℕ) (m : Machine) (s : ObjectMap) (m' : Machine) (s' : ObjectMap) : Prop
  | quiet (hq : m.Quiet s m' s')
  | entered {cls metaclass : Value} (entered : m.Entered m' index cls metaclass)
      (stored : m'.Stored s') (size_le : m.classTable.size ≤ m'.classTable.size)

/-- Either way the objects of the machine are known. -/
lemma Makes.stored (makes : m.Makes index s m' s') : m'.Stored s' := by
  cases makes with
  | quiet hq => exact hq.stored
  | entered _ stored => exact stored

/-- Filling a class and its metaclass leaves the classes alone. -/
lemma settles_furnish (stored : m.Stored s) (hcls : s.IsBehavior cls)
    (hmetaclass : s.IsBehavior metaclass) (name : String) (spec : InstanceSpec) :
    Settles (furnish cls metaclass name spec) m s fun _ _ _ => True := by
  rw [furnish]
  refine (settles_intern stored name).bind fun symbol m₁ s₁ hq₁ _ => ?_
  refine (settles_onHeap hq₁.stored (Dictionary.settles_new hq₁.stored.rep hq₁.stored.orderly
    0)).bind fun dictionary m₂ s₂ hq₂ hdictionary => ?_
  have hq := hq₁.trans hq₂
  refine (settles_change hq₂.stored (settles_fillClass hq₂.stored.rep hq₂.stored.orderly
    (hq.relinks.isBehavior hcls) hdictionary spec symbol)).bind fun _ m₃ s₃ hq₃ _ => ?_
  refine (settles_onHeap hq₃.stored (Dictionary.settles_new hq₃.stored.rep hq₃.stored.orderly
    0)).bind fun metaDictionary m₄ s₄ hq₄ hmetaDictionary => ?_
  have hq := (hq.trans hq₃).trans hq₄
  exact settles_change hq₄.stored (settles_fillClass hq₄.stored.rep hq₄.stored.orderly
    (hq.relinks.isBehavior hmetaclass) hmetaDictionary _ cls)

/-- A class at a free index enters the table with its metaclass, which is at a fresh one. -/
lemma makes_enterPair (stored : m.Stored s) (hindex : index < m.classTable.size)
    (hmax : index ≤ Header.maxClassIndex) (hfree : m.classAt? index = none) :
    Ensures (Makes index) (enterPair index) m s fun answer m' s' =>
      m.Entered m' index answer.2.1 answer.2.2 ∧ m'.Stored s' ∧
        m.classTable.size ≤ m'.classTable.size ∧ s'.IsBehavior answer.2.1 ∧
        s'.IsBehavior answer.2.2 := by
  -- What enters is new with respect to the machine from before, so that the relation starts there.
  show Ensures (fun _ _ m' s' => m.Makes index s m' s') (enterPair index) m s _
  rw [enterPair]
  refine Ensures.bind (fun _ h => h) ((settles_reserveClassIndex stored).mono fun _ _ => .quiet) ?_
  rintro metaIndex m₁ s₁ - ⟨hq₁, hdynamic, hfresh, hmetaMax, hmetaLt, hmetaFree⟩
  refine Ensures.bind (fun _ h => h) ((settles_allocateClass hq₁.stored (Nat.le_of_succ_le hdynamic)
    hmax).mono fun _ _ hq => .quiet (hq₁.trans hq)) ?_
  rintro cls m₂ s₂ - ⟨hq₂, -, hcls⟩
  refine Ensures.bind (fun _ h => h) ((settles_allocateClass hq₂.stored le_rfl hmetaMax).mono
    fun _ _ hq => .quiet ((hq₁.trans hq₂).trans hq)) ?_
  rintro metaclass m₃ s₃ - ⟨hq₃, -, hmetaclass⟩
  refine Ensures.bind (fun _ h => h) ((settles_growClassTable hq₃.stored (index + 1)).mono
    fun _ _ hq => .quiet (((hq₁.trans hq₂).trans hq₃).trans hq)) ?_
  rintro _ m₄ s₄ - ⟨hq₄, -⟩
  have hqMeta := (hq₂.trans hq₃).trans hq₄
  have hq := hq₁.trans hqMeta
  have pair : m₄.AwaitsPair s₄ cls metaclass index metaIndex :=
    { ofClass := hcls.keep hq₂.stored (hq₃.trans hq₄)
      ofMetaclass := hmetaclass.keep hq₃.stored hq₄
      index_lt := hindex.trans_le hq.size_le
      metaIndex_lt := hmetaLt.trans_le hqMeta.size_le
      indices_ne := (hindex.trans_le hfresh).ne
      free := (hq.classAt?_eq index).trans hfree
      metaFree := (hqMeta.classAt?_eq metaIndex).trans hmetaFree
      dynamic := hdynamic }
  have entered := (pair.entered hq₄.stored).of_relinked (hq.relinked stored)
  have stored' := pair.stored_withPair hq₄.stored
  have hsize : m.classTable.size ≤ (m₄.withPair cls metaclass index metaIndex).classTable.size :=
    hq.size_le.trans_eq (by simp [withPair])
  exact ⟨s₄, .entered entered stored' hsize, entered, stored', hsize, pair.ofClass.isBehavior,
    pair.ofMetaclass.isBehavior⟩

/-- A class is made at a free index, and its metaclass at a fresh one. -/
theorem makes_makeClass (stored : m.Stored s) (hindex : index < m.classTable.size)
    (hmax : index ≤ Header.maxClassIndex) (hfree : m.classAt? index = none) (name : String)
    (spec : InstanceSpec) :
    Ensures (Makes index) (makeClass index name spec) m s fun cls m' _ =>
      ∃ metaclass, m.Entered m' index cls metaclass := by
  show Ensures (fun _ _ m' s' => m.Makes index s m' s') (makeClass index name spec) m s _
  rw [makeClass]
  refine Ensures.bind (fun _ h => h) (makes_enterPair stored hindex hmax hfree) ?_
  rintro ⟨metaIndex, cls, metaclass⟩ m₁ s₁ - ⟨entered, stored₁, hsize, hcls, hmetaclass⟩
  have hfurnish := settles_furnish stored₁ hcls hmetaclass name spec
  refine Ensures.bind (fun _ h => h) (hfurnish.mono fun _ _ hq =>
    .entered (entered.keep (hq.relinked stored₁)) hq.stored (hsize.trans hq.size_le)) ?_
  rintro _ m₂ s₂ makes₂ ⟨hq₂, -⟩
  exact .pure makes₂ ⟨metaclass, entered.keep (hq₂.relinked stored₁)⟩

/-- Making a class keeps the hierarchy. -/
lemma Makes.develops (makes : m.Makes index s m' s') (stored : m.Stored s) (hierarchy : m.Hierarchy)
    (hfixed : index < ClassIndex.firstDynamic → index = fixed) : m.Develops fixed s m' s' := by
  cases makes with
  | quiet hq => exact hq.develops stored hierarchy
  | entered entered stored' hsize =>
    refine ⟨stored', entered.hierarchy hierarchy, hsize, fun {place cls} hplace hat => ?_⟩
    rcases entered.classAt?_cases hat with hold | ⟨rfl, -⟩ | ⟨hdynamic, -⟩
    · exact .inl hold
    · exact .inr (hfixed hplace)
    · exact absurd hplace (Nat.not_lt.mpr hdynamic)

/-- Making a class at a free index, and its metaclass at a fresh one, keeps the hierarchy when the
superclass is no metaclass. -/
theorem develops_createClass (stored : m.Stored s) (hierarchy : m.Hierarchy)
    (hindex : index < m.classTable.size) (hmax : index ≤ Header.maxClassIndex)
    (hfree : m.classAt? index = none) (hfixed : index < ClassIndex.firstDynamic → index = fixed)
    (hsuperclass : m.isMetaclass superclass = false) (name : String) (spec : InstanceSpec) :
    Ensures (Develops fixed) (createClass index name superclass spec) m s fun _ _ _ => True := by
  rw [createClass_eq]
  refine ensures_ask_bind_of_refl (.refl stored hierarchy) fun _ hcheck => ?_
  have hmay : m.MayInherit superclass := by
    rw [checkSuperclass] at hcheck
    split at hcheck
    · exact .inl ‹_›
    · exact .inr ⟨expectClass_eq_ok_iff.mp hcheck, hsuperclass⟩
  refine Ensures.bind Develops.trans ((makes_makeClass stored hindex hmax hfree name spec).mono
    fun _ _ makes => makes.develops stored hierarchy hfixed) ?_
  rintro cls m₁ s₁ hd₁ ⟨-, metaclass, entered⟩
  refine Ensures.bind Develops.trans (develops_setSuperclass hd₁.stored hd₁.hierarchy
    (hmay.entered entered).isMetaclass_eq) fun _ m₂ s₂ hd₂ _ => ?_
  exact Ensures.pure (.refl hd₂.stored hd₂.hierarchy) trivial

/-- Defining a class keeps the hierarchy when the superclass is no metaclass. -/
theorem develops_defineClass (stored : m.Stored s) (hierarchy : m.Hierarchy)
    (hsuperclass : m.isMetaclass superclass = false) (name : String) (spec : InstanceSpec) :
    Ensures (Develops fixed) (defineClass name superclass spec) m s fun _ _ _ => True := by
  rw [defineClass]
  refine Ensures.bind Develops.trans ((settles_reserveClassIndex stored).develops stored hierarchy)
    fun index m₁ s₁ hd₁ ⟨hq₁, hdynamic, _, hmax, hlt, hfree⟩ => ?_
  have hsuperclass₁ : m₁.isMetaclass superclass = false :=
    ((hq₁.relinked stored).isMetaclass_eq superclass).trans hsuperclass
  exact develops_createClass hd₁.stored hd₁.hierarchy hlt hmax hfree
    (fun h => absurd h (Nat.not_lt.mpr hdynamic)) hsuperclass₁ name spec

/-- Changes that leave the classes alone may come before. -/
lemma Makes.of_quiet (makes : m'.Makes index s' m'' s'') (stored : m.Stored s)
    (hq : m.Quiet s m' s') : m.Makes index s m'' s'' := by
  cases makes with
  | quiet hq' => exact .quiet (hq.trans hq')
  | entered entered stored' hsize =>
    exact .entered (entered.of_relinked (hq.relinked stored)) stored' (hq.size_le.trans hsize)

/-- A definition, refused or not, makes a class at most; if it makes one, below a class from before or
none, it is over when the class has been given its superclass. -/
theorem Stored.exists_makes_of_defineClass (stored : m.Stored s) (name : String) (superclass : Value)
    (spec : InstanceSpec) :
    ∃ index m₁ s₁, m.Makes index s m₁ s₁ ∧
      (stateAfter (defineClass name superclass spec m) = m₁ ∨
        ClassIndex.firstDynamic ≤ index ∧ (superclass = m.nil ∨ m.isClass superclass = true) ∧
          ∃ cls metaclass, m.Entered m₁ index cls metaclass ∧
            stateAfter (defineClass name superclass spec m) =
              stateAfter (setSuperclass cls superclass m₁)) := by
  have hreserve := settles_reserveClassIndex stored
  rw [Settles, Ensures] at hreserve
  rw [defineClass]
  cases hrun : reserveClassIndex m with
  | error e m₁ =>
    rw [hrun] at hreserve
    obtain ⟨s₁, hq⟩ := hreserve
    rw [run_bind_of_error hrun]
    exact ⟨0, m₁, s₁, .quiet hq, .inl rfl⟩
  | ok index m₁ =>
  rw [hrun] at hreserve
  obtain ⟨s₁, hq, hdynamic, -, hmax, hlt, hfree⟩ := hreserve
  rw [run_bind_of_ok hrun, createClass_eq]
  cases hcheck : m₁.checkSuperclass superclass with
  | error e =>
    rw [run_bind_of_error (run_ask_of_error hcheck)]
    exact ⟨index, m₁, s₁, .quiet hq, .inl rfl⟩
  | ok _ =>
  rw [run_bind_of_ok (run_ask_of_ok hcheck)]
  have hsuperclass : superclass = m.nil ∨ m.isClass superclass = true := by
    have relinked := hq.relinked stored
    rw [checkSuperclass, relinked.nil_eq] at hcheck
    split at hcheck
    · exact .inl ‹_›
    · exact .inr ((relinked.isClass_eq superclass).symm.trans (expectClass_eq_ok_iff.mp hcheck))
  have hmake := makes_makeClass hq.stored hlt hmax hfree name spec
  rw [Ensures] at hmake
  cases hrun' : makeClass index name spec m₁ with
  | error e m₂ =>
    rw [hrun'] at hmake
    obtain ⟨s₂, makes⟩ := hmake
    rw [run_bind_of_error hrun']
    exact ⟨index, m₂, s₂, makes.of_quiet stored hq, .inl rfl⟩
  | ok cls m₂ =>
    rw [hrun'] at hmake
    obtain ⟨s₂, makes, metaclass, entered⟩ := hmake
    rw [run_bind_of_ok hrun', stateAfter_bind_pure]
    exact ⟨index, m₂, s₂, makes.of_quiet stored hq, .inr ⟨hdynamic, hsuperclass, cls,
      metaclass, entered.of_relinked (hq.relinked stored), rfl⟩⟩

end Machine

end TalkMachine
