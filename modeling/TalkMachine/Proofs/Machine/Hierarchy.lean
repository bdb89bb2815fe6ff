import TalkMachine.Proofs.Machine.Lines

/-!
# The hierarchy of classes

Classes that are no metaclasses inherit from one another along finite lines, and each of them has a
metaclass of its own. The superclass of the metaclass is the metaclass of the superclass, unless it
is none or a class that is no metaclass (`Machine.Hierarchy`). So the lines of metaclasses are
finite as well: each goes along the line of the class, and leaves it at most once
(`Machine.Hierarchy.exists_line`).

Two things can happen to a hierarchy: superclasses are replaced (`Machine.Relinked`), and a class
enters the table together with its metaclass (`Machine.Entered`). Neither closes a circle as long as
no metaclass is made the superclass of anything by itself.
-/

namespace TalkMachine

namespace Machine

variable {m m' : Machine} {cls metaclass next value : Value} {changed : Value → Option Value}

/-- A class that is no metaclass. -/
def Ordinary (m : Machine) (cls : Value) : Prop :=
  m.isClass cls = true ∧ m.isMetaclass cls = false

/-- Whether the metaclass of a class inherits from what it may: nothing, a class that is no
metaclass, or the metaclass of the superclass. -/
def Parallels (m : Machine) (cls metaclass : Value) : Prop :=
  ∃ next, m.superclass metaclass = .ok next ∧
    (next = m.nil ∨ m.Ordinary next ∨
      ∃ superclass, m.superclass cls = .ok superclass ∧ m.Ordinary superclass ∧
        m.classOf superclass = .ok next)

/-- The classes and metaclasses of a machine, as they are linked to each other. -/
structure Hierarchy (m : Machine) : Prop where
  closed : ∀ {cls next : Value}, m.Ordinary cls → m.superclass cls = .ok next →
    next = m.nil ∨ m.Ordinary next
  exists_line_of_ordinary : ∀ {cls : Value}, m.Ordinary cls → ∃ line, m.Line cls line
  exists_metaclass : ∀ {cls : Value}, m.Ordinary cls →
    ∃ metaclass, m.classOf cls = .ok metaclass ∧ m.isMetaclass metaclass = true ∧
      m.Parallels cls metaclass
  exists_owner : ∀ {metaclass : Value}, m.isMetaclass metaclass = true →
    ∃ cls, m.Ordinary cls ∧ m.classOf cls = .ok metaclass
  injective : ∀ {cls cls' metaclass : Value}, m.Ordinary cls → m.Ordinary cls' →
    m.classOf cls = .ok metaclass → m.classOf cls' = .ok metaclass → cls = cls'
  kernel : ∀ {index : ℕ} {cls : Value}, index < ClassIndex.firstDynamic →
    m.classAt? index = some cls → m.Ordinary cls

/-- A metaclass is a class. -/
lemma isClass_of_isMetaclass (h : m.isMetaclass cls = true) : m.isClass cls = true := by
  rw [isMetaclass, Bool.and_eq_true] at h
  exact h.1

/-- A class is a metaclass or not. -/
lemma ordinary_or_isMetaclass (h : m.isClass cls = true) :
    m.Ordinary cls ∨ m.isMetaclass cls = true := by
  cases hmeta : m.isMetaclass cls with
  | false => exact .inl ⟨h, hmeta⟩
  | true => exact .inr rfl

/-- No class is both. -/
lemma Ordinary.ne (hcls : m.Ordinary cls) (hmetaclass : m.isMetaclass metaclass = true) :
    cls ≠ metaclass := by
  rintro rfl
  rw [hcls.2] at hmetaclass
  cases hmetaclass

namespace Hierarchy

variable (hierarchy : m.Hierarchy)
include hierarchy

/-- All classes on the line of a class that is no metaclass are of this kind. -/
lemma ordinary_of_mem {line : List Value} (hline : m.Line cls line) (hcls : cls = m.nil ∨ m.Ordinary cls) :
    ∀ value ∈ line, m.Ordinary value := by
  induction hline with
  | nil => simp
  | cons hnext rest ih =>
    have hordinary := hcls.resolve_left (ne_nil_of_superclass hnext)
    rw [List.forall_mem_cons]
    exact ⟨hordinary, ih (hierarchy.closed hordinary hnext)⟩

/-- The line of a metaclass goes along that of its class. -/
lemma exists_line_of_classOf {line : List Value} (hline : m.Line cls line)
    (hordinary : m.Ordinary cls) (hclassOf : m.classOf cls = .ok metaclass) :
    ∃ line, m.Line metaclass line := by
  induction hline generalizing metaclass with
  | nil => simp [Ordinary, isClass_nil] at hordinary
  | cons hnext rest ih =>
    obtain ⟨_, hclassOf', -, next, hmeta, hparallel⟩ := hierarchy.exists_metaclass hordinary
    obtain rfl := Except.ok.inj (hclassOf.symm.trans hclassOf')
    have hrest : ∃ line, m.Line next line := by
      rcases hparallel with rfl | hleaves | ⟨superclass, hsuperclass, hclass, hmetaclass⟩
      · exact ⟨[], .nil⟩
      · exact hierarchy.exists_line_of_ordinary hleaves
      · obtain rfl := Except.ok.inj (hnext.symm.trans hsuperclass)
        exact ih hclass hmetaclass
    obtain ⟨line, hline⟩ := hrest
    exact ⟨metaclass :: line, .cons hmeta hline⟩

/-- Every class and every metaclass has a line. -/
theorem exists_line (hcls : m.isClass cls = true) : ∃ line, m.Line cls line := by
  rcases ordinary_or_isMetaclass hcls with hordinary | hmeta
  · exact hierarchy.exists_line_of_ordinary hordinary
  · obtain ⟨owner, hordinary, hclassOf⟩ := hierarchy.exists_owner hmeta
    obtain ⟨line, hline⟩ := hierarchy.exists_line_of_ordinary hordinary
    exact hierarchy.exists_line_of_classOf hline hordinary hclassOf

end Hierarchy

/-! ### Other superclasses -/

/-- The classes have stayed the same but for the superclasses of some. -/
structure Relinked (m m' : Machine) (changed : Value → Option Value) : Prop where
  nil_eq : m'.nil = m.nil
  classAt?_eq : ∀ index, m'.classAt? index = m.classAt? index
  isClass_eq : ∀ value, m'.isClass value = m.isClass value
  isMetaclass_eq : ∀ value, m'.isMetaclass value = m.isMetaclass value
  classOf_eq : ∀ {cls : Value}, m.isClass cls = true → m'.classOf cls = m.classOf cls
  superclass_eq : ∀ {cls : Value}, m.isClass cls = true →
    m'.superclass cls = (changed cls).elim (m.superclass cls) .ok

/-- One replacement after the other. The later superclass counts. -/
lemma Relinked.trans {m'' : Machine} {changed' : Value → Option Value}
    (h : m.Relinked m' changed) (h' : m'.Relinked m'' changed') :
    m.Relinked m'' fun value => (changed' value).or (changed value) := by
  refine ⟨h'.nil_eq.trans h.nil_eq, fun index => (h'.classAt?_eq index).trans (h.classAt?_eq index),
    fun value => (h'.isClass_eq value).trans (h.isClass_eq value),
    fun value => (h'.isMetaclass_eq value).trans (h.isMetaclass_eq value),
    fun {cls} hcls => ?_, fun {cls} hcls => ?_⟩ <;>
    have hcls' : m'.isClass cls = true := (h.isClass_eq cls).trans hcls
  · rw [h'.classOf_eq hcls', h.classOf_eq hcls]
  · rw [h'.superclass_eq hcls', h.superclass_eq hcls]
    cases changed' cls <;> rfl

namespace Relinked

variable (relinked : m.Relinked m' changed)
include relinked

/-- Metaclasses stay metaclasses. -/
lemma ordinary_iff : m'.Ordinary cls ↔ m.Ordinary cls := by
  rw [Ordinary, Ordinary, relinked.isClass_eq, relinked.isMetaclass_eq]

/-- A class keeps its superclass unless that is replaced. -/
lemma superclass_of_none (hsuperclass : m.superclass cls = .ok next) (hnone : changed cls = none) :
    m'.superclass cls = .ok next := by
  rw [relinked.superclass_eq (isClass_of_superclass hsuperclass), hnone]
  exact hsuperclass

/-- A class gets its new superclass. -/
lemma superclass_of_some (hcls : m.isClass cls = true) (hsome : changed cls = some next) :
    m'.superclass cls = .ok next := by
  rw [relinked.superclass_eq hcls, hsome]
  rfl

/-- A line without changed classes stays. -/
lemma line {line : List Value} (hline : m.Line cls line)
    (hnone : ∀ value ∈ line, changed value = none) :
    m'.Line cls line := by
  induction hline with
  | nil => exact relinked.nil_eq ▸ .nil
  | cons hnext rest ih =>
    rw [List.forall_mem_cons] at hnone
    exact .cons (relinked.superclass_of_none hnext hnone.1) (ih hnone.2)

/-- A metaclass still inherits from what it may when neither its superclass nor that of its class is
replaced. -/
lemma parallels (hparallels : m.Parallels cls metaclass) (hcls : changed cls = none)
    (hmetaclass : changed metaclass = none) : m'.Parallels cls metaclass := by
  obtain ⟨next, hnext, hcase⟩ := hparallels
  refine ⟨next, relinked.superclass_of_none hnext hmetaclass, ?_⟩
  rcases hcase with hnil | hordinary | ⟨superclass, hsuperclass, hordinary, hclassOf⟩
  · exact .inl (hnil.trans relinked.nil_eq.symm)
  · exact .inr (.inl (relinked.ordinary_iff.mpr hordinary))
  · refine .inr (.inr ⟨superclass, relinked.superclass_of_none hsuperclass hcls,
      relinked.ordinary_iff.mpr hordinary, ?_⟩)
    rw [relinked.classOf_eq hordinary.1, hclassOf]

/-- What is to be checked when superclasses are replaced: that none but classes that are no
metaclasses are given to such classes, that these keep finite lines, and that their metaclasses
inherit from what they may. -/
lemma hierarchy (hierarchy : m.Hierarchy)
    (hclosed : ∀ cls next, m.Ordinary cls → changed cls = some next →
      next = m.nil ∨ m.Ordinary next)
    (hlines : ∀ cls, m.Ordinary cls → ∃ line, m'.Line cls line)
    (hparallels : ∀ cls metaclass, m.Ordinary cls → m.classOf cls = .ok metaclass →
      m.isMetaclass metaclass = true → m.Parallels cls metaclass → m'.Parallels cls metaclass) :
    m'.Hierarchy where
  closed := by
    intro cls next hcls hnext
    rw [relinked.ordinary_iff] at hcls
    rw [relinked.ordinary_iff, relinked.nil_eq]
    rw [relinked.superclass_eq hcls.1] at hnext
    cases hchanged : changed cls with
    | none =>
      rw [hchanged] at hnext
      exact hierarchy.closed hcls hnext
    | some next' =>
      rw [hchanged] at hnext
      obtain rfl := Except.ok.inj hnext
      exact hclosed cls next' hcls hchanged
  exists_line_of_ordinary := fun hcls => hlines _ (relinked.ordinary_iff.mp hcls)
  exists_metaclass := by
    intro cls hcls
    rw [relinked.ordinary_iff] at hcls
    obtain ⟨metaclass, hclassOf, hmeta, hparallel⟩ := hierarchy.exists_metaclass hcls
    refine ⟨metaclass, ?_, ?_, hparallels cls metaclass hcls hclassOf hmeta hparallel⟩
    · rw [relinked.classOf_eq hcls.1, hclassOf]
    · rw [relinked.isMetaclass_eq, hmeta]
  exists_owner := by
    intro metaclass hmeta
    rw [relinked.isMetaclass_eq] at hmeta
    obtain ⟨cls, hcls, hclassOf⟩ := hierarchy.exists_owner hmeta
    exact ⟨cls, relinked.ordinary_iff.mpr hcls, by rw [relinked.classOf_eq hcls.1, hclassOf]⟩
  injective := by
    intro cls cls' metaclass hcls hcls' hclassOf hclassOf'
    rw [relinked.ordinary_iff] at hcls hcls'
    rw [relinked.classOf_eq hcls.1] at hclassOf
    rw [relinked.classOf_eq hcls'.1] at hclassOf'
    exact hierarchy.injective hcls hcls' hclassOf hclassOf'
  kernel := by
    intro index cls hindex hat
    rw [relinked.classAt?_eq] at hat
    exact relinked.ordinary_iff.mpr (hierarchy.kernel hindex hat)

end Relinked

namespace Hierarchy

variable (hierarchy : m.Hierarchy)
include hierarchy

/-- A hierarchy stays when no superclass is replaced. -/
theorem keep (relinked : m.Relinked m' fun _ => none) : m'.Hierarchy := by
  refine relinked.hierarchy hierarchy nofun (fun cls hcls => ?_)
    fun _ _ _ _ _ hparallels => relinked.parallels hparallels rfl rfl
  obtain ⟨line, hline⟩ := hierarchy.exists_line_of_ordinary hcls
  exact ⟨line, relinked.line hline fun _ _ => rfl⟩

/-- A hierarchy stays when one metaclass gets another superclass that is nil or no metaclass. -/
theorem relink_metaclass
    (relinked : m.Relinked m' fun value => if value = metaclass then some next else none)
    (hmetaclass : m.isMetaclass metaclass = true) (hnext : next = m.nil ∨ m.Ordinary next) :
    m'.Hierarchy := by
  refine relinked.hierarchy hierarchy (fun cls _ hcls hchanged => ?_) (fun cls hcls => ?_)
    fun cls other hcls hclassOf hother' hparallels => ?_
  · rw [if_neg (hcls.ne hmetaclass)] at hchanged
    cases hchanged
  · obtain ⟨line, hline⟩ := hierarchy.exists_line_of_ordinary hcls
    exact ⟨line, relinked.line hline fun value hmem =>
      if_neg ((hierarchy.ordinary_of_mem hline (.inr hcls) value hmem).ne hmetaclass)⟩
  · by_cases hsame : other = metaclass
    · refine ⟨next, relinked.superclass_of_some (isClass_of_isMetaclass hother')
        (if_pos hsame), ?_⟩
      rw [relinked.nil_eq, relinked.ordinary_iff]
      exact hnext.imp_right .inl
    · exact relinked.parallels hparallels (if_neg (hcls.ne hmetaclass)) (if_neg hsame)

/-- A hierarchy stays when a class that is no metaclass gets another superclass of this kind, on
whose line it is not, and its metaclass gets the metaclass of that superclass; or when the class
gets no superclass, and its metaclass none or a class that is no metaclass. -/
theorem relink_class {superclass metaSuperclass : Value} {line : List Value}
    (relinked : m.Relinked m' fun value => if value = metaclass then some metaSuperclass
      else if value = cls then some superclass else none)
    (hcls : m.Ordinary cls) (hclassOf : m.classOf cls = .ok metaclass)
    (hline : m.Line superclass line) (hmem : cls ∉ line)
    (hsuperclass :
      (superclass = m.nil ∧ (metaSuperclass = m.nil ∨ m.Ordinary metaSuperclass)) ∨
      (m.Ordinary superclass ∧ m.classOf superclass = .ok metaSuperclass)) : m'.Hierarchy := by
  have hmetaclass : m.isMetaclass metaclass = true := by
    obtain ⟨_, hclassOf', hmeta, -⟩ := hierarchy.exists_metaclass hcls
    rwa [← Except.ok.inj (hclassOf.symm.trans hclassOf')] at hmeta
  have hsuper : superclass = m.nil ∨ m.Ordinary superclass := hsuperclass.imp And.left And.left
  -- The line of the new superclass has stayed, and the line of the class goes on with it.
  have hline' : m'.Line superclass line := relinked.line hline fun value hvalue => by
    rw [if_neg ((hierarchy.ordinary_of_mem hline hsuper value hvalue).ne hmetaclass),
      if_neg (by rintro rfl; exact hmem hvalue)]
  have hnew : m'.superclass cls = .ok superclass :=
    relinked.superclass_of_some hcls.1 (by rw [if_neg (hcls.ne hmetaclass), if_pos rfl])
  have hlines : ∀ {value line}, m.Line value line → m.Ordinary value →
      ∃ line, m'.Line value line := by
    intro value line hvalue hordinary
    induction hvalue with
    | nil => simp [Ordinary, isClass_nil] at hordinary
    | @cons value next line hnext rest ih =>
      by_cases hsame : value = cls
      · exact ⟨_, .cons (hsame ▸ hnew) hline'⟩
      · have hkept : m'.superclass value = .ok next :=
          relinked.superclass_of_none hnext (by rw [if_neg (hordinary.ne hmetaclass), if_neg hsame])
        rcases hierarchy.closed hordinary hnext with rfl | hnext
        · exact ⟨[value], .cons hkept (relinked.nil_eq ▸ .nil)⟩
        · obtain ⟨line', hline'⟩ := ih hnext
          exact ⟨value :: line', .cons hkept hline'⟩
  refine relinked.hierarchy hierarchy (fun value next hvalue hchanged => ?_) (fun value hvalue => ?_)
    fun value other hvalue hclassOf' hmeta hparallels => ?_
  · rw [if_neg (hvalue.ne hmetaclass)] at hchanged
    split at hchanged
    · obtain rfl := Option.some.inj hchanged
      exact hsuper
    · cases hchanged
  · obtain ⟨line', hvalueLine⟩ := hierarchy.exists_line_of_ordinary hvalue
    exact hlines hvalueLine hvalue
  · by_cases hsame : other = metaclass
    · -- No other class has the metaclass.
      subst hsame
      obtain rfl := hierarchy.injective hcls hvalue hclassOf hclassOf'
      refine ⟨metaSuperclass, relinked.superclass_of_some (isClass_of_isMetaclass hmeta)
        (if_pos rfl), ?_⟩
      rw [relinked.nil_eq, relinked.ordinary_iff]
      rcases hsuperclass with ⟨-, hnone⟩ | ⟨hordinary, hmetaSuperclass⟩
      · exact hnone.imp_right .inl
      · refine .inr (.inr ⟨superclass, hnew, relinked.ordinary_iff.mpr hordinary, ?_⟩)
        rw [relinked.classOf_eq hordinary.1, hmetaSuperclass]
    · have hdifferent : value ≠ cls := by
        rintro rfl
        exact hsame (Except.ok.inj (hclassOf'.symm.trans hclassOf))
      refine relinked.parallels hparallels ?_ ?_
      · rw [if_neg (hvalue.ne hmetaclass), if_neg hdifferent]
      · rw [if_neg hsame, if_neg (hcls.ne hmeta).symm]

end Hierarchy

/-! ### A new class -/

/-- A class and its metaclass have entered the class table, neither with a superclass. -/
structure Entered (m m' : Machine) (index : ℕ) (cls metaclass : Value) : Prop where
  nil_eq : m'.nil = m.nil
  classAt?_cases : ∀ {place : ℕ} {value : Value}, m'.classAt? place = some value →
    m.classAt? place = some value ∨ (place = index ∧ value = cls) ∨
      (ClassIndex.firstDynamic ≤ place ∧ value = metaclass)
  classAt?_of_some : ∀ {place : ℕ} {value : Value}, m.classAt? place = some value →
    m'.classAt? place = some value
  isClass_iff : ∀ value, m'.isClass value = true ↔
    m.isClass value = true ∨ value = cls ∨ value = metaclass
  isMetaclass_eq : ∀ {value : Value}, m.isClass value = true →
    m'.isMetaclass value = m.isMetaclass value
  classOf_eq : ∀ {value metaclass : Value}, m.isClass value = true →
    m.classOf value = .ok metaclass → m'.classOf value = .ok metaclass
  superclass_eq : ∀ {value : Value}, m.isClass value = true →
    m'.superclass value = m.superclass value
  cls_new : m.isClass cls = false
  metaclass_new : m.isClass metaclass = false
  isMetaclass_cls : m'.isMetaclass cls = false
  isMetaclass_metaclass : m'.isMetaclass metaclass = true
  classOf_cls : m'.classOf cls = .ok metaclass
  superclass_cls : m'.superclass cls = .ok m.nil
  superclass_metaclass : m'.superclass metaclass = .ok m.nil

namespace Entered

variable {index : ℕ} (entered : m.Entered m' index cls metaclass)
include entered

/-- Changes that leave the classes alone may follow. -/
lemma keep {m'' : Machine} (relinked : m'.Relinked m'' fun _ => none) :
    m.Entered m'' index cls metaclass := by
  have hclass : ∀ {value}, m.isClass value = true → m'.isClass value = true := fun hvalue =>
    (entered.isClass_iff _).mpr (.inl hvalue)
  have hcls := (entered.isClass_iff cls).mpr (.inr (.inl rfl))
  refine ⟨relinked.nil_eq.trans entered.nil_eq, fun {place value} hat => ?_,
    fun hat => (relinked.classAt?_eq _).trans (entered.classAt?_of_some hat), fun value => ?_,
    fun {value} hvalue => ?_, fun {value other} hvalue hclassOf => ?_, fun {value} hvalue => ?_,
    entered.cls_new, entered.metaclass_new, ?_, ?_, ?_,
    relinked.superclass_of_none entered.superclass_cls rfl,
    relinked.superclass_of_none entered.superclass_metaclass rfl⟩
  · rw [relinked.classAt?_eq] at hat
    exact entered.classAt?_cases hat
  · rw [relinked.isClass_eq]
    exact entered.isClass_iff value
  · rw [relinked.isMetaclass_eq, entered.isMetaclass_eq hvalue]
  · rw [relinked.classOf_eq (hclass hvalue), entered.classOf_eq hvalue hclassOf]
  · rw [relinked.superclass_eq (hclass hvalue)]
    exact entered.superclass_eq hvalue
  · rw [relinked.isMetaclass_eq, entered.isMetaclass_cls]
  · rw [relinked.isMetaclass_eq, entered.isMetaclass_metaclass]
  · rw [relinked.classOf_eq hcls, entered.classOf_cls]

/-- They may also come before. -/
lemma of_relinked {m₀ : Machine} (relinked : m₀.Relinked m fun _ => none) :
    m₀.Entered m' index cls metaclass := by
  have hclass : ∀ {value}, m₀.isClass value = true → m.isClass value = true := fun hvalue =>
    (relinked.isClass_eq _).trans hvalue
  refine ⟨entered.nil_eq.trans relinked.nil_eq, fun {place value} hat => ?_,
    fun hat => entered.classAt?_of_some ((relinked.classAt?_eq _).trans hat), fun value => ?_,
    fun {value} hvalue => ?_, fun {value other} hvalue hclassOf => ?_, fun {value} hvalue => ?_,
    ?_, ?_, entered.isMetaclass_cls, entered.isMetaclass_metaclass, entered.classOf_cls,
    relinked.nil_eq ▸ entered.superclass_cls, relinked.nil_eq ▸ entered.superclass_metaclass⟩
  · rw [← relinked.classAt?_eq]
    exact entered.classAt?_cases hat
  · rw [← relinked.isClass_eq]
    exact entered.isClass_iff value
  · rw [entered.isMetaclass_eq (hclass hvalue), relinked.isMetaclass_eq]
  · rw [← relinked.classOf_eq hvalue] at hclassOf
    exact entered.classOf_eq (hclass hvalue) hclassOf
  · rw [entered.superclass_eq (hclass hvalue)]
    exact relinked.superclass_eq hvalue
  · rw [← relinked.isClass_eq, entered.cls_new]
  · rw [← relinked.isClass_eq, entered.metaclass_new]

/-- The new class is no metaclass. -/
lemma ordinary_cls : m'.Ordinary cls :=
  ⟨(entered.isClass_iff cls).mpr (.inr (.inl rfl)), entered.isMetaclass_cls⟩

/-- The classes that are no metaclasses are those from before and the new one. -/
lemma ordinary_iff : m'.Ordinary value ↔ m.Ordinary value ∨ value = cls := by
  constructor
  · rintro ⟨hclass, hordinary⟩
    rcases (entered.isClass_iff value).mp hclass with hold | rfl | rfl
    · exact .inl ⟨hold, entered.isMetaclass_eq hold ▸ hordinary⟩
    · exact .inr rfl
    · rw [entered.isMetaclass_metaclass] at hordinary
      cases hordinary
  · rintro (hold | rfl)
    · exact ⟨(entered.isClass_iff value).mpr (.inl hold.1),
        (entered.isMetaclass_eq hold.1).trans hold.2⟩
    · exact entered.ordinary_cls

/-- Lines stay. -/
lemma line {line : List Value} (hline : m.Line value line) : m'.Line value line := by
  induction hline with
  | nil => exact entered.nil_eq ▸ .nil
  | cons hnext _ ih =>
    exact .cons ((entered.superclass_eq (isClass_of_superclass hnext)).trans hnext) ih

/-- Metaclasses from before inherit from what they may. -/
lemma parallels (hparallels : m.Parallels value next) : m'.Parallels value next := by
  obtain ⟨superclass, hsuperclass, hcase⟩ := hparallels
  refine ⟨superclass, (entered.superclass_eq (isClass_of_superclass hsuperclass)).trans hsuperclass,
    ?_⟩
  rcases hcase with hnil | hordinary | ⟨above, habove, hordinary, hclassOf⟩
  · exact .inl (hnil.trans entered.nil_eq.symm)
  · exact .inr (.inl (entered.ordinary_iff.mpr (.inl hordinary)))
  · exact .inr (.inr ⟨above, (entered.superclass_eq (isClass_of_superclass habove)).trans habove,
      entered.ordinary_iff.mpr (.inl hordinary), entered.classOf_eq hordinary.1 hclassOf⟩)

/-- A hierarchy stays when a class enters the table with its metaclass. -/
theorem hierarchy (hierarchy : m.Hierarchy) : m'.Hierarchy where
  closed := by
    intro value next hvalue hnext
    rcases entered.ordinary_iff.mp hvalue with hold | rfl
    · rw [entered.superclass_eq hold.1] at hnext
      rw [entered.nil_eq, entered.ordinary_iff]
      exact (hierarchy.closed hold hnext).imp_right .inl
    · rw [entered.superclass_cls] at hnext
      exact .inl ((Except.ok.inj hnext).symm.trans entered.nil_eq.symm)
  exists_line_of_ordinary := by
    intro value hvalue
    rcases entered.ordinary_iff.mp hvalue with hold | rfl
    · obtain ⟨line, hline⟩ := hierarchy.exists_line_of_ordinary hold
      exact ⟨line, entered.line hline⟩
    · exact ⟨[value], .cons entered.superclass_cls (entered.nil_eq ▸ .nil)⟩
  exists_metaclass := by
    intro value hvalue
    rcases entered.ordinary_iff.mp hvalue with hold | rfl
    · obtain ⟨other, hclassOf, hmeta, hparallels⟩ := hierarchy.exists_metaclass hold
      exact ⟨other, entered.classOf_eq hold.1 hclassOf,
        (entered.isMetaclass_eq (isClass_of_isMetaclass hmeta)).trans hmeta,
        entered.parallels hparallels⟩
    · exact ⟨metaclass, entered.classOf_cls, entered.isMetaclass_metaclass, m.nil,
        entered.superclass_metaclass, .inl entered.nil_eq.symm⟩
  exists_owner := by
    intro other hmeta
    rcases (entered.isClass_iff other).mp (isClass_of_isMetaclass hmeta) with hold | rfl | rfl
    · rw [entered.isMetaclass_eq hold] at hmeta
      obtain ⟨owner, howner, hclassOf⟩ := hierarchy.exists_owner hmeta
      exact ⟨owner, entered.ordinary_iff.mpr (.inl howner), entered.classOf_eq howner.1 hclassOf⟩
    · rw [entered.isMetaclass_cls] at hmeta
      cases hmeta
    · exact ⟨cls, entered.ordinary_cls, entered.classOf_cls⟩
  injective := by
    -- The metaclass of a class from before is not new.
    have hold : ∀ {value other}, m.Ordinary value → m'.classOf value = .ok other →
        m.classOf value = .ok other ∧ other ≠ metaclass := by
      intro value other hvalue hclassOf
      obtain ⟨other', hclassOf', hmeta, -⟩ := hierarchy.exists_metaclass hvalue
      obtain rfl := Except.ok.inj ((entered.classOf_eq hvalue.1 hclassOf').symm.trans hclassOf)
      refine ⟨hclassOf', ?_⟩
      rintro rfl
      exact absurd (isClass_of_isMetaclass hmeta) (by simp [entered.metaclass_new])
    intro value value' other hvalue hvalue' hclassOf hclassOf'
    rcases entered.ordinary_iff.mp hvalue with hvalue | rfl <;>
      rcases entered.ordinary_iff.mp hvalue' with hvalue' | rfl
    · exact hierarchy.injective hvalue hvalue' (hold hvalue hclassOf).1 (hold hvalue' hclassOf').1
    · rw [entered.classOf_cls] at hclassOf'
      exact absurd (Except.ok.inj hclassOf').symm (hold hvalue hclassOf).2
    · rw [entered.classOf_cls] at hclassOf
      exact absurd (Except.ok.inj hclassOf).symm (hold hvalue' hclassOf').2
    · rfl
  kernel := by
    intro place value hplace hat
    rcases entered.classAt?_cases hat with hold | ⟨-, rfl⟩ | ⟨hdynamic, -⟩
    · exact entered.ordinary_iff.mpr (.inl (hierarchy.kernel hplace hold))
    · exact entered.ordinary_cls
    · exact absurd hplace (Nat.not_lt.mpr hdynamic)

end Entered

end Machine

end TalkMachine
