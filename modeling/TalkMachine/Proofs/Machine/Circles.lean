import TalkMachine.Proofs.Machine.Closed
import TalkMachine.Proofs.Machine.Kernel

/-!
# Circles of superclasses

The check before a change of superclass walks the line of the new superclass only. The metaclass of
the class changes its superclass as well, and what is above it then is not looked at: where a metaclass
has been given a superclass of its own, the metaclass of a class can come to be above itself
(`Machine.ClosesCircle`). Just then a change leaves a class without a line
(`Machine.Straight.setSuperclass_iff`). It is accepted, and searches from the metaclass go round until
their steps are used up (`Machine.Straight.exists_circle`).
-/

namespace TalkMachine

namespace Machine

variable {m m' m₁ : Machine} {s s' s₁ : ObjectMap}
  {cls metaclass superclass metaSuperclass value next selector : Value} {line line' : List Value}
  {index : ℕ} {changed : Value → Option Value} {name : String}

/-! ### What is above a class -/

/-- Whether the way up from a class comes to a value. -/
abbrev LeadsUp (m : Machine) : Value → Value → Prop :=
  Relation.ReflTransGen fun value next => m.superclass value = .ok next

/-- On the line of a class are the classes above it and the class itself. -/
lemma Line.mem_iff (hline : m.Line cls line) : value ∈ line ↔ value ≠ m.nil ∧ m.LeadsUp cls value := by
  induction hline with
  | nil =>
    refine iff_of_false List.not_mem_nil fun ⟨hne, habove⟩ => ?_
    rcases habove.cases_head with heq | ⟨next, hnext, -⟩
    · exact hne heq.symm
    · exact ne_nil_of_superclass hnext rfl
  | @cons cls next line hnext rest ih =>
    rw [List.mem_cons, ih]
    constructor
    · rintro (rfl | ⟨hne, habove⟩)
      · exact ⟨ne_nil_of_superclass hnext, .refl⟩
      · exact ⟨hne, .head hnext habove⟩
    · rintro ⟨hne, habove⟩
      rcases habove.cases_head with heq | ⟨next', hnext', hrest⟩
      · exact .inl heq.symm
      · obtain rfl := Except.ok.inj (hnext.symm.trans hnext')
        exact .inr ⟨hne, hrest⟩

/-- A line without changed classes has been there before. -/
lemma Relinked.line_of_line (relinked : m.Relinked m' changed) (hline : m'.Line cls line)
    (hnone : ∀ value ∈ line, changed value = none) : m.Line cls line := by
  induction hline with
  | nil => exact relinked.nil_eq ▸ .nil
  | cons hnext rest ih =>
    rw [List.forall_mem_cons] at hnone
    have hclass := (relinked.isClass_eq _).symm.trans (isClass_of_superclass hnext)
    rw [relinked.superclass_eq hclass, hnone.1] at hnext
    exact .cons hnext (ih hnone.2)

/-- Neither of two classes with one superclass is on the line of the other. -/
lemma Line.not_mem_of_superclass_eq (hline : m.Line value line) (hne : cls ≠ value)
    (hvalue : m.superclass value = .ok next) (hcls : m.superclass cls = .ok next) : cls ∉ line := by
  cases hline with
  | nil => exact List.not_mem_nil
  | cons hnext rest =>
    obtain rfl := Except.ok.inj (hvalue.symm.trans hnext)
    have hnodup := (Line.cons hcls rest).nodup
    rw [List.mem_cons, not_or]
    exact ⟨hne, (List.nodup_cons.mp hnodup).1⟩

/-! ### Machines in which every class has a line -/

namespace Straight

variable (straight : m.Straight)
include straight

/-- Nil has a line too. -/
lemma exists_line (hcls : cls = m.nil ∨ m.isClass cls = true) : ∃ line, m.Line cls line := by
  rcases hcls with rfl | hclass
  · exact ⟨[], .nil⟩
  · exact straight cls hclass

/-- Every class has a line again when the classes are left alone. -/
lemma keep (relinked : m.Relinked m' fun _ => none) : m'.Straight := by
  intro cls hcls
  rw [relinked.isClass_eq] at hcls
  obtain ⟨line, hline⟩ := straight cls hcls
  exact ⟨line, relinked.line hline fun _ _ => rfl⟩

/-- Every class has a line again when a class has entered the table with its metaclass. -/
lemma entered (entered : m.Entered m' index cls metaclass) : m'.Straight := by
  intro value hvalue
  rcases (entered.isClass_iff value).mp hvalue with hold | rfl | rfl
  · obtain ⟨line, hline⟩ := straight value hold
    exact ⟨line, entered.line hline⟩
  · exact ⟨[value], .cons entered.superclass_cls (entered.nil_eq ▸ .nil)⟩
  · exact ⟨[value], .cons entered.superclass_metaclass (entered.nil_eq ▸ .nil)⟩

/-- No search fails for a circle, wherever it begins. -/
theorem lookup_ne_superclassCycle (value selector cls : Value) :
    m.lookup value selector ≠ .error (.superclassCycle cls) := by
  by_cases hvalue : value = m.nil ∨ m.isClass value = true
  · obtain ⟨line, hline⟩ := straight.exists_line hvalue
    exact Machine.lookup_ne_superclassCycle hline selector cls
  · rw [not_or] at hvalue
    rw [lookup, lookupFrom, if_neg hvalue.1]
    refine bind_ne_error (classSlot_ne_superclassCycle m value _ cls) fun dictionary hdictionary => ?_
    exact absurd (isClass_of_methodDictionary hdictionary) hvalue.2

end Straight

/-! ### Another superclass for one class -/

/-- A class that is on the line of its new superclass has no line any more. -/
lemma Links.not_line (links : m.Links cls superclass m' s') (hcls : m.isClass cls = true)
    (hline : m.Line superclass line) (hmem : cls ∈ line) : ¬m'.Line cls line' := by
  intro hline'
  have hsuperclass := links.relinked.superclass_of_some hcls (if_pos rfl)
  cases hline' with
  | nil => exact ne_nil_of_superclass hsuperclass rfl
  | @cons _ _ rest hnext hrest =>
    obtain rfl := Except.ok.inj (hsuperclass.symm.trans hnext)
    -- What follows the class does not lead back to it, so that nothing has changed there.
    have hnot : cls ∉ rest := (List.nodup_cons.mp (Line.cons hnext hrest).nodup).1
    have hold := links.relinked.line_of_line hrest fun value hvalue =>
      if_neg (by rintro rfl; exact hnot hvalue)
    exact hnot (hline.eq hold ▸ hmem)

/-- When one class gets another superclass, every class has a line again just when the class is not on
the line of that. -/
theorem Straight.links_iff (straight : m.Straight) (links : m.Links cls superclass m' s')
    (hcls : m.isClass cls = true) (hline : m.Line superclass line) : m'.Straight ↔ cls ∉ line := by
  constructor
  · intro straight' hmem
    obtain ⟨line', hline'⟩ := straight' cls ((links.relinked.isClass_eq cls).trans hcls)
    exact links.not_line hcls hline hmem hline'
  · intro hnot value hvalue
    rw [links.relinked.isClass_eq] at hvalue
    obtain ⟨lower, hlower⟩ := straight value hvalue
    have hkept : m'.Line superclass line :=
      links.relinked.line hline fun other hother => if_neg (by rintro rfl; exact hnot hother)
    -- The line of a value goes on as before up to the class, and from there as that of the superclass.
    clear hvalue
    induction hlower with
    | nil => exact ⟨[], links.relinked.nil_eq ▸ .nil⟩
    | @cons value next lower hnext rest ih =>
      by_cases heq : value = cls
      · subst heq
        exact ⟨value :: line, .cons (links.relinked.superclass_of_some hcls (if_pos rfl)) hkept⟩
      · obtain ⟨line', hline'⟩ := ih
        exact ⟨value :: line', .cons (links.relinked.superclass_of_none hnext (if_neg heq)) hline'⟩

/-- The superclass that is taken is one above which the class is not. -/
lemma Straight.links (straight : m.Straight) (links : m.Links cls superclass m' s')
    (hcls : m.isClass cls = true) (hmeta : m.metaSuperclass cls superclass = .ok metaSuperclass) :
    m'.Straight := by
  rcases metaSuperclass_cases hmeta with ⟨rfl, -⟩ | ⟨-, -, line, hline, hmem⟩
  · exact (straight.links_iff links hcls .nil).mpr List.not_mem_nil
  · exact (straight.links_iff links hcls hline).mpr hmem

/-! ### The check that is not made -/

/-- Whether a value is followed by another one on the way up, once a class has got another
superclass. -/
def Rerouted (m : Machine) (cls superclass value next : Value) : Prop :=
  if value = cls then next = superclass else m.superclass value = .ok next

/-- Whether to give a class another superclass closes a circle: the class is no metaclass, and from what
its metaclass is to inherit from, the way up comes to the metaclass. -/
def ClosesCircle (m : Machine) (cls superclass : Value) : Prop :=
  m.Ordinary cls ∧ ∃ metaclass metaSuperclass, m.classOf cls = .ok metaclass ∧
    m.metaSuperclass cls superclass = .ok metaSuperclass ∧
    Relation.ReflTransGen (m.Rerouted cls superclass) metaSuperclass metaclass

/-- When a class has got another superclass, the way up is the one that goes through that. -/
lemma Links.superclass_iff (links : m.Links cls superclass m' s') (hcls : m.isClass cls = true) :
    m'.superclass value = .ok next ↔ m.Rerouted cls superclass value next := by
  rw [Rerouted]
  by_cases heq : value = cls
  · rw [if_pos heq, heq, links.relinked.superclass_of_some hcls (if_pos rfl), Except.ok.injEq, eq_comm]
  · rw [if_neg heq]
    refine ⟨fun hnext => ?_, fun hnext => links.relinked.superclass_of_none hnext (if_neg heq)⟩
    have hclass := (links.relinked.isClass_eq _).symm.trans (isClass_of_superclass hnext)
    rwa [links.relinked.superclass_eq hclass, if_neg heq] at hnext

/-- The metaclass is on the line of what it is to inherit from just when that closes a circle. -/
lemma closesCircle_iff (hcls : m.Ordinary cls) (links : m.Links cls superclass m₁ s₁)
    (hclassOf : m.classOf cls = .ok metaclass)
    (hmeta : m.metaSuperclass cls superclass = .ok metaSuperclass)
    (hne : metaclass ≠ m.nil) (hline : m₁.Line metaSuperclass line) :
    m.ClosesCircle cls superclass ↔ metaclass ∈ line := by
  have hway : m₁.LeadsUp = Relation.ReflTransGen (m.Rerouted cls superclass) := by
    refine congrArg Relation.ReflTransGen (funext₂ fun value next => ?_)
    exact propext (links.superclass_iff hcls.1)
  rw [hline.mem_iff, hway, links.relinked.nil_eq]
  constructor
  · rintro ⟨-, metaclass', metaSuperclass', hclassOf', hmeta', hpath⟩
    obtain rfl := Except.ok.inj (hclassOf.symm.trans hclassOf')
    obtain rfl := Except.ok.inj (hmeta.symm.trans hmeta')
    exact ⟨hne, hpath⟩
  · exact fun ⟨_, hpath⟩ => ⟨hcls, metaclass, metaSuperclass, hclassOf, hmeta, hpath⟩

/-- Every class has a line again when a class has been given another superclass, refused or not, just
when that does not close a circle. -/
theorem Straight.setSuperclass_iff (straight : m.Straight) (stored : m.Stored s)
    (cls superclass : Value) : (stateAfter (setSuperclass cls superclass m)).Straight ↔
      ¬m.ClosesCircle cls superclass := by
  have directs := stored.directs cls superclass
  generalize setSuperclass cls superclass m = result at directs ⊢
  cases directs with
  | refused hnot =>
    exact iff_of_true straight fun ⟨hcls, _, _, _, hmeta, _⟩ => hnot hcls.1 _ hmeta
  | ofMetaclass hkind hmeta links =>
    refine iff_of_true (straight.links links (isClass_of_isMetaclass hkind) hmeta) fun hcloses => ?_
    exact hcloses.1.ne hkind rfl
  | halfway hcls hmeta links hnone =>
    refine iff_of_true (straight.links links hcls.1 hmeta) fun ⟨_, _, _, hclassOf, _⟩ => ?_
    rw [hnone] at hclassOf
    cases hclassOf
  | ofClass hcls hmeta links hclassOf metaLinks =>
    have straight₁ := straight.links links hcls.1 hmeta
    have hmetaclass := stored.isClass_of_classOf hclassOf
    obtain ⟨line, hline⟩ := straight₁.exists_line (by
      rw [links.relinked.nil_eq, links.relinked.isClass_eq]
      exact (stored.eq_nil_or_isClass hmeta).2)
    rw [closesCircle_iff hcls links hclassOf hmeta (ne_nil_of_isClass hmetaclass) hline]
    exact straight₁.links_iff metaLinks ((links.relinked.isClass_eq _).trans hmetaclass) hline

/-! ### Searches that go round -/

/-- Whether the search for a selector finds nothing in the method dictionary of a class. -/
def Lacks (m : Machine) (selector cls : Value) : Prop :=
  ∃ dictionary, m.methodDictionary cls = .ok dictionary ∧
    Dictionary.find? m.heap dictionary selector = .ok none

/-- A class into which nothing has been put under the symbol of a name is one. -/
lemma Tracks.lacks {owner : Value → Option Value} {methods : Value → Option ClassMethods}
    (tracks : m.Tracks s owner methods) (hclass : m.isClass cls = true)
    (hsymbol : m.symbols[name]? = some selector) (hnone : methodUnder methods selector cls = none) :
    m.Lacks selector cls := by
  obtain ⟨own, hcls⟩ := tracks.complete.exists_methods hclass
  rw [methodUnder, hcls, Option.bind_some] at hnone
  exact ⟨own.dictionary, tracks.equipped.methodDictionary_eq hclass hcls,
    (tracks.equipped.find?_eq hcls (tracks.isSelector_of_symbol hsymbol)).trans (congrArg _ hnone)⟩

/-- A search that finds nothing, from a class without a line, goes on until its steps are used up. -/
lemma Closed.lookupFrom_eq (closed : m.Closed) (hcls : m.isClass cls = true)
    (hnone : ∀ line, ¬m.Line cls line)
    (hlacks : ∀ value, m.LeadsUp cls value → m.Lacks selector value) (start : Value) (steps : ℕ) :
    m.lookupFrom start selector steps cls = .error (.superclassCycle start) := by
  induction steps generalizing cls with
  | zero => rw [lookupFrom, if_neg (ne_nil_of_isClass hcls)]
  | succ steps ih =>
    obtain ⟨dictionary, hdictionary, hfind⟩ := hlacks cls .refl
    obtain ⟨next, hnext, hcase⟩ := closed cls hcls
    have hclass : m.isClass next = true := hcase.resolve_left fun hnil =>
      hnone [cls] (.cons (hnil ▸ hnext) .nil)
    rw [lookupFrom, if_neg (ne_nil_of_isClass hcls), hdictionary]
    simp only [Bind.bind, Except.bind, hfind, hnext]
    exact ih hclass (fun line hline => hnone _ (.cons hnext hline))
      fun value habove => hlacks value (.head hnext habove)

/-- When a circle is closed, that is not refused, and each search for a selector that is not found above
the metaclass of the class fails from there for a circle. -/
theorem Straight.exists_circle (straight : m.Straight) (stored : m.Stored s)
    (hcloses : m.ClosesCircle cls superclass) :
    ∃ m' metaclass, setSuperclass cls superclass m = .ok () m' ∧ m.classOf cls = .ok metaclass ∧
      (∀ line, ¬m'.Line metaclass line) ∧ ∀ selector,
        (∀ value, m'.LeadsUp metaclass value → m'.Lacks selector value) →
        m'.lookup metaclass selector = .error (.superclassCycle metaclass) := by
  have hclosed := straight.closed.exists_stateAfter_setSuperclass stored cls superclass
  have directs := stored.directs cls superclass
  obtain ⟨hordinary, metaclass', metaSuperclass', hclassOf', hmeta', -⟩ := id hcloses
  generalize setSuperclass cls superclass m = result at directs hclosed
  cases directs with
  | refused hnot => exact absurd hmeta' (hnot hordinary.1 _)
  | ofMetaclass hkind => exact absurd rfl (hordinary.ne hkind)
  | halfway _ _ _ hnone =>
    rw [hnone] at hclassOf'
    cases hclassOf'
  | @ofClass metaclass _ _ m₂ _ _ _ hmeta links hclassOf metaLinks =>
    have straight₁ := straight.links links hordinary.1 hmeta
    have hmetaclass := stored.isClass_of_classOf hclassOf
    obtain ⟨line, hline⟩ := straight₁.exists_line (by
      rw [links.relinked.nil_eq, links.relinked.isClass_eq]
      exact (stored.eq_nil_or_isClass hmeta).2)
    have hmem := (closesCircle_iff hordinary links hclassOf hmeta (ne_nil_of_isClass hmetaclass)
      hline).mp hcloses
    have hclass₁ := (links.relinked.isClass_eq metaclass).trans hmetaclass
    have hnone : ∀ line', ¬m₂.Line metaclass line' := fun _ => metaLinks.not_line hclass₁ hline hmem
    obtain ⟨_, -, closed₂⟩ := hclosed
    exact ⟨m₂, metaclass, rfl, hclassOf, hnone, fun selector hlacks => closed₂.lookupFrom_eq
      ((metaLinks.relinked.isClass_eq metaclass).trans hclass₁) hnone hlacks metaclass _⟩

end Machine

end TalkMachine
