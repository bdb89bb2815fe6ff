import Mathlib.Data.Fintype.Card
import Mathlib.Data.Set.Finite.Basic
import Mathlib.Logic.Relation
import TalkMachine.Proofs.Machine.Inheritance

/-!
# Machines without circles

A superclass is always nil or a class (`Machine.Closed`): a machine that is closed stays so when
superclasses are replaced and when a class is made, also where a metaclass is made a superclass. So
every class has a line, unless a class is above itself (`Machine.Closed.straight`).
-/

namespace TalkMachine

namespace Machine

variable {m m' : Machine} {s s' : ObjectMap} {cls metaclass superclass metaSuperclass : Value}
  {index : ℕ}

/-- Whether no class is above itself. -/
def Acyclic (m : Machine) : Prop :=
  ∀ cls, ¬Relation.TransGen (fun value next => m.superclass value = .ok next) cls cls

/-- Whether every class has a line, so that superclasses never go round in a circle. -/
def Straight (m : Machine) : Prop :=
  ∀ cls, m.isClass cls = true → ∃ line, m.Line cls line

/-- Whether every class has a superclass that is nil or a class. -/
def Closed (m : Machine) : Prop :=
  ∀ cls, m.isClass cls = true →
    ∃ next, m.superclass cls = .ok next ∧ (next = m.nil ∨ m.isClass next = true)

/-- There are finitely many classes. -/
lemma finite_classes (m : Machine) : Finite {cls // m.isClass cls = true} :=
  (m.classTable.toList.finite_toSet.subset fun _ hcls => mem_classTable_of_isClass hcls).to_subtype

/-- Where no class is above itself, every class has a line. -/
theorem Closed.straight (closed : m.Closed) (acyclic : m.Acyclic) : m.Straight := by
  intro cls hcls
  have := finite_classes m
  -- Classes are ordered by what is above them, and there are finitely many.
  let above : {cls // m.isClass cls = true} → {cls // m.isClass cls = true} → Prop := fun x y =>
    Relation.TransGen (fun value next => m.superclass value = .ok next) y.1 x.1
  have : IsTrans _ above := ⟨fun _ _ _ h h' => h'.trans h⟩
  have : Std.Irrefl above := ⟨fun x => acyclic x.1⟩
  have hwell : WellFounded above := Finite.wellFounded_of_trans_of_irrefl above
  suffices h : ∀ x : {cls // m.isClass cls = true}, ∃ line, m.Line x.1 line from h ⟨cls, hcls⟩
  intro x
  induction x using hwell.induction with
  | _ x ih =>
    obtain ⟨next, hnext, rfl | hclass⟩ := closed x.1 x.2
    · exact ⟨[x.1], .cons hnext .nil⟩
    · obtain ⟨line, hline⟩ := ih ⟨next, hclass⟩ (Relation.TransGen.single hnext)
      exact ⟨x.1 :: line, .cons hnext hline⟩

/-- What is above a class has a shorter line. -/
lemma Line.exists_shorter {next : Value} {line : List Value} (hline : m.Line cls line)
    (habove : Relation.TransGen (fun value next => m.superclass value = .ok next) cls next) :
    ∃ line', m.Line next line' ∧ line'.length < line.length := by
  have hstep : ∀ {cls next line}, m.Line cls line → m.superclass cls = .ok next →
      ∃ line', m.Line next line' ∧ line'.length < line.length := by
    intro cls next line hline hnext
    cases hline with
    | nil => exact absurd rfl (ne_nil_of_superclass hnext)
    | @cons _ _ rest hnext' hrest =>
      obtain rfl := Except.ok.inj (hnext'.symm.trans hnext)
      exact ⟨rest, hrest, Nat.lt_succ_self _⟩
  induction habove with
  | single hnext => exact hstep hline hnext
  | tail _ hnext ih =>
    obtain ⟨line₁, hline₁, hlt₁⟩ := ih
    obtain ⟨line₂, hline₂, hlt₂⟩ := hstep hline₁ hnext
    exact ⟨line₂, hline₂, hlt₂.trans hlt₁⟩

/-- In a hierarchy no class is above itself. -/
lemma Hierarchy.acyclic (hierarchy : m.Hierarchy) : m.Acyclic := by
  intro cls hcycle
  obtain ⟨next, hnext, -⟩ := Relation.TransGen.head'_iff.mp hcycle
  obtain ⟨line, hline⟩ := hierarchy.exists_line (isClass_of_superclass hnext)
  obtain ⟨line', hline', hlt⟩ := hline.exists_shorter hcycle
  exact absurd (hline.eq hline' ▸ hlt) (lt_irrefl _)

/-! ### Staying closed -/

/-- In a hierarchy every class has a line. -/
lemma Hierarchy.straight (hierarchy : m.Hierarchy) : m.Straight :=
  fun _ => hierarchy.exists_line

/-- On lines there are classes only. -/
lemma Straight.closed (straight : m.Straight) : m.Closed := by
  intro cls hcls
  obtain ⟨line, hline⟩ := straight cls hcls
  cases hline with
  | nil => exact absurd hcls (by simp [isClass_nil])
  | @cons _ next line hnext rest =>
    refine ⟨next, hnext, ?_⟩
    cases rest with
    | nil => exact .inl rfl
    | cons hnext' => exact .inr (isClass_of_superclass hnext')

/-- A machine stays closed when superclasses are replaced by nil or classes. -/
lemma Closed.relinked {changed : Value → Option Value} (closed : m.Closed)
    (relinked : m.Relinked m' changed)
    (hchanged : ∀ value next, changed value = some next → next = m.nil ∨ m.isClass next = true) :
    m'.Closed := by
  intro cls hcls
  rw [relinked.isClass_eq] at hcls
  simp only [relinked.superclass_eq hcls, relinked.nil_eq, relinked.isClass_eq]
  cases hnew : changed cls with
  | none => exact closed cls hcls
  | some next => exact ⟨next, rfl, hchanged cls next hnew⟩

/-- A machine stays closed while its classes are left alone. -/
lemma Closed.keep (closed : m.Closed) (stored : m.Stored s)
    (hq : m.Quiet s m' s') : m'.Closed :=
  closed.relinked (hq.relinked stored) nofun

/-- A machine stays closed when a class enters the table with its metaclass. -/
lemma Closed.entered (closed : m.Closed) (entered : m.Entered m' index cls metaclass) :
    m'.Closed := by
  intro value hvalue
  rcases (entered.isClass_iff value).mp hvalue with hold | rfl | rfl
  · obtain ⟨next, hnext, hcase⟩ := closed value hold
    exact ⟨next, (entered.superclass_eq hold).trans hnext, hcase.imp
      (fun hnil => hnil.trans entered.nil_eq.symm) fun h => (entered.isClass_iff next).mpr (.inl h)⟩
  · exact ⟨m.nil, entered.superclass_cls, .inl entered.nil_eq.symm⟩
  · exact ⟨m.nil, entered.superclass_metaclass, .inl entered.nil_eq.symm⟩

/-! ### Any superclass -/

/-- The superclass that is given to a class is nil or a class, and so is that of its metaclass. -/
lemma Stored.eq_nil_or_isClass (stored : m.Stored s)
    (hmeta : m.metaSuperclass cls superclass = .ok metaSuperclass) :
    (superclass = m.nil ∨ m.isClass superclass = true) ∧
      (metaSuperclass = m.nil ∨ m.isClass metaSuperclass = true) := by
  rcases metaSuperclass_cases hmeta with ⟨hnil, rfl⟩ | ⟨hclass, hclassOf, -⟩
  · refine ⟨.inl hnil, ?_⟩
    cases hat : m.classAt? ClassIndex.classClass with
    | none => exact .inl rfl
    | some classClass => exact .inr (stored.isClass_iff.mpr ⟨_, hat⟩)
  · exact ⟨.inr hclass, .inr (stored.isClass_of_classOf hclassOf)⟩

/-- A machine stays closed when one class gets another superclass. -/
lemma Closed.links (closed : m.Closed) (links : m.Links cls superclass m' s)
    (hsuperclass : superclass = m.nil ∨ m.isClass superclass = true) : m'.Closed := by
  refine closed.relinked links.relinked fun value next hnext => ?_
  split at hnext <;> cases hnext
  exact hsuperclass

/-- A machine stays closed when a class is given any other superclass, also where that is refused. -/
theorem Closed.exists_stateAfter_setSuperclass (closed : m.Closed) (stored : m.Stored s)
    (cls superclass : Value) : ∃ s', (stateAfter (setSuperclass cls superclass m)).Stored s' ∧
      (stateAfter (setSuperclass cls superclass m)).Closed := by
  have directs := stored.directs cls superclass
  generalize setSuperclass cls superclass m = result at directs ⊢
  cases directs with
  | refused => exact ⟨s, stored, closed⟩
  | ofMetaclass _ hmeta links | halfway _ hmeta links =>
    exact ⟨_, links.stored, closed.links links (stored.eq_nil_or_isClass hmeta).1⟩
  | ofClass _ hmeta links _ metaLinks =>
    obtain ⟨hsuperclass, hmetaSuperclass⟩ := stored.eq_nil_or_isClass hmeta
    refine ⟨_, metaLinks.stored, (closed.links links hsuperclass).links metaLinks ?_⟩
    rwa [links.relinked.nil_eq, links.relinked.isClass_eq]

/-- A machine stays closed while a class is made. -/
lemma Makes.closed (makes : m.Makes index s m' s') (stored : m.Stored s) (closed : m.Closed) :
    m'.Closed := by
  cases makes with
  | quiet hq => exact closed.keep stored hq
  | entered entered => exact closed.entered entered

/-- A machine stays closed when a class is defined, also where that is refused. -/
theorem Closed.exists_stateAfter_defineClass (closed : m.Closed) (stored : m.Stored s) (name : String)
    (superclass : Value) (spec : InstanceSpec) :
    ∃ s', (stateAfter (defineClass name superclass spec m)).Stored s' ∧
      (stateAfter (defineClass name superclass spec m)).Closed := by
  obtain ⟨index, m₁, s₁, makes, heq | ⟨-, -, cls, metaclass, -, heq⟩⟩ :=
    stored.exists_makes_of_defineClass name superclass spec <;> rw [heq]
  · exact ⟨s₁, makes.stored, makes.closed stored closed⟩
  · exact (makes.closed stored closed).exists_stateAfter_setSuperclass makes.stored cls superclass

end Machine

end TalkMachine
