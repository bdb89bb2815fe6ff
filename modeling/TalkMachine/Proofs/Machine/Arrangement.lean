import TalkMachine.Proofs.Machine.Circles
import TalkMachine.Proofs.Machine.Classification
import TalkMachine.Proofs.Machine.KernelMethods

/-!
# Arranging classes

As classes are defined and get other superclasses, refused or not, every class keeps a line until a
change closes a circle (`Machine.Reached.straight_iff`). A definition never does: nothing inherits from
the metaclass of a class that has just been made. A change never does as long as no metaclass is asked
for as a superclass (`Machine.Reached.keepsLines`).
-/

namespace TalkMachine

namespace Machine

variable {m m' : Machine} {s s' s₁ : ObjectMap} {cls metaclass superclass metaSuperclass : Value}
  {index : ℕ} {changed : Value → Option Value}

/-! ### Definitions of classes -/

/-- The class of a metaclass is Metaclass. -/
lemma classOf_of_isMetaclass {kind : Value} (hmeta : m.isMetaclass cls = true)
    (hkind : m.classAt? ClassIndex.metaclass = some kind) : m.classOf cls = .ok kind := by
  rw [isMetaclass, Bool.and_eq_true] at hmeta
  cases hindex : m.heap.classIndexOf cls with
  | error e => simp [hindex] at hmeta
  | ok found =>
    rw [hindex] at hmeta
    obtain rfl := beq_iff_eq.mp hmeta.2
    exact (classOf_eq_ok_iff hindex).mpr hkind

/-- Whether every class has a line and a class, Metaclass among them. -/
structure Ranked (m : Machine) (s : ObjectMap) : Prop where
  stored : m.Stored s
  straight : m.Straight
  exists_classOf : ∀ {cls : Value}, m.isClass cls = true → ∃ metaclass, m.classOf cls = .ok metaclass
  exists_kind : ∃ kind, m.classAt? ClassIndex.metaclass = some kind

/-- The classes stay so when superclasses are replaced and every class has a line again. -/
lemma Ranked.relinked (ranked : m.Ranked s) (relinked : m.Relinked m' changed) (stored' : m'.Stored s')
    (straight' : m'.Straight) : m'.Ranked s' where
  stored := stored'
  straight := straight'
  exists_classOf {cls} hcls := by
    rw [relinked.isClass_eq] at hcls
    rw [relinked.classOf_eq hcls]
    exact ranked.exists_classOf hcls
  exists_kind := by
    rw [relinked.classAt?_eq]
    exact ranked.exists_kind

/-- They stay so while a class is made. -/
lemma Makes.ranked (makes : m.Makes index s m' s') (ranked : m.Ranked s) : m'.Ranked s' := by
  cases makes with
  | quiet hq =>
    have relinked := hq.relinked ranked.stored
    exact ranked.relinked relinked hq.stored (ranked.straight.keep relinked)
  | @entered cls metaclass entered stored' =>
    obtain ⟨kind, hkind⟩ := ranked.exists_kind
    have hkind' := entered.classAt?_of_some hkind
    refine ⟨stored', ranked.straight.entered entered, fun {value} hvalue => ?_, kind, hkind'⟩
    rcases (entered.isClass_iff value).mp hvalue with hold | rfl | rfl
    · obtain ⟨found, hfound⟩ := ranked.exists_classOf hold
      exact ⟨found, entered.classOf_eq hold hfound⟩
    · exact ⟨metaclass, entered.classOf_cls⟩
    · exact ⟨kind, classOf_of_isMetaclass entered.isMetaclass_metaclass hkind'⟩

/-- What the metaclass of a class that has just been made is to inherit from was there before. -/
lemma Ranked.eq_nil_or_isClass_of_entered (ranked : m.Ranked s)
    (entered : m.Entered m' index cls metaclass) (hindex : ClassIndex.firstDynamic ≤ index)
    (hsuperclass : superclass = m.nil ∨ m.isClass superclass = true)
    (hmeta : m'.metaSuperclass cls superclass = .ok metaSuperclass) :
    metaSuperclass = m.nil ∨ m.isClass metaSuperclass = true := by
  have hfixed : ClassIndex.classClass < ClassIndex.firstDynamic := by decide
  rcases metaSuperclass_cases hmeta with ⟨-, rfl⟩ | ⟨hclass, hclassOf, -⟩
  · cases hat : m'.classAt? ClassIndex.classClass with
    | none => exact .inl entered.nil_eq
    | some classClass =>
      rcases entered.classAt?_cases hat with hold | ⟨heq, -⟩ | ⟨hle, -⟩
      · exact .inr (ranked.stored.isClass_iff.mpr ⟨_, hold⟩)
      · exact absurd (heq ▸ hindex) (Nat.not_le.mpr hfixed)
      · exact absurd hle (Nat.not_le.mpr hfixed)
  · rcases hsuperclass with rfl | hold
    · exact absurd entered.nil_eq.symm (ne_nil_of_isClass hclass)
    · obtain ⟨found, hfound⟩ := ranked.exists_classOf hold
      obtain rfl := Except.ok.inj ((entered.classOf_eq hold hfound).symm.trans hclassOf)
      exact .inr (ranked.stored.isClass_of_classOf hfound)

/-- The way up from what was there before does not come to what has entered since. -/
lemma Closed.eq_nil_or_isClass_of_entered (closed : m.Closed)
    (entered : m.Entered m' index cls metaclass) {start value : Value}
    (hstart : start = m.nil ∨ m.isClass start = true)
    (hpath : Relation.ReflTransGen (m'.Rerouted cls superclass) start value) :
    value = m.nil ∨ m.isClass value = true := by
  induction hpath with
  | refl => exact hstart
  | @tail value next _ hstep ih =>
    rw [Rerouted] at hstep
    rcases ih with rfl | hold
    · rw [if_neg (entered.nil_eq ▸ (ne_nil_of_isClass entered.ordinary_cls.1).symm)] at hstep
      exact absurd entered.nil_eq.symm (ne_nil_of_superclass hstep)
    · rw [if_neg (by rintro rfl; simp [entered.cls_new] at hold), entered.superclass_eq hold] at hstep
      obtain ⟨next', hnext, hcase⟩ := closed value hold
      obtain rfl := Except.ok.inj (hnext.symm.trans hstep)
      exact hcase

/-- A class that has just been made may be given any superclass from before: nothing inherits from its
metaclass. -/
lemma Ranked.not_closesCircle (ranked : m.Ranked s) (entered : m.Entered m' index cls metaclass)
    (hindex : ClassIndex.firstDynamic ≤ index)
    (hsuperclass : superclass = m.nil ∨ m.isClass superclass = true) :
    ¬m'.ClosesCircle cls superclass := by
  rintro ⟨-, metaclass', metaSuperclass, hclassOf, hmeta, hpath⟩
  obtain rfl := Except.ok.inj (entered.classOf_cls.symm.trans hclassOf)
  have hstart := ranked.eq_nil_or_isClass_of_entered entered hindex hsuperclass hmeta
  rcases ranked.straight.closed.eq_nil_or_isClass_of_entered entered hstart hpath with rfl | hold
  · exact absurd entered.nil_eq.symm
      (ne_nil_of_isClass (isClass_of_isMetaclass entered.isMetaclass_metaclass))
  · simp [entered.metaclass_new] at hold

/-- The classes stay ranked when a class is defined, refused or not. -/
theorem Ranked.exists_stateAfter_defineClass (ranked : m.Ranked s) (name : String) (superclass : Value)
    (spec : InstanceSpec) : ∃ s', (stateAfter (defineClass name superclass spec m)).Ranked s' := by
  obtain ⟨index, m₁, s₁, makes, heq | ⟨hdynamic, hsuperclass, cls, metaclass, entered, heq⟩⟩ :=
    ranked.stored.exists_makes_of_defineClass name superclass spec <;> rw [heq]
  · exact ⟨s₁, makes.ranked ranked⟩
  · have ranked₁ := makes.ranked ranked
    obtain ⟨s', changed, stored', relinked⟩ :=
      ranked₁.stored.exists_relinked_setSuperclass cls superclass
    exact ⟨s', ranked₁.relinked relinked stored' ((ranked₁.straight.setSuperclass_iff ranked₁.stored cls
      superclass).mpr (ranked.not_closesCircle entered hdynamic hsuperclass))⟩

/-- They stay so when a class is given another superclass, refused or not, unless that closes a
circle. -/
theorem Ranked.exists_stateAfter_setSuperclass (ranked : m.Ranked s)
    (hopen : ¬m.ClosesCircle cls superclass) :
    ∃ s', (stateAfter (setSuperclass cls superclass m)).Ranked s' := by
  obtain ⟨s', changed, stored', relinked⟩ := ranked.stored.exists_relinked_setSuperclass cls superclass
  exact ⟨s', ranked.relinked relinked stored'
    ((ranked.straight.setSuperclass_iff ranked.stored cls superclass).mpr hopen)⟩

/-! ### Hierarchies -/

namespace Hierarchy

variable (hierarchy : m.Hierarchy) (stored : m.Stored s)
  (hsuperclass : m.isMetaclass superclass = false)
include hierarchy stored hsuperclass

/-- The classes form a hierarchy again when a class has been defined below one that is no metaclass,
refused or not. -/
lemma exists_stateAfter_defineClass (name : String) (spec : InstanceSpec) :
    ∃ s', (stateAfter (defineClass name superclass spec m)).Stored s' ∧
      (stateAfter (defineClass name superclass spec m)).Hierarchy := by
  have hdevelops : Ensures (Develops 0) (defineClass name superclass spec) m s fun _ _ _ => True :=
    develops_defineClass stored hierarchy hsuperclass name spec
  obtain ⟨s', hd⟩ := hdevelops.exists_stateAfter
  exact ⟨s', hd.stored, hd.hierarchy⟩

/-- They do so when a class has been given a superclass that is no metaclass, refused or not. -/
lemma exists_stateAfter_setSuperclass (cls : Value) :
    ∃ s', (stateAfter (setSuperclass cls superclass m)).Stored s' ∧
      (stateAfter (setSuperclass cls superclass m)).Hierarchy := by
  have hdevelops : Ensures (Develops 0) (setSuperclass cls superclass) m s fun _ _ _ => True :=
    develops_setSuperclass stored hierarchy hsuperclass
  obtain ⟨s', hd⟩ := hdevelops.exists_stateAfter
  exact ⟨s', hd.stored, hd.hierarchy⟩

/-- So that does not close a circle. -/
theorem not_closesCircle (cls : Value) : ¬m.ClosesCircle cls superclass := by
  obtain ⟨s', -, hierarchy'⟩ := hierarchy.exists_stateAfter_setSuperclass stored hsuperclass cls
  exact (hierarchy.straight.setSuperclass_iff stored cls superclass).mp hierarchy'.straight

end Hierarchy

/-! ### Two classes with one superclass -/

section Siblings

variable {p q : ClassPair}

/-- Whether a pair inherits from a class, and its metaclass from the class of that. -/
structure Descends (m : Machine) (s : ObjectMap) (superclass : Value) (p : ClassPair) : Prop where
  pair : m.HasPair s p
  ordinary : m.Ordinary superclass
  superclass_eq : p.superclass = superclass
  echoes : m.Echoes p

/-- A pair goes on to inherit from it when another pair has been entered. -/
lemma Descends.admits (descends : m.Descends s superclass p) (based : m.Based s)
    (admits : m.Admits q s m' s') : m'.Descends s' superclass p :=
  ⟨admits.hasPair_of descends.pair, descends.ordinary.evolves based admits.evolves,
    descends.superclass_eq, descends.echoes.keep based admits.evolves⟩

/-- The other pair is of another class. -/
lemma HasPair.cls_ne_of_admits (pair : m.HasPair s p) (admits : m.Admits q s m' s') :
    p.cls ≠ q.cls := by
  intro heq
  have hindex := admits.evolves.based.index_eq (admits.hasPair_of pair).classAt?_index
    (heq ▸ admits.hasPair.classAt?_index)
  have hfree := admits.free
  rw [← hindex, pair.classAt?_index] at hfree
  cases hfree

/-- Whether the metaclass of one pair inherits from that of another one, which may in turn be made to
inherit from the one pair. -/
structure Crossed (m : Machine) (p q : ClassPair) : Prop where
  superclass_eq : m.superclass p.metaclass = .ok q.metaclass
  ordinary : m.Ordinary q.cls
  classOf_eq : m.classOf q.cls = .ok q.metaclass
  metaSuperclass_eq : m.metaSuperclass q.cls p.cls = .ok p.metaclass
  ne : p.metaclass ≠ q.cls
  metaclass_ne : p.metaclass ≠ q.metaclass

/-- The other pair closes a circle when it is made to inherit from the one. -/
lemma Crossed.closesCircle (crossed : m.Crossed p q) : m.ClosesCircle q.cls p.cls := by
  refine ⟨crossed.ordinary, q.metaclass, p.metaclass, crossed.classOf_eq, crossed.metaSuperclass_eq,
    .single ?_⟩
  rw [Rerouted, if_neg crossed.ne]
  exact crossed.superclass_eq

/-- Both metaclasses inherit from each other then. -/
lemma Crossed.superclass_of_setSuperclass (crossed : m.Crossed p q) (stored : m.Stored s)
    (hok : setSuperclass q.cls p.cls m = .ok () m') :
    m'.superclass p.metaclass = .ok q.metaclass ∧ m'.superclass q.metaclass = .ok p.metaclass := by
  have directs := stored.directs q.cls p.cls
  rw [hok] at directs
  cases directs with
  | ofMetaclass hkind => exact absurd rfl (crossed.ordinary.ne hkind)
  | ofClass _ hmeta links hclassOf metaLinks =>
    obtain rfl := Except.ok.inj (crossed.classOf_eq.symm.trans hclassOf)
    obtain rfl := Except.ok.inj (crossed.metaSuperclass_eq.symm.trans hmeta)
    have relinked := links.relinked_trans metaLinks
    refine ⟨relinked.superclass_of_none crossed.superclass_eq ?_,
      relinked.superclass_of_some (stored.isClass_of_classOf hclassOf) (if_pos rfl)⟩
    rw [if_neg crossed.metaclass_ne, if_neg crossed.ne]

/-- Where two pairs inherit from one class, the metaclass of one may be made to inherit from that of the
other. -/
lemma Ranked.exists_crossed (ranked : m.Ranked s) (based : m.Based s₁)
    (first : m.Descends s₁ superclass p) (second : m.Descends s₁ superclass q) (hne : p.cls ≠ q.cls) :
    ∃ m' s', setSuperclass p.metaclass q.metaclass m = .ok () m' ∧ m'.Ranked s' ∧ m'.Crossed p q := by
  have hmetaNe : p.metaclass ≠ q.metaclass := fun heq => hne (first.pair.cls_eq second.pair heq)
  have hcrossNe : p.metaclass ≠ q.cls := (second.pair.cls_ne_metaclass first.pair based).symm
  have hownNe : p.cls ≠ p.metaclass := first.pair.cls_ne_metaclass first.pair based
  obtain ⟨hp, hpMeta⟩ := first.pair.superclass_eq based
  obtain ⟨hq, hqMeta⟩ := second.pair.superclass_eq based
  rw [first.superclass_eq] at hp
  rw [second.superclass_eq] at hq
  have hkind := first.pair.isMetaclass_metaclass based
  have hclass := isClass_of_isMetaclass hkind
  have hordinary := first.pair.ordinary based
  have hordinary₂ := second.pair.ordinary based
  have hsame : p.metaSuperclass = q.metaSuperclass := Except.ok.inj
    ((first.superclass_eq ▸ first.echoes.2).symm.trans (second.superclass_eq ▸ second.echoes.2))
  -- Neither metaclass is on the line of the other, so that the first change is taken.
  have hotherClass := isClass_of_isMetaclass (second.pair.isMetaclass_metaclass based)
  obtain ⟨line, hline⟩ := ranked.straight q.metaclass hotherClass
  obtain ⟨kind, hclassOf⟩ := ranked.exists_classOf hotherClass
  have hmeta := (metaSuperclass_eq hotherClass hline (hline.not_mem_of_superclass_eq hmetaNe hqMeta
    (hsame ▸ hpMeta))).trans hclassOf
  have directs := ranked.stored.directs p.metaclass q.metaclass
  generalize setSuperclass p.metaclass q.metaclass m = result at directs
  cases directs with
  | refused hnot => exact absurd hmeta (hnot hclass _)
  | halfway hcls | ofClass hcls => exact absurd rfl (hcls.ne hkind)
  | @ofMetaclass _ m' s' _ hmeta' links =>
    have straight' := ranked.straight.links links hclass hmeta'
    have relinked := links.relinked
    have hp' := relinked.superclass_of_none hp (if_neg hownNe)
    have hq' := relinked.superclass_of_none hq (if_neg hcrossNe.symm)
    have hordinary' := relinked.ordinary_iff.mpr hordinary
    obtain ⟨line', hline'⟩ := straight' p.cls hordinary'.1
    refine ⟨m', s', rfl, ranked.relinked relinked links.stored straight', ?_,
      relinked.ordinary_iff.mpr hordinary₂, ?_, ?_, hcrossNe, hmetaNe⟩
    · exact relinked.superclass_of_some hclass (if_pos rfl)
    · rw [relinked.classOf_eq hordinary₂.1]
      exact second.pair.classOf_cls based
    · rw [metaSuperclass_eq hordinary'.1 hline' (hline'.not_mem_of_superclass_eq hne.symm hp' hq'),
        relinked.classOf_eq hordinary.1]
      exact first.pair.classOf_cls based

end Siblings

end Machine

/-! ### Operations on classes -/

namespace Operation

/-- Whether an operation defines a class or gives one another superclass. -/
def ArrangesClasses : Operation → Prop
  | defineClass .. | setSuperclass .. => True
  | _ => False

/-- Whether an operation arranges classes and asks for a superclass that is no metaclass. -/
def SparesMetaclasses (m : Machine) : Operation → Prop
  | defineClass _ superclass _ | setSuperclass _ superclass => m.isMetaclass superclass = false
  | _ => False

/-- Whether an operation gives a class another superclass and closes a circle. -/
def ClosesCircle (m : Machine) : Operation → Prop
  | setSuperclass cls superclass => m.ClosesCircle cls superclass
  | _ => False

end Operation

namespace Machine

variable {m : Machine} {s : ObjectMap} {op : Operation} {limit : ℕ} {superclass : Value}
  {names : List String}

/-- The classes of a fresh machine are ranked. -/
lemma exists_ranked_of_new (hlimit : limit < 2 ^ 64) (hnew : Machine.new limit = .ok m) :
    ∃ s, m.Ranked s := by
  obtain ⟨s, stored, hierarchy⟩ := exists_stored_of_new hlimit hnew
  obtain ⟨_, founded, -⟩ := exists_founded_of_new hlimit hnew
  obtain ⟨kind, hkind, -⟩ := (founded.classified fun _ => id).exists_kernelClass
    (show (ClassIndex.metaclass, "Metaclass") ∈ _ by decide)
  refine ⟨s, stored, hierarchy.straight, fun {cls} hcls => ?_, kind, hkind⟩
  rcases ordinary_or_isMetaclass hcls with hordinary | hmeta
  · obtain ⟨metaclass, hclassOf, -⟩ := hierarchy.exists_metaclass hordinary
    exact ⟨metaclass, hclassOf⟩
  · exact ⟨kind, classOf_of_isMetaclass hmeta hkind⟩

/-- Whether an operation arranges classes without closing a circle. -/
def KeepsLines (m : Machine) (op : Operation) : Prop :=
  op.ArrangesClasses ∧ ¬op.ClosesCircle m

/-- The classes stay ranked when classes are arranged without closing a circle. -/
lemma Ranked.exists_stateAfter (ranked : m.Ranked s) (hkeeps : m.KeepsLines op) :
    ∃ s', (stateAfter (op.run m)).Ranked s' := by
  obtain ⟨harranges, hopen⟩ := hkeeps
  cases op with
  | defineClass name superclass spec =>
    rw [Operation.run, stateAfter_bind_pure]
    exact ranked.exists_stateAfter_defineClass name superclass spec
  | setSuperclass => exact ranked.exists_stateAfter_setSuperclass hopen
  | _ => exact harranges.elim

/-- No circle is closed as long as no metaclass is asked for as a superclass. -/
theorem Reached.keepsLines (hlimit : limit < 2 ^ 64)
    (reached : Reached (fun m op => op.SparesMetaclasses m) limit m) : Reached KeepsLines limit m := by
  obtain ⟨m₀, hnew, steps⟩ := reached
  -- What each operation relies on is that the classes form a hierarchy, as they do in a fresh machine.
  suffices h : (∃ s, m.Stored s ∧ m.Hierarchy) ∧ Relation.ReflTransGen (Leads KeepsLines) m₀ m from
    ⟨m₀, hnew, h.2⟩
  induction steps with
  | refl => exact ⟨exists_stored_of_new hlimit hnew, .refl⟩
  | tail _ leads ih =>
    obtain ⟨op, hspares, rfl⟩ := leads
    obtain ⟨⟨s, stored, hierarchy⟩, steps⟩ := ih
    cases op with
    | defineClass name superclass spec =>
      refine ⟨?_, steps.tail ⟨.defineClass name superclass spec, ⟨trivial, id⟩, rfl⟩⟩
      rw [Operation.run, stateAfter_bind_pure]
      exact hierarchy.exists_stateAfter_defineClass stored hspares name spec
    | setSuperclass cls superclass =>
      exact ⟨hierarchy.exists_stateAfter_setSuperclass stored hspares cls,
        steps.tail ⟨.setSuperclass cls superclass,
          ⟨trivial, hierarchy.not_closesCircle stored hspares cls⟩, rfl⟩⟩
    | _ => exact hspares.elim

/-- Whether the objects, the classes and the native methods of a machine are known, so that classes can
be defined. -/
structure Surveyed (m : Machine) (s : ObjectMap) (names : List String) : Prop where
  based : m.Based s
  ranked : ∃ s, m.Ranked s
  hierarchy : m.Hierarchy
  offersAll : m.OffersAll NativeTable.kernel names

/-- A class that is defined below another one inherits from that. -/
lemma Surveyed.exists_descends (surveyed : m.Surveyed s names) (hordinary : m.Ordinary superclass)
    (hmax : max m.classTable.size ClassIndex.firstDynamic < Header.maxClassIndex)
    (name : String) (hroom : classCost name ≤ m.room) (spec : InstanceSpec) :
    ∃ p m' s', defineClass name superclass spec m = .ok p.cls m' ∧ m.room ≤ m'.room + classCost name ∧
      m'.classTable.size ≤ max m.classTable.size ClassIndex.firstDynamic + 2 ∧
      m.Admits p s m' s' ∧ m'.Descends s' superclass p ∧ m'.Surveyed s' names := by
  obtain ⟨s₁, ranked⟩ := surveyed.ranked
  obtain ⟨cls, m', hok, htaken⟩ := affords_defineClass ranked.stored surveyed.hierarchy hmax
    (.inr hordinary) name spec hroom
  obtain ⟨s', he, index, -, hcreates⟩ :=
    (ensures_defineClass surveyed.based name superclass spec).of_ok hok
  obtain ⟨p, admits, rfl, -, -, -, hsuperclass, hlinked⟩ := hcreates.exists_admits
  have hechoes := hlinked.resolve_left fun hnil => ne_nil_of_isClass hordinary.1 hnil.1
  obtain ⟨-, -, hierarchy'⟩ := surveyed.hierarchy.exists_stateAfter_defineClass ranked.stored
    hordinary.2 name spec
  obtain ⟨s₂, ranked'⟩ := ranked.exists_stateAfter_defineClass name superclass spec
  rw [hok] at hierarchy' ranked'
  obtain ⟨_, _, _, tracks, -⟩ := surveyed.offersAll
  obtain ⟨index', _, _, _, _, _, hindex', makes, -⟩ := tracks.exists_of_defineClass hok
  refine ⟨p, m', s', hok, htaken, ?_, admits, ⟨admits.hasPair, hordinary.evolves surveyed.based he,
    hsuperclass, hechoes⟩, he.based, ⟨s₂, ranked'⟩, hierarchy',
    surveyed.offersAll.of_defineClass (by decide) hok⟩
  rw [makes.size_eq, size_classTable_grown]
  omega

/-- In a fresh machine two classes can be defined below Object, and the metaclass of the first can be
made to inherit from that of the second. Neither metaclass has a method under the symbol of a special
selector. -/
lemma exists_crossed_of_new : ∃ m object p m₁ q m₂ m₃ plus, Machine.new 1048576 = .ok m ∧
    m.classAt? ClassIndex.object = some object ∧
    defineClass "Foo" object ⟨.fixedSize, 0⟩ m = .ok p.cls m₁ ∧
    defineClass "Bar" object ⟨.fixedSize, 0⟩ m₁ = .ok q.cls m₂ ∧
    m₂.classOf p.cls = .ok p.metaclass ∧ m₂.isMetaclass p.metaclass = true ∧
    m₂.classOf q.cls = .ok q.metaclass ∧
    setSuperclass p.metaclass q.metaclass m₂ = .ok () m₃ ∧ (∃ s, m₃.Ranked s) ∧ m₃.Crossed p q ∧
    ∃ s owner methods, m₃.Tracks s owner methods ∧ m₃.symbols["+"]? = some plus ∧
      methodUnder methods plus p.metaclass = none ∧ methodUnder methods plus q.metaclass = none := by
  have hlimit : (1048576 : ℕ) < 2 ^ 64 := by norm_num
  have hcost : freshCost + classCost "Foo" + classCost "Bar" ≤ 1048576 := by decide +kernel
  obtain ⟨m, hnew, hroom, building⟩ := exists_new hlimit (by omega)
  obtain ⟨s, founded, -⟩ := exists_founded_of_new hlimit hnew
  obtain ⟨object, hobject, hordinary⟩ := building.exists_kernelClass
    (show ClassIndex.object < ClassIndex.firstDynamic by decide) (by decide)
  have surveyed : m.Surveyed s ["+"] := ⟨founded.based, exists_ranked_of_new hlimit hnew,
    building.hierarchy, exists_offers_of_new hlimit hnew (by decide)⟩
  have hsize : max m.classTable.size ClassIndex.firstDynamic + 2 < Header.maxClassIndex :=
    (Nat.add_le_add_right (max_le building.size_le (Nat.le_add_right _ _)) 2).trans_lt (by decide)
  obtain ⟨p, m₁, s₁, hfoo, htaken, hsize₁, -, descends, surveyed₁⟩ :=
    surveyed.exists_descends hordinary (by omega) "Foo" (by omega) ⟨.fixedSize, 0⟩
  obtain ⟨q, m₂, s₂, hbar, -, -, admits, descends', surveyed₂⟩ :=
    surveyed₁.exists_descends descends.ordinary (by omega) "Bar" (by omega) ⟨.fixedSize, 0⟩
  have first := descends.admits surveyed₁.based admits
  have based₂ := surveyed₂.based
  obtain ⟨s', ranked⟩ := surveyed₂.ranked
  obtain ⟨m₃, s₃, hset, ranked₃, crossed⟩ := ranked.exists_crossed based₂ first descends'
    (descends.pair.cls_ne_of_admits admits)
  obtain ⟨s₄, owner, methods, tracks, hoffers⟩ := surveyed₂.offersAll
  obtain ⟨plus, offers⟩ := hoffers "+" (by simp)
  have hnone : ∀ {r : ClassPair}, m₂.HasPair s₂ r → methodUnder methods plus r.metaclass = none := by
    intro r pair
    have holds := offers.holds pair.classAt?_metaIndex
    rwa [NativeTable.listed?_eq_none (by decide) pair.dynamic] at holds
  obtain ⟨s₅, tracks₃, remembers⟩ := tracks.exists_of_setSuperclass hset
  exact ⟨m, object, p, m₁, q, m₂, m₃, plus, hnew, kernelClass_eq_ok_iff.mp hobject, hfoo, hbar,
    first.pair.classOf_cls based₂, first.pair.isMetaclass_metaclass based₂,
    descends'.pair.classOf_cls based₂, hset, ⟨s₃, ranked₃⟩, crossed, s₅, owner, methods, tracks₃,
    remembers.symbol offers.symbol_eq, hnone first.pair, hnone descends'.pair⟩

/-- Where classes have been arranged without closing a circle, also by operations that were refused,
the superclasses of every class end at nil, and no search fails for a circle. This stays so by each
further operation on classes just when it does not close a circle. If it does, it is accepted, and each
search for a selector that is not found above the metaclass of the class fails from there for a
circle. -/
theorem Reached.straight_iff (hlimit : limit < 2 ^ 64) (reached : Reached KeepsLines limit m) :
    m.Straight ∧
    (∀ current selector cls, m.lookup current selector ≠ .error (.superclassCycle cls)) ∧
    (∀ op : Operation, op.ArrangesClasses →
      ((stateAfter (op.run m)).Straight ↔ ¬op.ClosesCircle m)) ∧
    ∀ cls superclass, m.ClosesCircle cls superclass → ∃ m' metaclass,
      setSuperclass cls superclass m = .ok () m' ∧ m.classOf cls = .ok metaclass ∧
      (∀ line, ¬m'.Line metaclass line) ∧ ∀ selector,
        (∀ value, m'.LeadsUp metaclass value → m'.Lacks selector value) →
        m'.lookup metaclass selector = .error (.superclassCycle metaclass) := by
  obtain ⟨m₀, hnew, steps⟩ := reached
  obtain ⟨s₀, ranked₀⟩ := exists_ranked_of_new hlimit hnew
  obtain ⟨s, ranked⟩ := exists_of_leads (P := Ranked) steps ranked₀ fun h => h.exists_stateAfter
  refine ⟨ranked.straight, ranked.straight.lookup_ne_superclassCycle, fun op harranges => ?_,
    fun cls superclass => ranked.straight.exists_circle ranked.stored⟩
  cases op with
  | defineClass name superclass spec =>
    obtain ⟨_, ranked'⟩ := ranked.exists_stateAfter_defineClass name superclass spec
    rw [Operation.run, stateAfter_bind_pure]
    exact iff_of_true ranked'.straight id
  | setSuperclass cls superclass =>
    exact ranked.straight.setSuperclass_iff ranked.stored cls superclass
  | _ => exact harranges.elim

/-- When the metaclass of one class has been made to inherit from that of another one, every class has a
line, until the other class is made to inherit from the one. -/
theorem Reached.straight_iff_crossed :
    ∃ m m' foo bar metaclass, (1048576 : ℕ) < 2 ^ 64 ∧ Reached KeepsLines 1048576 m ∧ m.Straight ∧
      m.ClosesCircle bar foo ∧ ¬(stateAfter ((Operation.setSuperclass bar foo).run m)).Straight ∧
      setSuperclass bar foo m = .ok () m' ∧ m.classOf bar = .ok metaclass ∧
      ∀ line, ¬m'.Line metaclass line := by
  have hlimit : (1048576 : ℕ) < 2 ^ 64 := by norm_num
  obtain ⟨m, object, p, m₁, q, m₂, m₃, -, hnew, -, hfoo, hbar, -, hkind, -, hset, -, crossed, -⟩ :=
    exists_crossed_of_new
  have hdefine : ∀ {name m m' cls}, defineClass name object ⟨.fixedSize, 0⟩ m = .ok cls m' →
      Leads KeepsLines m m' := fun {name m m' cls} hok =>
    ⟨.defineClass name object ⟨.fixedSize, 0⟩, ⟨trivial, id⟩, by
      rw [Operation.run, run_bind_of_ok hok]
      rfl⟩
  have hcross : Leads KeepsLines m₂ m₃ :=
    ⟨.setSuperclass p.metaclass q.metaclass, ⟨trivial, fun hcloses => hcloses.1.ne hkind rfl⟩, by
      rw [Operation.run, hset]
      rfl⟩
  have reached : Reached KeepsLines 1048576 m₃ :=
    ⟨m, hnew, ((Relation.ReflTransGen.single (hdefine hfoo)).tail (hdefine hbar)).tail hcross⟩
  obtain ⟨straight, -, hiff, hcloses⟩ := Reached.straight_iff hlimit reached
  have hcircle := crossed.closesCircle
  obtain ⟨m', metaclass, hok, hclassOf, hnone, -⟩ := hcloses q.cls p.cls hcircle
  exact ⟨m₃, m', p.cls, q.cls, metaclass, hlimit, reached, straight, hcircle,
    fun straight' => (hiff (.setSuperclass q.cls p.cls) trivial).mp straight' hcircle, hok, hclassOf,
    hnone⟩

/-- Two classes are defined below Object in a fresh machine, the metaclass of the first is made to
inherit from that of the second, and the second class from the first. This is accepted, and both
metaclasses inherit from each other then, so that a search goes round. -/
theorem exists_circular :
    ∃ m object foo m₁ bar m₂ fooClass barClass m₃ m₄ plus, Machine.new 1048576 = .ok m ∧
      m.classAt? ClassIndex.object = some object ∧
      defineClass "Foo" object ⟨.fixedSize, 0⟩ m = .ok foo m₁ ∧
      defineClass "Bar" object ⟨.fixedSize, 0⟩ m₁ = .ok bar m₂ ∧
      m₂.classOf foo = .ok fooClass ∧ m₂.classOf bar = .ok barClass ∧
      setSuperclass fooClass barClass m₂ = .ok () m₃ ∧ setSuperclass bar foo m₃ = .ok () m₄ ∧
      m₄.superclass fooClass = .ok barClass ∧ m₄.superclass barClass = .ok fooClass ∧
      (∀ line, ¬m₄.Line barClass line) ∧ m₄.symbols["+"]? = some plus ∧
      m₄.lookup barClass plus = .error (.superclassCycle barClass) := by
  obtain ⟨m, object, p, m₁, q, m₂, m₃, plus, hnew, hobject, hfoo, hbar, hclassOf, -, hclassOf', hset,
    ⟨s, ranked⟩, crossed, s', owner, methods, tracks, hplus, hnone, hnone'⟩ := exists_crossed_of_new
  obtain ⟨m₄, metaclass, hok, hmetaclass, hline, hlookup⟩ :=
    ranked.straight.exists_circle ranked.stored crossed.closesCircle
  obtain rfl := Except.ok.inj (crossed.classOf_eq.symm.trans hmetaclass)
  obtain ⟨hp, hq⟩ := crossed.superclass_of_setSuperclass ranked.stored hok
  obtain ⟨s₄, tracks₄, remembers⟩ := tracks.exists_of_setSuperclass hok
  have hplus₄ := remembers.symbol hplus
  refine ⟨m, object, p.cls, m₁, q.cls, m₂, p.metaclass, q.metaclass, m₃, m₄, plus, hnew, hobject, hfoo,
    hbar, hclassOf, hclassOf', hset, hok, hp, hq, hline, hplus₄, hlookup plus fun value habove => ?_⟩
  -- The way up from one metaclass is through both of them only.
  have hcase : value = p.metaclass ∨ value = q.metaclass := by
    induction habove with
    | refl => exact .inr rfl
    | tail _ hnext ih =>
      rcases ih with rfl | rfl
      · exact .inr (Except.ok.inj (hnext.symm.trans hp))
      · exact .inl (Except.ok.inj (hnext.symm.trans hq))
  rcases hcase with rfl | rfl
  · exact tracks₄.lacks (isClass_of_superclass hp) hplus₄ hnone
  · exact tracks₄.lacks (isClass_of_superclass hq) hplus₄ hnone'

end Machine

end TalkMachine
