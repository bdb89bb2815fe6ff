import TalkMachine.Proofs.Machine.Equipment
import TalkMachine.Proofs.Machine.Natives

/-!
# Keeping track of a machine

A machine is tracked when its objects, the methods of all its classes and its native methods are
known (`Machine.Tracks`). Each change of its classes and methods that succeeds leaves it tracked, with
the methods that it should have; and what the machine shows to its users are objects
(`Machine.Tracks.exists_object_of_shows`).
-/

namespace TalkMachine

namespace Machine

variable {m m' : Machine} {s s' : ObjectMap} {cls superclass selector method value : Value}
  {owner : Value → Option Value} {methods : Value → Option ClassMethods} {own : ClassMethods}
  {name : String} {spec : InstanceSpec} {index : ℕ}

/-- Whether all objects of a machine, the methods of all its classes and an object for each of its
native methods are known. -/
structure Tracks (m : Machine) (s : ObjectMap) (owner : Value → Option Value)
    (methods : Value → Option ClassMethods) : Prop where
  equipped : m.Equipped s owner methods
  complete : m.Complete methods
  numbered : m.Numbered s
  fills : s.Fills

/-! ### What a machine shows -/

/-- Whether a value is an object that a machine shows to its users: true and false, the symbols, the
classes, and their method dictionaries with the arrays of these. -/
inductive Shows (m : Machine) : Value → Prop
  | trueObject : Shows m m.trueObject
  | falseObject : Shows m m.falseObject
  | symbol {name : String} {symbol : Value} (h : m.symbols[name]? = some symbol) : Shows m symbol
  | cls {cls : Value} (h : m.isClass cls = true) : Shows m cls
  | dictionary {cls dictionary : Value} (h : m.methodDictionary cls = .ok dictionary) :
    Shows m dictionary
  | array {cls dictionary array : Value} (h : m.methodDictionary cls = .ok dictionary)
    (hmem : array ∈ Dictionary.arrays m.heap dictionary) : Shows m array

/-- The same classes have methods. -/
lemma Complete.remembers (complete : m.Complete methods) (remembers : m.Remembers m') :
    m'.Complete methods := fun index cls hat => complete index cls
  ((classAt?_congr remembers.classTable_eq remembers.nil_eq index).symm.trans hat)

/-- Other methods of one class leave no class without methods. -/
lemma Complete.update (complete : m.Complete methods) (cls : Value) (own : ClassMethods) :
    m.Complete (Function.update methods cls (some own)) := by
  intro index other hother
  rw [Function.update_apply]
  split
  · exact ⟨own, rfl⟩
  · exact complete index other hother

namespace Tracks

variable (tracks : m.Tracks s owner methods)
include tracks

/-- A class has methods, in the dictionary that it shows. -/
lemma exists_methods {dictionary : Value} (h : m.methodDictionary cls = .ok dictionary) :
    ∃ own, methods cls = some own ∧ own.dictionary = dictionary := by
  have hclass := isClass_of_methodDictionary h
  obtain ⟨-, hash, -, hat⟩ := isClass_eq_true_iff.mp hclass
  obtain ⟨own, hcls⟩ := tracks.complete hash cls hat
  exact ⟨own, hcls, Except.ok.inj ((tracks.equipped.methodDictionary_eq hclass hcls).symm.trans h)⟩

/-- A class has a method dictionary. -/
lemma exists_methodDictionary (hclass : m.isClass cls = true) :
    ∃ dictionary, m.methodDictionary cls = .ok dictionary := by
  obtain ⟨-, hash, -, hat⟩ := isClass_eq_true_iff.mp hclass
  obtain ⟨own, hcls⟩ := tracks.complete hash cls hat
  exact ⟨own.dictionary, tracks.equipped.methodDictionary_eq hclass hcls⟩

/-- What a machine shows are objects. -/
theorem exists_object_of_shows (hshows : m.Shows value) : ∃ o, s.objects value = some o := by
  have hparts : ∀ {cls dictionary}, m.methodDictionary cls = .ok dictionary →
      ∀ part ∈ dictionary :: Dictionary.arrays m.heap dictionary, ∃ o, s.objects part = some o := by
    intro cls dictionary h
    obtain ⟨own, hcls, rfl⟩ := tracks.exists_methods h
    obtain ⟨_, _, _, _, _, _, _, -, contains, -, -⟩ := tracks.equipped.hasMethods hcls
    exact contains.exists_object tracks.equipped.rep
  cases hshows with
  | trueObject => exact tracks.equipped.constant _ (by simp [constants])
  | falseObject => exact tracks.equipped.constant _ (by simp [constants])
  | symbol h => exact (tracks.equipped.symbol h).2
  | cls h =>
    obtain ⟨-, hash, -, hat⟩ := isClass_eq_true_iff.mp h
    obtain ⟨own, hcls⟩ := tracks.complete hash value hat
    obtain ⟨_, _, _, _, _, _, _, ⟨o, ho, -⟩, -⟩ := tracks.equipped.hasMethods hcls
    exact ⟨o, ho⟩
  | dictionary h => exact hparts h value List.mem_cons_self
  | array h hmem => exact hparts h value (List.mem_cons_of_mem _ hmem)

/-! ### Changes -/

/-- A symbol. -/
lemma exists_of_intern (hok : intern name m = .ok value m') :
    ∃ s', m'.Tracks s' owner methods ∧ m.Remembers m' ∧ s.Retains [] s' ∧
      m'.symbols[name]? = some value := by
  obtain ⟨s', equipped', hretains, hsymbol, hnatives, remembers⟩ :=
    tracks.equipped.exists_of_intern hok
  exact ⟨s', ⟨equipped', tracks.complete.remembers remembers,
    tracks.numbered.keep hnatives hretains.toKeeps, hretains.fills tracks.fills⟩, remembers, hretains,
    hsymbol⟩

/-- Another superclass. -/
lemma exists_of_setSuperclass (hok : setSuperclass cls superclass m = .ok () m') :
    ∃ s', m'.Tracks s' owner methods ∧ m.Remembers m' := by
  obtain ⟨s', _, equipped', hretains, -, hnatives, remembers⟩ :=
    tracks.equipped.exists_of_setSuperclass tracks.complete hok
  exact ⟨s', ⟨equipped', tracks.complete.remembers remembers,
    tracks.numbered.keep hnatives hretains.toKeeps, hretains.fills tracks.fills⟩, remembers⟩

/-- A class that is made with its metaclass. -/
lemma of_makesPair {metaclass dictionary metaDictionary : Value} {owner' : Value → Option Value}
    (makes : m.MakesPair s owner methods index cls metaclass dictionary metaDictionary m' s' owner') :
    m'.Tracks s' owner' (withNewPair methods cls dictionary metaclass metaDictionary) :=
  ⟨makes.equipped, makes.complete, tracks.numbered.keep makes.natives_eq makes.keeps,
    makes.keeps.fills tracks.fills⟩

/-- A class table that grows has no other classes. -/
lemma grown (size : ℕ) : (m.grown size).Tracks s owner methods :=
  ⟨tracks.equipped.keep tracks.equipped.rep (.refl [] s) nofun rfl rfl, fun place cls hat =>
    tracks.complete place cls ((classAt?_grown m _ place).symm.trans hat), tracks.numbered,
    tracks.fills⟩

/-- A class that is defined. It stands behind all classes from before. -/
lemma exists_of_defineClass (hok : defineClass name superclass spec m = .ok cls m') :
    ∃ index s' owner' metaclass dictionary metaDictionary,
      index = max m.classTable.size ClassIndex.firstDynamic ∧
      (m.grown (index + 1)).MakesPair s owner methods index cls metaclass dictionary metaDictionary
        m' s' owner' ∧
      m'.Tracks s' owner' (withNewPair methods cls dictionary metaclass metaDictionary) := by
  obtain ⟨index, m₁, hreserve, hcreate⟩ := run_bind_eq_ok_iff.mp hok
  obtain ⟨hindex, -, rfl⟩ := reserveClassIndex_eq_ok_iff.mp hreserve
  have tracks₁ := tracks.grown (index + 1)
  obtain ⟨s', owner', metaclass, dictionary, metaDictionary, makes⟩ :=
    tracks₁.equipped.exists_of_createClass tracks₁.complete
      (by rw [size_classTable_grown]; omega) hcreate
  exact ⟨index, s', owner', metaclass, dictionary, metaDictionary, hindex, makes,
    tracks₁.of_makesPair makes⟩

/-- A method that is put into a class. -/
lemma exists_of_addMethod (hselector : selector ≠ m.nil) (hknows : s.Knows selector)
    (hok : addMethod cls selector method m = .ok () m') :
    ∃ s' owner' own, methods cls = some own ∧ m'.Tracks s' owner' (Function.update methods cls
        (some ⟨own.dictionary, (selector, method) :: own.puts⟩)) ∧
      s.KeepsForeign cls owner s' owner' := by
  rw [addMethod] at hok
  simp only [run_bind_eq_ok_iff, ask_eq_ok_iff, onHeap_eq_ok_iff] at hok
  obtain ⟨dictionary, _, ⟨hdictionary, rfl⟩, h', hinsert, rfl⟩ := hok
  obtain ⟨own, hcls, rfl⟩ := tracks.exists_methods hdictionary
  obtain ⟨s', owner', equipped', hkeeps⟩ := tracks.equipped.exists_of_insert hcls
    (tracks.equipped.nil_eq ▸ hselector) hknows hinsert
  exact ⟨s', owner', own, hcls, ⟨equipped', (tracks.complete.update _ _).remembers (.withHeap m h'),
    tracks.numbered.keep rfl hkeeps.toKeeps, hkeeps.fills tracks.fills⟩, hkeeps⟩

/-- Native methods that are put into a class. -/
lemma exists_of_installNatives {entries : List NativeEntry}
    (hok : installNatives cls entries m = .ok () m') :
    ∃ s' owner' own new, methods cls = some own ∧ m'.Tracks s' owner' (Function.update methods cls
        (some ⟨own.dictionary, new ++ own.puts⟩)) ∧
      m.Installs s owner cls entries new m' s' owner' := by
  rw [installNatives] at hok
  simp only [run_bind_eq_ok_iff, ask_eq_ok_iff] at hok
  obtain ⟨dictionary, _, ⟨hdictionary, rfl⟩, hinstall⟩ := hok
  obtain ⟨own, hcls, rfl⟩ := tracks.exists_methods hdictionary
  obtain ⟨s', owner', new, equipped', installs⟩ :=
    tracks.equipped.exists_of_installInto tracks.numbered hcls hinstall
  exact ⟨s', owner', own, new, hcls, ⟨equipped',
    (tracks.complete.update _ _).remembers installs.remembers, installs.numbered,
    installs.keeps.fills tracks.fills⟩, installs⟩

end Tracks

end Machine

end TalkMachine
