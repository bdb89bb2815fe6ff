import TalkMachine.Machine.Bootstrap
import TalkMachine.Proofs.Dictionary.Refinement
import TalkMachine.Proofs.Machine.Lines
import TalkMachine.Proofs.Machine.Steps

/-!
# The methods of classes

Each class has a method dictionary of its own: no part of it is a part of that of another class. So
what is stored into one leaves the others as they are, and so does everything that is allocated
(`Machine.Equipped.keep`). A class is equipped when it gets a new dictionary
(`Machine.Equipped.exists_of_equip`), and what is put into it is put into no other class
(`Machine.Equipped.exists_of_insert`).
-/

namespace TalkMachine

open Dictionary (Contains capacityAfter)

/-- The method dictionary of a class, and the entries put into it, the last one first. -/
structure ClassMethods where
  dictionary : Value
  puts : List (Value × Value)

/-- Whether a class has these methods, in a dictionary whose parts belong to the class and can be
stored into. -/
def HasMethods (h : Heap) (s : ObjectMap) (owner : Value → Option Value) (cls : Value)
    (own : ClassMethods) : Prop :=
  ∃ superclass format name keyArray valueArray ks vs,
    s.HasSlots cls [superclass, own.dictionary, format, name] ∧
    Contains h s own.dictionary keyArray valueArray ks vs own.puts ∧
    ks.length = capacityAfter 0 own.puts ∧
    ∀ part ∈ [own.dictionary, keyArray, valueArray], owner part = some cls ∧ s.IsMutable part

variable {h h' : Heap} {s s' : ObjectMap} {cls value : Value} {owner owner' : Value → Option Value}
  {own : ClassMethods} {changed : List Value} {index : ℕ}

namespace HasMethods

/-- A change that stores into no part of the dictionary, and not into the class either unless into
another slot, keeps the methods of a class. -/
lemma keep_of_slots (has : HasMethods h s owner cls own) (rep : h.Represents s)
    (rep' : h'.Represents s') (hretains : s.Retains changed s')
    (hchanged : ∀ name ∈ changed, owner name ≠ some cls)
    (hslots : ∀ {superclass format name}, s.HasSlots cls [superclass, own.dictionary, format, name] →
      ∃ superclass' format' name', s'.HasSlots cls [superclass', own.dictionary, format', name'])
    (howner : ∀ part, owner part = some cls → owner' part = some cls) :
    HasMethods h' s' owner' cls own := by
  obtain ⟨superclass, format, name, keyArray, valueArray, ks, vs, hcls, contains, hlength, hparts⟩ :=
    has
  obtain ⟨superclass', format', name', hcls'⟩ := hslots hcls
  have contains' := contains.keep rep rep' hretains.toKeepsBut fun part hpart hmem =>
    hchanged part hmem (hparts part hpart).1
  exact ⟨superclass', format', name', keyArray, valueArray, ks, vs, hcls', contains', hlength,
    fun part hpart => ⟨howner part (hparts part hpart).1, hretains.isMutable (hparts part hpart).2⟩⟩

/-- A change to other objects keeps the methods of a class. -/
lemma keep (has : HasMethods h s owner cls own) (rep : h.Represents s) (rep' : h'.Represents s')
    (hretains : s.Retains changed s')
    (hchanged : ∀ name ∈ changed, owner name ≠ some cls ∧ name ≠ cls)
    (howner : ∀ part, owner part = some cls → owner' part = some cls) :
    HasMethods h' s' owner' cls own :=
  has.keep_of_slots rep rep' hretains (fun name hname => (hchanged name hname).1)
    (fun hslots => ⟨_, _, _, hretains.slots (fun hmem => (hchanged cls hmem).2 rfl) hslots⟩) howner

end HasMethods

/-- A change that stores into nothing but what belongs to one class. Objects from before belong to
whom they did. -/
structure ObjectMap.KeepsForeign (cls : Value) (s : ObjectMap) (owner : Value → Option Value)
    (s' : ObjectMap) (owner' : Value → Option Value) : Prop extends s.Keeps s' where
  slots : ∀ {value : Value} {values : List Value}, owner value ≠ some cls →
    s.HasSlots value values → s'.HasSlots value values
  owner_eq : ∀ {value : Value} {o : Object}, s.objects value = some o → owner' value = owner value

namespace ObjectMap.KeepsForeign

variable {s'' : ObjectMap} {owner'' : Value → Option Value}

/-- A change that stores into no object from before. -/
lemma of_retains (hretains : s.Retains [] s') : KeepsForeign cls s owner s' owner :=
  ⟨hretains.toKeeps, fun _ => hretains.slots List.not_mem_nil, fun _ => rfl⟩

/-- One change after the other. -/
lemma trans (h : KeepsForeign cls s owner s' owner') (h' : KeepsForeign cls s' owner' s'' owner'') :
    KeepsForeign cls s owner s'' owner'' := by
  refine ⟨h.toKeeps.trans h'.toKeeps, fun hforeign hslots => ?_, fun ho => ?_⟩
  · obtain ⟨o, ho, -⟩ := id hslots
    exact h'.slots (h.owner_eq ho ▸ hforeign) (h.slots hforeign hslots)
  · obtain ⟨o', ho', -⟩ := h.shape ho
    rw [h'.owner_eq ho', h.owner_eq ho]

end ObjectMap.KeepsForeign

namespace Machine

variable {m m' : Machine} {methods : Value → Option ClassMethods} {name : String} {symbol : Value}

/-- Nil, true and false. -/
def constants (m : Machine) : List Value :=
  [m.nil, m.trueObject, m.falseObject]

/-- Whether the classes have these methods, in dictionaries whose parts have one owner each. A class
that has no dictionary yet has none. Nil, true and false are objects. The values in the symbol table
are objects, and no two names have the same. -/
structure Equipped (m : Machine) (s : ObjectMap) (owner : Value → Option Value)
    (methods : Value → Option ClassMethods) : Prop where
  rep : m.heap.Represents s
  nil_eq : s.nil = m.nil
  constant : ∀ value ∈ m.constants, ∃ o, s.objects value = some o
  symbol : ∀ {name : String} {symbol : Value}, m.symbols[name]? = some symbol →
    symbol ≠ s.nil ∧ ∃ o, s.objects symbol = some o
  name_eq : ∀ {name name' : String} {symbol : Value}, m.symbols[name]? = some symbol →
    m.symbols[name']? = some symbol → name = name'
  hasMethods : ∀ {cls : Value} {own : ClassMethods}, methods cls = some own →
    HasMethods m.heap s owner cls own
  owner_eq : ∀ {cls : Value} {own : ClassMethods}, methods cls = some own → owner cls = none
  owned : ∀ {part cls : Value}, owner part = some cls → ∃ o, s.objects part = some o

/-- Whether nil and the classes are the same, and all symbols and native methods are still known. -/
structure Remembers (m m' : Machine) : Prop where
  nil_eq : m'.nil = m.nil
  classTable_eq : m'.classTable = m.classTable
  symbol : ∀ {name : String} {symbol : Value}, m.symbols[name]? = some symbol →
    m'.symbols[name]? = some symbol
  native : ∀ {index : ℕ} {native : Native}, m.natives[index]? = some native →
    m'.natives[index]? = some native

namespace Remembers

/-- Nothing is forgotten. -/
lemma refl (m : Machine) : m.Remembers m :=
  ⟨rfl, rfl, id, id⟩

/-- One change after the other. -/
lemma trans {m'' : Machine} (h : m.Remembers m') (h' : m'.Remembers m'') : m.Remembers m'' :=
  ⟨h'.nil_eq.trans h.nil_eq, h'.classTable_eq.trans h.classTable_eq, fun hsymbol =>
    h'.symbol (h.symbol hsymbol), fun hnative => h'.native (h.native hnative)⟩

/-- Another heap makes no difference. -/
lemma withHeap (m : Machine) (h : Heap) : m.Remembers (m.withHeap h) :=
  ⟨rfl, rfl, id, id⟩

end Remembers

namespace Equipped

variable (equipped : m.Equipped s owner methods)
include equipped

/-- Nil is an object. -/
lemma nil : ∃ o, s.objects s.nil = some o :=
  equipped.nil_eq ▸ equipped.constant m.nil List.mem_cons_self

/-- What stands for no object belongs to no class. -/
lemma owner_eq_none {part : Value} (hnone : s.objects part = none) : owner part = none := by
  rw [Option.eq_none_iff_forall_ne_some]
  intro cls howner
  obtain ⟨o, ho⟩ := equipped.owned howner
  rw [hnone] at ho
  cases ho

/-- What stands for no object is no class. -/
lemma methods_eq_none (hnone : s.objects value = none) : methods value = none := by
  rw [Option.eq_none_iff_forall_ne_some]
  intro own hvalue
  obtain ⟨_, _, _, _, _, _, _, hslots, -⟩ := equipped.hasMethods hvalue
  exact hslots.ne_of_none hnone rfl

/-- What belongs to a class is no class itself. -/
lemma methods_eq_none_of_owner {part : Value} (howner : owner part = some cls) :
    methods part = none := by
  rw [Option.eq_none_iff_forall_ne_some]
  intro own hpart
  rw [equipped.owner_eq hpart] at howner
  cases howner

/-- The method dictionary of a class is the one that is known. -/
lemma methodDictionary_eq (hclass : m.isClass cls = true) (hcls : methods cls = some own) :
    m.methodDictionary cls = .ok own.dictionary := by
  obtain ⟨_, _, _, _, _, _, _, hslots, -⟩ := equipped.hasMethods hcls
  rw [methodDictionary, classSlot, expectClass_eq_ok_iff.mpr hclass,
    show m.heap.fetch cls ClassSlot.methodDictionary = .ok own.dictionary from
      Heap.fetch_eq_of_hasSlots equipped.rep hslots rfl]
  rfl

/-- Changes that keep the methods of each class, and what else is known of the objects. -/
lemma of_hasMethods (rep' : m'.heap.Represents s') (hkeeps : s.Keeps s')
    (hconstants : m'.constants = m.constants) (hsymbols : m'.symbols = m.symbols)
    (hkept : ∀ {cls own}, methods cls = some own → HasMethods m.heap s owner cls own →
      HasMethods m'.heap s' owner cls own) : m'.Equipped s' owner methods := by
  refine ⟨rep', hkeeps.nil_eq.trans (equipped.nil_eq.trans (List.cons.inj hconstants).1.symm),
    fun value hvalue => ?_, fun hsymbol => ?_,
    hsymbols ▸ equipped.name_eq, fun hcls => hkept hcls (equipped.hasMethods hcls),
    equipped.owner_eq, fun howner => ?_⟩
  · obtain ⟨o, ho⟩ := equipped.constant value (hconstants ▸ hvalue)
    exact hkeeps.exists_object ho
  · obtain ⟨hnil, o, ho⟩ := equipped.symbol (hsymbols ▸ hsymbol)
    exact ⟨hkeeps.nil_eq ▸ hnil, hkeeps.exists_object ho⟩
  · obtain ⟨o, ho⟩ := equipped.owned howner
    exact hkeeps.exists_object ho

/-- Changes that store into no class and into no part of the dictionary of a class keep all methods.
-/
lemma keep (rep' : m'.heap.Represents s') (hretains : s.Retains changed s')
    (hchanged : ∀ name ∈ changed, methods name = none ∧
      ∀ {cls}, owner name = some cls → methods cls = none)
    (hconstants : m'.constants = m.constants) (hsymbols : m'.symbols = m.symbols) :
    m'.Equipped s' owner methods := by
  refine equipped.of_hasMethods rep' hretains.toKeeps hconstants hsymbols fun {cls own} hcls has =>
    has.keep equipped.rep rep' hretains (fun name hname => ⟨fun howner => ?_, ?_⟩) fun _ => id
  · rw [(hchanged name hname).2 howner] at hcls
    cases hcls
  · rintro rfl
    rw [(hchanged name hname).1] at hcls
    cases hcls

/-- Less is known when the methods of some classes are not. -/
lemma restrict {methods' : Value → Option ClassMethods}
    (hkept : ∀ {cls own}, methods' cls = some own → methods cls = some own) :
    m.Equipped s owner methods' :=
  { equipped with
    hasMethods := fun hcls => equipped.hasMethods (hkept hcls)
    owner_eq := fun hcls => equipped.owner_eq (hkept hcls) }

/-- So it is when the methods of one class are not. -/
lemma forget (cls : Value) : m.Equipped s owner (Function.update methods cls none) := by
  refine equipped.restrict fun {other own} hother => ?_
  by_cases hsame : other = cls
  · rw [hsame, Function.update_self] at hother
    cases hother
  · rwa [Function.update_of_ne hsame] at hother

/-- Other methods of one class, in parts that are its own or have been nobody's. -/
lemma update {parts : List Value} (howner : owner cls = none) (hcls : cls ∉ parts)
    (hparts : ∀ part ∈ parts,
      owner part = some cls ∨ (owner part = none ∧ methods part = none))
    (hobjects : ∀ part ∈ parts, ∃ o, s.objects part = some o)
    (has : HasMethods m.heap s (fun value => if value ∈ parts then some cls else owner value) cls own) :
    m.Equipped s (fun value => if value ∈ parts then some cls else owner value)
      (Function.update methods cls (some own)) := by
  refine ⟨equipped.rep, equipped.nil_eq, equipped.constant, equipped.symbol, equipped.name_eq,
    fun {other own'} hother => ?_,
    fun {other own'} hother => ?_, fun {part other} hpart => ?_⟩
  · by_cases hsame : other = cls
    · subst hsame
      rw [Function.update_self] at hother
      exact Option.some.inj hother ▸ has
    · rw [Function.update_of_ne hsame] at hother
      refine (equipped.hasMethods hother).keep equipped.rep equipped.rep (.refl [] s) nofun
        fun part hpart => ?_
      rw [if_neg, hpart]
      intro hmem
      rcases hparts part hmem with hown | ⟨hnone, -⟩
      · exact hsame (Option.some.inj (hpart.symm.trans hown))
      · rw [hnone] at hpart
        cases hpart
  · by_cases hsame : other = cls
    · rw [if_neg (hsame ▸ hcls), hsame, howner]
    · rw [Function.update_of_ne hsame] at hother
      rw [if_neg, equipped.owner_eq hother]
      intro hmem
      rcases hparts other hmem with hown | ⟨-, hnone⟩
      · rw [equipped.owner_eq hother] at hown
        cases hown
      · rw [hnone] at hother
        cases hother
  · split at hpart
    · exact hobjects part ‹_›
    · exact equipped.owned hpart

/-- A store into a class, but not of its method dictionary, keeps all methods. -/
lemma exists_of_store (hcls : methods cls = some own) (hindex : index ≠ ClassSlot.methodDictionary)
    {h' : Heap} (hok : Heap.store cls index value m.heap = .ok () h') :
    ∃ s', (m.withHeap h').Equipped s' owner methods ∧ s.Retains [cls] s' := by
  obtain ⟨_, _, _, _, _, _, _, hslots, -⟩ := equipped.hasMethods hcls
  obtain ⟨s', rep', hretains, hlt, hslots'⟩ := Heap.exists_of_store equipped.rep hslots hok
  refine ⟨s', equipped.of_hasMethods rep' hretains.toKeeps rfl rfl fun {other own'} hother has => ?_,
    hretains⟩
  refine has.keep_of_slots equipped.rep rep' hretains ?_ (fun hslots => ?_) fun _ => id
  · simp [equipped.owner_eq hcls]
  · by_cases hsame : other = cls
    · subst hsame
      obtain rfl := Option.some.inj (hcls.symm.trans hother)
      match index with
      | 0 | 2 | 3 => exact ⟨_, _, _, hslots'⟩
      | 1 => exact absurd rfl hindex
      | _ + 4 => exact absurd hlt (by simp)
    · exact ⟨_, _, _, hretains.slots (by simpa using hsame) hslots⟩

/-- A symbol stands in the symbol table under its name, and a new one is nothing else. -/
lemma exists_of_intern (hok : intern name m = .ok symbol m') :
    ∃ s', m'.Equipped s' owner methods ∧ s.Retains [] s' ∧ m'.symbols[name]? = some symbol ∧
      m'.natives = m.natives ∧ m.Remembers m' := by
  rw [intern, run_bind_eq_ok_iff] at hok
  obtain ⟨symbol?, _, hask, hok⟩ := hok
  obtain ⟨hsymbol?, rfl⟩ := ask_eq_ok_iff.mp hask
  obtain rfl := Except.ok.inj hsymbol?
  cases hfound : m.symbols[name]? with
  | some known =>
    rw [hfound] at hok
    obtain ⟨rfl, rfl⟩ : known = symbol ∧ m = m' := by
      cases hok
      exact ⟨rfl, rfl⟩
    exact ⟨s, equipped, .refl _ s, hfound, rfl, .refl m⟩
  | none =>
    rw [hfound] at hok
    simp only [run_bind_eq_ok_iff, change_eq_ok_iff] at hok
    obtain ⟨_, _, ⟨h₁, hallocate, rfl⟩, _, _, ⟨h₂, hflags, rfl⟩, _, _, ⟨⟩, ⟨⟩⟩ := hok
    obtain ⟨s', o, rep', hretains, hnone, ho⟩ :=
      Heap.exists_of_allocateBytes_setFlags equipped.rep hallocate hflags
    have hnew : symbol ≠ s'.nil := by
      rintro rfl
      obtain ⟨o, ho⟩ := equipped.nil
      rw [hretains.nil_eq, ho] at hnone
      cases hnone
    have equipped' : (m.withHeap h₂).Equipped s' owner methods :=
      equipped.keep rep' hretains nofun rfl rfl
    have hother : ∀ {other : String} {found : Value}, (m.symbols.insert name symbol)[other]? = some found →
        (name = other ∧ symbol = found) ∨ m.symbols[other]? = some found := by
      intro other found h
      rw [Std.HashMap.getElem?_insert] at h
      split at h
      · exact .inl ⟨eq_of_beq ‹_›, Option.some.inj h⟩
      · exact .inr h
    have hfresh : ∀ {other : String}, m.symbols[other]? ≠ some symbol := fun h => by
      obtain ⟨-, o, ho⟩ := equipped.symbol h
      rw [hnone] at ho
      cases ho
    refine ⟨s', { equipped' with symbol := fun h => ?_, name_eq := fun h h' => ?_ }, hretains,
      Std.HashMap.getElem?_insert_self, rfl, rfl, rfl, fun {other found} h => ?_, id⟩
    · rcases hother h with ⟨-, rfl⟩ | h
      · exact ⟨hnew, o, ho⟩
      · exact equipped'.symbol h
    · rcases hother h with ⟨rfl, rfl⟩ | h <;> rcases hother h' with ⟨rfl, hsame⟩ | h'
      · rfl
      · exact absurd h' hfresh
      · exact absurd (hsame ▸ h) hfresh
      · exact equipped'.name_eq h h'
    · have hne : ¬(name == other) = true := by
        rw [beq_iff_eq]
        rintro rfl
        rw [hfound] at h
        cases h
      exact Std.HashMap.getElem?_insert.trans ((if_neg hne).trans h)

/-- A class whose slots are nil gets a method dictionary without entries. -/
lemma exists_of_equip (hcls : methods cls = none) (howner : owner cls = none)
    (hslots : s.HasSlots cls [s.nil, s.nil, s.nil, s.nil]) {d symbol : Value} {spec : InstanceSpec}
    {h₁ h₂ : Heap}
    (hnew : Dictionary.new 0 m.heap = .ok d h₁)
    (hfill : fillClass cls d spec symbol h₁ = .ok () h₂) :
    ∃ s' owner', (m.withHeap h₂).Equipped s' owner'
        (Function.update methods cls (some ⟨d, []⟩)) ∧
      s.Retains [cls] s' ∧ ∀ value o, s.objects value = some o → owner' value = owner value := by
  obtain ⟨s₁, keyArray, valueArray, ks, vs, rep₁, hretains₁, hrenews, hcapacity, contains₁⟩ :=
    Dictionary.exists_of_new equipped.rep hnew
  have hpart : ∀ part ∈ [d, keyArray, valueArray], s.objects part = none :=
    fun part hmem => hrenews.objects_eq_none hmem
  have hslots₁ := hretains₁.slots List.not_mem_nil hslots
  have hother : ∀ part ∈ [d, keyArray, valueArray], part ≠ cls :=
    fun part hmem => hslots.ne_of_none (hpart part hmem)
  rw [fillClass] at hfill
  simp only [run_bind_eq_ok_iff] at hfill
  obtain ⟨_, h₃, hdictionary, _, h₄, hformat, hname⟩ := hfill
  obtain ⟨s₃, rep₃, hretains₃, -, hslots₃⟩ := Heap.exists_of_store rep₁ hslots₁ hdictionary
  obtain ⟨s₄, rep₄, hretains₄, -, hslots₄⟩ := Heap.exists_of_store rep₃ hslots₃ hformat
  obtain ⟨s', rep', hretains', -, hslots'⟩ := Heap.exists_of_store rep₄ hslots₄ hname
  have hstores : s₁.Retains [cls] s' :=
    (hretains₃.trans hretains₄ (List.Subset.refl _)).trans hretains' (List.Subset.refl _)
  have hretains : s.Retains [cls] s' :=
    (hretains₁.mono (List.nil_subset _)).trans hstores (List.Subset.refl _)
  have contains' := contains₁.keep rep₁ rep' hstores.toKeepsBut fun part hmem => by
    simpa using hother part hmem
  have equipped' : (m.withHeap h₂).Equipped s' owner methods :=
    equipped.keep rep' hretains (by simp [howner, hcls]) rfl rfl
  have hmutable : ∀ part ∈ [d, keyArray, valueArray], s'.IsMutable part := fun part hmem =>
    hstores.isMutable ((hrenews part hmem).resolve_left List.not_mem_nil).2
  have has : HasMethods h₂ s'
      (fun value => if value ∈ [d, keyArray, valueArray] then some cls else owner value) cls ⟨d, []⟩ :=
    ⟨s.nil, _, _, keyArray, valueArray, ks, vs, hslots', contains', hcapacity,
      fun part hmem => ⟨if_pos hmem, hmutable part hmem⟩⟩
  refine ⟨s', _, equipped'.update howner (fun hmem => hother cls hmem rfl) (fun part hmem => ?_)
    (fun part hmem => ?_) has, hretains, ?_⟩
  · exact .inr ⟨equipped.owner_eq_none (hpart part hmem), equipped.methods_eq_none (hpart part hmem)⟩
  · exact (hmutable part hmem).imp fun _ => And.left
  · intro value o ho
    refine if_neg fun hmem => ?_
    rw [hpart value hmem] at ho
    cases ho

/-- A method that is put into a class is put into no other. -/
theorem exists_of_insert (hcls : methods cls = some own) {key value : Value} (hkey : key ≠ s.nil)
    (hknows : s.Knows key) {h' : Heap}
    (hok : Dictionary.insert own.dictionary key value m.heap = .ok () h') :
    ∃ s' owner', (m.withHeap h').Equipped s' owner'
        (Function.update methods cls (some ⟨own.dictionary, (key, value) :: own.puts⟩)) ∧
      s.KeepsForeign cls owner s' owner' := by
  obtain ⟨superclass, format, name, keyArray, valueArray, ks, vs, hslots, contains, hcapacity,
    hparts⟩ := equipped.hasMethods hcls
  obtain ⟨s', keyArray', valueArray', ks', vs', rep', hretains, hrenews, hlength, contains'⟩ :=
    Dictionary.exists_of_insert equipped.rep contains (equipped.rep.nil_eq ▸ hkey) hknows hok
  have howner := equipped.owner_eq hcls
  have hparts' : ∀ part ∈ [own.dictionary, keyArray', valueArray'],
      owner part = some cls ∨ s.objects part = none := by
    rw [List.forall_mem_cons]
    refine ⟨.inl (hparts _ (by simp)).1, fun part hmem => ?_⟩
    exact (hrenews part hmem).imp (fun hold => (hparts part (List.mem_cons_of_mem _ hold)).1)
      And.left
  have hmutable : ∀ part ∈ [own.dictionary, keyArray', valueArray'], s'.IsMutable part := by
    rw [List.forall_mem_cons]
    exact ⟨hretains.isMutable (hparts _ (by simp)).2,
      hrenews.isMutable hretains fun part hmem => (hparts part (List.mem_cons_of_mem _ hmem)).2⟩
  have hnone : ∀ {part}, methods part = none → Function.update methods cls none part = none := by
    intro part hpart
    rw [Function.update_apply, hpart, ite_self]
  -- The parts of the dictionary belong to this class, so all other methods are kept.
  have equipped' : (m.withHeap h').Equipped s' owner (Function.update methods cls none) := by
    refine (equipped.forget cls).keep rep' hretains (fun part hmem => ?_) rfl rfl
    have hpart := (hparts part hmem).1
    refine ⟨hnone (equipped.methods_eq_none_of_owner hpart), fun {other} hother => ?_⟩
    rw [← Option.some.inj (hpart.symm.trans hother), Function.update_self]
  have hnot : cls ∉ [own.dictionary, keyArray', valueArray'] := fun hmem => by
    rcases hparts' cls hmem with hown | hnew
    · rw [howner] at hown
      cases hown
    · exact hslots.ne_of_none hnew rfl
  have hslots' := hretains.slots (fun hmem => by rw [(hparts cls hmem).1] at howner; cases howner)
    hslots
  have has : HasMethods h' s' (fun value => if value ∈ [own.dictionary, keyArray', valueArray']
      then some cls else owner value) cls ⟨own.dictionary, (key, value) :: own.puts⟩ :=
    ⟨superclass, format, name, keyArray', valueArray', ks', vs', hslots', contains',
      by rw [hlength, hcapacity, capacityAfter],
      fun part hmem => ⟨if_pos hmem, hmutable part hmem⟩⟩
  have hequipped := equipped'.update howner hnot (fun part hmem => ?_) (fun part hmem => ?_) has
  · rw [Function.update_idem] at hequipped
    refine ⟨s', _, hequipped, hretains.toKeeps, fun hforeign => ?_, fun {part o} ho => ?_⟩
    · exact hretains.slots fun hmem => hforeign (hparts _ hmem).1
    · split
      · rename_i hmem
        rcases hparts' part hmem with hown | hnew
        · exact hown.symm
        · rw [hnew] at ho
          cases ho
      · rfl
  · exact (hparts' part hmem).imp_right fun hnew =>
      ⟨equipped.owner_eq_none hnew, hnone (equipped.methods_eq_none hnew)⟩
  · exact (hmutable part hmem).imp fun _ => And.left

end Equipped

end Machine

end TalkMachine
