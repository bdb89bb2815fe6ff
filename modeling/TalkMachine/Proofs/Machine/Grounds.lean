import TalkMachine.Proofs.Dictionary.Tending
import TalkMachine.Proofs.Machine.Lines
import TalkMachine.Proofs.Machine.Steps
import TalkMachine.Proofs.Text.Utf8

/-!
# What a machine rests on

A machine is based on the objects of its heap: nil is one without slots, each class in the table is
one that carries its index as its hash, and each symbol is one that spells its name and can never be
stored into (`Machine.Based`). Whether its classes have method dictionaries that can be used is
another matter (`Machine.Sheltered`), since what is stored into a class may be anything.

`Machine.Evolves` bounds a change to a machine by a scope: the objects that it may alter, the classes
of which it may make instances, whether it may enter classes, and whether it spares them. Whatever the
scope, the machine is based again, and no symbol is lost.
-/

namespace TalkMachine

/-! ### Symbols and classes as objects -/

namespace ObjectMap

variable {s s' : ObjectMap} {symbol cls : Value} {name : String} {allowed : Value → ℕ → Prop}
  {made : ℕ → Prop}

/-- Whether a value is a symbol that spells a name and can never be stored into. -/
def IsSymbol (s : ObjectMap) (symbol : Value) (name : String) : Prop :=
  ∃ o, s.objects symbol = some o ∧ o.classIndex = ClassIndex.symbol ∧ o.flags.immutable = true ∧
    o.bytes symbol = .ok (Text.utf8 name)

/-- A symbol stays as it is. -/
lemma IsSymbol.alters (hsymbol : s.IsSymbol symbol name) (h : s.Alters allowed made s') :
    s'.IsSymbol symbol name := by
  obtain ⟨o, ho, hclass, himmutable, hbytes⟩ := hsymbol
  exact ⟨o, h.objects_eq ho fun _ => himmutable, hclass, himmutable, hbytes⟩

/-- A symbol spells one name. -/
lemma IsSymbol.name_eq {name' : String} (hsymbol : s.IsSymbol symbol name)
    (hsymbol' : s.IsSymbol symbol name') : name = name' := by
  obtain ⟨o, ho, -, -, hbytes⟩ := hsymbol
  obtain ⟨o', ho', -, -, hbytes'⟩ := hsymbol'
  obtain rfl := Option.some.inj (ho.symm.trans ho')
  exact Text.utf8_injective (Except.ok.inj (hbytes.symm.trans hbytes'))

/-- Whether a value is a class whose method dictionary is nil or a table. -/
def IsSheltered (s : ObjectMap) (cls : Value) : Prop :=
  ∃ o superclass dictionary format name, s.objects cls = some o ∧
    ClassIndex.metaclass ≤ o.classIndex ∧ o.HasSlots [superclass, dictionary, format, name] ∧
    (dictionary = s.nil ∨ s.IsTable dictionary)

/-- A class that is not stored into stays sheltered as long as its table is one. -/
lemma IsSheltered.keep (sheltered : s.IsSheltered cls) (hkeeps : s.Keeps s')
    (hsame : ∀ o, s.objects cls = some o → ClassIndex.metaclass ≤ o.classIndex →
      s'.objects cls = some o) (htable : ∀ d, s.IsTable d → s'.IsTable d) :
    s'.IsSheltered cls := by
  obtain ⟨o, superclass, dictionary, format, name, ho, hclass, hslots, hdictionary⟩ := sheltered
  exact ⟨o, superclass, dictionary, format, name, hsame o ho hclass, hclass, hslots,
    hdictionary.imp (fun hnil => hnil.trans hkeeps.nil_eq.symm) (htable dictionary)⟩

end ObjectMap

namespace Machine

variable {m m' m'' : Machine} {s s' s'' : ObjectMap} {cls value symbol : Value} {o : Object}
  {index : ℕ} {name : String}

/-! ### Machines that are based -/

/-- Whether the heap of a machine represents objects among which are nil, which has no slots, each
class in the table, with its index as its hash, and each symbol, with its name as its bytes. -/
structure Based (m : Machine) (s : ObjectMap) : Prop where
  rep : m.heap.Represents s
  fills : s.Fills
  nil_eq : s.nil = m.nil
  nil : ∃ o, s.objects m.nil = some o ∧ o.classIndex = ClassIndex.undefinedObject ∧ o.slotCount = 0
  table : ∀ {index : ℕ} {cls : Value}, m.classAt? index = some cls →
    ∃ o, s.objects cls = some o ∧ o.hash = index ∧ ClassIndex.metaclass ≤ o.classIndex
  symbol : ∀ {name : String} {symbol : Value}, m.symbols[name]? = some symbol →
    s.IsSymbol symbol name

/-- Whether each class in the table has a method dictionary that is nil or a table. -/
def Sheltered (m : Machine) (s : ObjectMap) : Prop :=
  ∀ {index : ℕ} {cls : Value}, m.classAt? index = some cls → s.IsSheltered cls

namespace Based

variable (based : m.Based s)
include based

/-- Nil is a plain object. -/
lemma isPlain_nil : s.IsPlain s.nil := by
  obtain ⟨o, ho, hclass, -⟩ := based.nil
  exact ⟨o, based.nil_eq.symm ▸ ho, hclass ▸ by decide, hclass ▸ by decide⟩

/-- What stands for no object is not nil. -/
lemma ne_nil_of_none (hnone : s.objects value = none) : value ≠ m.nil := by
  rintro rfl
  obtain ⟨o, ho, -⟩ := based.nil
  rw [hnone] at ho
  cases ho

/-- Nil has no slot to fetch. -/
lemma fetch_nil (index : ℕ) :
    m.heap.fetch m.nil index = .error (.indexOutOfBounds m.nil index 0) := by
  obtain ⟨o, ho, -, hslots⟩ := based.nil
  rw [((based.rep.holds ho).shows based.rep.usedBytes_lt).fetch, Object.fetch, hslots,
    if_pos (Nat.zero_le _)]

/-- The hash of an object is read from it. -/
lemma identityHashOf_eq (ho : s.objects value = some o) :
    m.heap.identityHashOf value = .ok o.hash :=
  ((based.rep.holds ho).shows based.rep.usedBytes_lt).hash

/-- The class index of an object is read from it. -/
lemma classIndexOf_eq (ho : s.objects value = some o) :
    m.heap.classIndexOf value = .ok o.classIndex :=
  ((based.rep.holds ho).shows based.rep.usedBytes_lt).classIndex

/-- A symbol spells the name under which it is in the table. -/
lemma symbolName?_eq (hsymbol : m.symbols[name]? = some symbol) :
    m.symbolName? symbol = some name := by
  obtain ⟨o, ho, hclass, -, hbytes⟩ := based.symbol hsymbol
  have hanswer := ((based.rep.holds ho).shows based.rep.usedBytes_lt).bytes
  simp only [symbolName?, based.classIndexOf_eq ho, hclass, if_pos, hanswer, hbytes, Text.ofUtf8_utf8]

/-- The values that are classes are those in the table. -/
lemma isClass_iff : m.isClass value = true ↔ ∃ index, m.classAt? index = some value := by
  rw [isClass_eq_true_iff]
  constructor
  · rintro ⟨-, hash, -, hat⟩
    exact ⟨hash, hat⟩
  · rintro ⟨index, hat⟩
    obtain ⟨o, ho, rfl, -⟩ := based.table hat
    exact ⟨(based.rep.holds ho).isObject, o.hash, based.identityHashOf_eq ho, hat⟩

/-- A class stands at one index. -/
lemma index_eq {index' : ℕ} (hat : m.classAt? index = some cls)
    (hat' : m.classAt? index' = some cls) : index = index' := by
  obtain ⟨o, ho, rfl, -⟩ := based.table hat
  obtain ⟨o', ho', rfl, -⟩ := based.table hat'
  obtain rfl := Option.some.inj (ho.symm.trans ho')
  rfl

/-- The class of an object stands in the table at the class index of the object. -/
lemma classOf_eq_ok_iff (ho : s.objects value = some o) :
    m.classOf value = .ok cls ↔ m.classAt? o.classIndex = some cls :=
  Machine.classOf_eq_ok_iff (based.classIndexOf_eq ho)

/-- A class is a metaclass just when its class is Metaclass. -/
lemma isMetaclass_eq (hat : m.classAt? index = some value) (ho : s.objects value = some o) :
    m.isMetaclass value = (o.classIndex == ClassIndex.metaclass) := by
  rw [isMetaclass, based.isClass_iff.mpr ⟨index, hat⟩, based.classIndexOf_eq ho]
  rfl

/-- A value that is allocated is one of the objects. -/
lemma exists_object (hallocated : m.heap.Allocated value) : ∃ o, s.objects value = some o :=
  hallocated s based.rep based.fills

/-- The method dictionary of a sheltered class is nil or a table. -/
lemma isTable_of_methodDictionary (sheltered : m.Sheltered s) {dictionary : Value}
    (h : m.methodDictionary cls = .ok dictionary) :
    dictionary = m.nil ∨ s.IsTable dictionary := by
  obtain ⟨_, hclass, hfetch⟩ := bind_eq_ok_iff.mp h
  obtain ⟨index, hat⟩ := based.isClass_iff.mp (expectClass_eq_ok_iff.mp hclass)
  obtain ⟨o, superclass, found, format, name, ho, -, hslots, hfound⟩ := sheltered hat
  have hslot : [superclass, found, format, name][ClassSlot.methodDictionary]? = some found := rfl
  rw [Heap.fetch_eq_of_hasSlots based.rep ⟨o, ho, hslots⟩ hslot] at hfetch
  obtain rfl := Except.ok.inj hfetch
  exact hfound.imp_left fun hnil => hnil.trans based.nil_eq

end Based

/-! ### Bounded changes -/

/-- What a change to a machine may do at most. -/
structure Scope where
  /-- The objects that it may alter, by name and class index. -/
  alters : Value → ℕ → Prop
  /-- The class indices of the objects that it may make, symbols that are entered apart. -/
  makes : ℕ → Prop
  /-- Whether it may enter new classes. -/
  defines : Prop
  /-- Whether it spares method dictionaries. -/
  spares : Prop

/-- Whether a machine has come out of changes within a scope. -/
structure Evolves (scope : Scope) (m : Machine) (s : ObjectMap) (m' : Machine) (s' : ObjectMap) :
    Prop where
  based : m'.Based s'
  nil_eq : m'.nil = m.nil
  trueObject_eq : m'.trueObject = m.trueObject
  falseObject_eq : m'.falseObject = m.falseObject
  alters : s.Alters scope.alters (fun _ => True) s'
  makes : ∀ {value : Value} {o' : Object}, s'.objects value = some o' → s.objects value = none →
    scope.makes o'.classIndex ∨ ∃ name : String, m'.symbols[name]? = some value
  symbol : ∀ {name : String} {symbol : Value}, m.symbols[name]? = some symbol →
    m'.symbols[name]? = some symbol
  classAt?_of : ∀ {index : ℕ} {cls : Value}, m.classAt? index = some cls →
    m'.classAt? index = some cls
  classAt?_cases : ∀ {index : ℕ} {cls : Value}, m'.classAt? index = some cls →
    m.classAt? index = some cls ∨ scope.defines ∧ s.objects cls = none
  sheltered : scope.spares → m.Sheltered s → m'.Sheltered s'

namespace Evolves

variable {scope scope' : Scope}

/-- Nothing is changed. -/
lemma refl (based : m.Based s) : m.Evolves scope s m s where
  based := based
  nil_eq := rfl
  trueObject_eq := rfl
  falseObject_eq := rfl
  alters := .refl s
  makes ho hnone := by
    rw [hnone] at ho
    cases ho
  symbol := id
  classAt?_of := id
  classAt?_cases := .inl
  sheltered _ := id

/-- One change after the other. -/
lemma trans (h : m.Evolves scope s m' s') (h' : m'.Evolves scope s' m'' s'') :
    m.Evolves scope s m'' s'' where
  based := h'.based
  nil_eq := h'.nil_eq.trans h.nil_eq
  trueObject_eq := h'.trueObject_eq.trans h.trueObject_eq
  falseObject_eq := h'.falseObject_eq.trans h.falseObject_eq
  alters := h.alters.trans h'.alters
  makes {value o''} ho'' hnone := by
    cases ho' : s'.objects value with
    | none => exact h'.makes ho'' ho'
    | some o' =>
      obtain ⟨_, hsame, hshape⟩ := h'.alters.toKeeps.shape ho'
      obtain rfl := Option.some.inj (ho''.symm.trans hsame)
      exact (h.makes ho' hnone).imp (fun hmakes => hshape.classIndex ▸ hmakes)
        fun ⟨name, hname⟩ => ⟨name, h'.symbol hname⟩
  symbol := h'.symbol ∘ h.symbol
  classAt?_of := h'.classAt?_of ∘ h.classAt?_of
  classAt?_cases hat := (h'.classAt?_cases hat).elim h.classAt?_cases fun ⟨hdefines, hnone⟩ =>
    .inr ⟨hdefines, h.alters.toKeeps.objects_eq_none hnone⟩
  sheltered hspares hsheltered := h'.sheltered hspares (h.sheltered hspares hsheltered)

/-- A wider scope. -/
lemma mono (h : m.Evolves scope s m' s')
    (halters : ∀ {value o}, s.objects value = some o → scope.alters value o.classIndex →
      scope'.alters value o.classIndex)
    (hmakes : ∀ index, scope.makes index → scope'.makes index)
    (hdefines : scope.defines → scope'.defines) (hspares : scope'.spares → scope.spares) :
    m.Evolves scope' s m' s' :=
  { h with
    alters := h.alters.mono halters fun _ => id
    makes := fun ho hnone => (h.makes ho hnone).imp_left (hmakes _)
    classAt?_cases := fun hat => (h.classAt?_cases hat).imp_right fun hnew =>
      ⟨hdefines hnew.1, hnew.2⟩
    sheltered := fun hspares' => h.sheltered (hspares hspares') }

/-- Where no class is entered the table is as before. -/
lemma classAt?_eq (h : m.Evolves scope s m' s') (hdefines : ¬scope.defines) (index : ℕ) :
    m'.classAt? index = m.classAt? index := by
  cases hat : m'.classAt? index with
  | some cls =>
    exact (((h.classAt?_cases hat).resolve_right fun hnew => hdefines hnew.1).symm)
  | none =>
    rw [eq_comm, Option.eq_none_iff_forall_ne_some]
    intro cls hold
    rw [h.classAt?_of hold] at hat
    cases hat

/-- One change after the other leads on. -/
lemma bind {α β : Type} {x : MachineM α} {f : α → MachineM β} {Q : α → Machine → ObjectMap → Prop}
    {R : β → Machine → ObjectMap → Prop} (hx : Ensures (Evolves scope) x m s Q)
    (hf : ∀ a m' s', m.Evolves scope s m' s' → Q a m' s' → Ensures (Evolves scope) (f a) m' s' R) :
    Ensures (Evolves scope) (x >>= f) m s R :=
  Ensures.bind (fun h h' => h.trans h') hx hf

end Evolves

/-! ### Steps -/

section Steps

variable {scope : Scope} {α β : Type} {Q : α → Machine → ObjectMap → Prop}

/-- A question changes nothing. -/
lemma ensures_ask (based : m.Based s) {question : Machine → Except MachineError α}
    (hQ : ∀ a, question m = .ok a → Q a m s) :
    Ensures (Evolves scope) (ask question) m s Q := by
  rw [Ensures]
  cases hanswer : question m with
  | ok a =>
    rw [run_ask_of_ok hanswer]
    exact ⟨s, .refl based, hQ a hanswer⟩
  | error e =>
    rw [run_ask_of_error hanswer]
    exact ⟨s, .refl based⟩

/-- A question, and what follows its answer, stay within the scope of the latter. -/
lemma ensures_ask_bind (based : m.Based s) {question : Machine → Except MachineError α}
    {f : α → MachineM β} {R : β → Machine → ObjectMap → Prop}
    (hf : ∀ a, question m = .ok a → Ensures (Evolves scope) (f a) m s R) :
    Ensures (Evolves scope) (ask question >>= f) m s R :=
  ensures_ask_bind_of_refl (.refl based) hf

/-- A refusal changes nothing. -/
lemma ensures_throw (based : m.Based s) (e : MachineError) :
    Ensures (Evolves scope) (throw e : MachineM α) m s Q :=
  ⟨s, .refl based⟩

/-- Whether two machines differ at most in their heaps, in how many places of the table are free, and
in what is not about objects. -/
structure Alike (m m' : Machine) : Prop where
  nil_eq : m'.nil = m.nil
  trueObject_eq : m'.trueObject = m.trueObject
  falseObject_eq : m'.falseObject = m.falseObject
  symbols_eq : m'.symbols = m.symbols
  classAt?_eq : ∀ index, m'.classAt? index = m.classAt? index

/-- Another heap. -/
lemma Alike.withHeap (m : Machine) (h : Heap) : m.Alike (m.withHeap h) :=
  ⟨rfl, rfl, rfl, rfl, fun _ => rfl⟩

/-- A longer class table. -/
lemma Alike.grown (m : Machine) (size : ℕ) : m.Alike (m.grown size) :=
  ⟨rfl, rfl, rfl, rfl, classAt?_grown m size⟩

/-- A machine whose objects have been altered within a scope. -/
lemma Based.evolves (based : m.Based s) (alike : m.Alike m') (rep' : m'.heap.Represents s')
    (alters : s.Alters scope.alters scope.makes s')
    (hspares : scope.spares → m.Sheltered s → m'.Sheltered s') : m.Evolves scope s m' s' where
  based := by
    refine ⟨rep', alters.fills based.fills, (alters.nil_eq.trans based.nil_eq).trans
      alike.nil_eq.symm, ?_, fun {index cls} hat => ?_, fun {name symbol} h => ?_⟩
    · obtain ⟨o, ho, hclass, hslots⟩ := based.nil
      obtain ⟨o', ho', hshape⟩ := alters.toKeeps.shape ho
      refine ⟨o', alike.nil_eq.symm ▸ ho', hshape.classIndex.trans hclass, ?_⟩
      rw [Object.slotCount, hshape.length]
      exact hslots
    · obtain ⟨o, ho, hhash, hclass⟩ := based.table ((alike.classAt?_eq index).symm.trans hat)
      obtain ⟨o', ho', hshape⟩ := alters.toKeeps.shape ho
      exact ⟨o', ho', hshape.hash.trans hhash, hshape.classIndex.symm ▸ hclass⟩
    · exact (based.symbol (alike.symbols_eq ▸ h)).alters alters
  nil_eq := alike.nil_eq
  trueObject_eq := alike.trueObject_eq
  falseObject_eq := alike.falseObject_eq
  alters := alters.mono (fun _ => id) fun _ _ => trivial
  makes ho hnone := .inl (alters.new ho hnone)
  symbol h := alike.symbols_eq.symm ▸ h
  classAt?_of hat := (alike.classAt?_eq _).trans hat
  classAt?_cases hat := .inl ((alike.classAt?_eq _).symm.trans hat)
  sheltered := hspares

/-- A machine that is alike with the same heap. -/
lemma Based.evolves_alike (based : m.Based s) (alike : m.Alike m') (hheap : m'.heap = m.heap) :
    m.Evolves scope s m' s :=
  based.evolves alike (hheap ▸ based.rep) (.refl s) fun _ sheltered {index _} hat =>
    sheltered ((alike.classAt?_eq index).symm.trans hat)

/-- Classes that are not altered stay sheltered as long as tables are tables. -/
lemma Sheltered.keep (sheltered : m.Sheltered s) (alike : m.Alike m') (hkeeps : s.Keeps s')
    (hsame : ∀ {index cls o}, m.classAt? index = some cls → s.objects cls = some o →
      ClassIndex.metaclass ≤ o.classIndex → s'.objects cls = some o)
    (htable : ∀ d, s.IsTable d → s'.IsTable d) : m'.Sheltered s' := fun {index cls} hat => by
  have hold := (alike.classAt?_eq index).symm.trans hat
  exact (sheltered hold).keep hkeeps (fun _ ho hclass => hsame hold ho hclass) htable

/-- A change of the heap leads where the heap is led. -/
lemma ensures_onHeap {related : Heap → ObjectMap → Heap → ObjectMap → Prop}
    {x : EStateM MachineError Heap α} {Q : α → Heap → ObjectMap → Prop}
    (hx : Ensures related x m.heap s Q)
    (hrelated : ∀ {h' s'}, related m.heap s h' s' → m.Evolves scope s (m.withHeap h') s') :
    Ensures (Evolves scope) (onHeap x) m s fun a m' s' =>
      m' = m.withHeap m'.heap ∧ related m.heap s m'.heap s' ∧ Q a m'.heap s' := by
  rw [Ensures] at hx ⊢
  unfold onHeap
  cases hok : x m.heap with
  | ok a h' =>
    rw [hok] at hx
    obtain ⟨s', hs, hQ⟩ := hx
    simp only [hok]
    exact ⟨s', hrelated hs, rfl, hs, hQ⟩
  | error e h' =>
    rw [hok] at hx
    obtain ⟨s', hs⟩ := hx
    simp only [hok]
    exact ⟨s', hrelated hs⟩

/-- The same for a change that only the heap can refuse. -/
lemma ensures_change {related : Heap → ObjectMap → Heap → ObjectMap → Prop} {x : HeapM α}
    {Q : α → Heap → ObjectMap → Prop} (hx : Ensures related x m.heap s Q)
    (hrelated : ∀ {h' s'}, related m.heap s h' s' → m.Evolves scope s (m.withHeap h') s') :
    Ensures (Evolves scope) (change x) m s fun a m' s' =>
      m' = m.withHeap m'.heap ∧ related m.heap s m'.heap s' ∧ Q a m'.heap s' :=
  ensures_onHeap (hx.adaptExcept _) hrelated

end Steps

end Machine

end TalkMachine
