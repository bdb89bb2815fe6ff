import TalkMachine.Interpreter.Execution
import TalkMachine.Proofs.Machine.Grounds

/-!
# Objects of everyday use

Symbols, strings, arrays, associations and instances of classes are new objects beside the others, and
nothing else is altered by making them. To intern a name is to find its symbol, to make it, or to do
nothing for want of room (`Machine.intern_cases`). Of the native methods of the kernel three store,
each into its receiver; two make an instance of their receiver; all others make a string at most
(`Machine.ensures_performNative`).
-/

namespace TalkMachine

namespace Heap

open ObjectMap

variable {h : Heap} {s : ObjectMap} {name : Value} {o : Object} {allowed : Value → ℕ → Prop}
  {made : ℕ → Prop}

/-- Storing values into the slots of an object that this is allowed for. -/
lemma staysWithin_storeAll (rep : h.Represents s) (ho : s.objects name = some o)
    (hallowed : allowed name o.classIndex) (index : ℕ) (values : List Value) :
    StaysWithin allowed made (Code.storeAll name index values) h s fun _ _ => True := by
  induction values generalizing h s o index with
  | nil => exact .pure rep trivial
  | cons value rest ih =>
    rw [Code.storeAll]
    refine (staysWithin_store rep ho hallowed index value).bind ?_
    rintro _ h₁ s₁ ha₁ ⟨o', hok, rfl⟩
    exact ih ha₁.rep (objects_put_self s name o')
      ((Object.sameShape_storeWord hok).classIndex.symm ▸ hallowed) (index + 1)

/-- To allocate bytes makes one object. -/
lemma staysWithin_allocateBytes (rep : h.Represents s) (contents : List UInt8) {classIndex : ℕ}
    (hclass : classIndex ≤ Header.maxClassIndex) (hmade : made classIndex) :
    StaysWithin allowed made (allocateBytes contents .indexable8 classIndex) h s
      fun _ _ => True := by
  rw [StaysWithin, Ensures]
  rcases allocateBytes_cases rep contents hclass with ⟨_, _, hok⟩ |
    ⟨name, h', used, o, s', hok, rep', hnone, rfl, hfills, hclassIndex, -⟩
  · rw [hok]
    exact ⟨s, .refl rep⟩
  · rw [hok]
    exact ⟨_, ⟨rep', .put_new hnone (hclassIndex.symm ▸ hmade) hfills⟩, trivial⟩

/-- A store into what is no object is refused. -/
lemma store_eq_error_of_not_isObject (hname : name.isObject = false) (index : ℕ) (value : Value) :
    store name index value h = .error (.notAnObject name) h := by
  simp only [store, storeAddress, isImmutable, header, addressOf, Value.toAddress?, hname]
  rfl

/-- The same for a byte. -/
lemma storeByte_eq_error_of_not_isObject (hname : name.isObject = false) (index : ℕ) (byte : UInt8) :
    storeByte name index byte h = .error (.notAnObject name) h := by
  simp only [storeByte, storeBytesRange, isImmutable, header, addressOf, Value.toAddress?, hname]
  rfl

/-- An object with slots is made and filled, one slot after the other from the first. -/
lemma staysWithin_fill (rep : h.Represents s) (fixed indexed : ℕ) (format : ObjectFormat)
    {classIndex : ℕ} (hmade : made classIndex) (values : List Value) :
    StaysWithin (fun value _ => s.objects value = none) made (do
      let object ← allocate fixed indexed format classIndex
      Code.storeAll object 0 values
      return object : HeapM Value) h s fun _ _ => True := by
  refine (staysWithin_allocate rep fixed indexed format none hmade).bind ?_
  rintro object h₁ s₁ ha₁ ⟨-, hnone, _, ho₁⟩
  exact (staysWithin_storeAll ha₁.rep ho₁ hnone 0 values).bind fun _ h₂ s₂ ha₂ _ =>
    .pure ha₂.rep trivial

end Heap

namespace Machine

variable {m m' : Machine} {s s' : ObjectMap} {cls value symbol receiver : Value}
  {arguments : List Value} {scope : Scope} {name : String}

/-! ### Symbols -/

/-- A symbol that is entered under its name. -/
lemma Based.enterSymbol (based : m.Based s) (hsymbol : s.IsSymbol symbol name) :
    { m with symbols := m.symbols.insert name symbol }.Based s :=
  { based with
    symbol := fun {other found} h => by
      simp only [Std.HashMap.getElem?_insert] at h
      split at h
      · obtain rfl := eq_of_beq ‹_›
        exact Option.some.inj h ▸ hsymbol
      · exact based.symbol h }

/-- A symbol that is made and entered under a name without one, whatever the scope. -/
lemma Based.evolves_symbol (based : m.Based s) (hfree : m.symbols[name]? = none) {h' : Heap}
    {o : Object} {used : ℕ} (rep' : h'.Represents { s.put symbol o with used := used })
    (hnone : s.objects symbol = none)
    (hfills : s.Fills → { s.put symbol o with used := used }.Fills)
    (hsymbol : { s.put symbol o with used := used }.IsSymbol symbol name) :
    m.Evolves scope s { m.withHeap h' with symbols := m.symbols.insert name symbol }
      { s.put symbol o with used := used } := by
  have alters : s.Alters (fun _ _ => False) (fun _ => True) { s.put symbol o with used := used } :=
    .put_new hnone trivial hfills
  have evolved : m.Evolves ⟨fun _ _ => False, fun _ => True, False, True⟩ s (m.withHeap h')
      { s.put symbol o with used := used } :=
    based.evolves (.withHeap m h') rep' alters fun _ sheltered => sheltered.keep (.withHeap m h')
      alters.toKeeps (fun _ ho _ => alters.objects_eq ho False.elim) fun d htable =>
        htable.keep alters.toKeeps fun o ho _ => alters.objects_eq ho False.elim
  refine { evolved with
    based := evolved.based.enterSymbol hsymbol
    alters := alters.mono (fun _ => False.elim) fun _ => id
    makes := fun {value o'} ho' hvalue => .inr ⟨name, ?_⟩
    symbol := fun {other found} h => ?_
    classAt?_cases := fun hat => .inl hat
    sheltered := fun _ => evolved.sheltered trivial }
  · rcases ObjectMap.objects_put_cases ho' with ⟨rfl, -⟩ | ⟨-, hold⟩
    · exact Std.HashMap.getElem?_insert_self
    · rw [hvalue] at hold
      cases hold
  · have hne : ¬(name == other) = true := fun heq => by
      rw [← eq_of_beq heq, hfree] at h
      cases h
    exact Std.HashMap.getElem?_insert.trans ((if_neg hne).trans h)

/-- A name with a symbol is answered with it, and nothing happens. -/
lemma intern_eq_of_symbol (hfound : m.symbols[name]? = some symbol) : intern name m = .ok symbol m := by
  have hask : ask (fun m => .ok m.symbols[name]?) m = .ok (some symbol) m :=
    run_ask_of_ok (congrArg Except.ok hfound)
  rw [intern, run_bind_of_ok hask]
  rfl

/-- What it comes to when a name is interned, whatever else there is: its symbol is known; or there is
no room for one, and nothing happens; or its symbol is made and entered. -/
theorem intern_cases_of_represents (rep : m.heap.Represents s) (name : String) :
    (∃ symbol, m.symbols[name]? = some symbol ∧ intern name m = .ok symbol m) ∨
    (m.symbols[name]? = none ∧
      ∃ requested limit, intern name m = .error (.heap (.outOfMemory requested limit)) m) ∨
    (m.symbols[name]? = none ∧ ∃ symbol h' s',
      intern name m = .ok symbol { m.withHeap h' with symbols := m.symbols.insert name symbol } ∧
      h'.Represents s' ∧ s.objects symbol = none ∧ (s.Fills → s'.Fills) ∧ s'.IsSymbol symbol name ∧
      ∃ o used, s' = { s.put symbol o with used := used }) := by
  cases hfound : m.symbols[name]? with
  | some symbol => exact .inl ⟨symbol, rfl, intern_eq_of_symbol hfound⟩
  | none =>
    refine .inr ?_
    have hask : ask (fun m => .ok m.symbols[name]?) m = .ok none m :=
      run_ask_of_ok (congrArg Except.ok hfound)
    have hintern : intern name m = (do
        let symbol ← change (Heap.allocateBytes (Text.utf8 name) .indexable8 ClassIndex.symbol)
        change (Heap.setFlags symbol ⟨true, false⟩)
        enterSymbol name symbol
        return symbol : MachineM Value) m := by
      rw [intern, run_bind_of_ok hask]
    rw [hintern]
    rcases Heap.allocateBytes_cases rep (Text.utf8 name)
        (show ClassIndex.symbol ≤ Header.maxClassIndex by decide) with ⟨requested, limit, herror⟩ |
      ⟨symbol, h₁, used, o, _, hok, rep₁, hnone, rfl, hfills, hclass, -, hbytes⟩
    · refine .inl ⟨rfl, requested, limit, run_bind_of_error ?_⟩
      simp only [change, onHeap, EStateM.adaptExcept, herror]
    · have ho₁ := ObjectMap.objects_put_self s symbol o
      have hagree := Heap.agree_setFlags rep₁ ho₁ ⟨true, false⟩
      rw [ObjectMap.change, ho₁] at hagree
      simp only [Object.setFlags] at hagree
      cases hset : Heap.setFlags symbol ⟨true, false⟩ h₁ with
      | error e h₂ =>
        rw [hset] at hagree
        exact hagree.elim
      | ok _ h₂ =>
        rw [hset] at hagree
        obtain ⟨-, rep₂⟩ := hagree
        obtain ⟨s₂, hs₂⟩ : ∃ s₂, s₂ = { s.put symbol { o with flags := ⟨true, false⟩ } with
          used := used } := ⟨_, rfl⟩
        have hput : { s.put symbol o with used := used }.put symbol { o with
            flags := ⟨true, false⟩ } = s₂ := by
          rw [hs₂]
          simp only [ObjectMap.put, Function.update_idem]
        have hfills₂ : s.Fills → s₂.Fills := fun fills => hput ▸ (hfills fills).put ho₁
          ⟨rfl, rfl, rfl, rfl, rfl⟩
        rw [hput] at rep₂
        refine .inr ⟨rfl, symbol, h₂, s₂, ?_, rep₂, hnone, hfills₂, ?_, _, used, hs₂⟩
        · rw [run_bind_of_ok (change_eq_ok_iff.mpr ⟨h₁, hok, rfl⟩),
            run_bind_of_ok (change_eq_ok_iff.mpr ⟨h₂, hset, rfl⟩)]
          rfl
        · subst hs₂
          exact ⟨_, ObjectMap.objects_put_self s symbol _, hclass, rfl, hbytes⟩

/-- What it comes to in a machine that is based. -/
theorem intern_cases (based : m.Based s) (name : String) :
    (∃ symbol, m.symbols[name]? = some symbol ∧ intern name m = .ok symbol m) ∨
    (m.symbols[name]? = none ∧
      ∃ requested limit, intern name m = .error (.heap (.outOfMemory requested limit)) m) ∨
    ∃ symbol m' s', intern name m = .ok symbol m' ∧ m'.symbols[name]? = some symbol ∧
      m'.classTable = m.classTable ∧ ∀ scope, m.Evolves scope s m' s' := by
  rcases intern_cases_of_represents based.rep name with hfound | hrefused |
    ⟨hfree, symbol, h', _, hok, rep', hnone, hfills, hsymbol, o, used, rfl⟩
  · exact .inl hfound
  · exact .inr (.inl hrefused)
  · exact .inr (.inr ⟨symbol, _, _, hok, Std.HashMap.getElem?_insert_self, rfl, fun scope =>
      based.evolves_symbol hfree rep' hnone hfills hsymbol⟩)

/-- Whatever the scope, a name may be interned. -/
lemma ensures_intern (based : m.Based s) (name : String) :
    Ensures (Evolves scope) (intern name) m s fun symbol m' s' =>
      m'.symbols[name]? = some symbol ∧ m'.classTable = m.classTable ∧
        s.Alters (fun _ _ => False) (fun _ => True) s' := by
  rw [Ensures]
  rcases intern_cases based name with ⟨symbol, hfound, hok⟩ | ⟨-, requested, limit, herror⟩ |
    ⟨symbol, m', s', hok, hfound, htable, evolves⟩
  · rw [hok]
    exact ⟨s, .refl based, hfound, rfl, .refl s⟩
  · rw [herror]
    exact ⟨s, .refl based⟩
  · rw [hok]
    exact ⟨s', evolves scope, hfound, htable,
      (evolves ⟨fun _ _ => False, fun _ => True, True, True⟩).alters⟩

/-! ### Strings, arrays and associations -/

/-- Where only new objects have been altered, none has. -/
lemma Based.evolves_new (based : m.Based s) {h' : Heap}
    (ha : Heap.Altered (fun value _ => s.objects value = none) scope.makes s h' s') :
    m.Evolves scope s (m.withHeap h') s' := by
  have hold : ∀ {value o}, s.objects value = some o → ¬s.objects value = none := fun ho hnone => by
    rw [ho] at hnone
    cases hnone
  have hsame : ∀ {value o}, s.objects value = some o → s'.objects value = some o :=
    fun ho => ha.alters.objects_eq ho fun hnone => absurd hnone (hold ho)
  exact based.evolves (.withHeap m h') ha.rep
    (ha.alters.mono (fun ho hnone => absurd hnone (hold ho)) fun _ => id)
    fun _ sheltered => sheltered.keep (.withHeap m h') ha.alters.toKeeps (fun _ ho _ => hsame ho)
      fun d htable => htable.keep ha.alters.toKeeps fun o ho _ => hsame ho

/-- Objects that are made and filled. -/
lemma ensures_make (based : m.Based s) {α : Type} {x : HeapM α} {Q : α → ObjectMap → Prop}
    (hx : Heap.StaysWithin (fun value _ => s.objects value = none) scope.makes x m.heap s Q) :
    Ensures (Evolves scope) (change x) m s fun a m' s' =>
      m' = m.withHeap m'.heap ∧ s.Alters (fun _ _ => False) (fun _ => True) s' ∧ Q a s' :=
  (ensures_change hx based.evolves_new).imp fun _ _ _ _ ⟨heq, ha, hQ⟩ =>
    ⟨heq, ha.alters.mono (fun ho hnone => by rw [hnone] at ho; cases ho) fun _ _ => trivial, hQ⟩

/-- A string is made. -/
lemma ensures_newString (based : m.Based s) (hmakes : scope.makes ClassIndex.string)
    (text : String) : Ensures (Evolves scope) (newString text) m s fun _ _ _ => True :=
  (ensures_make based (Heap.staysWithin_allocateBytes based.rep _ (by decide) hmakes)).imp
    fun _ _ _ _ _ => trivial

/-- An array is made. -/
lemma ensures_newArray (based : m.Based s) (hmakes : scope.makes ClassIndex.array)
    (elements : List Value) : Ensures (Evolves scope) (newArray elements) m s fun _ _ _ => True :=
  (ensures_make based (Heap.staysWithin_fill based.rep 0 elements.length .variableSize hmakes
    elements)).imp fun _ _ _ _ _ => trivial

/-- An association is made, and its key interned. -/
lemma ensures_newAssociation (based : m.Based s) (hmakes : scope.makes ClassIndex.association)
    (key : String) (value : Value) :
    Ensures (Evolves scope) (newAssociation key value) m s fun _ _ _ => True := by
  rw [newAssociation]
  refine Evolves.bind (ensures_intern based key) fun key m₁ s₁ he₁ _ => ?_
  have hfill := Heap.staysWithin_fill he₁.based.rep 2 0 .fixedSize hmakes [key, value]
  simp only [Code.storeAll, bind_assoc, pure_bind] at hfill
  exact (ensures_make he₁.based hfill).imp fun _ _ _ _ _ => trivial

/-! ### Instances -/

/-- An instance of a class is made, which carries the index of the class. -/
lemma ensures_instantiate (based : m.Based s) (cls : Value) (indexed : ℕ)
    (hmakes : ∀ index, m.classAt? index = some cls → scope.makes index) :
    Ensures (Evolves scope) (instantiate cls indexed) m s fun value m' s' =>
      m'.classTable = m.classTable ∧ ∃ index o, m.classAt? index = some cls ∧
        s.objects value = none ∧ s'.objects value = some o ∧ o.classIndex = index ∧
        o.flags.immutable = false := by
  rw [instantiate]
  refine ensures_ask_bind based fun index hindex => ?_
  have hat : m.classAt? index = some cls := classAt?_of_classIndexOfClass hindex
  split
  · exact Ensures.bind (fun h h' => h.trans h') (ensures_throw based _ (Q := fun _ _ _ => False))
      fun _ _ _ _ hfalse => hfalse.elim
  refine ensures_ask_bind based fun spec _ => ?_
  refine (ensures_make based (Heap.staysWithin_allocate based.rep _ _ _ none
    (hmakes index hat))).imp ?_
  rintro value m' s' - ⟨heq, -, -, hnone, _, ho⟩
  exact ⟨heq ▸ rfl, index, _, hat, hnone, ho, rfl, rfl⟩

/-! ### Native methods of the kernel -/

/-- Whether a value is a class in the table, or the method dictionary of one. -/
def BelongsToClass (m : Machine) (value : Value) : Prop :=
  m.isClass value = true ∨ value ≠ m.nil ∧ ∃ cls, m.methodDictionary cls = .ok value

/-- Whether a store into a value stays within a scope: it is no object, or one that may be altered. -/
def MayStore (m : Machine) (s : ObjectMap) (scope : Scope) (value : Value) : Prop :=
  value.isObject = false ∨ ∃ o, s.objects value = some o ∧ scope.alters value o.classIndex ∧
    (scope.spares → ¬m.BelongsToClass value)

/-- Whether a value is immediate or an object of the heap. -/
def Contains (m : Machine) (value : Value) : Prop :=
  value.isObject = false ∨ m.heap.Allocated value

/-- A store into anything that there is stays within a scope that allows for all objects, and spares
classes only if this is none. -/
lemma Contains.mayStore (contains : m.Contains value) (based : m.Based s)
    (halters : ∀ index, scope.alters value index) (hspares : scope.spares → ¬m.BelongsToClass value) :
    m.MayStore s scope value := by
  refine contains.imp_right ?_
  intro hallocated
  obtain ⟨o, ho⟩ := based.exists_object hallocated
  exact ⟨o, ho, halters _, hspares⟩

/-- A store into one object spares classes and their method dictionaries if it is none of these. -/
lemma Based.evolves_storing (based : m.Based s) {o : Object} {h' : Heap}
    (ho : s.objects receiver = some o) (halters : scope.alters receiver o.classIndex)
    (hspares : scope.spares → ¬m.BelongsToClass receiver)
    (ha : Heap.Altered (fun value _ => value = receiver) (fun _ => False) s h' s') :
    m.Evolves scope s (m.withHeap h') s' := by
  have hsame : ∀ {value o}, s.objects value = some o → value ≠ receiver →
      s'.objects value = some o := fun ho hne => ha.alters.objects_eq ho fun heq => absurd heq hne
  refine based.evolves (.withHeap m h') ha.rep (ha.alters.mono ?_ fun _ => False.elim) ?_
  · rintro value p hp rfl
    exact Option.some.inj (ho.symm.trans hp) ▸ halters
  intro hsparing sheltered index cls hat
  have hclass : m.isClass cls = true := based.isClass_iff.mpr ⟨index, hat⟩
  have hnot := hspares hsparing
  obtain ⟨o, superclass, dictionary, format, name, ho, hbehavior, hslots, hdictionary⟩ :=
    sheltered hat
  refine ⟨o, superclass, dictionary, format, name, hsame ho fun heq => hnot (.inl (heq ▸ hclass)),
    hbehavior, hslots, hdictionary.imp (fun hnil => hnil.trans ha.alters.nil_eq.symm) fun htable =>
      htable.keep ha.alters.toKeeps fun o' ho' hindex => hsame ho' fun heq => hnot (.inr ⟨?_, cls, ?_⟩)⟩
  · rintro rfl
    obtain ⟨o, ho, hundefined, -⟩ := based.nil
    rw [heq, ho] at ho'
    rw [← Option.some.inj ho', hundefined] at hindex
    cases hindex
  · have hslot : [superclass, dictionary, format, name][ClassSlot.methodDictionary]? =
      some dictionary := rfl
    rw [methodDictionary, classSlot, expectClass, hclass,
      Heap.fetch_eq_of_hasSlots based.rep ⟨o, ho, hslots⟩ hslot, heq]
    rfl

/-- A store that stays within a scope if it is one into an object, and is refused if it is not. -/
lemma ensures_storing (based : m.Based s) (hstore : m.MayStore s scope receiver) {x : HeapM Unit}
    {e : HeapError}
    (hrefused : receiver.isObject = false → x m.heap = .error e m.heap)
    (hx : ∀ o, s.objects receiver = some o →
      Heap.StaysWithin (fun value _ => value = receiver) (fun _ => False) x m.heap s
        fun _ _ => True) :
    Ensures (Evolves scope) (change x) m s fun _ _ _ => True := by
  rcases hstore with hname | ⟨o, ho, halters, hspares⟩
  · have hchange : change x m = .error (.heap e) m := by
      simp only [change, onHeap, EStateM.adaptExcept, hrefused hname]
    rw [Ensures, hchange]
    exact ⟨s, .refl based⟩
  · exact (ensures_change (hx o ho) (based.evolves_storing ho halters hspares)).imp
      fun _ _ _ _ _ => trivial

/-- A store into a slot. -/
lemma ensures_store (based : m.Based s) (hstore : m.MayStore s scope receiver) (index : ℕ)
    (value : Value) :
    Ensures (Evolves scope) (change (Heap.store receiver index value)) m s fun _ _ _ => True :=
  ensures_storing based hstore (Heap.store_eq_error_of_not_isObject · index value) fun _ ho =>
    (Heap.staysWithin_store based.rep ho rfl index value).imp fun _ _ _ _ => trivial

/-- A store of a byte. -/
lemma ensures_storeByte (based : m.Based s) (hstore : m.MayStore s scope receiver) (index : ℕ)
    (byte : UInt8) :
    Ensures (Evolves scope) (change (Heap.storeByte receiver index byte)) m s fun _ _ _ => True :=
  ensures_storing based hstore (Heap.storeByte_eq_error_of_not_isObject · index byte) fun _ ho =>
    Heap.staysWithin_storeByte based.rep ho rfl index byte

/-- Whether a native method stores into its receiver. -/
def Stores : Native → Prop
  | .object .instVarAtPut | .string .store | .array .store => True
  | _ => False

/-- Whether a native method makes an instance of its receiver. -/
def Instantiates : Native → Prop
  | .behavior .new | .behavior .newSized => True
  | _ => False

/-- Carries out a native method on a machine, beside a stack. -/
def performNative (host : Host) (send : Sender) (stack : Stack) (native : Native) (receiver : Value)
    (arguments : List Value) : MachineM Value := fun m =>
  match Execution.callNative host send native receiver arguments ⟨m, stack⟩ with
  | .ok value p => .ok value p.machine
  | .error e p => .error e p.machine

section Performing

variable {host : Host} {send : Sender} {stack : Stack} {native : Native} {x : MachineM Value}
  {Q : Value → Machine → ObjectMap → Prop}

/-- A native method that only concerns the machine. -/
lemma ensures_performNative_onMachine
    (hcall : Execution.callNative host send native receiver arguments = Execution.onMachine x)
    (hx : Ensures (Evolves scope) x m s Q) :
    Ensures (Evolves scope) (performNative host send stack native receiver arguments) m s Q := by
  have hperform : performNative host send stack native receiver arguments m = x m := by
    rw [performNative, hcall, Execution.onMachine]
    cases x m <;> rfl
  exact .of_run hperform id hx

/-- A native method that only asks. -/
lemma ensures_performNative_ask (based : m.Based s)
    {question : Machine → Except MachineError Value}
    (hcall : Execution.callNative host send native receiver arguments =
      Execution.askMachine question) :
    Ensures (Evolves scope) (performNative host send stack native receiver arguments) m s
      fun _ _ _ => True := by
  have hperform : performNative host send stack native receiver arguments m = ask question m := by
    rw [performNative, hcall, Execution.askMachine, Execution.ask, ask]
    cases question m <;> rfl
  exact .of_run hperform id (ensures_ask based fun _ _ => trivial)

/-- Whatever the scope, a native method of the kernel stays within it, provided that it makes strings,
and instances of the receiver where the method makes one, and that the receiver may be stored into where
the method stores. -/
theorem ensures_performNative (based : m.Based s) (hkernel : ∀ number, native ≠ .foreign number)
    (hstring : scope.makes ClassIndex.string)
    (hinstantiates : Instantiates native →
      ∀ index, m.classAt? index = some receiver → scope.makes index)
    (hstores : Stores native → m.MayStore s scope receiver) :
    Ensures (Evolves scope) (performNative host send stack native receiver arguments) m s
      fun _ _ _ => True := by
  cases native with
  | object native =>
    refine ensures_performNative_onMachine (Q := fun _ _ _ => True) rfl ?_
    cases native with
    | yourself => exact .pure (.refl based) trivial
    | printString => exact ensures_ask_bind based fun text _ => ensures_newString based hstring text
    | instVarAtPut =>
      exact ensures_ask_bind based fun found _ => Evolves.bind
        (ensures_store based (hstores trivial) found.1 found.2) fun _ _ _ he _ =>
          .pure (.refl he.based) trivial
    | _ =>
      rw [ObjectNative.call]
      exact ensures_ask based fun _ _ => trivial
  | behavior native =>
    refine ensures_performNative_onMachine (Q := fun _ _ _ => True) rfl ?_
    cases native with
    | new =>
      exact (ensures_instantiate based receiver 0 (hinstantiates trivial)).imp fun _ _ _ _ _ => trivial
    | newSized =>
      exact ensures_ask_bind based fun size _ => (ensures_instantiate based receiver size
        (hinstantiates trivial)).imp fun _ _ _ _ _ => trivial
    | name =>
      refine ensures_ask_bind based fun text _ => ?_
      cases text with
      | some text => exact ensures_newString based hstring text
      | none => exact ensures_throw based _
    | superclass => exact ensures_ask based fun _ _ => trivial
  | string native =>
    refine ensures_performNative_onMachine (Q := fun _ _ _ => True) rfl ?_
    cases native with
    | store =>
      exact ensures_ask_bind based fun found _ => Evolves.bind
        (ensures_storeByte based (hstores trivial) found.1 found.2.1) fun _ _ _ he _ =>
          .pure (.refl he.based) trivial
    | _ => exact ensures_ask based fun _ _ => trivial
  | array native =>
    refine ensures_performNative_onMachine (Q := fun _ _ _ => True) rfl ?_
    cases native with
    | store =>
      exact ensures_ask_bind based fun found _ => Evolves.bind
        (ensures_store based (hstores trivial) found.1 found.2) fun _ _ _ he _ =>
          .pure (.refl he.based) trivial
    | _ => exact ensures_ask based fun _ _ => trivial
  | integerText =>
    exact ensures_performNative_onMachine rfl (ensures_ask_bind based fun n _ =>
      ensures_newString based hstring (toString n))
  | floatText =>
    exact ensures_performNative_onMachine rfl (ensures_ask_bind based fun bits _ =>
      ensures_newString based hstring (Decimal.generalText bits))
  | characterValue =>
    have hcall : Execution.callNative host send .characterValue receiver arguments =
      Execution.askMachine fun _ => characterValue receiver := rfl
    exact ensures_performNative_ask based hcall
  | boolean native => exact ensures_performNative_ask based rfl
  | integer native => exact ensures_performNative_ask based rfl
  | float native => exact ensures_performNative_ask based rfl
  | foreign number => exact absurd rfl (hkernel number)

end Performing

end Machine

end TalkMachine
