import TalkMachine.Proofs.Machine.Methods

/-!
# Native methods in classes

The object of a native method says how many arguments the method takes and by which number the
machine knows it (`Machine.methodKind_eq_of_isNativeMethod`). Native methods that are installed are
put into the dictionary of one class, in the order of their table, so that the last entry with a
selector counts (`Machine.Equipped.exists_of_installInto`).
-/

namespace TalkMachine

variable {s s' : ObjectMap} {cls method selector : Value} {owner owner' : Value → Option Value}
  {argumentCount index : ℕ}

/-- Whether a value is the object of a native method with this selector, this number of arguments and
this number of its own. -/
def ObjectMap.IsNativeMethod (s : ObjectMap) (method selector : Value) (argumentCount index : ℕ) :
    Prop :=
  ∃ o, s.objects method = some o ∧ o.classIndex = ClassIndex.nativeMethod ∧
    o.HasSlots [selector, Value.ofInt argumentCount, Value.ofInt index]

/-- The object of a native method stays one as long as its slots stay as they are. -/
lemma ObjectMap.IsNativeMethod.keep_of_slots
    (native : s.IsNativeMethod method selector argumentCount index) (hkeeps : s.Keeps s')
    (hslots : ∀ {values}, s.HasSlots method values → s'.HasSlots method values) :
    s'.IsNativeMethod method selector argumentCount index := by
  obtain ⟨o, ho, hclass, hvalues⟩ := native
  obtain ⟨o', ho', hshape⟩ := hkeeps.shape ho
  obtain ⟨_, hsame, hvalues'⟩ := hslots ⟨o, ho, hvalues⟩
  obtain rfl := Option.some.inj (ho'.symm.trans hsame)
  exact ⟨o', ho', hshape.classIndex.trans hclass, hvalues'⟩

/-- It does so when it does not belong to what is changed. -/
lemma ObjectMap.IsNativeMethod.keep (native : s.IsNativeMethod method selector argumentCount index)
    (hkeeps : s.KeepsForeign cls owner s' owner') (hforeign : owner method ≠ some cls) :
    s'.IsNativeMethod method selector argumentCount index :=
  native.keep_of_slots hkeeps.toKeeps (hkeeps.slots hforeign)

namespace Machine

variable {m m' : Machine} {methods : Value → Option ClassMethods} {own : ClassMethods}

/-! ### Objects of native methods -/

/-- The object of a native method is read as what it stands for. -/
theorem methodKind_eq_of_isNativeMethod (rep : m.heap.Represents s)
    (native : s.IsNativeMethod method selector argumentCount index)
    (hcount : argumentCount < 2 ^ 62) (hindex : index < 2 ^ 62) :
    m.methodKind method = .ok (.native argumentCount index) := by
  obtain ⟨o, ho, hclass, hslots⟩ := native
  have hold := rep.holds ho
  have hshows := hold.shows rep.usedBytes_lt
  have hcompiled : m.heap.isCompiledMethod method = false := by
    have hpointers := hslots.isPointers
    rw [Heap.isCompiledMethod, hshows.format]
    cases hformat : o.format with
    | compiledMethod =>
      rw [hformat] at hpointers
      cases hpointers
    | _ => rfl
  have hfield : ∀ {slot n : ℕ}, n < 2 ^ 62 → m.heap.fetch method slot = .ok (Value.ofInt n) →
      m.nativeField method slot = .ok n := by
    intro slot n hn hfetch
    rw [nativeField, hfetch]
    simp only [Except.ofHeap_ok, Bind.bind, Except.bind, Value.toInt?_ofInt_natCast hn]
    rfl
  have hhas : s.HasSlots method [selector, Value.ofInt argumentCount, Value.ofInt index] :=
    ⟨o, ho, hslots⟩
  have hcounts : m.nativeField method NativeSlot.argumentCount = .ok argumentCount :=
    hfield hcount (Heap.fetch_eq_of_hasSlots rep hhas rfl)
  have hnumber : m.nativeField method NativeSlot.index = .ok index :=
    hfield hindex (Heap.fetch_eq_of_hasSlots rep hhas rfl)
  rw [methodKind, hcompiled, hold.isObject, hshows.classIndex, hclass, hcounts, hnumber]
  rfl

/-- Whether there is an object for each native method that the machine knows. -/
def Numbered (m : Machine) (s : ObjectMap) : Prop :=
  ∃ names : List Value, names.Nodup ∧ names.length = m.natives.size ∧
    ∀ name ∈ names, ∃ o, s.objects name = some o

namespace Numbered

/-- Native methods keep their objects. -/
lemma keep (numbered : m.Numbered s) (hnatives : m'.natives = m.natives) (hkeeps : s.Keeps s') :
    m'.Numbered s' := by
  obtain ⟨names, hnodup, hlength, hobjects⟩ := numbered
  refine ⟨names, hnodup, hnatives ▸ hlength, fun name hname => ?_⟩
  obtain ⟨o, ho⟩ := hobjects name hname
  exact hkeeps.exists_object ho

/-- One more native method has one more object. -/
lemma push (numbered : m.Numbered s) {native : Native} (hnatives : m'.natives = m.natives.push native)
    (hkeeps : s.Keeps s') (hnone : s.objects method = none)
    (hobject : ∃ o, s'.objects method = some o) : m'.Numbered s' := by
  obtain ⟨names, hnodup, hlength, hobjects⟩ := numbered
  refine ⟨method :: names, List.nodup_cons.mpr ⟨fun hmem => ?_, hnodup⟩, ?_, ?_⟩
  · obtain ⟨o, ho⟩ := hobjects method hmem
    rw [hnone] at ho
    cases ho
  · rw [List.length_cons, hlength, hnatives, Array.size_push]
  · rw [List.forall_mem_cons]
    refine ⟨hobject, fun name hname => ?_⟩
    obtain ⟨o, ho⟩ := hobjects name hname
    exact hkeeps.exists_object ho

/-- There are fewer native methods than addresses of words, so that the number of each is a small
integer. -/
lemma size_lt (numbered : m.Numbered s) {h : Heap} (rep : h.Represents s) :
    m.natives.size < 2 ^ 62 := by
  obtain ⟨names, hnodup, hlength, hobjects⟩ := numbered
  have haligned : ∀ name ∈ names, name.raw.toNat % 8 = 0 := fun name hname =>
    (rep.holds (hobjects name hname).choose_spec).aligned
  have hinjective : ∀ name ∈ names, ∀ name' ∈ names,
      name.raw.toNat / 8 = name'.raw.toNat / 8 → name = name' := by
    intro name hname name' hname' heq
    have := haligned name hname
    have := haligned name' hname'
    have hraw : name.raw.toNat = name'.raw.toNat := by omega
    exact congrArg Value.mk (UInt64.toNat_inj.mp hraw)
  have hplaces : names.map (fun name => name.raw.toNat / 8) ⊆ List.range (2 ^ 61) := by
    intro place hplace
    obtain ⟨name, -, rfl⟩ := List.mem_map.mp hplace
    rw [List.mem_range]
    have := name.raw.toNat_lt
    omega
  have hle := ((hnodup.map_on hinjective).subperm hplaces).length_le
  rw [List.length_map, List.length_range, hlength] at hle
  exact hle.trans_lt (by decide)

end Numbered

/-! ### Installing -/

/-- A machine that knows one more native method. -/
def withNative (m : Machine) (native : Native) : Machine :=
  { m with natives := m.natives.push native }

/-- A native method gets the next number. -/
lemma enterNative_eq_ok_iff {native : Native} : enterNative native m = .ok index m' ↔
    index = m.natives.size ∧ m' = m.withNative native := by
  simp [enterNative, withNative, eq_comm]

/-- A machine that knows one more native method has forgotten none. -/
lemma Remembers.withNative (m : Machine) (native : Native) : m.Remembers (m.withNative native) := by
  refine ⟨rfl, rfl, id, fun {index known} hknown => ?_⟩
  obtain ⟨hindex, rfl⟩ := Array.getElem?_eq_some_iff.mp hknown
  exact Array.getElem?_push_lt hindex

/-- Whether an entry of a method dictionary is the native method that a table says. -/
def IsInstalled (m : Machine) (s : ObjectMap) (entry : NativeEntry) (put : Value × Value) : Prop :=
  m.symbols[entry.selector]? = some put.1 ∧
    ∃ index, s.IsNativeMethod put.2 put.1 entry.argumentCount index ∧
      m.natives[index]? = some entry.native

/-- The selectors of a table have symbols. -/
lemma exists_symbol_of_mem {entries : List NativeEntry} {puts : List (Value × Value)}
    (hputs : List.Forall₂ (m.IsInstalled s) entries puts) :
    ∀ entry ∈ entries, ∃ symbol, m.symbols[entry.selector]? = some symbol := by
  induction hputs with
  | nil => exact List.forall_mem_nil _
  | cons hput _ ih => exact List.forall_mem_cons.mpr ⟨⟨_, hput.1⟩, ih⟩

/-- Nothing is put under what is no symbol of the table. -/
lemma lookup_eq_none_of_isInstalled {entries : List NativeEntry} {puts : List (Value × Value)}
    (hputs : List.Forall₂ (m.IsInstalled s) entries puts)
    (hother : ∀ entry ∈ entries, m.symbols[entry.selector]? ≠ some selector) :
    puts.lookup selector = none := by
  induction hputs with
  | nil => rfl
  | @cons entry put _ _ hput _ ih =>
    rw [List.forall_mem_cons] at hother
    obtain ⟨symbol, method⟩ := put
    have hne : selector ≠ symbol := fun heq => hother.1 (heq ▸ hput.1)
    rw [List.lookup_cons, beq_eq_false_iff_ne.mpr hne]
    exact ih hother.2

/-- Under a symbol stands the method of the first entry with its name. -/
lemma exists_lookup_of_isInstalled {entries : List NativeEntry} {puts : List (Value × Value)}
    (hputs : List.Forall₂ (m.IsInstalled s) entries puts)
    (hnames : ∀ {name name' : String} {symbol : Value}, m.symbols[name]? = some symbol →
      m.symbols[name']? = some symbol → name = name')
    {entry : NativeEntry} (hsymbol : m.symbols[entry.selector]? = some selector)
    (hfind : entries.find? (fun other => other.selector = entry.selector) = some entry) :
    ∃ method, puts.lookup selector = some method ∧ m.IsInstalled s entry (selector, method) := by
  induction hputs with
  | nil => cases hfind
  | @cons other put _ _ hput _ ih =>
    obtain ⟨symbol, method⟩ := put
    by_cases hsame : other.selector = entry.selector
    · rw [List.find?_cons_of_pos (by simpa using hsame)] at hfind
      obtain rfl := Option.some.inj hfind
      obtain rfl := Option.some.inj (hsymbol.symm.trans hput.1)
      exact ⟨method, by simp, hput⟩
    · rw [List.find?_cons_of_neg (by simpa using hsame)] at hfind
      have hne : selector ≠ symbol := fun heq => hsame (hnames (heq ▸ hput.1) hsymbol)
      rw [List.lookup_cons, beq_eq_false_iff_ne.mpr hne]
      exact ih hfind

/-- Whether the native methods of a table have been put into a class, the last one first. Their objects
belong to no class. -/
structure Installs (m : Machine) (s : ObjectMap) (owner : Value → Option Value) (cls : Value)
    (entries : List NativeEntry) (new : List (Value × Value)) (m' : Machine) (s' : ObjectMap)
    (owner' : Value → Option Value) : Prop where
  keeps : s.KeepsForeign cls owner s' owner'
  remembers : m.Remembers m'
  numbered : m'.Numbered s'
  free : ∀ put ∈ new, owner' put.2 = none
  puts : List.Forall₂ (m'.IsInstalled s') entries.reverse new

namespace Equipped

variable (equipped : m.Equipped s owner methods)
include equipped

/-- The object of a native method is new. -/
lemma exists_of_newNativeMethod {h' : Heap}
    (hok : newNativeMethod selector argumentCount index m.heap = .ok method h') :
    ∃ s', (m.withHeap h').Equipped s' owner methods ∧ s.Retains [] s' ∧ s.objects method = none ∧
      s'.IsNativeMethod method selector argumentCount index := by
  rw [newNativeMethod] at hok
  simp only [run_bind_eq_ok_iff] at hok
  obtain ⟨_, h₁, hallocate, _, h₂, hselector, _, h₃, hcount, _, h₄, hindex, ⟨⟩⟩ := hok
  obtain ⟨hclass, hnone, address, used, s₁, hs₁, rep₁, hfills₁⟩ :=
    Heap.exists_fresh_of_allocate equipped.rep hallocate
  obtain ⟨hretains₁, o₁, ho₁, hclass₁, hslots₁⟩ : s.Retains [] s₁ ∧ ∃ o₁,
      s₁.objects method = some o₁ ∧ o₁.classIndex = ClassIndex.nativeMethod ∧
      o₁.HasSlots [s.nil, s.nil, s.nil] := by
    subst hs₁
    exact ⟨.put_new hnone _ used hfills₁, _, ObjectMap.objects_put_self s method _, rfl,
      Object.hasSlots_fresh s.nil rfl hclass⟩
  obtain ⟨s₂, rep₂, hretains₂, -, hslots₂⟩ :=
    Heap.exists_of_store rep₁ ⟨o₁, ho₁, hslots₁⟩ hselector
  obtain ⟨s₃, rep₃, hretains₃, -, hslots₃⟩ := Heap.exists_of_store rep₂ hslots₂ hcount
  obtain ⟨s₄, rep₄, hretains₄, -, o₄, ho₄, hslots₄⟩ := Heap.exists_of_store rep₃ hslots₃ hindex
  have hstores : s₁.Retains [method] s₄ :=
    (hretains₂.trans hretains₃ (List.Subset.refl _)).trans hretains₄ (List.Subset.refl _)
  have hretains : s.Retains [] s₄ := hretains₁.trans_new hstores (by simpa using hnone)
  obtain ⟨_, hsame, hshape⟩ := hstores.shape ho₁
  obtain rfl := Option.some.inj (ho₄.symm.trans hsame)
  exact ⟨s₄, equipped.keep rep₄ hretains nofun rfl rfl, hretains, hnone, o₄, ho₄,
    hshape.classIndex.trans hclass₁, hslots₄⟩

/-- Native methods that are installed are put into one class, each under its selector. -/
theorem exists_of_installInto (numbered : m.Numbered s) {entries : List NativeEntry}
    (hcls : methods cls = some own) (hok : installInto own.dictionary entries m = .ok () m') :
    ∃ s' owner' new, m'.Equipped s' owner'
        (Function.update methods cls (some ⟨own.dictionary, new ++ own.puts⟩)) ∧
      m.Installs s owner cls entries new m' s' owner' := by
  induction entries generalizing m s owner methods own with
  | nil =>
    cases hok
    exact ⟨s, owner, [], by rwa [List.nil_append, ← hcls, Function.update_eq_self],
      .of_retains (.refl [] s), .refl _, numbered, List.forall_mem_nil _, .nil⟩
  | cons entry rest ih =>
    rw [installInto] at hok
    simp only [run_bind_eq_ok_iff, enterNative_eq_ok_iff, change_eq_ok_iff, onHeap_eq_ok_iff] at hok
    obtain ⟨selector, m₁, hintern, number, _, ⟨rfl, rfl⟩, method, _, ⟨h₃, hmethod, rfl⟩, _, _,
      ⟨h₄, hinsert, rfl⟩, hrest⟩ := hok
    obtain ⟨s₁, equipped₁, hretains₁, hselector, hnatives₁, remembers₁⟩ :=
      equipped.exists_of_intern hintern
    obtain ⟨hnil, o, ho⟩ := equipped₁.symbol hselector
    have equipped₂ : (m₁.withNative entry.native).Equipped s₁ owner methods :=
      equipped₁.keep equipped₁.rep (.refl [] s₁) nofun rfl rfl
    obtain ⟨s₃, equipped₃, hretains₃, hnone, native₃⟩ := equipped₂.exists_of_newNativeMethod hmethod
    have hknows : s₃.Knows selector := hretains₃.knows (.inr ⟨o, ho⟩)
    obtain ⟨s₄, owner₄, equipped₄, hkeeps₄⟩ := equipped₃.exists_of_insert hcls
      (hretains₃.nil_eq ▸ hnil) hknows hinsert
    have remembers₄ : m.Remembers (((m₁.withNative entry.native).withHeap h₃).withHeap h₄) :=
      ((remembers₁.trans (.withNative m₁ entry.native)).trans (.withHeap _ h₃)).trans (.withHeap _ h₄)
    have hforeign₃ : owner method = none := equipped₂.owner_eq_none hnone
    have native₄ := native₃.keep hkeeps₄ (by simp [hforeign₃])
    have hforeign₄ : owner₄ method = none := by
      obtain ⟨o, ho, -⟩ := native₃
      rw [hkeeps₄.owner_eq ho, hforeign₃]
    have numbered₄ : (((m₁.withNative entry.native).withHeap h₃).withHeap h₄).Numbered s₄ :=
      (numbered.keep hnatives₁ hretains₁.toKeeps).push rfl
        (hretains₃.toKeeps.trans hkeeps₄.toKeeps) hnone (native₄.imp fun _ => And.left)
    obtain ⟨s', owner', new, equipped', installs⟩ :=
      ih equipped₄ numbered₄ (Function.update_self _ _ _) hrest
    have hkeeps : s.KeepsForeign cls owner s₄ owner₄ :=
      (.trans (.of_retains hretains₁) (.trans (.of_retains hretains₃) hkeeps₄))
    refine ⟨s', owner', new ++ [(selector, method)], ?_, hkeeps.trans installs.keeps,
      remembers₄.trans installs.remembers, installs.numbered, ?_, ?_⟩
    · rwa [Function.update_idem, List.append_cons] at equipped'
    · obtain ⟨o, ho, -⟩ := native₄
      refine List.forall_mem_append.mpr ⟨installs.free, List.forall_mem_singleton.mpr ?_⟩
      rw [installs.keeps.owner_eq ho, hforeign₄]
    · rw [List.reverse_cons]
      refine List.rel_append installs.puts (.cons ⟨?_, m₁.natives.size, ?_, ?_⟩ .nil)
      · exact installs.remembers.symbol hselector
      · exact native₄.keep installs.keeps (by simp [hforeign₄])
      · exact installs.remembers.native Array.getElem?_push_size

end Equipped

end Machine

end TalkMachine
