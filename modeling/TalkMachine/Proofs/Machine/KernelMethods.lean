import TalkMachine.Proofs.Machine.Beside
import TalkMachine.Proofs.Machine.Overriding

/-!
# The native methods of the kernel classes

A fresh machine has the native methods of the kernel under their symbols, each in the class that it is
listed with and in no other (`Machine.exists_offers_of_new`). For a name under which nothing else is put
into a class, this stays so, whatever else is done to the machine (`Machine.OffersAll`).
-/

namespace TalkMachine

/-- The native method that a table has under a name for the class at an index. -/
def NativeTable.listed? (table : List (ℕ × List NativeEntry)) (index : ℕ) (name : String) :
    Option NativeEntry :=
  (table.lookup index).bind fun entries => last? entries name

/-- Behind the kernel classes a table of kernel classes lists nothing. -/
lemma NativeTable.listed?_eq_none {table : List (ℕ × List NativeEntry)} {index : ℕ} {name : String}
    (htable : ∀ row ∈ table, row.1 < ClassIndex.firstDynamic)
    (hindex : ClassIndex.firstDynamic ≤ index) : listed? table index name = none := by
  have hlookup : table.lookup index = none := by
    rw [List.lookup_eq_none_iff]
    intro row hrow
    rw [bne_iff_ne]
    exact ((htable row hrow).trans_le hindex).ne'
  rw [listed?, hlookup, Option.bind_none]

namespace Machine

variable {m m' : Machine} {s s' : ObjectMap} {cls superclass selector symbol method value : Value}
  {owner owner' : Value → Option Value} {methods methods' : Value → Option ClassMethods}
  {table : List (ℕ × List NativeEntry)} {entries : List NativeEntry} {listed? : Option NativeEntry}
  {name : String} {names : List String} {index limit : ℕ} {action : Heap.Action}

/-! ### Methods of one class -/

/-- Whether a class has under a symbol the native method of an entry, as an object that belongs to no
class. Without an entry, it has no method under the symbol. -/
def HoldsEntry (m : Machine) (s : ObjectMap) (owner : Value → Option Value)
    (methods : Value → Option ClassMethods) (symbol cls : Value) : Option NativeEntry → Prop
  | none => methodUnder methods symbol cls = none
  | some entry => ∃ method, methodUnder methods symbol cls = some method ∧ owner method = none ∧
      m.IsInstalled s entry (symbol, method)

/-- It stays so when nothing is put under the symbol and the object of the method stays as it is. -/
lemma HoldsEntry.keep (holds : m.HoldsEntry s owner methods symbol cls listed?)
    (hsymbols : ∀ {name : String} {symbol : Value}, m.symbols[name]? = some symbol →
      m'.symbols[name]? = some symbol)
    (hnatives : ∀ {index : ℕ} {native : Native}, m.natives[index]? = some native →
      m'.natives[index]? = some native)
    (hunder : methodUnder methods' symbol cls = methodUnder methods symbol cls)
    (hmethod : ∀ {method count index}, methodUnder methods symbol cls = some method →
      owner method = none → s.IsNativeMethod method symbol count index →
      owner' method = none ∧ s'.IsNativeMethod method symbol count index) :
    m'.HoldsEntry s' owner' methods' symbol cls listed? := by
  cases listed? with
  | none => exact hunder.trans holds
  | some entry =>
    obtain ⟨method, hfound, howner, hsymbol, index, native, hnative⟩ := holds
    obtain ⟨howner', native'⟩ := hmethod hfound howner native
    exact ⟨method, hunder.trans hfound, howner', hsymbols hsymbol, index, native', hnatives hnative⟩

/-- The object of a native method is no class. -/
lemma Equipped.methods_eq_none_of_isNativeMethod (equipped : m.Equipped s owner methods)
    {count : ℕ} (native : s.IsNativeMethod method symbol count index) : methods method = none := by
  obtain ⟨o, ho, -, hslots⟩ := native
  rw [Option.eq_none_iff_forall_ne_some]
  intro own hown
  obtain ⟨_, _, _, _, _, _, _, ⟨o', ho', hslots'⟩, -⟩ := equipped.hasMethods hown
  obtain rfl := Option.some.inj (ho.symm.trans ho')
  exact absurd (hslots.length.symm.trans hslots'.length) (by simp)

/-! ### Methods of all classes -/

/-- Whether the classes of a machine have under the symbol of a name what a table lists for them. -/
structure Offers (m : Machine) (s : ObjectMap) (owner : Value → Option Value)
    (methods : Value → Option ClassMethods) (table : List (ℕ × List NativeEntry)) (name : String)
    (symbol : Value) : Prop where
  symbol_eq : m.symbols[name]? = some symbol
  holds : ∀ {index : ℕ} {cls : Value}, m.classAt? index = some cls →
    m.HoldsEntry s owner methods symbol cls (NativeTable.listed? table index name)

/-- Whether a machine is tracked and its classes have under the symbols of these names what a table
lists for them. -/
def OffersAll (m : Machine) (table : List (ℕ × List NativeEntry)) (names : List String) : Prop :=
  ∃ s owner methods, m.Tracks s owner methods ∧
    ∀ name ∈ names, ∃ symbol, m.Offers s owner methods table name symbol

/-- Whether a class has a method under the symbol of a name. -/
def IsMethodNamed (m : Machine) (name : String) (method : Value) : Prop :=
  ∃ symbol cls dictionary, m.symbols[name]? = some symbol ∧
    m.methodDictionary cls = .ok dictionary ∧
    Dictionary.find? m.heap dictionary symbol = .ok (some method)

/-- What has been put under a symbol into a class in the table is a method of its name. -/
lemma Tracks.isMethodNamed (tracks : m.Tracks s owner methods) (hclass : m.isClass cls = true)
    (hsymbol : m.symbols[name]? = some symbol) (hmethod : methodUnder methods symbol cls = some method) :
    m.IsMethodNamed name method := by
  obtain ⟨own, hcls⟩ := tracks.complete.exists_methods hclass
  rw [methodUnder, hcls, Option.bind_some] at hmethod
  exact ⟨symbol, cls, own.dictionary, hsymbol, tracks.equipped.methodDictionary_eq hclass hcls,
    (tracks.equipped.find?_eq hcls (tracks.isSelector_of_symbol hsymbol)).trans (congrArg _ hmethod)⟩

/-- A class that is made and its metaclass have no methods. -/
lemma methodUnder_withNewPair {metaclass dictionary metaDictionary : Value}
    (hvalue : value = cls ∨ value = metaclass) :
    methodUnder (withNewPair methods cls dictionary metaclass metaDictionary) symbol value = none := by
  rw [methodUnder, withNewPair, Function.update_apply, Function.update_apply]
  split
  · rfl
  · rw [if_pos (hvalue.resolve_right ‹_›)]
    rfl

/-- Objects from before have the methods that they had when a class is made. -/
lemma MakesPair.withNewPair_eq {metaclass dictionary metaDictionary : Value}
    (makes : m.MakesPair s owner methods index cls metaclass dictionary metaDictionary m' s' owner')
    (hvalue : s.objects value ≠ none) :
    withNewPair methods cls dictionary metaclass metaDictionary value = methods value := by
  have hcls : value ≠ cls := fun h => hvalue (h ▸ makes.new)
  have hmetaclass : value ≠ metaclass := fun h => hvalue (h ▸ makes.metaNew)
  rw [withNewPair, Function.update_of_ne hmetaclass, Function.update_of_ne hcls]

namespace Offers

variable (offers : m.Offers s owner methods table name symbol)
include offers

/-- It stays so as long as nothing is put under the symbol and the objects of the methods stay as they
are. -/
lemma keep (remembers : m.Remembers m')
    (hunder : ∀ {index cls}, m.classAt? index = some cls →
      methodUnder methods' symbol cls = methodUnder methods symbol cls)
    (hmethod : ∀ {index cls method count number}, m.classAt? index = some cls →
      methodUnder methods symbol cls = some method → owner method = none →
      s.IsNativeMethod method symbol count number →
      owner' method = none ∧ s'.IsNativeMethod method symbol count number) :
    m'.Offers s' owner' methods' table name symbol := by
  refine ⟨remembers.symbol offers.symbol_eq, fun {index cls} hat => ?_⟩
  rw [classAt?_congr remembers.classTable_eq remembers.nil_eq] at hat
  exact (offers.holds hat).keep remembers.symbol remembers.native (hunder hat) (hmethod hat)

/-- It stays so when something is put into one class under other selectors. -/
lemma update {own : ClassMethods} {new : List (Value × Value)} (remembers : m.Remembers m')
    (hkeeps : s.KeepsForeign cls owner s' owner') (hcls : methods cls = some own)
    (hnew : new.lookup symbol = none) :
    m'.Offers s' owner' (Function.update methods cls (some ⟨own.dictionary, new ++ own.puts⟩)) table
      name symbol := by
  refine offers.keep remembers (fun {_ other} _ => ?_) fun _ _ howner native => ?_
  · by_cases hsame : other = cls
    · rw [hsame, methodUnder_update, List.lookup_append, hnew, methodUnder, hcls]
      rfl
    · rw [methodUnder, Function.update_of_ne hsame, methodUnder]
  · have hobject := native.choose_spec.1
    exact ⟨(hkeeps.owner_eq hobject).trans howner, native.keep hkeeps (by simp [howner])⟩

/-- A new class and its metaclass have no methods, and behind the kernel classes none are listed. -/
lemma of_makesPair (tracks : m.Tracks s owner methods) {metaclass dictionary metaDictionary : Value}
    (makes : m.MakesPair s owner methods index cls metaclass dictionary metaDictionary m' s' owner')
    (hindex : ClassIndex.firstDynamic ≤ index)
    (htable : ∀ row ∈ table, row.1 < ClassIndex.firstDynamic) :
    m'.Offers s' owner' (withNewPair methods cls dictionary metaclass metaDictionary) table name
      symbol := by
  refine ⟨makes.symbol offers.symbol_eq, fun {place other} hat => ?_⟩
  rw [makes.classAt?_eq] at hat
  split at hat
  · subst place
    rw [NativeTable.listed?_eq_none htable (le_max_right _ _)]
    exact methodUnder_withNewPair (.inr (Option.some.inj hat).symm)
  split at hat
  · subst place
    rw [NativeTable.listed?_eq_none htable hindex]
    exact methodUnder_withNewPair (.inl (Option.some.inj hat).symm)
  obtain ⟨own, hown⟩ := tracks.complete place other hat
  have hother : s.objects other ≠ none := fun hnone => by
    rw [tracks.equipped.methods_eq_none hnone] at hown
    cases hown
  refine (offers.holds hat).keep makes.symbol (by rw [makes.natives_eq]; exact id)
    (by rw [methodUnder, makes.withNewPair_eq hother, methodUnder]) fun _ howner native => ?_
  -- The object of a native method is no class, so nothing has been stored into it.
  have hobject := native.choose_spec.1
  obtain ⟨changed, hretains, hchanged⟩ := makes.retains
  refine ⟨(makes.owner_eq hobject).trans howner, native.keep_of_slots makes.keeps
    (hretains.slots fun hmem => ?_)⟩
  obtain ⟨own', hown'⟩ := hchanged _ hmem
  rw [makes.withNewPair_eq (by rw [hobject]; exact Option.some_ne_none _),
    tracks.equipped.methods_eq_none_of_isNativeMethod native] at hown'
  cases hown'

end Offers

/-! ### Changes of a machine -/

/-- Putting a method into a class forgets nothing. -/
lemma remembers_of_addMethod (hok : addMethod cls selector method m = .ok () m') : m.Remembers m' := by
  rw [addMethod] at hok
  simp only [run_bind_eq_ok_iff, ask_eq_ok_iff, onHeap_eq_ok_iff] at hok
  obtain ⟨_, _, ⟨-, rfl⟩, h', -, rfl⟩ := hok
  exact .withHeap m h'

namespace OffersAll

/-- The classes offer the same when a symbol is made. -/
theorem of_intern (offersAll : m.OffersAll table names) (hok : intern name m = .ok value m') :
    m'.OffersAll table names := by
  obtain ⟨s, owner, methods, tracks, hoffers⟩ := offersAll
  obtain ⟨s', tracks', remembers, hretains, -⟩ := tracks.exists_of_intern hok
  refine ⟨s', owner, methods, tracks', fun other hother => (hoffers other hother).imp
    fun symbol offers => offers.keep remembers (fun _ => rfl) fun _ _ howner native => ?_⟩
  exact ⟨howner, native.keep_of_slots hretains.toKeeps (hretains.slots List.not_mem_nil)⟩

/-- They do so when a class is defined. -/
theorem of_defineClass (offersAll : m.OffersAll table names)
    (htable : ∀ row ∈ table, row.1 < ClassIndex.firstDynamic) {spec : InstanceSpec}
    (hok : defineClass name superclass spec m = .ok cls m') : m'.OffersAll table names := by
  obtain ⟨s, owner, methods, tracks, hoffers⟩ := offersAll
  obtain ⟨index, s', owner', metaclass, dictionary, metaDictionary, hindex, makes, tracks'⟩ :=
    tracks.exists_of_defineClass hok
  have tracks₁ := tracks.grown (index + 1)
  refine ⟨s', owner', _, tracks', fun other hother => (hoffers other hother).imp fun symbol offers => ?_⟩
  have offers₁ : (m.grown (index + 1)).Offers s owner methods table other symbol :=
    ⟨offers.symbol_eq, fun {place cls} hat =>
      (offers.holds ((classAt?_grown m _ place).symm.trans hat)).keep id id rfl fun _ howner native =>
        ⟨howner, native⟩⟩
  exact offers₁.of_makesPair tracks₁ makes (hindex ▸ le_max_right _ _) htable

/-- They do so when a method is put into a class under another selector. -/
theorem of_addMethod (offersAll : m.OffersAll table names) (hselector : m.MaySelect selector)
    (hother : ∀ name ∈ names, m.symbols[name]? ≠ some selector)
    (hok : addMethod cls selector method m = .ok () m') : m'.OffersAll table names := by
  obtain ⟨s, owner, methods, tracks, hoffers⟩ := offersAll
  obtain ⟨s', owner', own, hcls, tracks', hkeeps⟩ :=
    tracks.exists_of_addMethod hselector.1 (tracks.knows hselector) hok
  refine ⟨s', owner', _, tracks', fun name hname => (hoffers name hname).imp fun symbol offers => ?_⟩
  have hne : symbol ≠ selector := fun h => hother name hname (h ▸ offers.symbol_eq)
  have hnew : [(selector, method)].lookup symbol = none := by
    rw [List.lookup_cons, beq_eq_false_iff_ne.mpr hne]
    rfl
  exact offers.update (remembers_of_addMethod hok) hkeeps hcls hnew

/-- They do so when native methods are put into a class under other names. -/
theorem of_installNatives (offersAll : m.OffersAll table names)
    (hother : ∀ entry ∈ entries, entry.selector ∉ names)
    (hok : installNatives cls entries m = .ok () m') : m'.OffersAll table names := by
  obtain ⟨s, owner, methods, tracks, hoffers⟩ := offersAll
  obtain ⟨s', owner', own, new, hcls, tracks', installs⟩ := tracks.exists_of_installNatives hok
  refine ⟨s', owner', _, tracks', fun name hname => (hoffers name hname).imp fun symbol offers => ?_⟩
  refine offers.update installs.remembers installs.keeps hcls
    (lookup_eq_none_of_isInstalled installs.puts fun entry hentry hsymbol => ?_)
  have hsame := tracks'.equipped.name_eq hsymbol (installs.remembers.symbol offers.symbol_eq)
  exact hother entry (List.mem_reverse.mp hentry) (hsame ▸ hname)

/-- They do so when something is done to the heap beside what the machine shows and the methods with
these names. -/
theorem of_action (offersAll : m.OffersAll table names)
    (htable : ∀ {index cls}, m.classAt? index = some cls → m.isClass cls = true)
    (hnil : ∀ nil, action ≠ .setNil nil)
    (htarget : ∀ target ∈ action.target?, m.heap.Allocated target ∧ ¬m.Shows target ∧
      ∀ name ∈ names, ¬m.IsMethodNamed name target) :
    (m.withHeap (stateAfter (action.onHeap m.heap))).OffersAll table names := by
  obtain ⟨s, owner, methods, tracks, hoffers⟩ := offersAll
  obtain ⟨s', tracks', hkeeps, hfollows⟩ := tracks.exists_of_action htable hnil
    fun target hmem => ⟨(htarget target hmem).1, (htarget target hmem).2.1⟩
  refine ⟨s', owner, _, tracks', fun name hname => (hoffers name hname).imp fun symbol offers => ?_⟩
  refine offers.keep (.withHeap m _) (fun hat => ?_) fun hat hfound howner native => ⟨howner, ?_⟩
  · rw [methodUnder, tabled, if_pos (htable hat), methodUnder]
  · have hnamed := tracks.isMethodNamed (htable hat) offers.symbol_eq hfound
    exact native.keep_of_slots hkeeps fun hslots => hslots.follows hfollows fun htargets =>
      (htarget _ htargets).2.2 name hname hnamed

end OffersAll

/-! ### Fresh machines -/

/-- A row more lists the methods of one class more. -/
lemma listed?_append_singleton (place : ℕ) :
    NativeTable.listed? (table ++ [(index, entries)]) place name =
      if table.lookup place = none ∧ place = index then NativeTable.last? entries name
      else NativeTable.listed? table place name := by
  rw [NativeTable.listed?, NativeTable.listed?, List.lookup_append, List.lookup_cons]
  cases table.lookup place with
  | some row => rfl
  | none =>
    by_cases hplace : place = index
    · simp [hplace]
    · simp [hplace, beq_eq_false_iff_ne.mpr hplace]

/-- When the native methods of a row are put into the class that they are listed for, it offers them as
well. -/
lemma Offers.of_installNatives (offers : m.Offers s owner methods table name symbol)
    (hcls : m.classAt? index = some cls) (hrow : table.lookup index = none)
    (hplace : ∀ {place}, m.classAt? place = some cls → place = index)
    {own : ClassMethods} {new : List (Value × Value)} (hown : methods cls = some own)
    (tracks' : m'.Tracks s' owner' (Function.update methods cls
      (some ⟨own.dictionary, new ++ own.puts⟩)))
    (installs : m.Installs s owner cls entries new m' s' owner') :
    m'.Offers s' owner' (Function.update methods cls (some ⟨own.dictionary, new ++ own.puts⟩))
      (table ++ [(index, entries)]) name symbol := by
  have hsymbol := installs.remembers.symbol offers.symbol_eq
  have hnone : own.puts.lookup symbol = none := by
    have holds := offers.holds hcls
    rw [NativeTable.listed?, hrow, Option.bind_none] at holds
    rwa [HoldsEntry, methodUnder, hown, Option.bind_some] at holds
  refine ⟨hsymbol, fun {place other} hat => ?_⟩
  rw [classAt?_congr installs.remembers.classTable_eq installs.remembers.nil_eq] at hat
  rw [listed?_append_singleton]
  split
  · obtain ⟨-, rfl⟩ := ‹table.lookup place = none ∧ place = index›
    obtain rfl := Option.some.inj (hcls.symm.trans hat)
    cases hlast : NativeTable.last? entries name with
    | none =>
      rw [HoldsEntry, methodUnder_update, List.lookup_append, hnone, Option.or_none]
      refine lookup_eq_none_of_isInstalled installs.puts fun entry hentry hselector => ?_
      obtain rfl := tracks'.equipped.name_eq hselector hsymbol
      obtain ⟨last, hsome⟩ := exists_last? (List.mem_reverse.mp hentry)
      rw [hlast] at hsome
      cases hsome
    | some last =>
      obtain ⟨method, hmethod, installed⟩ := installs.exists_methodUnder tracks' hsymbol hlast
      have hlookup := hmethod
      rw [methodUnder_update, List.lookup_append, hnone, Option.or_none] at hlookup
      obtain ⟨below, above, rfl, -⟩ := List.lookup_eq_some_iff.mp hlookup
      exact ⟨method, hmethod, installs.free (symbol, method) (by simp), installed⟩
  · rename_i hother
    have hne : other ≠ cls := by
      rintro rfl
      obtain rfl := hplace hat
      exact hother ⟨hrow, rfl⟩
    refine (offers.holds hat).keep installs.remembers.symbol installs.remembers.native
      (by rw [methodUnder, Function.update_of_ne hne, methodUnder]) fun _ howner native => ?_
    exact ⟨(installs.keeps.owner_eq native.choose_spec.1).trans howner,
      native.keep installs.keeps (by simp [howner])⟩

/-- When the native methods of the kernel are put into their classes, row by row, these offer them. -/
theorem OffersAll.of_installKernelNatives {rest : List (ℕ × List NativeEntry)}
    (offersAll : m.OffersAll table names)
    (hplaces : ∀ {place place' cls}, m.classAt? place = some cls → m.classAt? place' = some cls →
      place = place')
    (hnodup : ((table ++ rest).map Prod.fst).Nodup) (hok : installKernelNatives rest m = .ok () m') :
    m'.OffersAll (table ++ rest) names := by
  induction rest generalizing m table with
  | nil =>
    cases hok
    rwa [List.append_nil]
  | cons row rest ih =>
    obtain ⟨index, entries⟩ := row
    rw [installKernelNatives] at hok
    simp only [run_bind_eq_ok_iff, ask_eq_ok_iff] at hok
    obtain ⟨cls, _, ⟨hcls, rfl⟩, _, m₁, hinstall, hrest⟩ := hok
    obtain ⟨s, owner, methods, tracks, hoffers⟩ := offersAll
    obtain ⟨s₁, owner₁, own, new, hown, tracks₁, installs⟩ := tracks.exists_of_installNatives hinstall
    have hrow : table.lookup index = none := by
      rw [List.map_append, List.map_cons, List.nodup_append] at hnodup
      rw [List.lookup_eq_none_iff]
      intro row hrow
      rw [bne_iff_ne]
      exact (hnodup.2.2 row.1 (List.mem_map_of_mem hrow) index List.mem_cons_self).symm
    rw [List.append_cons] at hnodup ⊢
    rw [kernelClass_eq_ok_iff] at hcls
    have offersAll₁ : m₁.OffersAll (table ++ [(index, entries)]) names :=
      ⟨s₁, owner₁, _, tracks₁, fun name hname => (hoffers name hname).imp fun symbol offers =>
        offers.of_installNatives hcls hrow (fun hat => hplaces hat hcls) hown tracks₁ installs⟩
    refine ih offersAll₁ (fun hat hat' => ?_) hnodup hrest
    rw [classAt?_congr installs.remembers.classTable_eq installs.remembers.nil_eq] at hat hat'
    exact hplaces hat hat'

/-- In a fresh machine the classes have the native methods of the kernel under the symbols of the
special selectors. -/
theorem exists_offers_of_new (hlimit : limit < 2 ^ 64) (hnew : Machine.new limit = .ok m)
    (hnames : ∀ name ∈ names, ∃ selector ∈ SpecialSelector.all, selector.name = name) :
    m.OffersAll NativeTable.kernel names := by
  obtain ⟨m₀, s₀, owner₀, methods₀, tracks, hempty, hsymbols, hnatives⟩ :=
    exists_tracks_before_natives hlimit hnew
  obtain ⟨_, _, _, -, remembers⟩ := tracks.exists_of_installKernelNatives hnatives
  obtain ⟨s, standard⟩ := exists_standard_of_new hlimit hnew
  have offersAll : m₀.OffersAll [] names := by
    refine ⟨s₀, owner₀, methods₀, tracks, fun name hname => ?_⟩
    obtain ⟨selector, hselector, rfl⟩ := hnames name hname
    obtain ⟨symbol, hsymbol⟩ := hsymbols selector hselector
    refine ⟨symbol, hsymbol, fun {index cls} hat => ?_⟩
    obtain ⟨own, hown⟩ := tracks.complete index cls hat
    show methodUnder methods₀ symbol cls = none
    rw [methodUnder, hown, Option.bind_some, hempty cls own hown]
    rfl
  refine offersAll.of_installKernelNatives (fun hat hat' => ?_) (by decide) hnatives
  rw [← classAt?_congr remembers.classTable_eq remembers.nil_eq] at hat hat'
  exact standard.based.index_eq hat hat'

end Machine

end TalkMachine
