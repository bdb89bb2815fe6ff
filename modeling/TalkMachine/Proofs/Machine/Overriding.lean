import TalkMachine.Proofs.Machine.Closed
import TalkMachine.Proofs.Machine.Provision

/-!
# Methods override

`Machine.History` is everything that can become of a machine by changes of its classes and methods.
After each history the machine is tracked and its classes are closed, so that what is put into a
class can be told from what was found before (`Machine.History.overrides`): a selector finds the new
method from just those classes on whose line the class is the first one that holds the selector.
-/

namespace TalkMachine

/-- The last native method of a table that has a selector. -/
def NativeTable.last? (entries : List NativeEntry) (selector : String) : Option NativeEntry :=
  entries.reverse.find? fun entry => entry.selector = selector

namespace Machine

variable {m m' : Machine} {s s' : ObjectMap} {cls current selector method : Value}
  {owner owner' : Value → Option Value} {methods methods' : Value → Option ClassMethods}
  {entries : List NativeEntry} {limit : ℕ}

/-! ### Histories -/

/-- Whether a value may be used as a selector: it is not nil, and either no object or one that is
allocated, such as those that the machine shows. -/
def MaySelect (m : Machine) (selector : Value) : Prop :=
  selector ≠ m.nil ∧
    (selector.isImmediate = true ∨ m.heap.Allocated selector ∨ m.Shows selector)

/-- The history of a machine: it begins as a fresh one; classes are defined and get other
superclasses, methods are put into classes, and symbols are made, by calls that are not refused. -/
inductive History (limit : ℕ) : Machine → Prop
  | new {m : Machine} (hok : Machine.new limit = .ok m) : History limit m
  | intern {m m' : Machine} (history : History limit m) {name : String} {symbol : Value}
    (hok : Machine.intern name m = .ok symbol m') : History limit m'
  | defineClass {m m' : Machine} (history : History limit m) {name : String} {superclass cls : Value}
    {spec : InstanceSpec} (hok : Machine.defineClass name superclass spec m = .ok cls m') :
    History limit m'
  | setSuperclass {m m' : Machine} (history : History limit m) {cls superclass : Value}
    (hok : Machine.setSuperclass cls superclass m = .ok () m') : History limit m'
  | addMethod {m m' : Machine} (history : History limit m) {cls selector method : Value}
    (hselector : m.MaySelect selector)
    (hok : Machine.addMethod cls selector method m = .ok () m') : History limit m'
  | installNatives {m m' : Machine} (history : History limit m) {cls : Value}
    {entries : List NativeEntry} (hok : Machine.installNatives cls entries m = .ok () m') :
    History limit m'

/-! ### Native methods of a table -/

section Table

variable {new : List (Value × Value)} {own : ClassMethods} {entry last : NativeEntry}
  (installs : m.Installs s owner cls entries new m' s' owner')
  (tracks' : m'.Tracks s' owner'
    (Function.update methods cls (some ⟨own.dictionary, new ++ own.puts⟩)))

/-- Among the native methods with a selector there is a last one. -/
lemma exists_last? (hentry : entry ∈ entries) :
    ∃ last, NativeTable.last? entries entry.selector = some last := by
  refine Option.isSome_iff_exists.mp (List.find?_isSome.mpr ⟨entry, ?_, ?_⟩)
  · rwa [List.mem_reverse]
  · rw [decide_eq_true_eq]

/-- What has been put under a selector. -/
lemma methodUnder_update (methods : Value → Option ClassMethods) (own : ClassMethods)
    (selector cls : Value) :
    methodUnder (Function.update methods cls (some own)) selector cls = own.puts.lookup selector := by
  rw [methodUnder, Function.update_self, Option.bind_some]

include installs

/-- The selectors of a table that has been installed have symbols. -/
lemma Installs.exists_symbol (hentry : entry ∈ entries) :
    ∃ symbol, m'.symbols[entry.selector]? = some symbol :=
  exists_symbol_of_mem installs.puts entry (List.mem_reverse.mpr hentry)

include tracks'

/-- Under a symbol of the table stands the last method with its name. -/
lemma Installs.exists_methodUnder {name : String} (hsymbol : m'.symbols[name]? = some selector)
    (hlast : NativeTable.last? entries name = some last) :
    ∃ method, methodUnder (Function.update methods cls (some ⟨own.dictionary, new ++ own.puts⟩))
      selector cls = some method ∧ m'.IsInstalled s' last (selector, method) := by
  obtain rfl : last.selector = name := by simpa using List.find?_some hlast
  obtain ⟨method, hmethod, installed⟩ := exists_lookup_of_isInstalled installs.puts
    tracks'.equipped.name_eq hsymbol hlast
  refine ⟨method, ?_, installed⟩
  rw [methodUnder_update, List.lookup_append, hmethod, Option.some_or]

end Table

/-! ### Invariants of histories -/

/-- The classes of a machine are closed after every history. -/
lemma History.closed (history : History limit m) (hlimit : limit < 2 ^ 64) :
    (∃ s, m.Stored s) ∧ m.Closed := by
  induction history with
  | new hok =>
    obtain ⟨s, stored, hierarchy⟩ := exists_stored_of_new hlimit hok
    exact ⟨⟨s, stored⟩, hierarchy.straight.closed⟩
  | intern _ hok ih =>
    obtain ⟨⟨s, stored⟩, closed⟩ := ih
    obtain ⟨s', hq, -⟩ := (settles_intern stored _).of_ok hok
    exact ⟨⟨s', hq.stored⟩, closed.keep stored hq⟩
  | @defineClass _ _ _ name superclass _ spec hok ih =>
    obtain ⟨⟨s, stored⟩, closed⟩ := ih
    have hnext := closed.exists_stateAfter_defineClass stored name superclass spec
    rw [hok] at hnext
    exact exists_and_right.mp hnext
  | @setSuperclass _ _ _ cls superclass hok ih =>
    obtain ⟨⟨s, stored⟩, closed⟩ := ih
    have hnext := closed.exists_stateAfter_setSuperclass stored cls superclass
    rw [hok] at hnext
    exact exists_and_right.mp hnext
  | addMethod _ _ hok ih =>
    obtain ⟨⟨s, stored⟩, closed⟩ := ih
    obtain ⟨s', hq, -⟩ := (settles_addMethod stored _ _ _).of_ok hok
    exact ⟨⟨s', hq.stored⟩, closed.keep stored hq⟩
  | installNatives _ hok ih =>
    obtain ⟨⟨s, stored⟩, closed⟩ := ih
    obtain ⟨s', hq, -⟩ := (settles_installNatives stored _ _).of_ok hok
    exact ⟨⟨s', hq.stored⟩, closed.keep stored hq⟩

/-- What may be used as a selector is known to the object map of a machine. -/
lemma Tracks.knows (tracks : m.Tracks s owner methods) (hselector : m.MaySelect selector) :
    s.Knows selector := by
  rcases hselector.2 with himmediate | allocated | hshows
  · exact .inl himmediate
  · exact .inr (allocated s tracks.equipped.rep tracks.fills)
  · exact .inr (tracks.exists_object_of_shows hshows)

/-- What is known and not nil is a selector. -/
lemma Tracks.isSelector (tracks : m.Tracks s owner methods) (hnil : selector ≠ m.nil)
    (hknows : s.Knows selector) : m.IsSelector selector := by
  obtain ⟨hash, hhash, -⟩ := Heap.exists_identityHashOf tracks.equipped.rep tracks.equipped.rep
    (.refl s) hknows
  exact ⟨hnil, hash, hhash⟩

/-- A machine is tracked after every history. -/
lemma History.exists_tracks (history : History limit m) (hlimit : limit < 2 ^ 64) :
    ∃ s owner methods, m.Tracks s owner methods := by
  induction history with
  | new hok => exact exists_tracks_of_new hlimit hok
  | intern _ hok ih =>
    obtain ⟨s, owner, methods, tracks⟩ := ih
    obtain ⟨s', tracks', -⟩ := tracks.exists_of_intern hok
    exact ⟨s', _, _, tracks'⟩
  | defineClass _ hok ih =>
    obtain ⟨s, owner, methods, tracks⟩ := ih
    obtain ⟨_, s', owner', _, _, _, -, -, tracks'⟩ := tracks.exists_of_defineClass hok
    exact ⟨s', owner', _, tracks'⟩
  | setSuperclass _ hok ih =>
    obtain ⟨s, owner, methods, tracks⟩ := ih
    obtain ⟨s', tracks', -⟩ := tracks.exists_of_setSuperclass hok
    exact ⟨s', _, _, tracks'⟩
  | addMethod _ hselector hok ih =>
    obtain ⟨s, owner, methods, tracks⟩ := ih
    obtain ⟨s', owner', own, -, tracks', -⟩ :=
      tracks.exists_of_addMethod hselector.1 (tracks.knows hselector) hok
    exact ⟨s', _, _, tracks'⟩
  | installNatives _ hok ih =>
    obtain ⟨s, owner, methods, tracks⟩ := ih
    obtain ⟨s', owner', own, new, -, tracks', -⟩ := tracks.exists_of_installNatives hok
    exact ⟨s', _, _, tracks'⟩

/-! ### Overriding -/

/-- Whether methods that have been put into a class replace what was found before. The class holds
each selector that is put. From every class on, a method that fits a selector that is put is found if
the class is the first on the line that holds the selector; and otherwise, the selector finds what it
found before. -/
structure Overridden (m : Machine) (cls : Value) (m' : Machine)
    (isPut : Value → Prop) (fits : Value → Value → Prop) : Prop where
  defines : ∀ selector, isPut selector → m'.Defines selector cls
  finds : ∀ current, m.isClass current = true →
    ∃ line, m.Line current line ∧ m'.Line current line ∧ ∀ selector,
      (isPut selector → m'.IsNearest selector cls line →
        ∃ method, m'.lookup current selector = .ok (some method) ∧ fits selector method) ∧
      (m.MaySelect selector → ¬(isPut selector ∧ m'.IsNearest selector cls line) →
        ∃ found, m.lookup current selector = .ok found ∧ m'.lookup current selector = .ok found)

/-- A change that puts methods into one class and leaves all classes as they are linked overrides
what was found before. -/
lemma Tracks.overridden (tracks : m.Tracks s owner methods)
    (tracks' : m'.Tracks s' owner' methods') (hkeeps : s.Keeps s')
    (relinked : m.Relinked m' fun _ => none)
    (hline : ∀ current, m.isClass current = true → ∃ line, m.Line current line)
    (hcls : m.isClass cls = true) (hother : ∀ other, other ≠ cls → methods' other = methods other)
    {isPut : Value → Prop} {fits : Value → Value → Prop}
    (hput : ∀ selector, isPut selector → m'.IsSelector selector ∧
      ∃ method, methodUnder methods' selector cls = some method ∧ fits selector method)
    (hkept : ∀ selector, ¬isPut selector →
      methodUnder methods' selector cls = methodUnder methods selector cls) :
    m.Overridden cls m' isPut fits := by
  have hselector' : ∀ {selector}, m.MaySelect selector → m'.IsSelector selector :=
    fun hselector => tracks'.isSelector (relinked.nil_eq ▸ hselector.1)
      (hkeeps.knows (tracks.knows hselector))
  refine ⟨fun selector hisPut => ?_, fun current hcurrent => ?_⟩
  · obtain ⟨hselector, method, hmethod, -⟩ := hput selector hisPut
    rw [tracks'.equipped.defines_iff tracks'.complete ((relinked.isClass_eq cls).trans hcls)
      hselector, hmethod]
    rfl
  obtain ⟨line, hline⟩ := hline current hcurrent
  refine ⟨line, hline, relinked.line hline fun _ _ => rfl, fun selector =>
    ⟨fun hisPut hnearest => ?_, fun hmay hnot => ?_⟩⟩
  · obtain ⟨hselector, method, hmethod, hfits⟩ := hput selector hisPut
    refine ⟨method, ?_, hfits⟩
    rw [tracks'.equipped.lookup_of_isNearest tracks'.complete relinked hother hline hselector
      (hmethod ▸ rfl) hnearest, hmethod]
  · have hfound := tracks.equipped.lookup_eq tracks.complete hline (tracks.isSelector hmay.1 (tracks.knows hmay))
    refine ⟨_, hfound, Eq.trans ?_ hfound⟩
    by_cases hisPut : isPut selector
    · obtain ⟨hselector, method, hmethod, -⟩ := hput selector hisPut
      exact tracks.equipped.lookup_of_not_isNearest tracks.complete tracks'.equipped
        tracks'.complete relinked hother hline hselector (hmethod ▸ rfl) (tracks.isSelector hmay.1 (tracks.knows hmay))
        fun hnearest => hnot ⟨hisPut, hnearest⟩
    · refine tracks.equipped.lookup_of_methodUnder_eq tracks.complete tracks'.equipped
        tracks'.complete relinked hline (tracks.isSelector hmay.1 (tracks.knows hmay)) (hselector' hmay) fun other => ?_
      by_cases hsame : other = cls
      · rw [hsame, hkept selector hisPut]
      · rw [methodUnder, hother other hsame, methodUnder]

/-- Methods override. After every history in which no class is above itself: a method that is put
into a class under a selector is what the selector finds then, wherever the class is the first on
the line that holds the selector; the native methods of a table are what their selectors find, the
last one with a selector under its symbol, by a number under which the machine knows it; and
otherwise every selector finds what it found before. -/
theorem History.overrides (hlimit : limit < 2 ^ 64) (history : History limit m)
    (acyclic : m.Acyclic) :
    (∀ selector method, m.MaySelect selector →
      Machine.addMethod cls selector method m = .ok () m' →
      m.Overridden cls m' (fun other => other = selector) fun _ found => found = method) ∧
    (∀ entries : List NativeEntry, (∀ entry ∈ entries, entry.argumentCount < 256) →
      Machine.installNatives cls entries m = .ok () m' →
      (∀ entry ∈ entries, ∃ symbol, m'.symbols[entry.selector]? = some symbol) ∧
      m.Overridden cls m'
        (fun other => ∃ entry ∈ entries, m'.symbols[entry.selector]? = some other)
        fun other found => ∃ name last index, m'.symbols[name]? = some other ∧
          NativeTable.last? entries name = some last ∧
          m'.methodKind found = .ok (.native last.argumentCount index) ∧
          m'.natives[index]? = some last.native) := by
  obtain ⟨⟨s₀, stored⟩, closed⟩ := history.closed hlimit
  obtain ⟨s, owner, methods, tracks⟩ := history.exists_tracks hlimit
  have hline : ∀ current, m.isClass current = true → ∃ line, m.Line current line :=
    closed.straight acyclic
  refine ⟨fun selector method hselector hok => ?_, fun entries harity hok => ?_⟩
  · obtain ⟨s₁, hq, -⟩ := (settles_addMethod stored _ _ _).of_ok hok
    obtain ⟨s', owner', own, hcls, tracks', hkeeps⟩ :=
      tracks.exists_of_addMethod hselector.1 (tracks.knows hselector) hok
    obtain ⟨dictionary, _, hdictionary, -⟩ := run_bind_eq_ok_iff.mp hok
    have relinked := hq.relinked stored
    refine tracks.overridden tracks' hkeeps.toKeeps relinked hline
      (isClass_of_methodDictionary (ask_eq_ok_iff.mp hdictionary).1)
      (fun other hne => Function.update_of_ne hne _ _) (fun other hisPut => ?_) fun other hnot => ?_
    · subst hisPut
      refine ⟨tracks'.isSelector (relinked.nil_eq ▸ hselector.1)
        (hkeeps.toKeeps.knows (tracks.knows hselector)), method, ?_, rfl⟩
      rw [methodUnder_update, List.lookup_cons_self]
    · rw [methodUnder_update, List.lookup_cons, beq_eq_false_iff_ne.mpr hnot, methodUnder, hcls]
      rfl
  · obtain ⟨s₁, hq, -⟩ := (settles_installNatives stored _ _).of_ok hok
    obtain ⟨s', owner', own, new, hcls, tracks', installs⟩ := tracks.exists_of_installNatives hok
    obtain ⟨dictionary, _, hdictionary, -⟩ := run_bind_eq_ok_iff.mp hok
    refine ⟨fun entry => installs.exists_symbol, ?_⟩
    refine tracks.overridden tracks' installs.keeps.toKeeps (hq.relinked stored) hline
      (isClass_of_methodDictionary (ask_eq_ok_iff.mp hdictionary).1)
      (fun other hne => Function.update_of_ne hne _ _) ?_ fun other hnot => ?_
    · rintro symbol ⟨entry, hentry, hsymbol⟩
      obtain ⟨last, hlast⟩ := exists_last? hentry
      obtain ⟨method, hunder, -, index, native, hnative⟩ :=
        installs.exists_methodUnder tracks' hsymbol hlast
      have hcount : last.argumentCount < 2 ^ 62 :=
        (harity last (List.mem_reverse.mp (List.mem_of_find?_eq_some hlast))).trans (by decide)
      obtain ⟨hindex, -⟩ := Array.getElem?_eq_some_iff.mp hnative
      exact ⟨tracks'.isSelector_of_symbol hsymbol, method, hunder, entry.selector, last, index,
        hsymbol, hlast, methodKind_eq_of_isNativeMethod tracks'.equipped.rep native hcount
          (hindex.trans (tracks'.numbered.size_lt tracks'.equipped.rep)), hnative⟩
    · have hnone : new.lookup other = none := lookup_eq_none_of_isInstalled installs.puts
        fun entry hentry hsymbol => hnot ⟨entry, List.mem_reverse.mp hentry, hsymbol⟩
      rw [methodUnder_update, List.lookup_append, hnone, methodUnder, hcls]
      rfl

/-- What has been put into a class is found from the class itself. -/
lemma Overridden.exists_lookup_self {isPut : Value → Prop} {fits : Value → Value → Prop}
    (overridden : m.Overridden cls m' isPut fits) (hcls : m.isClass cls = true)
    (hput : isPut selector) :
    ∃ method, m'.lookup cls selector = .ok (some method) ∧ fits selector method := by
  obtain ⟨line, -, hline, hfinds⟩ := overridden.finds cls hcls
  have hdefines := overridden.defines selector hput
  obtain ⟨rest, rfl⟩ : ∃ rest, line = cls :: rest := by
    cases hline with
    | nil => exact absurd hdefines.isClass (by simp [isClass_nil])
    | cons => exact ⟨_, rfl⟩
  exact (hfinds selector).1 hput ⟨[], rest, rfl, hdefines, List.forall_mem_nil _⟩

/-- A method and native methods that are put into Object of a fresh machine are found there. -/
theorem History.overrides_object :
    ∃ m m₁ m₂ object symbol method index, (1048576 : ℕ) < 2 ^ 64 ∧
      History 1048576 m ∧ m.Acyclic ∧ m.MaySelect (Value.ofChar 'f') ∧
      Machine.addMethod object (Value.ofChar 'f') (Value.ofInt 7) m = .ok () m₁ ∧
      m₁.lookup object (Value.ofChar 'f') = .ok (some (Value.ofInt 7)) ∧
      Machine.installNatives object [⟨"f", 1, .foreign 0⟩, ⟨"f", 2, .foreign 1⟩] m = .ok () m₂ ∧
      m₂.symbols["f"]? = some symbol ∧ m₂.lookup object symbol = .ok (some method) ∧
      m₂.methodKind method = .ok (.native 2 index) ∧ m₂.natives[index]? = some (.foreign 1) := by
  have hlimit : (1048576 : ℕ) < 2 ^ 64 := by norm_num
  have hcost : freshCost + putCost (nativesCount NativeTable.kernel) ≤ 1048576 ∧
      freshCost + installCost (nativesCount NativeTable.kernel)
        [⟨"f", 1, .foreign 0⟩, ⟨"f", 2, .foreign 1⟩] ≤ 1048576 := by decide +kernel
  obtain ⟨m, hnew, hroom, building⟩ := exists_new hlimit (by omega)
  obtain ⟨object, -, hordinary⟩ := building.exists_kernelClass
    (show ClassIndex.object < ClassIndex.firstDynamic by decide) (by decide)
  obtain ⟨s, owner, methods, tracks, hcount⟩ := building.tracks
  obtain ⟨dictionary, hdictionary⟩ := tracks.exists_methodDictionary hordinary.1
  have hnil : Value.ofChar 'f' ≠ m.nil := by
    obtain ⟨o, ho⟩ := tracks.equipped.nil
    intro h
    have hobject := (tracks.equipped.rep.holds ho).isObject
    rw [tracks.equipped.nil_eq, ← h] at hobject
    exact absurd hobject (by decide)
  have himmediate : (Value.ofChar 'f').isImmediate = true := rfl
  obtain ⟨_, m₁, hadd, -⟩ := tracks.affords_addMethod hdictionary (hcount object) (.inl himmediate)
    (Value.ofInt 7) (by omega)
  obtain ⟨_, m₂, hinstall, -⟩ := tracks.affords_installNatives hdictionary (hcount object)
    [⟨"f", 1, .foreign 0⟩, ⟨"f", 2, .foreign 1⟩] (by omega)
  have history := History.new hnew
  have acyclic := building.hierarchy.acyclic
  have hmay : m.MaySelect (Value.ofChar 'f') := ⟨hnil, .inl himmediate⟩
  obtain ⟨_, hlookup, rfl⟩ := ((History.overrides hlimit history acyclic).1 _ _ hmay
    hadd).exists_lookup_self hordinary.1 rfl
  obtain ⟨hsymbols, overridden⟩ := (History.overrides hlimit history acyclic).2 _
    (by decide) hinstall
  obtain ⟨symbol, hsymbol⟩ := hsymbols ⟨"f", 1, .foreign 0⟩ (by simp)
  obtain ⟨method, hfound, name, last, index, -, hlast, hkind, hnative⟩ :=
    overridden.exists_lookup_self hordinary.1 ⟨⟨"f", 1, .foreign 0⟩, by simp, hsymbol⟩
  obtain rfl : last = ⟨"f", 2, .foreign 1⟩ := by
    by_cases hname : "f" = name
    · simpa [NativeTable.last?, hname, eq_comm] using hlast
    · simp [NativeTable.last?, hname] at hlast
  exact ⟨m, m₁, m₂, object, symbol, method, index, hlimit, history, acyclic, hmay, hadd, hlookup,
    hinstall, hsymbol, hfound, hkind, hnative⟩

end Machine

end TalkMachine
