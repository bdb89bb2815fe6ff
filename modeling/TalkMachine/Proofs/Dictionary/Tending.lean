import TalkMachine.Proofs.Dictionary.Steps
import TalkMachine.Proofs.Heap.Altering
import TalkMachine.Proofs.Machine.Orderly

/-!
# What changes to dictionaries alter

A dictionary whose arrays are plain objects is a table (`ObjectMap.IsTable`). Nothing that happens to
a table stores into a class: whatever the keys and values are, and also where a change is refused half
way, it alters objects below the classes only, makes tables and arrays only, and leaves every table
one (`Dictionary.staysTended_new`, `Dictionary.staysTended_insert`).
-/

namespace TalkMachine

namespace ObjectMap

variable {s s' : ObjectMap} {d value : Value} {o : Object}

/-- Plain objects stay plain. -/
lemma IsPlain.keep (hvalue : s.IsPlain value) (hkeeps : s.Keeps s') : s'.IsPlain value := by
  obtain ⟨o, ho, hclass⟩ := hvalue
  obtain ⟨o', ho', hshape⟩ := hkeeps.shape ho
  exact ⟨o', ho', hshape.classIndex.symm ▸ hclass⟩

/-- Whether a value is a dictionary, and its arrays are plain objects. -/
def IsTable (s : ObjectMap) (d : Value) : Prop :=
  ∃ o tally keys values, s.objects d = some o ∧ o.classIndex = ClassIndex.methodDictionary ∧
    o.HasSlots [tally, keys, values] ∧ s.IsPlain keys ∧ s.IsPlain values

/-- A table that is not stored into stays one. -/
lemma IsTable.keep (htable : s.IsTable d) (hkeeps : s.Keeps s')
    (hsame : ∀ o, s.objects d = some o → o.classIndex = ClassIndex.methodDictionary →
      s'.objects d = some o) : s'.IsTable d := by
  obtain ⟨o, tally, keys, values, ho, hclass, hslots, hkeys, hvalues⟩ := htable
  exact ⟨o, tally, keys, values, hsame o ho hclass, hclass, hslots, hkeys.keep hkeeps,
    hvalues.keep hkeeps⟩

/-- A table stays one when its tally or one of its arrays is replaced by a plain object. -/
lemma IsTable.storeWord (htable : s.IsTable d) {o' : Object} {index : ℕ}
    (ho : s.objects d = some o) (hwell : o.WellFormed)
    (hok : o.storeWord d index value.raw = .ok ((), o'))
    (hvalue : index = Dictionary.tallySlot ∨ s.IsPlain value) (hkeeps : s.Keeps (s.put d o')) :
    (s.put d o').IsTable d := by
  obtain ⟨_, tally, keys, values, hsame, hclass, hslots, hkeys, hvalues⟩ := htable
  obtain rfl := Option.some.inj (ho.symm.trans hsame)
  obtain ⟨hindex, hslots'⟩ := hslots.storeWord hwell hok
  have ho' := objects_put_self s d o'
  have hclass' := (Object.sameShape_storeWord hok).classIndex.trans hclass
  have hplain : ∀ {value}, s.IsPlain value → (s.put d o').IsPlain value := fun h => h.keep hkeeps
  match index, hindex with
  | 0, _ => exact ⟨o', value, keys, values, ho', hclass', hslots', hplain hkeys, hplain hvalues⟩
  | 1, _ => exact ⟨o', tally, value, values, ho', hclass', hslots',
      hplain (hvalue.resolve_left (by decide)), hplain hvalues⟩
  | 2, _ => exact ⟨o', tally, keys, value, ho', hclass', hslots', hplain hkeys,
      hplain (hvalue.resolve_left (by decide))⟩

end ObjectMap

namespace Heap

open ObjectMap

/-- Whether an object may be altered when a dictionary is changed: if it is no class. -/
def BelowClasses (_ : Value) (index : ℕ) : Prop :=
  index < ClassIndex.metaclass

/-- The class indices of what dictionaries are made of. -/
def OfDictionaries (index : ℕ) : Prop :=
  index = ClassIndex.methodDictionary ∨ index = ClassIndex.array

/-- Whether a heap has come out of changes to dictionaries: tables are tables still. -/
structure Tended (s : ObjectMap) (h' : Heap) (s' : ObjectMap) : Prop
    extends Altered BelowClasses OfDictionaries s h' s' where
  isTable : ∀ d, s.IsTable d → s'.IsTable d
  plain : s'.IsPlain s'.nil

variable {h h' h'' : Heap} {s s' s'' : ObjectMap} {d name value : Value} {o o' : Object}

/-- Nothing is changed. -/
lemma Tended.refl (rep : h.Represents s) (plain : s.IsPlain s.nil) : Tended s h s :=
  ⟨.refl rep, fun _ => id, plain⟩

/-- One change after the other. -/
lemma Tended.trans (ht : Tended s h' s') (ht' : Tended s' h'' s'') : Tended s h'' s'' :=
  ⟨ht.toAltered.trans ht'.toAltered, fun d htable => ht'.isTable d (ht.isTable d htable), ht'.plain⟩

/-- An object that dictionaries are made of is allocated. -/
lemma tended_put_new (plain : s.IsPlain s.nil) (hnone : s.objects name = none)
    (hmade : OfDictionaries o.classIndex) {used : ℕ}
    (hfills : s.Fills → { s.put name o with used := used }.Fills)
    (rep' : h'.Represents { s.put name o with used := used }) :
    Tended s h' { s.put name o with used := used } := by
  have alters : s.Alters BelowClasses OfDictionaries { s.put name o with used := used } :=
    .put_new hnone hmade hfills
  exact ⟨⟨rep', alters⟩, fun d htable => htable.keep alters.toKeeps fun o ho _ =>
    (follows_put_of_none hnone _ used).same ho nofun, plain.keep alters.toKeeps⟩

/-- A store into a plain object. -/
lemma ensures_store_plain (rep : h.Represents s) (plain : s.IsPlain s.nil) (hname : s.IsPlain name)
    (index : ℕ) (value : Value) :
    Ensures (fun _ s h' s' => Tended s h' s') (store name index value) h s fun _ _ _ => True := by
  obtain ⟨o, ho, hbelow, hother⟩ := hname
  refine ensures_change ho (agree_store rep ho index value) (fun rep' => .refl rep' plain)
    fun {_ o' h'} hok rep' => ⟨?_, trivial⟩
  have alters : s.Alters BelowClasses OfDictionaries (s.put name o') :=
    .put ho (Object.sameShape_storeWord hok) (Object.flags_storeWord hok) hbelow
      (mutable_of_storeWord hok)
  refine ⟨⟨rep', alters⟩, fun d htable => htable.keep alters.toKeeps fun p hp hclass => ?_,
    plain.keep alters.toKeeps⟩
  rw [objects_put_of_ne, hp]
  rintro rfl
  obtain rfl := Option.some.inj (ho.symm.trans hp)
  exact hother hclass

/-- A store into a table, of its tally or of a plain object. -/
lemma ensures_store_table (rep : h.Represents s) (plain : s.IsPlain s.nil) (hd : s.IsTable d)
    {index : ℕ} {value : Value} (hvalue : index = Dictionary.tallySlot ∨ s.IsPlain value) :
    Ensures (fun _ s h' s' => Tended s h' s') (store d index value) h s fun _ _ _ => True := by
  obtain ⟨o, _, _, _, ho, hclass, -⟩ := id hd
  refine ensures_change ho (agree_store rep ho index value) (fun rep' => .refl rep' plain)
    fun {_ o' h'} hok rep' => ⟨?_, trivial⟩
  have hbelow : BelowClasses d o.classIndex := by
    rw [hclass]
    show ClassIndex.methodDictionary < ClassIndex.metaclass
    decide
  have alters : s.Alters BelowClasses OfDictionaries (s.put d o') :=
    .put ho (Object.sameShape_storeWord hok) (Object.flags_storeWord hok) hbelow
      (mutable_of_storeWord hok)
  refine ⟨⟨rep', alters⟩, fun other htable => ?_, plain.keep alters.toKeeps⟩
  by_cases hsame : other = d
  · exact hsame ▸ hd.storeWord ho (rep.holds ho).wellFormed hok hvalue alters.toKeeps
  · exact htable.keep alters.toKeeps fun p hp _ => (objects_put_of_ne s hsame o').trans hp

end Heap

namespace Dictionary

open Heap

variable {h : Heap} {s : ObjectMap} {d key value : Value}

/-- The arrays of a table are plain objects. -/
lemma isPlain_of_isTable (rep : h.Represents s) (hd : s.IsTable d) :
    (∀ {keyArray}, keys h d = .ok keyArray → s.IsPlain keyArray) ∧
      ∀ {valueArray}, values h d = .ok valueArray → s.IsPlain valueArray := by
  obtain ⟨o, tally, keyArray, valueArray, ho, -, hslots, hkeys, hvalues⟩ := hd
  have hfetch : ∀ {index value}, [tally, keyArray, valueArray][index]? = some value →
      h.fetch d index = .ok value := fetch_eq_of_hasSlots rep ⟨o, ho, hslots⟩
  rw [keys, values, hfetch (rfl : _ = some keyArray), hfetch (rfl : _ = some valueArray)]
  exact ⟨fun heq => Except.ok.inj heq ▸ hkeys, fun heq => Except.ok.inj heq ▸ hvalues⟩

/-- Each step of a change to a dictionary tends. -/
lemma steps_tended : Steps (fun h s => h.Represents s ∧ s.IsPlain s.nil)
    (fun _ s h' s' => Tended s h' s') ObjectMap.IsTable ObjectMap.IsPlain where
  refl hready := .refl hready.1 hready.2
  trans ht ht' := ht.trans ht'
  ready_of ht := ⟨ht.rep, ht.plain⟩
  isTable_of ht := ht.isTable _
  isArray_of ht hplain := hplain.keep ht.alters.toKeeps
  keys hready hd := (isPlain_of_isTable hready.1 hd).1
  values hready hd := (isPlain_of_isTable hready.1 hd).2
  allocateTable {h s} hready := by
    refine ensures_allocate hready.1 none (.refl hready.1 hready.2)
      fun {h' name address used} hclass hnone hfills rep' => ?_
    have tended : Tended s h' _ := tended_put_new hready.2 hnone (.inl rfl) hfills rep'
    have hplain := hready.2.keep tended.alters.toKeeps
    exact ⟨tended, _, s.nil, s.nil, s.nil, ObjectMap.objects_put_self s name _, rfl,
      Object.hasSlots_fresh s.nil rfl hclass, hplain, hplain⟩
  allocateArray {h s} size hready := by
    refine ensures_allocate hready.1 none (.refl hready.1 hready.2)
      fun {h' name address used} hclass hnone hfills rep' => ?_
    exact ⟨tended_put_new hready.2 hnone (.inr rfl) hfills rep', _,
      ObjectMap.objects_put_self s name _, by show ClassIndex.array < _; decide,
      by show ClassIndex.array ≠ _; decide⟩
  storeTable _ _ hready hd hvalue := ensures_store_table hready.1 hready.2 hd hvalue
  storeArray index value hready hname := ensures_store_plain hready.1 hready.2 hname index value

/-- A new dictionary is a table. -/
theorem staysTended_new (rep : h.Represents s) (plain : s.IsPlain s.nil) (capacity : ℕ) :
    Ensures (fun _ s h' s' => Tended s h' s') (new capacity) h s fun d _ s' => s'.IsTable d :=
  steps_tended.new ⟨rep, plain⟩ capacity

/-- Setting the value of any key in a table. -/
theorem staysTended_insert (rep : h.Represents s) (plain : s.IsPlain s.nil) (hd : s.IsTable d)
    (key value : Value) : Ensures (fun _ s h' s' => Tended s h' s') (insert d key value) h s
      fun _ _ _ => True :=
  steps_tended.insert ⟨rep, plain⟩ hd key value

end Dictionary

end TalkMachine
