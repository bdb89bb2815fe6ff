import TalkMachine.Proofs.Dictionary.Steps
import TalkMachine.Proofs.Heap.Altering

/-!
# What lies beside a dictionary

A change to a dictionary stores into the dictionary, into its arrays and into arrays that it makes.
An object that is none of these stays as it is, whatever its class, and also where the change is
refused half way (`Dictionary.ensures_insert_beside`).
-/

namespace TalkMachine

namespace ObjectMap

variable {s s' : ObjectMap} {d target value : Value} {o o' : Object}

/-- Whether a value is an object beside a dictionary and a target. -/
def IsApart (s : ObjectMap) (d target value : Value) : Prop :=
  value ≠ d ∧ value ≠ target ∧ ∃ o, s.objects value = some o

/-- Objects remain objects. -/
lemma IsApart.keep (h : s.IsApart d target value) (hkeeps : s.Keeps s') : s'.IsApart d target value :=
  ⟨h.1, h.2.1, h.2.2.elim fun _ => hkeeps.exists_object⟩

/-- Whether a target is an object beside a dictionary, of which the arrays are objects beside both.
-/
structure LiesBeside (s : ObjectMap) (d target : Value) : Prop where
  ne : d ≠ target
  exists_target : ∃ o, s.objects target = some o
  slots : ∃ tally keys values, s.HasSlots d [tally, keys, values] ∧ s.IsApart d target keys ∧
    s.IsApart d target values

namespace LiesBeside

variable (beside : s.LiesBeside d target)
include beside

/-- The dictionary is an object. -/
lemma exists_dictionary : ∃ o, s.objects d = some o := by
  obtain ⟨_, _, _, ⟨o, ho, -⟩, -⟩ := beside.slots
  exact ⟨o, ho⟩

/-- A change that does not store into the dictionary leaves the target beside it. -/
lemma keep (hkeeps : s.Keeps s') (hslots : ∀ values, s.HasSlots d values → s'.HasSlots d values) :
    s'.LiesBeside d target := by
  obtain ⟨hne, ⟨o, ho⟩, tally, keys, values, hold, hkeys, hvalues⟩ := beside
  exact ⟨hne, hkeeps.exists_object ho, tally, keys, values, hslots _ hold, hkeys.keep hkeeps,
    hvalues.keep hkeeps⟩

/-- So does a store into the dictionary, of its tally or of an array beside the target. -/
lemma storeWord (ho : s.objects d = some o) (hwell : o.WellFormed) {index : ℕ}
    (hok : o.storeWord d index value.raw = .ok ((), o'))
    (hvalue : index = Dictionary.tallySlot ∨ s.IsApart d target value)
    (hkeeps : s.Keeps (s.put d o')) : (s.put d o').LiesBeside d target := by
  obtain ⟨hne, ⟨p, hp⟩, tally, keys, values, ⟨_, hsame, hslots⟩, hkeys, hvalues⟩ := beside
  obtain rfl := Option.some.inj (ho.symm.trans hsame)
  obtain ⟨hindex, hslots'⟩ := hslots.storeWord hwell hok
  have ho' := objects_put_self s d o'
  refine ⟨hne, hkeeps.exists_object hp, ?_⟩
  match index, hindex with
  | 0, _ => exact ⟨value, keys, values, ⟨o', ho', hslots'⟩, hkeys.keep hkeeps, hvalues.keep hkeeps⟩
  | 1, _ => exact ⟨tally, value, values, ⟨o', ho', hslots'⟩,
      (hvalue.resolve_left (by decide)).keep hkeeps, hvalues.keep hkeeps⟩
  | 2, _ => exact ⟨tally, keys, value, ⟨o', ho', hslots'⟩, hkeys.keep hkeeps,
      (hvalue.resolve_left (by decide)).keep hkeeps⟩

end LiesBeside

end ObjectMap

namespace Dictionary

open Heap ObjectMap

variable {h h' h'' : Heap} {s s' s'' : ObjectMap} {d target key value name : Value} {o o' : Object}

/-- Whether a heap has come out of changes to a dictionary, and the target lies beside it as before.
-/
structure ChangedBeside (d target : Value) (s : ObjectMap) (h' : Heap) (s' : ObjectMap) : Prop
    extends Altered (fun name _ => name ≠ target) (fun _ => True) s h' s' where
  beside : s'.LiesBeside d target

/-- The target is as it was. -/
lemma ChangedBeside.holds (hc : ChangedBeside d target s h' s') (ho : s.objects target = some o) :
    h'.Holds target.raw.toNat o :=
  hc.rep.holds (hc.alters.objects_eq ho fun hne => absurd rfl hne)

/-- A store into an object other than the target. -/
lemma ensures_store_beside (rep : h.Represents s) (beside : s.LiesBeside d target)
    (ho : s.objects name = some o) (hne : name ≠ target) (index : ℕ) (value : Value)
    (hvalue : name = d → index = tallySlot ∨ s.IsApart d target value) :
    Ensures (fun _ s h' s' => ChangedBeside d target s h' s') (Heap.store name index value) h s
      fun _ _ _ => True := by
  refine ensures_change ho (agree_store rep ho index value) (fun rep' => ⟨.refl rep', beside⟩)
    fun {_ o' h'} hok rep' => ⟨?_, trivial⟩
  have alters : s.Alters (fun name _ => name ≠ target) (fun _ => True) (s.put name o') :=
    .put ho (Object.sameShape_storeWord hok) (Object.flags_storeWord hok) hne (mutable_of_storeWord hok)
  refine ⟨⟨rep', alters⟩, ?_⟩
  by_cases hsame : d = name
  · subst hsame
    exact beside.storeWord ho (rep.holds ho).wellFormed hok (hvalue rfl) alters.toKeeps
  · exact beside.keep alters.toKeeps fun _ ⟨p, hp, hslots⟩ =>
      ⟨p, (objects_put_of_ne s hsame o').trans hp, hslots⟩

/-- The steps of a change to the dictionary are beside the target. -/
lemma steps_beside (d target : Value) :
    TableSteps (fun h s => h.Represents s ∧ s.LiesBeside d target)
      (fun _ s h' s' => ChangedBeside d target s h' s') (fun _ value => value = d)
      (fun s value => s.IsApart d target value) where
  refl hready := ⟨.refl hready.1, hready.2⟩
  trans hc hc' := ⟨hc.toAltered.trans hc'.toAltered, hc'.beside⟩
  ready_of hc := ⟨hc.rep, hc.beside⟩
  isTable_of _ := id
  isArray_of hc harray := harray.keep hc.alters.toKeeps
  keys {h s _ array} hready hd hkeys := by
    obtain ⟨tally, keyArray, valueArray, hslots, hapart, -⟩ := hready.2.slots
    have hslot : [tally, keyArray, valueArray][keysSlot]? = some keyArray := rfl
    have hfetch := fetch_eq_of_hasSlots hready.1 hslots hslot
    subst hd
    rw [Dictionary.keys, hfetch] at hkeys
    exact Except.ok.inj hkeys ▸ hapart
  values {h s _ array} hready hd hvalues := by
    obtain ⟨tally, keyArray, valueArray, hslots, -, hapart⟩ := hready.2.slots
    have hslot : [tally, keyArray, valueArray][valuesSlot]? = some valueArray := rfl
    have hfetch := fetch_eq_of_hasSlots hready.1 hslots hslot
    subst hd
    rw [Dictionary.values, hfetch] at hvalues
    exact Except.ok.inj hvalues ▸ hapart
  allocateArray {h s} size hready := by
    obtain ⟨rep, beside⟩ := hready
    refine ensures_allocate rep none ⟨.refl rep, beside⟩
      fun {h' name address used} _ hnone hfills rep' => ?_
    have hretains := Retains.put_new hnone _ used hfills
    have hnot : ∀ {other}, (∃ o, s.objects other = some o) → name ≠ other := by
      rintro _ ⟨o, ho⟩ rfl
      rw [hnone] at ho
      cases ho
    exact ⟨⟨⟨rep', .put_new hnone trivial hfills⟩, beside.keep hretains.toKeeps fun _ =>
        hretains.slots List.not_mem_nil⟩,
      hnot beside.exists_dictionary, hnot beside.exists_target, _, objects_put_self s name _⟩
  storeTable {h s _} index value hready hd hvalue := by
    subst hd
    obtain ⟨o, ho⟩ := hready.2.exists_dictionary
    exact ensures_store_beside hready.1 hready.2 ho hready.2.ne index value fun _ => hvalue
  storeArray {h s array} index value hready harray := by
    obtain ⟨hd, htarget, o, ho⟩ := harray
    exact ensures_store_beside hready.1 hready.2 ho htarget index value fun heq => absurd heq hd

/-- Whatever key is set in a dictionary, all that lies beside it stays as it is. -/
theorem ensures_insert_beside (rep : h.Represents s) (beside : s.LiesBeside d target)
    (key value : Value) :
    Ensures (fun _ s h' s' => ChangedBeside d target s h' s') (insert d key value) h s
      fun _ _ _ => True :=
  (steps_beside d target).insert ⟨rep, beside⟩ rfl key value

end Dictionary

end TalkMachine
