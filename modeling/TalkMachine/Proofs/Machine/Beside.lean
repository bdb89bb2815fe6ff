import TalkMachine.Proofs.Machine.Standard
import TalkMachine.Proofs.Machine.Tracking

/-!
# Objects beside the kernel

What a machine does not show can be stored into by anyone, and so can what is new. An operation on the
heap about such an object, whether it succeeds or not, leaves all classes in their pairs
(`Machine.Standard.exists_of_action`) and all methods in their dictionaries
(`Machine.Tracks.exists_of_action`).
-/

namespace TalkMachine

open ObjectMap

/-! ### One operation -/

/-- An operation about an allocated object that sets no other nil leaves all other objects as they are.
-/
lemma Heap.exists_follows_action {h : Heap} {s : ObjectMap} (rep : h.Represents s) (fills : s.Fills)
    {action : Heap.Action} (hnil : ∀ nil, action ≠ .setNil nil)
    (htarget : ∀ target ∈ action.target?, h.Allocated target) :
    ∃ s', (stateAfter (action.onHeap h)).Represents s' ∧ s.Keeps s' ∧ s.Follows action.target? s' :=
  ⟨stateAfter (action.onMap s),
    (agree_action rep action fun target hmem => htarget target hmem s rep fills).outcome_eq.2,
    keeps_action rep hnil, follows_action rep action⟩

/-- The methods of a class stay when neither the class nor a part of its dictionary is stored into. -/
lemma HasMethods.follows {h h' : Heap} {s s' : ObjectMap} {owner : Value → Option Value} {cls : Value}
    {own : ClassMethods} {target? : Option Value} (has : HasMethods h s owner cls own)
    (rep : h.Represents s) (rep' : h'.Represents s') (hkeeps : s.Keeps s')
    (hfollows : s.Follows target? s') (hcls : target? ≠ some cls)
    (hparts : ∀ part ∈ own.dictionary :: Dictionary.arrays h own.dictionary, target? ≠ some part) :
    HasMethods h' s' owner cls own := by
  obtain ⟨superclass, format, name, keyArray, valueArray, ks, vs, hslots, contains, hlength, howned⟩ :=
    has
  rw [contains.arrays_eq rep] at hparts
  have hkeepsBut : s.KeepsBut target?.toList s' :=
    ⟨hkeeps, fun hname hslots => hslots.follows hfollows fun heq => hname (by simp [heq])⟩
  have contains' := contains.keep rep rep' hkeepsBut fun part hmem hpart =>
    hparts part hmem (by simpa using hpart)
  refine ⟨superclass, format, name, keyArray, valueArray, ks, vs, hslots.follows hfollows hcls,
    contains', hlength, fun part hmem => ?_⟩
  obtain ⟨howner, o, ho, hmutable⟩ := howned part hmem
  exact ⟨howner, o, hfollows.same ho (hparts part hmem), hmutable⟩

namespace Machine

variable {m : Machine} {s s' : ObjectMap} {h' : Heap} {p : ClassPair} {action : Heap.Action}
  {target? : Option Value} {owner : Value → Option Value} {methods : Value → Option ClassMethods}

/-! ### Classes in pairs -/

section Follows

variable (rep' : h'.Represents s') (hkeeps : s.Keeps s') (hfollows : s.Follows target? s')
  (hbeside : ∀ target ∈ target?, ¬m.Shows target)
include hfollows hbeside

/-- What a machine shows stays as it is. -/
lemma Shows.same {value : Value} {o : Object} (hshows : m.Shows value)
    (ho : s.objects value = some o) : s'.objects value = some o :=
  hfollows.same ho fun htarget => hbeside value htarget hshows

/-- A pair stays one. -/
lemma HasPair.follows (pair : m.HasPair s p) (based : m.Based s) : (m.withHeap h').HasPair s' p := by
  have hshows : ∀ {index cls}, m.classAt? index = some cls → m.Shows cls := fun hat =>
    .cls (based.isClass_iff.mpr ⟨_, hat⟩)
  obtain ⟨o, dictionary, symbol, ho, hobject⟩ := pair.object
  obtain ⟨o', dictionary', format, ho', hmetaObject⟩ := pair.metaObject
  exact ⟨pair.classAt?_index, pair.classAt?_metaIndex, pair.dynamic,
    ⟨o, dictionary, symbol, (hshows pair.classAt?_index).same hfollows hbeside ho, hobject⟩,
    o', dictionary', format, (hshows pair.classAt?_metaIndex).same hfollows hbeside ho', hmetaObject⟩

include rep' hkeeps

/-- The machine is based on objects again. -/
lemma Based.follows (based : m.Based s) : (m.withHeap h').Based s' := by
  refine ⟨rep', hkeeps.fills based.fills, hkeeps.nil_eq.trans based.nil_eq, ?_, fun hat => ?_,
    fun hsymbol => ?_⟩
  · obtain ⟨o, ho, hclass, hslots⟩ := based.nil
    obtain ⟨o', ho', hshape⟩ := hkeeps.shape ho
    refine ⟨o', ho', hshape.classIndex.trans hclass, ?_⟩
    rw [Object.slotCount, hshape.length]
    exact hslots
  · obtain ⟨o, ho, hhash, hclass⟩ := based.table hat
    obtain ⟨o', ho', hshape⟩ := hkeeps.shape ho
    exact ⟨o', ho', hshape.hash.trans hhash, hshape.classIndex.symm ▸ hclass⟩
  · obtain ⟨o, ho, hspells⟩ := based.symbol hsymbol
    have hshows : m.Shows _ := .symbol hsymbol
    exact ⟨o, hshows.same hfollows hbeside ho, hspells⟩

omit rep' in
/-- The classes have method dictionaries that can be used again. -/
lemma Sheltered.follows (sheltered : m.Sheltered s) (based : m.Based s) :
    (m.withHeap h').Sheltered s' := by
  intro index cls hat
  have hclass : m.isClass cls = true := based.isClass_iff.mpr ⟨index, hat⟩
  obtain ⟨o, superclass, dictionary, format, name, ho, hindex, hslots, hdictionary⟩ := sheltered hat
  refine ⟨o, superclass, dictionary, format, name, (Shows.cls hclass).same hfollows hbeside ho, hindex,
    hslots, hdictionary.imp (fun hnil => hnil.trans hkeeps.nil_eq.symm) fun htable => ?_⟩
  have hfetch : m.heap.fetch cls ClassSlot.methodDictionary = .ok dictionary :=
    Heap.fetch_eq_of_hasSlots based.rep ⟨o, ho, hslots⟩ rfl
  have hshows : m.Shows dictionary := .dictionary ((classSlot_eq_ok_iff hclass).mpr hfetch)
  exact htable.keep hkeeps fun p hp _ => hshows.same hfollows hbeside hp

end Follows

/-- An operation on the heap beside what a machine shows leaves it standard. -/
theorem Standard.exists_of_action (h : m.Standard s) (hnil : ∀ nil, action ≠ .setNil nil)
    (htarget : ∀ target ∈ action.target?, m.heap.Allocated target ∧ ¬m.Shows target) :
    ∃ s', (m.withHeap (stateAfter (action.onHeap m.heap))).Standard s' := by
  obtain ⟨s', rep', hkeeps, hfollows⟩ := Heap.exists_follows_action h.based.rep h.based.fills hnil
    fun target hmem => (htarget target hmem).1
  have hbeside := fun target hmem => (htarget target hmem).2
  have hpairs : ∀ p, m.HasPair s p →
      (m.withHeap (stateAfter (action.onHeap m.heap))).HasPair s' p :=
    fun p pair => pair.follows hfollows hbeside h.based
  refine ⟨s', h.keep (h.based.follows rep' hkeeps hfollows hbeside)
    (Sheltered.follows hkeeps hfollows hbeside h.classified.sheltered h.based)
    (fun place value hat => ?_) hpairs rfl id ⟨rfl, rfl⟩⟩
  obtain ⟨p, pair, hincludes, hp⟩ := h.classified.paired place value hat
  exact ⟨p, hpairs p pair, hincludes, hp⟩

/-! ### Methods -/

/-- The methods of the classes in the table of a machine, as far as they are known. -/
def tabled (m : Machine) (methods : Value → Option ClassMethods) (cls : Value) :
    Option ClassMethods :=
  if m.isClass cls then methods cls else none

/-- An operation on the heap beside what a machine shows leaves it tracked. -/
theorem Tracks.exists_of_action (tracks : m.Tracks s owner methods)
    (htable : ∀ {index cls}, m.classAt? index = some cls → m.isClass cls = true)
    (hnil : ∀ nil, action ≠ .setNil nil)
    (htarget : ∀ target ∈ action.target?, m.heap.Allocated target ∧ ¬m.Shows target) :
    ∃ s', (m.withHeap (stateAfter (action.onHeap m.heap))).Tracks s' owner (m.tabled methods) ∧
      s.Keeps s' ∧ s.Follows action.target? s' := by
  have rep := tracks.equipped.rep
  obtain ⟨s', rep', hkeeps, hfollows⟩ := Heap.exists_follows_action rep tracks.fills hnil
    fun target hmem => (htarget target hmem).1
  have hbeside : ∀ {value}, m.Shows value → action.target? ≠ some value := fun hshows heq =>
    (htarget _ heq).2 hshows
  have hmethods : ∀ {cls own}, m.tabled methods cls = some own →
      m.isClass cls = true ∧ methods cls = some own := fun hcls =>
    Option.ite_none_right_eq_some.mp hcls
  -- A class that is not in the table may have been stored into, so no more is known of its methods.
  have restricted := tracks.equipped.restrict fun hcls => (hmethods hcls).2
  refine ⟨s', ⟨restricted.of_hasMethods rep' hkeeps rfl rfl fun hcls has => ?_, fun index cls hat => ?_,
    tracks.numbered.keep rfl hkeeps, hkeeps.fills tracks.fills⟩, hkeeps, hfollows⟩
  · obtain ⟨hclass, hknown⟩ := hmethods hcls
    have hdictionary := tracks.equipped.methodDictionary_eq hclass hknown
    refine has.follows rep rep' hkeeps hfollows (hbeside (.cls hclass)) ?_
    rw [List.forall_mem_cons]
    exact ⟨hbeside (.dictionary hdictionary), fun part hmem => hbeside (.array hdictionary hmem)⟩
  · obtain ⟨own, hown⟩ := tracks.complete index cls hat
    exact ⟨own, Option.ite_none_right_eq_some.mpr ⟨htable hat, hown⟩⟩

end Machine

end TalkMachine
