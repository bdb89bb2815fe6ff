import TalkMachine.Proofs.Code.MethodObject
import TalkMachine.Proofs.Dictionary.Beside
import TalkMachine.Proofs.Machine.Kernel
import TalkMachine.Proofs.Machine.Making

/-!
# What is added to a machine

Symbols, methods and instances are added to a machine that is tracked; it is tracked then, and its
code is as it was: objects without slots have been stored into by none of this
(`Machine.RetainsCode`).
-/

namespace TalkMachine

namespace Machine

variable {m m' m'' : Machine} {s s' s'' : ObjectMap} {owner owner' : Value → Option Value}
  {methods methods' : Value → Option ClassMethods} {own : ClassMethods}
  {cls selector method value : Value} {name : String}

/-- Whether a machine has been added to. All that it remembers is there, objects have kept their
shape, and those without slots are as they were. -/
structure RetainsCode (m : Machine) (s : ObjectMap) (m' : Machine) (s' : ObjectMap) : Prop
    extends m.Remembers m' where
  keeps : s.Keeps s'
  code : ∀ {object : Value} {o : Object}, s.objects object = some o → o.format.isPointers = false →
    Heap.Keeps object m.heap m'.heap

/-- One addition after the other. -/
lemma RetainsCode.trans (h : m.RetainsCode s m' s') (h' : m'.RetainsCode s' m'' s'') :
    m.RetainsCode s m'' s'' := by
  refine ⟨h.toRemembers.trans h'.toRemembers, h.keeps.trans h'.keeps, fun ho hpointers => ?_⟩
  obtain ⟨o', ho', hshape⟩ := h.keeps.shape ho
  exact (h.code ho hpointers).trans (h'.code ho' (hshape.format ▸ hpointers))

/-- Where all objects are the same, the code is. -/
lemma RetainsCode.of_same (remembers : m.Remembers m') (rep : m.heap.Represents s)
    (rep' : m'.heap.Represents s') (keeps : s.Keeps s')
    (hsame : ∀ {object : Value} {o : Object}, s.objects object = some o →
      s'.objects object = some o) : m.RetainsCode s m' s' :=
  ⟨remembers, keeps, fun ho _ =>
    .of_holds (.of_represents rep) (.of_represents rep') (rep.holds ho) (rep'.holds (hsame ho))⟩

/-- An object without slots lies beside each dictionary. -/
lemma liesBeside_of_hasParts {d object keyArray valueArray : Value} {n : ℕ} {ks vs : List Value}
    {o : Object} (parts : Dictionary.HasParts s d n keyArray valueArray ks vs)
    (ho : s.objects object = some o) (hpointers : o.format.isPointers = false) :
    s.LiesBeside d object := by
  have hne : ∀ {part values}, s.HasSlots part values → part ≠ object := by
    rintro part values ⟨p, hp, hslots⟩ rfl
    obtain rfl := Option.some.inj (ho.symm.trans hp)
    rw [hslots.isPointers] at hpointers
    cases hpointers
  have hobject : ∀ {part values}, s.HasSlots part values → ∃ p, s.objects part = some p :=
    fun ⟨p, hp, _⟩ => ⟨p, hp⟩
  exact ⟨hne parts.dictionary, ⟨o, ho⟩, _, keyArray, valueArray, parts.dictionary,
    ⟨parts.keys_ne, hne parts.keys, hobject parts.keys⟩,
    parts.values_ne, hne parts.values, hobject parts.values⟩

namespace Tracks

variable (tracks : m.Tracks s owner methods)
include tracks

/-- One object more. -/
lemma put_new {h' : Heap} {o : Object} {used : ℕ} (hnone : s.objects value = none)
    (rep' : h'.Represents { s.put value o with used := used })
    (hfills : s.Fills → { s.put value o with used := used }.Fills) :
    (m.withHeap h').Tracks { s.put value o with used := used } owner methods ∧
      m.RetainsCode s (m.withHeap h') { s.put value o with used := used } := by
  have hretains := ObjectMap.Retains.put_new hnone o used hfills
  exact ⟨⟨tracks.equipped.keep rep' hretains nofun rfl rfl,
      tracks.complete.remembers (.withHeap m h'), tracks.numbered.keep rfl hretains.toKeeps,
      hfills tracks.fills⟩,
    .of_same (.withHeap m h') tracks.equipped.rep rep' hretains.toKeeps fun ho =>
      (ObjectMap.follows_put_of_none hnone o used).same ho nofun⟩

/-- A symbol that is interned. -/
lemma exists_symbol (hok : intern name m = .ok symbol m') :
    ∃ s', m'.Tracks s' owner methods ∧ m.RetainsCode s m' s' ∧ m'.symbols[name]? = some symbol := by
  have rep := tracks.equipped.rep
  obtain ⟨s', equipped', hretains, hsymbol, hnatives, remembers⟩ := tracks.equipped.exists_of_intern hok
  refine ⟨s', ⟨equipped', tracks.complete.remembers remembers,
    tracks.numbered.keep hnatives hretains.toKeeps, hretains.fills tracks.fills⟩,
    ⟨remembers, hretains.toKeeps, fun {object o} ho _ => ?_⟩, hsymbol⟩
  rcases intern_cases_of_represents rep name with ⟨_, -, hknown⟩ | ⟨-, _, _, herror⟩ |
    ⟨-, made, h', _, hmade, rep', hnone, -, -, p, used, rfl⟩
  · obtain ⟨-, rfl⟩ := EStateM.Result.ok.inj (hok.symm.trans hknown)
    exact .refl _ _
  · rw [herror] at hok
    cases hok
  · obtain ⟨-, rfl⟩ := EStateM.Result.ok.inj (hok.symm.trans hmade)
    exact .of_holds (.of_represents rep) (.of_represents rep') (rep.holds ho)
      (rep'.holds ((ObjectMap.follows_put_of_none hnone p used).same ho nofun))

/-- A method that is put into a class. -/
lemma exists_added (hselector : m.symbols[name]? = some selector)
    (hok : addMethod cls selector method m = .ok () m') :
    ∃ s' owner' own, methods cls = some own ∧ m'.Tracks s' owner' (Function.update methods cls
        (some ⟨own.dictionary, (selector, method) :: own.puts⟩)) ∧ m.RetainsCode s m' s' := by
  obtain ⟨hnil, hobject⟩ := tracks.equipped.symbol hselector
  obtain ⟨s', owner', own, hcls, tracks', hkeeps⟩ :=
    tracks.exists_of_addMethod (tracks.equipped.nil_eq ▸ hnil) (.inr hobject) hok
  refine ⟨s', owner', own, hcls, tracks', ?_⟩
  rw [addMethod] at hok
  simp only [run_bind_eq_ok_iff, ask_eq_ok_iff, onHeap_eq_ok_iff] at hok
  obtain ⟨dictionary, _, ⟨hdictionary, rfl⟩, h', hinsert, rfl⟩ := hok
  obtain ⟨_, hsame, rfl⟩ := tracks.exists_methods hdictionary
  obtain rfl := Option.some.inj (hcls.symm.trans hsame)
  obtain ⟨_, _, _, _, _, _, _, -, contains, -, -⟩ := tracks.equipped.hasMethods hcls
  have rep := tracks.equipped.rep
  refine ⟨.withHeap m h', hkeeps.toKeeps, fun ho hpointers => ?_⟩
  have beside := liesBeside_of_hasParts contains.parts ho hpointers
  obtain ⟨s₁, changed, -⟩ :=
    (Dictionary.ensures_insert_beside rep beside selector method).of_ok hinsert
  exact .of_holds (.of_represents rep) (.of_represents changed.rep) (rep.holds ho) (changed.holds ho)

/-- What is a class stays one. -/
lemma isClass_of_retainsCode (tracks' : m'.Tracks s' owner' methods')
    (retains : m.RetainsCode s m' s')
    (hclass : m.isClass cls = true) : m'.isClass cls = true := by
  obtain ⟨hobject, hash, hhash, hat⟩ := isClass_eq_true_iff.mp hclass
  obtain ⟨hash', hbefore, hafter⟩ := Heap.exists_identityHashOf tracks.equipped.rep
    tracks'.equipped.rep retains.keeps (.inr (tracks.exists_object_of_shows (.cls hclass)))
  obtain rfl := Except.ok.inj (hhash.symm.trans hbefore)
  exact isClass_eq_true_iff.mpr ⟨hobject, hash, hafter,
    (classAt?_congr retains.classTable_eq retains.nil_eq hash).trans hat⟩

/-- An instance that is made. -/
lemma exists_instance {indexed : ℕ} (hok : instantiate cls indexed m = .ok value m') :
    ∃ s', m'.Tracks s' owner methods ∧ m.RetainsCode s m' s' ∧ m'.isClass cls = true ∧
      m'.classOf value = .ok cls := by
  rw [instantiate] at hok
  obtain ⟨index, _, hask, hok⟩ := run_bind_eq_ok_iff.mp hok
  obtain ⟨hindex, rfl⟩ := ask_eq_ok_iff.mp hask
  obtain ⟨_, hexpect, -⟩ := bind_eq_ok_iff.mp hindex
  have hclass := expectClass_eq_ok_iff.mp hexpect
  have hat : m.classAt? index = some cls := classAt?_of_classIndexOfClass hindex
  split at hok
  · cases hok
  · obtain ⟨spec, _, hspec, hok⟩ := run_bind_eq_ok_iff.mp hok
    obtain ⟨-, rfl⟩ := ask_eq_ok_iff.mp hspec
    obtain ⟨h', hallocate, rfl⟩ := change_eq_ok_iff.mp hok
    obtain ⟨-, hnone, address, used, s', rfl, rep', hfills⟩ :=
      Heap.exists_fresh_of_allocate tracks.equipped.rep hallocate
    obtain ⟨tracks', retains⟩ := tracks.put_new hnone rep' hfills
    have hshows := (rep'.holds (ObjectMap.objects_put_self s value _)).shows rep'.usedBytes_lt
    exact ⟨_, tracks', retains, tracks.isClass_of_retainsCode tracks' retains hclass,
      (classOf_eq_ok_iff hshows.classIndex).mpr hat⟩

/-- What has been put into a class is found from there. -/
lemma lookup_self (hclass : m.isClass cls = true) (hcls : methods cls = some own)
    (hselector : m.symbols[name]? = some selector) (hput : own.puts.lookup selector = some method) :
    m.lookup cls selector = .ok (some method) := by
  have hfind := tracks.equipped.find?_eq hcls (tracks.isSelector_of_symbol hselector)
  rw [lookup, lookupFrom, if_neg (ne_nil_of_isClass hclass),
    tracks.equipped.methodDictionary_eq hclass hcls]
  simp only [Bind.bind, Except.bind, hfind, hput]
  rfl

end Tracks

end Machine

end TalkMachine
