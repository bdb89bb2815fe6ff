import TalkMachine.Proofs.Demo.Outcomes
import TalkMachine.Proofs.Machine.Adding

/-!
# Where the methods of the demonstration are found

The demonstration defines its class on any machine that is tracked, and its receiver understands the
two methods then (`Demo.understands_of_define`): each is generated once, nothing that is added later
stores into it, and it is what the class of the receiver has under its selector.
-/

namespace TalkMachine

namespace Demo

open Interpreter Machine

variable {m m' : Machine} {s : ObjectMap} {owner : Value → Option Value}
  {methods : Value → Option ClassMethods} {own : ClassMethods}
  {cls selector method receiver : Value} {construction : CodeM Unit}
  {argumentCount tempCount : ℕ} {name : String}

/-- A method that is generated is an object without slots beside all others. -/
lemma exists_built (tracks : m.Tracks s owner methods)
    (hok : Machine.build construction argumentCount tempCount m = .ok method m') :
    IsBuilt construction argumentCount tempCount method m' ∧ ∃ s' o, m'.Tracks s' owner methods ∧
      m.RetainsCode s m' s' ∧ s'.objects method = some o ∧ o.format.isPointers = false := by
  have rep := tracks.equipped.rep
  refine ⟨⟨m, m', .of_represents rep, hok, .refl _ _⟩, ?_⟩
  obtain ⟨code, -, hgenerate, hm'⟩ := IsBuilt.exists_generate hok
  obtain ⟨_, _, o, used, -, -, rep', hnone, hfills, hmethod⟩ := Code.exists_of_generate rep hgenerate
  obtain ⟨tracks', retains⟩ := tracks.put_new hnone rep' hfills
  rw [hm']
  exact ⟨_, o, tracks', retains, ObjectMap.objects_put_self s method o, by rw [hmethod.format]; rfl⟩

/-- A method that is defined is what its class has under its selector. -/
lemma exists_defined (tracks : m.Tracks s owner methods)
    (hselector : m.symbols[name]? = some selector)
    (hok : defineMethod cls selector construction argumentCount tempCount m = .ok method m') :
    IsBuilt construction argumentCount tempCount method m' ∧ ∃ s' owner' own o,
      methods cls = some own ∧ m'.Tracks s' owner' (Function.update methods cls
        (some ⟨own.dictionary, (selector, method) :: own.puts⟩)) ∧
      m.RetainsCode s m' s' ∧ s'.objects method = some o ∧ o.format.isPointers = false := by
  rw [defineMethod] at hok
  simp only [run_bind_eq_ok_iff] at hok
  obtain ⟨_, m₁, hbuild, _, _, hadd, ⟨⟩⟩ := hok
  obtain ⟨built₁, s₁, o, tracks₁, retains₁, ho, hpointers⟩ := exists_built tracks hbuild
  obtain ⟨s', owner', own, hcls, tracks', retains'⟩ :=
    tracks₁.exists_added (retains₁.symbol hselector) hadd
  obtain ⟨o', ho', hshape⟩ := retains'.keeps.shape ho
  exact ⟨built₁.keep (retains'.code ho hpointers), s', owner', own, o', hcls, tracks',
    retains₁.trans retains', ho', hshape.format ▸ hpointers⟩

/-- A method in the class of the receiver is found by a send. -/
lemma find_of_lookup (hclassOf : m.classOf receiver = .ok cls)
    (hlookup : m.lookup cls selector = .ok (some method))
    (built : IsBuilt construction argumentCount tempCount method m) :
    m.find receiver selector = .ok (some (.compiled method)) := by
  simp only [Machine.find, hclassOf, hlookup, Machine.methodKind, built.isCompiledMethod, bind,
    Except.bind, if_true]
  rfl

/-- On every machine that is tracked: when the demonstration has been defined, its receiver
understands both methods, each under the symbol of its name. -/
theorem understands_of_define (tracks : m.Tracks s owner methods) {demo : Demo}
    (hok : define m = .ok demo m') :
    ∃ factorial sum, m'.symbols[factorialSelector]? = some factorial ∧
      m'.symbols[sumSelector]? = some sum ∧ Understands m' demo.receiver factorial sum := by
  rw [define] at hok
  simp only [run_bind_eq_ok_iff, ask_eq_ok_iff] at hok
  obtain ⟨object, _, ⟨-, rfl⟩, cls, m₁, hclass, factorial, m₂, hintern, first, m₃, hfirst, sum, m₄,
    hintern', second, m₅, hsecond, receiver, _, hinstance, ⟨⟩⟩ := hok
  obtain ⟨_, s₁, owner₁, _, _, _, -, -, tracks₁⟩ := tracks.exists_of_defineClass hclass
  obtain ⟨s₂, tracks₂, -, hfactorial₂⟩ := tracks₁.exists_symbol hintern
  obtain ⟨built₃, s₃, owner₃, own, o, hcls, tracks₃, retains₃, ho, hpointers⟩ :=
    exists_defined tracks₂ hfactorial₂ hfirst
  obtain ⟨s₄, tracks₄, retains₄, hsum₄⟩ := tracks₃.exists_symbol hintern'
  obtain ⟨built₅, s₅, owner₅, own₅, o₅, hcls₅, tracks₅, retains₅, ho₅, hpointers₅⟩ :=
    exists_defined tracks₄ hsum₄ hsecond
  obtain ⟨s', tracks', retains', hclass', hclassOf⟩ := tracks₅.exists_instance hinstance
  have retains := (retains₄.trans retains₅).trans retains'
  have hfactorial := retains.symbol (retains₃.symbol hfactorial₂)
  have hsum := (retains₅.trans retains').symbol hsum₄
  rw [Function.update_self] at hcls₅
  obtain rfl := Option.some.inj hcls₅
  have built := built₃.keep (retains.code ho hpointers)
  have built' := built₅.keep (retains'.code ho₅ hpointers₅)
  -- The names differ, so the second method hides nothing.
  have hne : factorial ≠ sum := fun heq =>
    absurd (tracks'.equipped.name_eq (heq ▸ hfactorial) hsum) (by decide)
  refine ⟨factorial, sum, hfactorial, hsum, ⟨first, built, find_of_lookup hclassOf
    (tracks'.lookup_self hclass' (Function.update_self ..) hfactorial ?_) built⟩, second, built',
      find_of_lookup hclassOf
        (tracks'.lookup_self hclass' (Function.update_self ..) hsum List.lookup_cons_self) built'⟩
  rw [List.lookup_cons, beq_eq_false_iff_ne.mpr hne]
  exact List.lookup_cons_self

end Demo

end TalkMachine
