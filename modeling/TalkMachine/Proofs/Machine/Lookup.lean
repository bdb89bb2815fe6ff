import TalkMachine.Proofs.Machine.Equipment
import TalkMachine.Proofs.Machine.Hierarchy

/-!
# Finding methods

The method for a selector is that of the first class on a line that has one
(`Machine.Equipped.lookup_eq`). So the methods that are put into one class replace what is found from
just those classes on whose line it is the first with the selector
(`Machine.Equipped.lookup_of_isNearest`, `Machine.Equipped.lookup_of_not_isNearest`).
-/

namespace TalkMachine

namespace Machine

variable {m m' : Machine} {s s' : ObjectMap} {cls current selector : Value} {line : List Value}
  {owner owner' : Value → Option Value} {methods methods' : Value → Option ClassMethods}
  {own : ClassMethods}

/-! ### Classes that define a selector -/

/-- Whether the method dictionary of a class holds a selector. -/
def Defines (m : Machine) (selector cls : Value) : Prop :=
  ∃ dictionary method, m.methodDictionary cls = .ok dictionary ∧
    Dictionary.find? m.heap dictionary selector = .ok (some method)

/-- What defines a selector is a class. -/
lemma Defines.isClass (hdefines : m.Defines selector cls) : m.isClass cls = true := by
  obtain ⟨dictionary, _, hdictionary, -⟩ := hdefines
  exact isClass_of_methodDictionary hdictionary

/-- Whether a class is the first one of a line whose method dictionary holds a selector. -/
def IsNearest (m : Machine) (selector cls : Value) (line : List Value) : Prop :=
  ∃ below above, line = below ++ cls :: above ∧ m.Defines selector cls ∧
    ∀ other ∈ below, ¬m.Defines selector other

/-- Whether a value can be a selector: it has an identity hash and is not nil. -/
def IsSelector (m : Machine) (selector : Value) : Prop :=
  selector ≠ m.nil ∧ ∃ hash, m.heap.identityHashOf selector = .ok hash

/-- The method that has been put last under a selector into a class. -/
def methodUnder (methods : Value → Option ClassMethods) (selector cls : Value) : Option Value :=
  (methods cls).bind fun own => own.puts.lookup selector

/-- All of a line that are classes have methods. -/
lemma Complete.exists_methods (complete : m.Complete methods) (hclass : m.isClass cls = true) :
    ∃ own, methods cls = some own := by
  obtain ⟨-, hash, -, hat⟩ := isClass_eq_true_iff.mp hclass
  exact complete hash cls hat

namespace Equipped

variable (equipped : m.Equipped s owner methods)
include equipped

/-- What is found in the method dictionary of a class. -/
lemma find?_eq (hcls : methods cls = some own) (hselector : m.IsSelector selector) :
    Dictionary.find? m.heap own.dictionary selector = .ok (own.puts.lookup selector) := by
  obtain ⟨hnil, hash, hhash⟩ := hselector
  obtain ⟨_, _, _, keyArray, valueArray, ks, vs, -, contains, -, -⟩ := equipped.hasMethods hcls
  refine contains.parts.find?_eq equipped.rep contains.table contains.means hhash ?_
  rwa [equipped.rep.nil_eq, equipped.nil_eq]

/-- A class defines the selectors under which something has been put into it. -/
lemma defines_iff (complete : m.Complete methods) (hclass : m.isClass cls = true)
    (hselector : m.IsSelector selector) :
    m.Defines selector cls ↔ (methodUnder methods selector cls).isSome := by
  obtain ⟨own, hcls⟩ := complete.exists_methods hclass
  rw [methodUnder, hcls, Option.bind_some, Option.isSome_iff_exists]
  constructor
  · rintro ⟨dictionary, method, hdictionary, hfind⟩
    obtain rfl := Except.ok.inj ((equipped.methodDictionary_eq hclass hcls).symm.trans hdictionary)
    exact ⟨method, Except.ok.inj ((equipped.find?_eq hcls hselector).symm.trans hfind)⟩
  · rintro ⟨method, hmethod⟩
    exact ⟨own.dictionary, method, equipped.methodDictionary_eq hclass hcls,
      (equipped.find?_eq hcls hselector).trans (congrArg _ hmethod)⟩

/-- A search with a step for each class of a line finds what the first of them has that has any. -/
lemma lookupFrom_eq (complete : m.Complete methods) (hline : m.Line current line)
    (hselector : m.IsSelector selector) {steps : ℕ} (hsteps : line.length ≤ steps) (start : Value) :
    m.lookupFrom start selector steps current =
      .ok (line.findSome? (methodUnder methods selector)) := by
  induction hline generalizing steps with
  | nil => cases steps <;> simp [lookupFrom]
  | @cons current next line hnext rest ih =>
    obtain ⟨steps, rfl⟩ : ∃ n, steps = n + 1 := ⟨steps - 1, by simp at hsteps; omega⟩
    have hclass := isClass_of_superclass hnext
    obtain ⟨own, hcls⟩ := complete.exists_methods hclass
    have hunder : methodUnder methods selector current = own.puts.lookup selector := by
      rw [methodUnder, hcls, Option.bind_some]
    rw [lookupFrom, if_neg (ne_nil_of_superclass hnext), equipped.methodDictionary_eq hclass hcls]
    simp only [Bind.bind, Except.bind, equipped.find?_eq hcls hselector, List.findSome?_cons, hunder]
    cases own.puts.lookup selector with
    | some method => rfl
    | none =>
      simp only [hnext]
      exact ih (by simpa using hsteps)

/-- What is found from a class on is what the first class of its line has that has any. -/
theorem lookup_eq (complete : m.Complete methods) (hline : m.Line current line)
    (hselector : m.IsSelector selector) :
    m.lookup current selector = .ok (line.findSome? (methodUnder methods selector)) :=
  equipped.lookupFrom_eq complete hline hselector (Nat.le_succ_of_le hline.length_le) current

end Equipped

/-! ### Methods that are put into one class -/

/-- Where two searches differ at one element only, the later finds what is there if nothing comes
before it, and else what the former finds. -/
lemma findSome?_cases {α β : Type} {f g : α → Option β} {a : α} (hsame : ∀ b, b ≠ a → g b = f b)
    (ha : (g a).isSome) (l : List α) :
    (∃ below above, l = below ++ a :: above ∧ ∀ b ∈ below, g b = none) ∧ l.findSome? g = g a ∨
    (¬∃ below above, l = below ++ a :: above ∧ ∀ b ∈ below, g b = none) ∧
      l.findSome? g = l.findSome? f := by
  induction l with
  | nil => exact .inr ⟨by simp, rfl⟩
  | cons b rest ih =>
    by_cases hb : b = a
    · subst hb
      obtain ⟨c, hc⟩ := Option.isSome_iff_exists.mp ha
      exact .inl ⟨⟨[], rest, rfl, by simp⟩, by simp [hc]⟩
    · rw [List.findSome?_cons, List.findSome?_cons, hsame b hb]
      have hiff : (∃ below above, b :: rest = below ++ a :: above ∧ ∀ b ∈ below, g b = none) ↔
          f b = none ∧ ∃ below above, rest = below ++ a :: above ∧ ∀ b ∈ below, g b = none := by
        constructor
        · rintro ⟨below, above, hsplit, hnone⟩
          cases below with
          | nil => exact absurd (List.cons.inj hsplit).1 hb
          | cons c below =>
            obtain ⟨rfl, hrest⟩ := List.cons.inj hsplit
            rw [List.forall_mem_cons] at hnone
            exact ⟨hsame b hb ▸ hnone.1, below, above, hrest, hnone.2⟩
        · rintro ⟨hnone, below, above, rfl, hbelow⟩
          exact ⟨b :: below, above, rfl, List.forall_mem_cons.mpr ⟨(hsame b hb).trans hnone, hbelow⟩⟩
      rw [hiff]
      cases hf : f b with
      | some c => exact .inr ⟨by simp, rfl⟩
      | none => simpa using ih

section Overriding

variable (equipped : m.Equipped s owner methods) (complete : m.Complete methods)
  (equipped' : m'.Equipped s' owner' methods') (complete' : m'.Complete methods')
  (relinked : m.Relinked m' fun _ => none)
include equipped complete equipped' complete' relinked

/-- Where the same has been put under a selector into all classes, the same is found. -/
theorem Equipped.lookup_of_methodUnder_eq (hline : m.Line current line)
    (hselector : m.IsSelector selector) (hselector' : m'.IsSelector selector)
    (hsame : ∀ other, methodUnder methods' selector other = methodUnder methods selector other) :
    m'.lookup current selector = m.lookup current selector := by
  rw [equipped.lookup_eq complete hline hselector,
    equipped'.lookup_eq complete' (relinked.line hline fun _ _ => rfl) hselector', funext hsame]

omit equipped complete in
/-- A class is the first of a line to define a selector where nothing has been put under it into those
before. -/
lemma Equipped.isNearest_iff (hline : m.Line current line) (hselector' : m'.IsSelector selector)
    (hcls : (methodUnder methods' selector cls).isSome) : m'.IsNearest selector cls line ↔
      ∃ below above, line = below ++ cls :: above ∧
        ∀ other ∈ below, methodUnder methods' selector other = none := by
  have hdefines : ∀ other ∈ line, m'.Defines selector other ↔
      (methodUnder methods' selector other).isSome := fun other hmem =>
    equipped'.defines_iff complete'
      ((relinked.isClass_eq other).trans (hline.isClass_of_mem other hmem)) hselector'
  constructor
  · rintro ⟨below, above, rfl, -, hbelow⟩
    refine ⟨below, above, rfl, fun other hmem => ?_⟩
    have := hbelow other hmem
    rwa [hdefines other (List.mem_append_left _ hmem), Option.not_isSome_iff_eq_none] at this
  · rintro ⟨below, above, rfl, hbelow⟩
    refine ⟨below, above, rfl, (hdefines cls (by simp)).mpr hcls, fun other hmem => ?_⟩
    rw [hdefines other (List.mem_append_left _ hmem), hbelow other hmem]
    simp

variable (hother : ∀ other, other ≠ cls → methods' other = methods other)
  (hline : m.Line current line) (hselector' : m'.IsSelector selector)
  (hcls : (methodUnder methods' selector cls).isSome)
include hother hline hselector' hcls

omit equipped complete in
/-- From a class on whose line another is the first with a selector, its method is found. -/
theorem Equipped.lookup_of_isNearest (hnearest : m'.IsNearest selector cls line) :
    m'.lookup current selector = .ok (methodUnder methods' selector cls) := by
  rw [equipped'.lookup_eq complete' (relinked.line hline fun _ _ => rfl) hselector']
  rw [equipped'.isNearest_iff complete' relinked hline hselector' hcls] at hnearest
  rcases findSome?_cases (f := methodUnder methods selector) (g := methodUnder methods' selector)
    (fun other hne => by rw [methodUnder, hother other hne, methodUnder]) hcls line with
    ⟨-, hfound⟩ | ⟨hnot, -⟩
  · rw [hfound]
  · exact absurd hnearest hnot

/-- From any other class the same is found as before. -/
theorem Equipped.lookup_of_not_isNearest (hselector : m.IsSelector selector)
    (hnearest : ¬m'.IsNearest selector cls line) :
    m'.lookup current selector = m.lookup current selector := by
  rw [equipped.lookup_eq complete hline hselector,
    equipped'.lookup_eq complete' (relinked.line hline fun _ _ => rfl) hselector']
  rw [equipped'.isNearest_iff complete' relinked hline hselector' hcls] at hnearest
  rcases findSome?_cases (f := methodUnder methods selector) (g := methodUnder methods' selector)
    (fun other hne => by rw [methodUnder, hother other hne, methodUnder]) hcls line with
    ⟨hfirst, -⟩ | ⟨-, hfound⟩
  · exact absurd hfirst hnearest
  · rw [hfound]

end Overriding

end Machine

end TalkMachine
