import TalkMachine.Proofs.Interpreter.Inlining
import TalkMachine.Proofs.Machine.Populated
import TalkMachine.Proofs.Native.Equality

/-!
# Sending equality

A receiver below Object comes to one of the three equalities of the kernel by its class: to that of small
floats if it is below SmallFloat, and else to one of those that compare words
(`Machine.Populated.exists_finds_equality`). So there are values about which equality answers coherently,
and others about which it does not (`Machine.Populated.equates_iff`).
-/

namespace TalkMachine

namespace Equality

/-- The selector that asks whether both are the same, or whether they are not. -/
def selector (same : Bool) : String :=
  if same then "=" else "~="

/-- The kernel class that has an equality. -/
def classIndex : Equality → ℕ
  | identity => ClassIndex.object
  | word => ClassIndex.smallInteger
  | number => ClassIndex.smallFloat

/-- The entry of an equality in the table of its class. -/
def entry (e : Equality) (same : Bool) : NativeEntry :=
  ⟨selector same, 1, e.native same⟩

/-- It is the last one of the table with its selector. -/
lemma listed?_classIndex (e : Equality) (same : Bool) :
    NativeTable.listed? NativeTable.kernel e.classIndex (selector same) = some (e.entry same) := by
  cases e <;> cases same <;> decide

/-- No other class has an equality of its own. -/
lemma listed?_eq_none {index : ℕ} (hindex : ∀ e : Equality, index ≠ e.classIndex) (same : Bool) :
    NativeTable.listed? NativeTable.kernel index (selector same) = none := by
  have hrows : ∀ row ∈ NativeTable.kernel,
      row.1 ∈ [identity.classIndex, word.classIndex, number.classIndex] ∨
        ∀ same, NativeTable.last? row.2 (selector same) = none := by decide
  rw [NativeTable.listed?, Option.bind_eq_none_iff]
  intro entries hentries
  obtain ⟨below, above, htable, -⟩ := List.lookup_eq_some_iff.mp hentries
  refine (hrows (index, entries) (htable ▸ by simp)).elim (fun hmem => ?_) fun hlast => hlast same
  simp [hindex] at hmem

end Equality

/-- Small floats are instances of SmallFloat. -/
lemma Heap.classIndexOf_of_isSmallFloat {h : Heap} {value : Value} (hvalue : value.isSmallFloat = true) :
    h.classIndexOf value = .ok ClassIndex.smallFloat := by
  have hkind : value.kind = .smallFloat :=
    Value.marks_iff.mp (Value.isSmallFloat_iff.mp hvalue)
  rw [classIndexOf, Value.immediateClass?, hkind]
  rfl

namespace Machine

variable {m : Machine} {s s' : ObjectMap} {owner : Value → Option Value}
  {methods : Value → Option ClassMethods} {cls current object symbol value x y : Value}
  {line : List Value} {e : Equality} {same : Bool} {index limit : ℕ} {names : List String}

/-! ### Kinds of values -/

/-- Whether the class of a value is the one with this index, or inherits from it. -/
def IsKindOf (m : Machine) (value : Value) (index : ℕ) : Prop :=
  ∃ cls line ancestor, m.classOf value = .ok cls ∧ m.Line cls line ∧
    m.classAt? index = some ancestor ∧ ancestor ∈ line

/-- It depends on the line of its class. -/
lemma isKindOf_iff_mem {ancestor : Value} (hcls : m.classOf value = .ok cls) (hline : m.Line cls line)
    (hat : m.classAt? index = some ancestor) : m.IsKindOf value index ↔ ancestor ∈ line := by
  refine ⟨?_, fun hmem => ⟨cls, line, ancestor, hcls, hline, hat, hmem⟩⟩
  rintro ⟨cls', line', ancestor', hcls', hline', hat', hmem⟩
  obtain rfl := Except.ok.inj (hcls.symm.trans hcls')
  obtain rfl := Option.some.inj (hat.symm.trans hat')
  rwa [← hline.eq hline']

/-- A class has the method of an equality if it is the class of one, and else no method for equality. -/
lemma Offers.equality_cases
    (offers : m.Offers s' owner methods NativeTable.kernel (Equality.selector same) symbol)
    (hat : m.classAt? index = some cls) :
    (∃ (e : Equality) (method : Value), index = e.classIndex ∧
      methodUnder methods symbol cls = some method ∧
      m.IsInstalled s' (e.entry same) (symbol, method)) ∨
    ((∀ e : Equality, index ≠ e.classIndex) ∧ methodUnder methods symbol cls = none) := by
  have holds := offers.holds hat
  by_cases hindex : ∃ e : Equality, index = e.classIndex
  · obtain ⟨e, rfl⟩ := hindex
    rw [Equality.listed?_classIndex] at holds
    obtain ⟨method, hmethod, -, installed⟩ := holds
    exact .inl ⟨e, method, rfl, hmethod, installed⟩
  · have hnone : ∀ e : Equality, index ≠ e.classIndex := fun e heq => hindex ⟨e, heq⟩
    rw [Equality.listed?_eq_none hnone] at holds
    exact .inr ⟨hnone, holds⟩

namespace Standard

variable (h : m.Standard s)
include h

/-- Each kernel class is there. -/
lemma exists_classAt? (index : ℕ) (hindex : index ∈ KernelClass.all.map KernelClass.index) :
    ∃ cls, m.classAt? index = some cls := by
  obtain ⟨k, hk, rfl⟩ := List.mem_map.mp hindex
  obtain ⟨p, pair, hp, -⟩ := h.classified.kernel k hk
  exact ⟨p.cls, hp ▸ pair.classAt?_index⟩

/-- Classes at different indices are different. -/
lemma ne_of_index_ne {index' : ℕ} {cls' : Value} (hindex : index ≠ index')
    (hat : m.classAt? index = some cls) (hat' : m.classAt? index' = some cls') : cls ≠ cls' :=
  fun heq => hindex (h.based.index_eq hat (heq ▸ hat'))

/-- Object has no superclass. -/
lemma line_object (hobject : m.classAt? ClassIndex.object = some object) : m.Line object [object] := by
  have hlisted : (ClassIndex.object, none) ∈
      KernelClass.all.map fun k => (k.index, k.superclass) := by decide
  exact .cons (h.superclass_eq hlisted hobject) .nil

/-- Above a class that is listed below Object there is only Object. -/
lemma line_of_listed (hobject : m.classAt? ClassIndex.object = some object)
    (hlisted : (index, some ClassIndex.object) ∈ KernelClass.all.map fun k => (k.index, k.superclass))
    (hat : m.classAt? index = some cls) : m.Line cls [cls, object] :=
  .cons ((h.superclass_eq hlisted hat).trans (kernelClass_eq_ok_iff.mpr hobject))
    (h.line_object hobject)

/-- Above the class of an equality there is Object at most. -/
lemma line_of_equality (hobject : m.classAt? ClassIndex.object = some object)
    (hat : m.classAt? e.classIndex = some cls) :
    m.Line cls (if e = .identity then [object] else [cls, object]) := by
  cases e with
  | identity =>
    obtain rfl := Option.some.inj (hobject.symm.trans hat)
    exact h.line_object hobject
  | word => exact h.line_of_listed hobject (by decide) hat
  | number => exact h.line_of_listed hobject (by decide) hat

/-- An instance of a class that is listed below Object is of just these two kinds. -/
lemma isKindOf_iff {place : ℕ} (hindex : m.heap.classIndexOf value = .ok index)
    (hlisted : (index, some ClassIndex.object) ∈ KernelClass.all.map fun k => (k.index, k.superclass)) :
    m.IsKindOf value place ↔ place = index ∨ place = ClassIndex.object := by
  have hmem : index ∈ KernelClass.all.map KernelClass.index := by
    obtain ⟨k, hk, heq⟩ := List.mem_map.mp hlisted
    exact List.mem_map.mpr ⟨k, hk, congrArg Prod.fst heq⟩
  obtain ⟨object, hobject⟩ := h.exists_classAt? ClassIndex.object (by decide)
  obtain ⟨cls, hat⟩ := h.exists_classAt? index hmem
  have hcls := (classOf_eq_ok_iff hindex).mpr hat
  have hline := h.line_of_listed hobject hlisted hat
  constructor
  · rintro ⟨cls', line, ancestor, hcls', hline', hplace, hancestor⟩
    obtain rfl := Except.ok.inj (hcls.symm.trans hcls')
    rw [hline.eq hline', List.mem_cons, List.mem_singleton] at hancestor
    rcases hancestor with rfl | rfl
    · exact .inl (h.based.index_eq hplace hat)
    · exact .inr (h.based.index_eq hplace hobject)
  · rintro (rfl | rfl)
    · exact ⟨cls, _, cls, hcls, hline, hat, by simp⟩
    · exact ⟨cls, _, object, hcls, hline, hobject, by simp⟩

/-- On a line on which Object is, the first class with a method for equality has the one for small floats
if SmallFloat is on the line, and else one that compares words. -/
theorem exists_equality_of_line {float : Value} (hline : m.Line current line)
    (hobject : m.classAt? ClassIndex.object = some object)
    (hfloat : m.classAt? ClassIndex.smallFloat = some float)
    (offers : m.Offers s' owner methods NativeTable.kernel (Equality.selector same) symbol)
    (hmem : object ∈ line) :
    ∃ (e : Equality) (method : Value), (e = .number ↔ float ∈ line) ∧
      line.findSome? (methodUnder methods symbol) = some method ∧
      m.IsInstalled s' (e.entry same) (symbol, method) := by
  induction hline with
  | nil => cases hmem
  | @cons current next line hnext rest ih =>
    obtain ⟨index, hat⟩ := h.based.isClass_iff.mp (isClass_of_superclass hnext)
    rcases offers.equality_cases hat with ⟨e, method, rfl, hmethod, installed⟩ | ⟨hindex, hnone⟩
    · refine ⟨e, method, ?_, by rw [List.findSome?_cons, hmethod], installed⟩
      rw [(h.line_of_equality hobject hat).eq (.cons hnext rest)]
      have hroot := h.ne_of_index_ne (by decide) hfloat hobject
      cases e with
      | identity => simp [hroot]
      | word => simp [hroot, h.ne_of_index_ne (by decide) hfloat hat]
      | number => simp [Option.some.inj (hfloat.symm.trans hat)]
    · have hne : ∀ {e : Equality} {cls}, m.classAt? e.classIndex = some cls → cls ≠ current :=
        fun hcls => h.ne_of_index_ne (hindex _).symm hcls hat
      obtain ⟨e, method, hnumber, hfound, installed⟩ :=
        ih ((List.mem_cons.mp hmem).resolve_left (hne (e := .identity) hobject))
      refine ⟨e, method, ?_, ?_, installed⟩
      · rw [hnumber, List.mem_cons, or_iff_right (hne (e := .number) hfloat)]
      · rw [List.findSome?_cons, hnone]
        exact hfound

/-- Where a method for equality is found, Object is on the line. -/
lemma exists_line_of_lookupFrom (tracks : m.Tracks s' owner methods)
    (hobject : m.classAt? ClassIndex.object = some object)
    (offers : m.Offers s' owner methods NativeTable.kernel (Equality.selector same) symbol)
    {start method : Value} {steps : ℕ}
    (hfound : m.lookupFrom start symbol steps current = .ok (some method)) :
    ∃ line, m.Line current line ∧ object ∈ line := by
  induction steps generalizing current with
  | zero =>
    rw [lookupFrom] at hfound
    split at hfound <;> cases hfound
  | succ steps ih =>
    rw [lookupFrom] at hfound
    split at hfound
    · cases hfound
    obtain ⟨dictionary, hdictionary, hfound⟩ := bind_eq_ok_iff.mp hfound
    obtain ⟨method?, hmethod, hfound⟩ := bind_eq_ok_iff.mp hfound
    cases method? with
    | some method =>
      obtain ⟨own, hown, rfl⟩ := tracks.exists_methods hdictionary
      obtain ⟨index, hat⟩ := h.based.isClass_iff.mp (isClass_of_methodDictionary hdictionary)
      rcases offers.equality_cases hat with ⟨e, -, rfl, -, -⟩ | ⟨-, hnone⟩
      · refine ⟨_, h.line_of_equality hobject hat, ?_⟩
        split <;> simp
      · rw [tracks.equipped.find?_eq hown (tracks.isSelector_of_symbol offers.symbol_eq)] at hmethod
        rw [methodUnder, hown, Option.bind_some, Except.ok.inj hmethod] at hnone
        cases hnone
    | none =>
      obtain ⟨next, hnext, hfound⟩ := bind_eq_ok_iff.mp hfound
      obtain ⟨line, hline, hmem⟩ := ih hfound
      exact ⟨current :: line, .cons hnext hline, List.mem_cons_of_mem _ hmem⟩

end Standard

/-! ### What a receiver comes to -/

namespace Populated

variable (populated : Populated ["=", "~="] limit m) (hlimit : limit < 2 ^ 64)
include populated hlimit

/-- A receiver below Object comes to an equality, that of small floats if it is below SmallFloat. -/
theorem exists_finds_equality (hkind : m.IsKindOf x ClassIndex.object) (same : Bool) :
    ∃ (symbol : Value) (e : Equality) (number : ℕ),
      m.symbols[Equality.selector same]? = some symbol ∧
      (e = .number ↔ m.IsKindOf x ClassIndex.smallFloat) ∧
      m.find x symbol = .ok (some (.native 1 number)) ∧ m.natives[number]? = some (e.native same) := by
  obtain ⟨s, standard⟩ := populated.exists_standard hlimit
  obtain ⟨s', owner, methods, tracks, hoffers⟩ := populated.offersAll hlimit (by decide)
  obtain ⟨symbol, offers⟩ := hoffers (Equality.selector same) (by cases same <;> decide)
  obtain ⟨float, hfloat⟩ := standard.exists_classAt? ClassIndex.smallFloat (by decide)
  obtain ⟨cls, line, object, hcls, hline, hobject, hmem⟩ := hkind
  obtain ⟨e, method, hnumber, hfound, -, number, native, hnative⟩ :=
    standard.exists_equality_of_line hline hobject hfloat offers hmem
  refine ⟨symbol, e, number, offers.symbol_eq, hnumber.trans (isKindOf_iff_mem hcls hline hfloat).symm,
    ?_, hnative⟩
  have hlookup := tracks.equipped.lookup_eq tracks.complete hline
    (tracks.isSelector_of_symbol offers.symbol_eq)
  rw [hfound] at hlookup
  obtain ⟨hsize, -⟩ := Array.getElem?_eq_some_iff.mp hnative
  have hkind := methodKind_eq_of_isNativeMethod tracks.equipped.rep native
    (show (1 : ℕ) < 2 ^ 62 by decide) (hsize.trans (tracks.numbered.size_lt tracks.equipped.rep))
  simp only [find, hcls, hlookup, hkind, bind, Except.bind]
  rfl

/-- A receiver that comes to a method for equality is below Object. -/
lemma isKindOf_object_of_find (same : Bool) {found : MethodKind}
    (hsymbol : m.symbols[Equality.selector same]? = some symbol)
    (hfind : m.find x symbol = .ok (some found)) : m.IsKindOf x ClassIndex.object := by
  obtain ⟨s, standard⟩ := populated.exists_standard hlimit
  obtain ⟨s', owner, methods, tracks, hoffers⟩ := populated.offersAll hlimit (by decide)
  obtain ⟨symbol', offers⟩ := hoffers (Equality.selector same) (by cases same <;> decide)
  obtain rfl := Option.some.inj (hsymbol.symm.trans offers.symbol_eq)
  obtain ⟨object, hobject⟩ := standard.exists_classAt? ClassIndex.object (by decide)
  obtain ⟨cls, hcls, hfind⟩ := bind_eq_ok_iff.mp hfind
  obtain ⟨method?, hlookup, hfind⟩ := bind_eq_ok_iff.mp hfind
  cases method? with
  | none => cases hfind
  | some method =>
    obtain ⟨line, hline, hmem⟩ := standard.exists_line_of_lookupFrom tracks hobject offers hlookup
    exact ⟨cls, line, object, hcls, hline, hobject, hmem⟩

/-- A small float is below SmallFloat. -/
lemma isKindOf_smallFloat (hx : x.isSmallFloat = true) : m.IsKindOf x ClassIndex.smallFloat := by
  obtain ⟨s, standard⟩ := populated.exists_standard hlimit
  exact (standard.isKindOf_iff (Heap.classIndexOf_of_isSmallFloat hx) (by decide)).mpr (.inl rfl)

/-- A small integer is not. -/
lemma not_isKindOf_smallFloat {n : ℤ} (hx : x.toInt? = some n) :
    ¬m.IsKindOf x ClassIndex.smallFloat := by
  obtain ⟨s, standard⟩ := populated.exists_standard hlimit
  rw [standard.isKindOf_iff (Interpreter.classIndexOf_of_toInt? hx) (by decide)]
  decide

/-- Nil is below UndefinedObject and Object. -/
lemma isKindOf_nil_iff {place : ℕ} :
    m.IsKindOf m.nil place ↔ place = ClassIndex.undefinedObject ∨ place = ClassIndex.object := by
  obtain ⟨s, standard⟩ := populated.exists_standard hlimit
  obtain ⟨o, ho, hclass, -⟩ := standard.based.nil
  exact standard.isKindOf_iff (hclass ▸ standard.based.classIndexOf_eq ho) (by decide)

end Populated

end Machine

namespace Interpreter

open Execution

variable {host : Host} {steps : ℕ} {p : Execution} {x y receiver symbol : Value} {e : Equality}
  {same b : Bool} {name : String} {number limit : ℕ} {arguments : List Value}

/-! ### Messages -/

/-- Whether a message with one argument is answered by this truth value. -/
def AnswersTruth (host : Host) (steps : ℕ) (p : Execution) (receiver : Value) (name : String)
    (argument : Value) (b : Bool) : Prop :=
  ∃ q, sendNamed (send host (steps + 1)) receiver name [argument] p = .ok (p.machine.boolean b) q

/-- A message whose name has a symbol goes by what the machine finds for it. -/
lemma sendNamed_eq (hsymbol : p.machine.symbols[name]? = some symbol) :
    sendNamed (send host (steps + 1)) receiver name arguments p = (do
      let found ← askMachine fun m => m.find receiver symbol
      sendFoundWith host (run host steps) (send host steps) receiver symbol arguments found) p := by
  obtain ⟨m, stack⟩ := p
  have hintern : onMachine (Machine.intern name) ⟨m, stack⟩ = .ok symbol ⟨m, stack⟩ := by
    rw [onMachine, Machine.intern_eq_of_symbol hsymbol]
  refine (run_bind_of_ok hintern).trans ?_
  rw [send, sendWith_eq]

/-- A receiver that comes to an equality is asked for it, and nothing is changed. -/
lemma sendNamed_of_find (hsymbol : p.machine.symbols[Equality.selector same]? = some symbol)
    (hfind : p.machine.find x symbol = .ok (some (.native 1 number)))
    (hnative : p.machine.natives[number]? = some (e.native same)) :
    sendNamed (send host (steps + 1)) x (Equality.selector same) [y] p =
      askMachine (fun m => do return m.boolean ((← e.equates x y) == same)) p := by
  rw [sendNamed_eq hsymbol, run_bind_of_ok (run_askMachine_of_ok hfind), sendFoundWith,
    callNumbered_eq, if_neg (by simp), hnative]
  exact Equality.callNative_native e same x y p

/-- So the answer is the truth value to which the comparison comes, or its contrary. -/
lemma answersTruth_iff (hbooleans : p.machine.trueObject ≠ p.machine.falseObject)
    (hsymbol : p.machine.symbols[Equality.selector same]? = some symbol)
    (hfind : p.machine.find x symbol = .ok (some (.native 1 number)))
    (hnative : p.machine.natives[number]? = some (e.native same)) :
    AnswersTruth host steps p x (Equality.selector same) y b ↔ e.equates x y = .ok (b == same) := by
  have hboolean : ∀ {b b'}, p.machine.boolean b = p.machine.boolean b' ↔ b = b' := by
    intro b b'
    cases b <;> cases b' <;> simp [Machine.boolean, hbooleans, hbooleans.symm]
  rw [AnswersTruth, sendNamed_of_find hsymbol hfind hnative]
  cases hequates : e.equates x y with
  | error error => simp [run_askMachine_of_error, bind, Except.bind]
  | ok b' =>
    rw [run_askMachine_of_ok (a := p.machine.boolean (b' == same)) rfl]
    simp only [EStateM.Result.ok.injEq, hboolean, exists_and_left, exists_eq', and_true, Except.ok.injEq]
    cases b <;> cases b' <;> cases same <;> decide

/-- Without a handler, what is not understood is not answered. -/
lemma find_ne_none_of_answersTruth (hhandler : host.handler = none)
    (hsymbol : p.machine.symbols[name]? = some symbol) (hanswers : AnswersTruth host steps p x name y b) :
    ∃ found, p.machine.find x symbol = .ok (some found) := by
  obtain ⟨q, hok⟩ := hanswers
  rw [sendNamed_eq hsymbol] at hok
  cases hfind : p.machine.find x symbol with
  | error error =>
    rw [run_bind_of_error (run_askMachine_of_error hfind)] at hok
    cases hok
  | ok found? =>
    cases found? with
    | some found => exact ⟨found, rfl⟩
    | none =>
      rw [run_bind_of_ok (run_askMachine_of_ok hfind), sendFoundWith, doesNotUnderstand, hhandler] at hok
      cases hok

/-! ### Coherence -/

/-- Whether equality answers coherently about two values: `=` answers with a truth value, `~=` with the
other one; the first value equals itself; and the second value answers `=` as the first one does. -/
def Equates (host : Host) (steps : ℕ) (p : Execution) (x y : Value) : Prop :=
  ∃ b, AnswersTruth host steps p x "=" y b ∧ AnswersTruth host steps p x "~=" y !b ∧
    AnswersTruth host steps p x "=" x true ∧ AnswersTruth host steps p y "=" x b

end Interpreter

namespace Machine

open Interpreter Execution

variable {m : Machine} {x y : Value} {limit : ℕ}

/-- Whether two values are compared coherently: none of them is below SmallFloat, or both are small
floats, or one is a small integer and the other a small float that is another number. -/
def IsComparable (m : Machine) (x y : Value) : Prop :=
  (¬m.IsKindOf x ClassIndex.smallFloat ∧ ¬m.IsKindOf y ClassIndex.smallFloat) ∨
    (x.isSmallFloat = true ∧ y.isSmallFloat = true) ∨ x.IsOtherNumber y ∨ y.IsOtherNumber x

namespace Populated

variable {p : Execution} {b : Bool} {steps : ℕ} {host : Host}
  (populated : Populated ["=", "~="] limit p.machine) (hlimit : limit < 2 ^ 64)
include populated hlimit

/-- A receiver below Object answers both messages by one equality. -/
lemma exists_equality (hkind : p.machine.IsKindOf x ClassIndex.object) :
    ∃ e : Equality, (e = .number ↔ p.machine.IsKindOf x ClassIndex.smallFloat) ∧
      ∀ host steps y b, (AnswersTruth host steps p x "=" y b ↔ e.equates x y = .ok b) ∧
        (AnswersTruth host steps p x "~=" y (!b) ↔ e.equates x y = .ok b) := by
  obtain ⟨s, standard⟩ := populated.exists_standard hlimit
  obtain ⟨symbol, e, number, hsymbol, he, hfind, hnative⟩ :=
    populated.exists_finds_equality hlimit hkind true
  obtain ⟨symbol', e', number', hsymbol', he', hfind', hnative'⟩ :=
    populated.exists_finds_equality hlimit hkind false
  refine ⟨e, he, fun host steps y b => ⟨?_, ?_⟩⟩
  · exact (answersTruth_iff standard.booleans_ne hsymbol hfind hnative).trans (by rw [beq_true])
  · refine (answersTruth_iff standard.booleans_ne hsymbol' hfind' hnative').trans ?_
    rw [Equality.equates_congr (he.trans he'.symm), beq_false, Bool.not_not]

/-- Without a handler, what answers to equality is below Object. -/
lemma isKindOf_object_of_answersTruth (hhandler : host.handler = none)
    (hanswers : AnswersTruth host steps p x "=" y b) : p.machine.IsKindOf x ClassIndex.object := by
  obtain ⟨s, owner, methods, -, hoffers⟩ := populated.offersAll hlimit (by decide)
  obtain ⟨symbol, offers⟩ := hoffers "=" (by decide)
  obtain ⟨found, hfind⟩ := find_ne_none_of_answersTruth hhandler offers.symbol_eq hanswers
  exact populated.isKindOf_object_of_find hlimit true offers.symbol_eq hfind

/-- About values below Object, equality answers coherently just if they are compared coherently. -/
lemma equates_iff_isComparable (hx : p.machine.IsKindOf x ClassIndex.object)
    (hy : p.machine.IsKindOf y ClassIndex.object) :
    Equates host steps p x y ↔ p.machine.IsComparable x y := by
  obtain ⟨e, he, hanswers⟩ := populated.exists_equality hlimit hx
  obtain ⟨e', he', hanswers'⟩ := populated.exists_equality hlimit hy
  have hfloat : ∀ {value : Value} {e : Equality},
      (e = .number ↔ p.machine.IsKindOf value ClassIndex.smallFloat) →
      ∀ bits, value.toFloatBits? = some bits → e = .number := fun h bits hbits =>
    h.mpr (populated.isKindOf_smallFloat hlimit (Value.exists_toFloatBits?_iff.mp ⟨bits, hbits⟩))
  have hinteger : ∀ {value : Value} {e : Equality},
      (e = .number ↔ p.machine.IsKindOf value ClassIndex.smallFloat) →
      ∀ n, value.toInt? = some n → e ≠ .number := fun h n hn heq =>
    populated.not_isKindOf_smallFloat hlimit hn (h.mp heq)
  rw [IsComparable, ← not_congr he, ← not_congr he',
    ← Equality.agree_iff (hfloat he) (hinteger he) (hfloat he') (hinteger he')]
  refine exists_congr fun b => ?_
  rw [(hanswers host steps y b).1, (hanswers host steps y b).2, (hanswers host steps x true).1,
    (hanswers' host steps x b).1, and_self_left]

/-- Equality answers coherently about two values just if both are below Object and are compared
coherently, in every machine that has been populated without other methods for `=` and `~=`. Only a
handler of messages that are not understood could answer for values that are not below Object. -/
theorem equates_iff (host : Host) (steps : ℕ)
    (hhandler : host.handler = none ∨
      p.machine.IsKindOf x ClassIndex.object ∧ p.machine.IsKindOf y ClassIndex.object) :
    Equates host steps p x y ↔ p.machine.IsKindOf x ClassIndex.object ∧
      p.machine.IsKindOf y ClassIndex.object ∧ p.machine.IsComparable x y := by
  have hkinds : Equates host steps p x y →
      p.machine.IsKindOf x ClassIndex.object ∧ p.machine.IsKindOf y ClassIndex.object := by
    rintro ⟨b, hxy, -, -, hyx⟩
    refine hhandler.elim (fun hnone => ?_) id
    exact ⟨populated.isKindOf_object_of_answersTruth hlimit hnone hxy,
      populated.isKindOf_object_of_answersTruth hlimit hnone hyx⟩
  constructor
  · intro equates
    obtain ⟨hx, hy⟩ := hkinds equates
    exact ⟨hx, hy, (populated.equates_iff_isComparable hlimit hx hy).mp equates⟩
  · rintro ⟨hx, hy, hcomparable⟩
    exact (populated.equates_iff_isComparable hlimit hx hy).mpr hcomparable

omit populated hlimit in
/-- In a fresh machine equality answers coherently about 3 and nil. -/
theorem equates_integer_nil :
    ∃ p : Execution, Machine.new 1048576 = .ok p.machine ∧ (1048576 : ℕ) < 2 ^ 64 ∧
      Populated ["=", "~="] 1048576 p.machine ∧ Host.none.handler = none ∧
      p.machine.IsComparable (Value.ofInt 3) p.machine.nil ∧
      Equates Host.none 0 p (Value.ofInt 3) p.machine.nil := by
  have hlimit : (1048576 : ℕ) < 2 ^ 64 := by norm_num
  obtain ⟨m, hnew, -⟩ := exists_new hlimit (by decide +kernel)
  have populated : Populated ["=", "~="] 1048576 m := .new hnew
  obtain ⟨s, standard⟩ := populated.exists_standard hlimit
  have hinteger : (Value.ofInt 3).toInt? = some 3 := by decide
  have hthree : m.IsKindOf (Value.ofInt 3) ClassIndex.object :=
    (standard.isKindOf_iff (Interpreter.classIndexOf_of_toInt? hinteger) (by decide)).mpr (.inr rfl)
  have hnil : m.IsKindOf m.nil ClassIndex.object := (populated.isKindOf_nil_iff hlimit).mpr (.inr rfl)
  have hcomparable : m.IsComparable (Value.ofInt 3) m.nil := by
    refine .inl ⟨populated.not_isKindOf_smallFloat hlimit hinteger, ?_⟩
    rw [populated.isKindOf_nil_iff hlimit]
    decide
  exact ⟨⟨m, Stack.new 4096⟩, hnew, hlimit, populated, rfl, hcomparable,
    (equates_iff (p := ⟨m, Stack.new 4096⟩) populated hlimit Host.none 0 (.inl rfl)).mpr
      ⟨hthree, hnil, hcomparable⟩⟩

omit populated hlimit in
/-- It does not about 1.0 and nil: to ask the small float whether it equals nil is an error. -/
theorem not_equates_float_nil :
    ∃ (p : Execution) (x : Value), Machine.new 1048576 = .ok p.machine ∧
      Populated ["=", "~="] 1048576 p.machine ∧ Value.ofFloatBits? 0x3ff0000000000000 = some x ∧
      p.machine.IsKindOf x ClassIndex.object ∧ p.machine.IsKindOf p.machine.nil ClassIndex.object ∧
      sendNamed (send Host.none 1) x "=" [p.machine.nil] p =
        .error (.wrongType "SmallFloat" p.machine.nil) p ∧
      ¬Equates Host.none 0 p x p.machine.nil := by
  have hlimit : (1048576 : ℕ) < 2 ^ 64 := by norm_num
  obtain ⟨m, hnew, -⟩ := exists_new hlimit (by decide +kernel)
  have populated : Populated ["=", "~="] 1048576 m := .new hnew
  obtain ⟨s, standard⟩ := populated.exists_standard hlimit
  have hx : (⟨9151314442816847876⟩ : Value).isSmallFloat = true := by decide
  obtain ⟨bits, hbits⟩ := Value.exists_toFloatBits?_iff.mpr hx
  have hfloat := populated.isKindOf_smallFloat hlimit hx
  have hobject : m.IsKindOf ⟨9151314442816847876⟩ ClassIndex.object :=
    (standard.isKindOf_iff (Heap.classIndexOf_of_isSmallFloat hx) (by decide)).mpr (.inr rfl)
  have hnil : m.nil.isObject = true := by
    obtain ⟨o, ho, -⟩ := standard.based.nil
    exact (standard.based.rep.holds ho).isObject
  obtain ⟨symbol, e, number, hsymbol, he, hfind, hnative⟩ :=
    populated.exists_finds_equality hlimit hobject true
  obtain rfl := he.mpr hfloat
  have hsend : sendNamed (send Host.none 1) ⟨9151314442816847876⟩ "=" [m.nil] ⟨m, Stack.new 4096⟩ =
      .error (.wrongType "SmallFloat" m.nil) ⟨m, Stack.new 4096⟩ := by
    have hequates := Equality.number_equates_of_toDouble?_eq_none hbits (Value.toDouble?_of_isObject hnil)
    exact (sendNamed_of_find (p := ⟨m, Stack.new 4096⟩) hsymbol hfind hnative).trans
      (run_askMachine_of_error (by rw [hequates]; rfl))
  refine ⟨⟨m, Stack.new 4096⟩, ⟨9151314442816847876⟩, hnew, populated, by decide +kernel, hobject,
    (populated.isKindOf_nil_iff hlimit).mpr (.inr rfl), hsend, ?_⟩
  rintro ⟨b, ⟨q, hok⟩, -⟩
  rw [hsend] at hok
  cases hok

end Populated

end Machine

end TalkMachine
