import Mathlib.Data.List.Perm.Subperm
import TalkMachine.Machine.Lookup
import TalkMachine.Proofs.Outcome

/-!
# Lines of superclasses

`Machine.Line` lists the classes from a class up to the one without a superclass. A line is as long
as it is wide: no class is on it twice, and all are in the class table, so that the steps which the
table allows to a search are enough (`Machine.lookup_ne_superclassCycle`). The check that comes
before a change of superclass finds a line that the class is not on
(`Machine.exists_line_of_checkAcyclic`).
-/

namespace TalkMachine

namespace Machine

variable {m : Machine} {cls current next value selector : Value} {line : List Value} {index : ℕ}

/-! ### Classes in the table -/

/-- A class stands in the class table at its identity hash. -/
lemma isClass_eq_true_iff : m.isClass value = true ↔ value.isObject = true ∧
    ∃ hash, m.heap.identityHashOf value = .ok hash ∧ m.classAt? hash = some value := by
  rw [isClass, Bool.and_eq_true]
  refine and_congr_right fun _ => ?_
  cases m.heap.identityHashOf value <;> simp

/-- A place of the class table that is not free holds a value of the table other than nil. -/
lemma classAt?_eq_some_iff :
    m.classAt? index = some cls ↔ m.classTable[index]? = some cls ∧ cls ≠ m.nil := by
  simp only [classAt?, Option.filter_eq_some_iff, bne_iff_ne]

/-- The class of a value stands in the table at the class index of the value. -/
lemma classOf_eq_ok_iff (hindex : m.heap.classIndexOf value = .ok index) :
    m.classOf value = .ok cls ↔ m.classAt? index = some cls := by
  rw [classOf, hindex]
  cases hat : m.classAt? index <;>
    simp [Except.ofHeap, bind, Except.bind, pure, Except.pure, throw, throwThe, MonadExceptOf.throw, hat]

/-- Nil is no class. -/
lemma isClass_nil (m : Machine) : m.isClass m.nil = false := by
  rw [Bool.eq_false_iff]
  intro h
  obtain ⟨-, hash, -, hat⟩ := isClass_eq_true_iff.mp h
  exact (classAt?_eq_some_iff.mp hat).2 rfl

/-- A class is one of the values in the class table. -/
lemma mem_classTable_of_isClass (h : m.isClass cls = true) : cls ∈ m.classTable.toList := by
  obtain ⟨-, hash, -, hat⟩ := isClass_eq_true_iff.mp h
  rw [Array.mem_toList_iff, Array.mem_iff_getElem?]
  exact ⟨hash, (classAt?_eq_some_iff.mp hat).1⟩

/-- The class of a value stands in the class table. -/
lemma exists_classAt?_of_classOf (h : m.classOf value = .ok cls) :
    ∃ index, m.classAt? index = some cls := by
  obtain ⟨index, -, hat⟩ := bind_eq_ok_iff.mp h
  split at hat
  · cases hat
    exact ⟨index, ‹_›⟩
  · cases hat

/-- A value is accepted as a class just when it is one. -/
lemma expectClass_eq_ok_iff : m.expectClass cls = .ok () ↔ m.isClass cls = true := by
  rw [expectClass]
  split <;> simp_all

/-- The index that instances of a class carry is the one at which it stands. -/
lemma classAt?_of_classIndexOfClass (h : m.classIndexOfClass cls = .ok index) :
    m.classAt? index = some cls := by
  obtain ⟨_, hclass, hhash⟩ := bind_eq_ok_iff.mp h
  obtain ⟨-, hash, hhash', hat⟩ := isClass_eq_true_iff.mp (expectClass_eq_ok_iff.mp hclass)
  rw [hhash'] at hhash
  obtain rfl := Except.ok.inj hhash
  exact hat

/-- What has a superclass is a class. -/
lemma isClass_of_superclass (h : m.superclass cls = .ok next) : m.isClass cls = true := by
  obtain ⟨_, hclass, -⟩ := bind_eq_ok_iff.mp h
  exact expectClass_eq_ok_iff.mp hclass

/-- What has a method dictionary is a class. -/
lemma isClass_of_methodDictionary {dictionary : Value}
    (h : m.methodDictionary cls = .ok dictionary) : m.isClass cls = true := by
  obtain ⟨_, hclass, -⟩ := bind_eq_ok_iff.mp h
  exact expectClass_eq_ok_iff.mp hclass

/-- Nil is no class. -/
lemma ne_nil_of_isClass (h : m.isClass cls = true) : cls ≠ m.nil := by
  rintro rfl
  rw [isClass_nil] at h
  cases h

/-- Nil has no superclass, not even nil. -/
lemma ne_nil_of_superclass (h : m.superclass cls = .ok next) : cls ≠ m.nil :=
  ne_nil_of_isClass (isClass_of_superclass h)

/-- Nil does not stand in the table. -/
lemma ne_nil_of_classAt? {index : ℕ} (h : m.classAt? index = some cls) : cls ≠ m.nil := by
  rw [classAt?, Option.filter_eq_some_iff] at h
  simpa using h.2

/-! ### Lines -/

/-- The classes from a class up, each followed by its superclass. -/
inductive Line (m : Machine) : Value → List Value → Prop
  | nil : Line m m.nil []
  | cons {cls next : Value} {line : List Value} (hnext : m.superclass cls = .ok next)
      (rest : Line m next line) : Line m cls (cls :: line)

namespace Line

/-- All of a line are classes. -/
lemma isClass_of_mem (h : m.Line current line) : ∀ cls ∈ line, m.isClass cls = true := by
  induction h with
  | nil => simp
  | cons hnext _ ih =>
    rw [List.forall_mem_cons]
    exact ⟨isClass_of_superclass hnext, ih⟩

/-- A class has one line only. -/
lemma eq (h : m.Line current line) {line' : List Value} (h' : m.Line current line') :
    line' = line := by
  induction h generalizing line' with
  | nil =>
    cases h' with
    | nil => rfl
    | cons hnext => exact absurd rfl (ne_nil_of_superclass hnext)
  | cons hnext rest ih =>
    cases h' with
    | nil => exact absurd rfl (ne_nil_of_superclass hnext)
    | cons hnext' rest' =>
      obtain rfl := Except.ok.inj (hnext.symm.trans hnext')
      rw [ih rest']

/-- From each class of a line the rest of the line goes up. -/
lemma exists_suffix (h : m.Line current line) (hmem : cls ∈ line) :
    ∃ rest, m.Line cls rest ∧ rest <:+ line := by
  induction h with
  | nil => cases hmem
  | cons hnext rest ih =>
    rcases List.mem_cons.mp hmem with rfl | hmem
    · exact ⟨_, .cons hnext rest, List.suffix_rfl⟩
    · obtain ⟨line', hline', hsuffix⟩ := ih hmem
      exact ⟨line', hline', hsuffix.trans (List.suffix_cons _ _)⟩

/-- No class is on a line twice. -/
lemma nodup (h : m.Line current line) : line.Nodup := by
  induction h with
  | nil => exact List.nodup_nil
  | @cons cls _ line hnext rest ih =>
    refine List.nodup_cons.mpr ⟨fun hmem => ?_, ih⟩
    -- The line from the class would be a part of what follows it.
    obtain ⟨line', hline', hsuffix⟩ := rest.exists_suffix hmem
    rw [(Line.cons hnext rest).eq hline'] at hsuffix
    exact absurd hsuffix.length_le (by simp)

/-- A line has at most as many classes as the class table has places. -/
lemma length_le (h : m.Line current line) : line.length ≤ m.classTable.size := by
  have hsub : line ⊆ m.classTable.toList := fun cls hmem =>
    mem_classTable_of_isClass (h.isClass_of_mem cls hmem)
  simpa using (h.nodup.subperm hsub).length_le

end Line

/-! ### Walking up -/

/-- The check finds a line, and that the class is not on it. -/
lemma exists_line_of_checkAcyclic {steps : ℕ} (h : m.checkAcyclic cls steps current = .ok ()) :
    ∃ line, m.Line current line ∧ cls ∉ line := by
  induction steps generalizing current with
  | zero =>
    rw [checkAcyclic] at h
    split at h
    · rename_i hnil
      exact ⟨[], hnil ▸ .nil, List.not_mem_nil⟩
    · cases h
  | succ steps ih =>
    rw [checkAcyclic] at h
    split at h
    · rename_i hnil
      exact ⟨[], hnil ▸ .nil, List.not_mem_nil⟩
    · split at h
      · cases h
      · rename_i hother
        obtain ⟨next, hnext, hrest⟩ := bind_eq_ok_iff.mp h
        obtain ⟨line, hline, hmem⟩ := ih hrest
        exact ⟨current :: line, .cons hnext hline, by simp [hmem, Ne.symm hother]⟩

/-- The check finds nothing when the class is not on the line. -/
lemma checkAcyclic_eq_ok (h : m.Line current line) (hmem : cls ∉ line) {steps : ℕ}
    (hsteps : line.length ≤ steps) : m.checkAcyclic cls steps current = .ok () := by
  induction h generalizing steps with
  | nil => cases steps <;> simp [checkAcyclic]
  | @cons current next line hnext rest ih =>
    obtain ⟨steps, rfl⟩ : ∃ n, steps = n + 1 := ⟨steps - 1, by simp at hsteps; omega⟩
    rw [List.mem_cons, not_or] at hmem
    rw [checkAcyclic, if_neg (ne_nil_of_superclass hnext), if_neg (Ne.symm hmem.1), hnext]
    exact ih hmem.2 (by simpa using hsteps)

/-- The heap knows nothing of superclasses. -/
lemma ofHeap_ne_superclassCycle {α : Type} (x : Except HeapError α) (cls : Value) :
    Except.ofHeap x ≠ .error (.superclassCycle cls) := by
  cases x <;> simp [Except.ofHeap]

/-- A step and what follows do not fail with an error that neither does. -/
lemma bind_ne_error {ε α β : Type} {x : Except ε α} {f : α → Except ε β} {e : ε}
    (hx : x ≠ .error e) (hf : ∀ a, x = .ok a → f a ≠ .error e) : (x >>= f) ≠ .error e := by
  cases x with
  | error e' => simpa [bind, Except.bind] using hx
  | ok a => exact hf a rfl

/-- A search in a method dictionary knows nothing of superclasses. -/
lemma find?_ne_superclassCycle (h : Heap) (dictionary key cls : Value) :
    Dictionary.find? h dictionary key ≠ .error (.superclassCycle cls) := by
  refine bind_ne_error (bind_ne_error (ofHeap_ne_superclassCycle _ _)
    fun _ _ => ofHeap_ne_superclassCycle _ _) fun place? _ => ?_
  cases place? with
  | none => simp [pure, Except.pure]
  | some place =>
    refine bind_ne_error (ofHeap_ne_superclassCycle _ _) fun keys _ => ?_
    refine bind_ne_error (ofHeap_ne_superclassCycle _ _) fun found _ => ?_
    split
    · refine bind_ne_error (ofHeap_ne_superclassCycle _ _) fun values _ => ?_
      exact bind_ne_error (ofHeap_ne_superclassCycle _ _) fun _ _ => by simp [pure, Except.pure]
    · simp [pure, Except.pure]

/-- A slot of a class is no matter of superclasses. -/
lemma classSlot_ne_superclassCycle (m : Machine) (value : Value) (slot : ℕ) (cls : Value) :
    m.classSlot value slot ≠ .error (.superclassCycle cls) := by
  refine bind_ne_error ?_ fun _ _ => ofHeap_ne_superclassCycle _ _
  rw [expectClass]
  split <;> simp

/-- A search with a step for each class of a line does not run out of them. -/
lemma lookupFrom_ne_superclassCycle (h : m.Line current line) {steps : ℕ}
    (hsteps : line.length ≤ steps) (start selector cls : Value) :
    m.lookupFrom start selector steps current ≠ .error (.superclassCycle cls) := by
  induction h generalizing steps with
  | nil => cases steps <;> simp [lookupFrom]
  | cons hnext rest ih =>
    obtain ⟨steps, rfl⟩ : ∃ n, steps = n + 1 := ⟨steps - 1, by simp at hsteps; omega⟩
    rw [lookupFrom]
    split
    · exact nofun
    · refine bind_ne_error (classSlot_ne_superclassCycle m _ _ cls) fun dictionary _ => ?_
      refine bind_ne_error (find?_ne_superclassCycle _ dictionary selector cls) fun method? _ => ?_
      cases method? with
      | some method => simp [pure, Except.pure]
      | none =>
        rw [hnext]
        exact ih (by simpa using hsteps)

/-- A search from a class with a line never fails for a circle of superclasses. -/
lemma lookup_ne_superclassCycle (h : m.Line current line) (selector cls : Value) :
    m.lookup current selector ≠ .error (.superclassCycle cls) :=
  lookupFrom_ne_superclassCycle h (Nat.le_succ_of_le h.length_le) current selector cls

end Machine

end TalkMachine
