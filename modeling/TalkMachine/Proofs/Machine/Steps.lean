import TalkMachine.Machine.Class
import TalkMachine.Proofs.Outcome

/-!
# Steps of the machine

What the steps of a machine are made of: questions, which leave it as it is; changes of its heap,
which leave everything else as it is; and changes of the class table. A class is made in three parts:
it is entered in the table together with its metaclass, both are filled, and the class is given its
superclass (`Machine.createClass_eq_enterPair`).
-/

namespace TalkMachine

namespace Machine

variable {m m' : Machine} {α : Type} {a : α}

/-- A question that is answered. -/
lemma run_ask_of_ok {question : Machine → Except MachineError α} (h : question m = .ok a) :
    ask question m = .ok a m := by
  simp only [ask, h]

/-- A question that is refused. -/
lemma run_ask_of_error {question : Machine → Except MachineError α} {e : MachineError}
    (h : question m = .error e) : ask question m = .error e m := by
  simp only [ask, h]

/-- A question that was answered. -/
lemma ask_eq_ok_iff {question : Machine → Except MachineError α} :
    ask question m = .ok a m' ↔ question m = .ok a ∧ m = m' := by
  unfold ask
  cases question m <;> simp

/-- A question that was refused. -/
lemma ask_eq_error_iff {question : Machine → Except MachineError α} {e : MachineError} :
    ask question m = .error e m' ↔ question m = .error e ∧ m = m' := by
  unfold ask
  cases question m <;> simp

/-- A question, and what follows its answer, lead where the latter does. -/
lemma ensures_ask_bind_of_refl {β γ : Type} {related : Machine → γ → Machine → γ → Prop} {s : γ}
    (hrefl : related m s m s) {question : Machine → Except MachineError α} {f : α → MachineM β}
    {R : β → Machine → γ → Prop}
    (hf : ∀ a, question m = .ok a → Ensures related (f a) m s R) :
    Ensures related (ask question >>= f) m s R := by
  rw [Ensures]
  cases hanswer : question m with
  | ok a =>
    rw [run_bind_of_ok (run_ask_of_ok hanswer)]
    exact hf a hanswer
  | error e =>
    rw [run_bind_of_error (run_ask_of_error hanswer)]
    exact ⟨s, hrefl⟩

/-- A machine with another heap. -/
def withHeap (m : Machine) (h : Heap) : Machine :=
  { m with heap := h }

/-- A change of the heap that was not refused. -/
lemma onHeap_eq_ok_iff {x : EStateM MachineError Heap α} :
    onHeap x m = .ok a m' ↔ ∃ h', x m.heap = .ok a h' ∧ m' = m.withHeap h' := by
  unfold onHeap
  cases hx : x m.heap <;> simp [hx, withHeap, eq_comm]

/-- A change of the heap leaves everything else as it is, also when it is refused. -/
lemma stateAfter_onHeap (x : EStateM MachineError Heap α) (m : Machine) :
    stateAfter (onHeap x m) = m.withHeap (stateAfter (x m.heap)) := by
  unfold onHeap
  cases hx : x m.heap <;> simp only [hx] <;> rfl

/-- What only the heap can refuse, and was not refused. -/
lemma change_eq_ok_iff {x : HeapM α} :
    change x m = .ok a m' ↔ ∃ h', x m.heap = .ok a h' ∧ m' = m.withHeap h' := by
  rw [change, onHeap_eq_ok_iff]
  simp only [adaptExcept_eq_ok_iff]

/-- A change that was refused by the heap. -/
lemma change_eq_error_iff {x : HeapM α} {e : MachineError} :
    change x m = .error e m' ↔ ∃ e' h', x m.heap = .error e' h' ∧ e = .heap e' ∧ m' = m.withHeap h' := by
  unfold change onHeap EStateM.adaptExcept
  cases hx : x m.heap <;> simp [hx, withHeap, eq_comm]

/-- If the heap is not changed then, neither is the machine. -/
lemma state_eq_of_change_error {x : HeapM α} {e : MachineError}
    (hx : ∀ {e h'}, x m.heap = .error e h' → h' = m.heap) (herror : change x m = .error e m') :
    m' = m := by
  obtain ⟨e', h', hrefused, -, rfl⟩ := change_eq_error_iff.mp herror
  rw [hx hrefused]
  rfl

/-- Nor is it when something is answered behind the change. -/
lemma state_eq_of_change_bind_error {β : Type} {b : β} {x : HeapM Unit} {e : MachineError}
    (hx : ∀ {e h'}, x m.heap = .error e h' → h' = m.heap)
    (herror : (do change x; return b) m = .error e m') : m' = m := by
  rcases run_bind_eq_error_iff.mp herror with hchange | ⟨_, _, -, hreturn⟩
  · exact state_eq_of_change_error hx hchange
  · cases hreturn

/-! ### The class table -/

variable {index : ℕ} {cls : Value}

/-- A machine whose class table has been made long enough. -/
def grown (m : Machine) (size : ℕ) : Machine :=
  { m with classTable := m.classTable ++ Array.replicate (size - m.classTable.size) m.nil }

/-- Behind the end of the table there are no classes. -/
lemma classAt?_of_size_le {index : ℕ} (h : m.classTable.size ≤ index) : m.classAt? index = none := by
  rw [classAt?, Array.getElem?_eq_none h, Option.filter_none]

/-- So a class stands before its end. -/
lemma lt_size_of_classAt? (hat : m.classAt? index = some cls) : index < m.classTable.size := by
  by_contra hle
  rw [classAt?_of_size_le (Nat.not_lt.mp hle)] at hat
  cases hat

/-- A longer table has free places at its end. -/
lemma classAt?_grown (m : Machine) (size index : ℕ) :
    (m.grown size).classAt? index = m.classAt? index := by
  simp only [grown, classAt?, Array.getElem?_append, Array.getElem?_replicate]
  split
  · rfl
  · rename_i hindex
    rw [Array.getElem?_eq_none (Nat.not_lt.mp hindex)]
    split <;> simp

/-- One place more is free. -/
lemma classTable_grown_succ (m : Machine) :
    (m.grown (m.classTable.size + 1)).classTable = m.classTable.push m.nil := by
  simp [grown]

/-- A table that is long enough stays as it is. -/
lemma grown_of_le {size : ℕ} (hle : size ≤ m.classTable.size) : m.grown size = m := by
  simp [grown, Nat.sub_eq_zero_of_le hle]

/-- How long the table is then. -/
lemma size_classTable_grown (m : Machine) (size : ℕ) :
    (m.grown size).classTable.size = max m.classTable.size size := by
  simp only [grown, Array.size_append, Array.size_replicate]
  omega

/-- A machine with a class at an index of the table. -/
def withClassAt (m : Machine) (index : ℕ) (cls : Value) : Machine :=
  { m with classTable := m.classTable.setIfInBounds index cls }

/-- The table stays as long as it was. -/
lemma size_classTable_withClassAt (m : Machine) (index : ℕ) (cls : Value) :
    (m.withClassAt index cls).classTable.size = m.classTable.size :=
  Array.size_setIfInBounds

/-- The class table and nil tell which class stands where. -/
lemma classAt?_congr (htable : m'.classTable = m.classTable) (hnil : m'.nil = m.nil) (index : ℕ) :
    m'.classAt? index = m.classAt? index := by
  rw [classAt?, classAt?, htable, hnil]

/-- The class stands at its index, and the others at theirs. -/
lemma classAt?_withClassAt (hindex : index < m.classTable.size) (hcls : cls ≠ m.nil) (place : ℕ) :
    (m.withClassAt index cls).classAt? place =
      if place = index then some cls else m.classAt? place := by
  simp only [withClassAt, classAt?, Array.getElem?_setIfInBounds]
  by_cases hplace : index = place
  · subst hplace
    simp [hindex, hcls]
  · rw [if_neg hplace, if_neg (Ne.symm hplace)]

/-- Two classes stand at their indices, the later one where both have the same. -/
lemma classAt?_withClassAt_withClassAt {metaIndex : ℕ} {metaclass : Value}
    (hindex : index < m.classTable.size) (hmetaIndex : metaIndex < m.classTable.size)
    (hcls : cls ≠ m.nil) (hmetaclass : metaclass ≠ m.nil) (place : ℕ) :
    ((m.withClassAt index cls).withClassAt metaIndex metaclass).classAt? place =
      if place = metaIndex then some metaclass
      else if place = index then some cls else m.classAt? place := by
  rw [← size_classTable_withClassAt m index cls] at hmetaIndex
  rw [classAt?_withClassAt hmetaIndex hmetaclass, classAt?_withClassAt hindex hcls]

/-- The table is made long enough. -/
lemma growClassTable_eq_ok_iff {size : ℕ} {u : Unit} :
    growClassTable size m = .ok u m' ↔ m' = m.grown size := by
  simp [growClassTable, grown, eq_comm]

/-- A class is entered in the table. -/
lemma enterClass_eq_ok_iff {u : Unit} :
    enterClass index cls m = .ok u m' ↔ m' = m.withClassAt index cls := by
  simp [enterClass, withClassAt, eq_comm]

/-- A class index is handed out as long as it fits a header. -/
lemma reserveClassIndex_eq_ok_iff : reserveClassIndex m = .ok index m' ↔
    index = max m.classTable.size ClassIndex.firstDynamic ∧ index ≤ Header.maxClassIndex ∧
      m' = m.grown (index + 1) := by
  rw [reserveClassIndex]
  simp only [run_bind_eq_ok_iff, ask_eq_ok_iff, run_guard_eq_ok_iff, Except.ok.injEq]
  constructor
  · rintro ⟨_, _, ⟨rfl, rfl⟩, hmax, _, _, ⟨⟩, ⟨⟩⟩
    exact ⟨rfl, Nat.not_lt.mp hmax, rfl⟩
  · rintro ⟨rfl, hmax, rfl⟩
    exact ⟨_, _, ⟨rfl, rfl⟩, Nat.not_lt.mpr hmax, (), _, rfl, rfl⟩

/-- If it does not fit, nothing happens. -/
lemma reserveClassIndex_eq_error_iff {e : MachineError} : reserveClassIndex m = .error e m' ↔
    Header.maxClassIndex < max m.classTable.size ClassIndex.firstDynamic ∧
      e = .heap (.classIndexOutOfRange (max m.classTable.size ClassIndex.firstDynamic)) ∧ m' = m := by
  rw [reserveClassIndex, run_bind_eq_error_iff]
  simp only [ask_eq_error_iff, ask_eq_ok_iff, reduceCtorEq, false_and, false_or, Except.ok.injEq]
  constructor
  · rintro ⟨_, _, ⟨rfl, rfl⟩, herror⟩
    split at herror
    · cases herror
      exact ⟨‹_›, rfl, rfl⟩
    · cases herror
  · rintro ⟨hmax, rfl, rfl⟩
    refine ⟨_, _, ⟨rfl, rfl⟩, ?_⟩
    rw [if_pos hmax]
    rfl

/-! ### Making a class -/

/-- Allocates a class for an index and its metaclass for a fresh one, and enters both. -/
def enterPair (index : ℕ) : MachineM (ℕ × Value × Value) := do
  let metaIndex ← reserveClassIndex
  let cls ← change (Heap.allocate ClassSlot.classSize 0 .fixedSize metaIndex (some index))
  let metaclass ←
    change (Heap.allocate ClassSlot.classSize 0 .fixedSize ClassIndex.metaclass (some metaIndex))
  growClassTable (index + 1)
  enterClass index cls
  enterClass metaIndex metaclass
  return (metaIndex, cls, metaclass)

/-- Fills a class and its metaclass. -/
def furnish (cls metaclass : Value) (name : String) (spec : InstanceSpec) : MachineM Unit := do
  let symbol ← intern name
  let dictionary ← onHeap (Dictionary.new 0)
  change (fillClass cls dictionary spec symbol)
  let metaDictionary ← onHeap (Dictionary.new 0)
  change (fillClass metaclass metaDictionary ⟨.fixedSize, ClassSlot.classSize⟩ cls)

/-- Makes a class at an index and its metaclass at a fresh one, both without a superclass. -/
def makeClass (index : ℕ) (name : String) (spec : InstanceSpec) : MachineM Value := do
  let (_, cls, metaclass) ← enterPair index
  furnish cls metaclass name spec
  return cls

/-- A class is made by making it without a superclass and giving it one. -/
lemma createClass_eq (index : ℕ) (name : String) (superclass : Value) (spec : InstanceSpec) :
    createClass index name superclass spec = (do
      ask fun m => m.checkSuperclass superclass
      let cls ← makeClass index name spec
      setSuperclass cls superclass
      return cls) := by
  simp only [createClass, makeClass, enterPair, furnish, bind_assoc, pure_bind]

/-- A class is made by entering a pair, filling it, and giving the class its superclass. -/
lemma createClass_eq_enterPair (index : ℕ) (name : String) (superclass : Value)
    (spec : InstanceSpec) : createClass index name superclass spec = (do
      ask fun m => m.checkSuperclass superclass
      let pair ← enterPair index
      furnish pair.2.1 pair.2.2 name spec
      setSuperclass pair.2.1 superclass
      return pair.2.1) := by
  simp only [createClass_eq, makeClass, bind_assoc, pure_bind]

end Machine

end TalkMachine
