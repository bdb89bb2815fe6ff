import TalkMachine.Interpreter.Execution
import TalkMachine.Proofs.Machine.Fresh

/-!
# What native methods answer

A native method that only looks is known by its outcome on a receiver and arguments
(`NativeTable.Answers`). It is found in its table by its selector.
-/

namespace TalkMachine

open Execution

/-- Whether the native method that a table has for a selector comes to an outcome on a receiver and
arguments, whatever host and sender there are, and leaves the execution as it was. -/
def NativeTable.Answers (table : List NativeEntry) (p : Execution) (selector : String)
    (receiver : Value) (arguments : List Value) (outcome : Except MachineError Value) : Prop :=
  ∃ entry, table.filter (fun entry => entry.selector = selector) = [entry] ∧
    ∀ host send, callNative host send entry.native receiver arguments p =
      ask (fun _ => outcome) p

/-- There is one outcome only. -/
lemma NativeTable.Answers.unique {table : List NativeEntry} {p : Execution} {selector : String}
    {receiver : Value} {arguments : List Value} {outcome outcome' : Except MachineError Value}
    (h : NativeTable.Answers table p selector receiver arguments outcome)
    (h' : NativeTable.Answers table p selector receiver arguments outcome') :
    outcome = outcome' := by
  obtain ⟨entry, hfilter, hcall⟩ := h
  obtain ⟨entry', hfilter', hcall'⟩ := h'
  obtain rfl : entry = entry' := by simpa using hfilter.symm.trans hfilter'
  have heq := (hcall .none fun _ _ _ => pop).symm.trans (hcall' .none fun _ _ _ => pop)
  cases outcome <;> cases outcome' <;> cases heq <;> rfl

/-- The outcome of a native method that asks the machine is the answer to its question. -/
lemma NativeTable.answers_of_ask {table : List NativeEntry} {p : Execution} {selector : String}
    {count : ℕ} {native : Native} {receiver : Value} {arguments : List Value}
    {question : Machine → Except MachineError Value} {outcome : Except MachineError Value}
    (hfilter : table.filter (fun entry => entry.selector = selector) = [⟨selector, count, native⟩])
    (hcall : ∀ host send, callNative host send native receiver arguments p =
      askMachine question p) (houtcome : question p.machine = outcome) :
    NativeTable.Answers table p selector receiver arguments outcome := by
  subst houtcome
  exact ⟨_, hfilter, hcall⟩

/-- To ask the machine through a change of it is to ask it. -/
lemma Execution.onMachine_ask (question : Machine → Except MachineError Value) (p : Execution) :
    onMachine (Machine.ask question) p = askMachine question p := by
  simp only [onMachine, Machine.ask, askMachine, Execution.ask]
  cases question p.machine <;> rfl

/-- An execution with nothing in it. -/
def Execution.blank : Execution :=
  ⟨Machine.bare (Heap.new 0) Value.zero Value.zero Value.zero, Stack.new 0⟩

/-! ### Arguments -/

namespace Machine

/-- A value is what was expected if it can be read so. -/
lemma expected_eq_ok_iff {α : Type} {kind : String} {value : Value} {read : Option α}
    {a : α} : expected kind value read = .ok a ↔ read = some a := by
  cases read <;> simp [expected]

/-- An argument is found where there is one. -/
lemma argument_eq_ok_iff {arguments : List Value} {index : ℕ} {value : Value} :
    argument arguments index = .ok value ↔ arguments[index]? = some value := by
  rw [argument]
  cases arguments[index]? <;> simp

/-- An index that counts from one is accepted up to the number of elements. -/
lemma checkedIndex_eq_ok_iff {receiver : Value} {index : ℤ} {size position : ℕ} :
    checkedIndex receiver index size = .ok position ↔
      (1 ≤ index ∧ index ≤ size) ∧ (index - 1).toNat = position := by
  rw [checkedIndex]
  split <;> simp <;> omega

end Machine

end TalkMachine
