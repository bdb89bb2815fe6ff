import TalkMachine.Interpreter.Execution
import TalkMachine.Proofs.Outcome
import TalkMachine.Proofs.Stack.Words

/-!
# Steps of an execution

What a step of an execution does when it succeeds, for the steps that everything else is made of:
questions leave the execution as it was, and changes of the stack or of the machine leave the other
of the two as it was. Each is also stated with what follows it.
-/

namespace TalkMachine

/-- A question to the heap succeeds as one to the machine just when it does. -/
lemma Except.ofHeap_eq_ok_iff {α : Type} {x : Except HeapError α} {a : α} :
    Except.ofHeap x = .ok a ↔ x = .ok a := by
  cases x <;> simp [Except.ofHeap]

namespace Execution

variable {α β : Type} {p p' q : Execution} {a : α} {b : β}

/-- A result without a change. -/
@[simp] lemma pure_eq_ok_iff {a' : α} :
    (pure a : ExecutionM α) p = .ok a' p' ↔ a = a' ∧ p = p' := by
  simp [pure, EStateM.pure]

/-- A failure is no result. -/
@[simp] lemma throw_ne_ok (e : MachineError) :
    (throw e : ExecutionM α) p ≠ .ok a p' := by
  intro h
  cases h

/-- A question leaves the execution as it was. -/
lemma ask_eq_ok_iff {question : Execution → Except MachineError α} :
    ask question p = .ok a p' ↔ question p = .ok a ∧ p = p' := by
  unfold ask
  cases question p with
  | error e => simp
  | ok b => simp

/-- A question to the machine leaves the execution as it was. -/
lemma askMachine_eq_ok_iff {question : Machine → Except MachineError α} :
    askMachine question p = .ok a p' ↔ question p.machine = .ok a ∧ p = p' :=
  ask_eq_ok_iff

/-- A question to the heap leaves the execution as it was. -/
lemma askHeap_eq_ok_iff {question : Heap → Except HeapError α} :
    askHeap question p = .ok a p' ↔ question p.machine.heap = .ok a ∧ p = p' := by
  unfold askHeap
  rw [ask_eq_ok_iff, Except.ofHeap_eq_ok_iff]

/-- A change of the stack leaves the machine as it was. -/
lemma onStack_eq_ok_iff {x : StackM α} :
    onStack x p = .ok a p' ↔ x p.stack = .ok a p'.stack ∧ p'.machine = p.machine := by
  obtain ⟨machine, stack⟩ := p
  obtain ⟨machine', stack'⟩ := p'
  unfold onStack
  dsimp only
  cases x stack with
  | error e s => simp
  | ok b s =>
    simp only [EStateM.Result.ok.injEq, Execution.mk.injEq]
    constructor
    · rintro ⟨rfl, rfl, rfl⟩
      exact ⟨⟨rfl, rfl⟩, rfl⟩
    · rintro ⟨⟨rfl, rfl⟩, rfl⟩
      exact ⟨rfl, rfl, rfl⟩

/-- A question to the stack leaves the execution as it was. -/
lemma askStack_eq_ok_iff {question : Stack → Except StackError α} :
    askStack question p = .ok a p' ↔ question p.stack = .ok a ∧ p = p' := by
  unfold askStack
  rw [onStack_eq_ok_iff, Stack.ask_eq_ok_iff, and_assoc]
  refine and_congr_right fun _ => ?_
  obtain ⟨machine, stack⟩ := p
  obtain ⟨machine', stack'⟩ := p'
  rw [Execution.mk.injEq, and_comm, eq_comm, @eq_comm Stack]

/-- A change of the machine leaves the stack as it was. -/
lemma onMachine_eq_ok_iff {x : MachineM α} :
    onMachine x p = .ok a p' ↔ x p.machine = .ok a p'.machine ∧ p'.stack = p.stack := by
  obtain ⟨machine, stack⟩ := p
  obtain ⟨machine', stack'⟩ := p'
  unfold onMachine
  dsimp only
  cases x machine with
  | error e m => simp
  | ok b m =>
    simp only [EStateM.Result.ok.injEq, Execution.mk.injEq]
    constructor
    · rintro ⟨rfl, rfl, rfl⟩
      exact ⟨⟨rfl, rfl⟩, rfl⟩
    · rintro ⟨⟨rfl, rfl⟩, rfl⟩
      exact ⟨rfl, rfl, rfl⟩

/-! ### With what follows -/

/-- A question and what follows. -/
lemma ask_bind_eq_ok_iff {question : Execution → Except MachineError α} {f : α → ExecutionM β} :
    (ask question >>= f) p = .ok b q ↔ ∃ a, question p = .ok a ∧ f a p = .ok b q := by
  simp [run_bind_eq_ok_iff, ask_eq_ok_iff, and_assoc]

/-- A question to the machine and what follows. -/
lemma askMachine_bind_eq_ok_iff {question : Machine → Except MachineError α}
    {f : α → ExecutionM β} :
    (askMachine question >>= f) p = .ok b q ↔
      ∃ a, question p.machine = .ok a ∧ f a p = .ok b q := by
  simp [run_bind_eq_ok_iff, askMachine_eq_ok_iff, and_assoc]

/-- A question to the heap and what follows. -/
lemma askHeap_bind_eq_ok_iff {question : Heap → Except HeapError α} {f : α → ExecutionM β} :
    (askHeap question >>= f) p = .ok b q ↔
      ∃ a, question p.machine.heap = .ok a ∧ f a p = .ok b q := by
  simp [run_bind_eq_ok_iff, askHeap_eq_ok_iff, and_assoc]

/-- A question to the stack and what follows. -/
lemma askStack_bind_eq_ok_iff {question : Stack → Except StackError α} {f : α → ExecutionM β} :
    (askStack question >>= f) p = .ok b q ↔
      ∃ a, question p.stack = .ok a ∧ f a p = .ok b q := by
  simp [run_bind_eq_ok_iff, askStack_eq_ok_iff, and_assoc]

/-- A change of the stack and what follows. -/
lemma onStack_bind_eq_ok_iff {x : StackM α} {f : α → ExecutionM β} :
    (onStack x >>= f) p = .ok b q ↔
      ∃ a s, x p.stack = .ok a s ∧ f a ⟨p.machine, s⟩ = .ok b q := by
  rw [run_bind_eq_ok_iff]
  constructor
  · rintro ⟨a, ⟨machine, s⟩, hx, hf⟩
    obtain ⟨hx, rfl⟩ := onStack_eq_ok_iff.mp hx
    exact ⟨a, s, hx, hf⟩
  · rintro ⟨a, s, hx, hf⟩
    exact ⟨a, ⟨p.machine, s⟩, onStack_eq_ok_iff.mpr ⟨hx, rfl⟩, hf⟩

/-! ### Steps that succeed or fail -/

/-- A question to the machine that is answered. -/
lemma run_askMachine_of_ok {question : Machine → Except MachineError α}
    (h : question p.machine = .ok a) : askMachine question p = .ok a p :=
  askMachine_eq_ok_iff.mpr ⟨h, rfl⟩

/-- A question to the machine that is refused. -/
lemma run_askMachine_of_error {question : Machine → Except MachineError α} {e : MachineError}
    (h : question p.machine = .error e) : askMachine question p = .error e p := by
  simp only [askMachine, ask, h]

/-- A question to the stack that is answered. -/
lemma run_askStack_of_ok {question : Stack → Except StackError α}
    (h : question p.stack = .ok a) : askStack question p = .ok a p :=
  askStack_eq_ok_iff.mpr ⟨h, rfl⟩

/-- A change of the stack that goes through. -/
lemma run_onStack_of_ok {x : StackM α} {m : Machine} {s s' : Stack} (h : x s = .ok a s') :
    onStack x ⟨m, s⟩ = .ok a ⟨m, s'⟩ :=
  onStack_eq_ok_iff.mpr ⟨h, rfl⟩

/-- A question leaves the execution as it was, also when it is refused. -/
lemma stateAfter_ask (question : Execution → Except MachineError α) (p : Execution) :
    stateAfter (ask question p) = p := by
  unfold ask
  cases question p <;> rfl

/-- So does a question to the stack. -/
lemma stateAfter_askStack (question : Stack → Except StackError α) (p : Execution) :
    stateAfter (askStack question p) = p := by
  unfold askStack onStack Stack.ask
  dsimp only
  cases question p.stack <;> rfl

/-- What lies on top is popped. -/
lemma pop_of_peek {value : Value} (h : p.stack.peek 0 = .ok value) :
    pop p = .ok value ⟨p.machine, p.stack.restore (p.stack.sp + 8) p.stack.fp⟩ := by
  obtain ⟨hlive, hload⟩ := Stack.peek_eq_ok_iff.mp h
  exact onStack_eq_ok_iff.mpr ⟨Stack.pop_eq_ok_iff.mpr ⟨by omega, hload, rfl⟩, rfl⟩

end Execution

end TalkMachine
