import Mathlib.Logic.Relation
import TalkMachine.Interpreter
import TalkMachine.Proofs.Interpreter.Sends

/-!
# Runs

A run is followed from one instruction to the next. Beside the state of the interpreter, a moment of
a run lists the callers: the frames of the run that wait for a method they activated, the nearest
first, with the stack as it was when they sent (`Interpreter.Moment`). An activation adds a caller
and a return takes one away, whatever is on the stack; so the list tells which activation a return
belongs to, and what a return finds on the stack can be compared with it.

To execute a method is to prepare it, to run it from there, and to take the result from the stack
(`Interpreter.executeWith_eq_ok_iff`). The run ends at a moment whose instruction leaves nothing to
run, and at no other (`Interpreter.Moment.run_eq_ok_iff`).
-/

namespace TalkMachine

namespace Interpreter

open Execution

/-- A frame that waits for a method it activated. -/
structure Caller where
  /-- Its registers, where the program counter is behind the send. -/
  registers : Registers
  /-- The stack when it sent, with receiver and arguments on top. -/
  stack : Stack
  /-- The number of arguments that it sent. -/
  argumentCount : ℕ

/-- What a run has come to before an instruction. -/
structure Moment where
  /-- The greatest number of steps that may follow. -/
  steps : ℕ
  registers : Registers
  execution : Execution
  callers : List Caller

/-- What is done before the first instruction of a method: receiver and arguments are pushed, and a
frame that ends the run is put on top. -/
def prepare (method receiver : Value) (arguments : List Value) : ExecutionM Registers := do
  push receiver
  arguments.forM push
  activate method 0 arguments.length

/-- Entering a method prepares it, runs it from there, and takes the result from the stack. -/
lemma enter_eq (run : Registers → ExecutionM Unit) (method receiver : Value)
    (arguments : List Value) :
    enter run method receiver arguments = (do
      let r ← prepare method receiver arguments
      run r
      pop) := by
  simp only [enter, prepare, bind_assoc]

/-- Entering a method succeeds just when all three do. -/
lemma enter_eq_ok_iff {run : Registers → ExecutionM Unit} {method receiver value : Value}
    {arguments : List Value} {p q : Execution} :
    enter run method receiver arguments p = .ok value q ↔
      ∃ r p₀ q₀, prepare method receiver arguments p = .ok r p₀ ∧ run r p₀ = .ok () q₀ ∧
        pop q₀ = .ok value q := by
  rw [enter_eq]
  simp only [run_bind_eq_ok_iff, exists_and_left]
  constructor
  · rintro ⟨r, p₀, hprepare, _, q₀, hrun, hpop⟩
    exact ⟨r, p₀, hprepare, q₀, hrun, hpop⟩
  · rintro ⟨r, p₀, hprepare, q₀, hrun, hpop⟩
    exact ⟨r, p₀, hprepare, _, q₀, hrun, hpop⟩

/-- A method is executed by preparing it, running it from there, and taking the result from the
stack. -/
lemma executeWith_eq_ok_iff {run : Registers → ExecutionM Unit} {method receiver value : Value}
    {arguments : List Value} {p q : Execution} :
    executeWith run method receiver arguments p = .ok value q ↔
      ∃ r p₀ q₀, prepare method receiver arguments p = .ok r p₀ ∧ run r p₀ = .ok () q₀ ∧
        pop q₀ = .ok value q := by
  rw [← enter_eq_ok_iff]
  unfold executeWith restoring
  cases enter run method receiver arguments p <;> simp

namespace Moment

/-- The heap at a moment. -/
def heap (m : Moment) : Heap :=
  m.execution.machine.heap

/-- The stack at a moment. -/
def stack (m : Moment) : Stack :=
  m.execution.stack

/-- The way in which native methods can send at a moment. -/
def sender (host : Host) (m : Moment) : Sender :=
  send host (m.steps - 1)

/-- The registers at a moment, with the program counter behind the instruction. -/
def behind (m : Moment) (next : ℕ) : Registers :=
  { m.registers with pc := next }

/-- An instruction is carried out at a moment, with `next` behind it, and leaves the registers of
what runs next and an execution. -/
structure Performs (host : Host) (m : Moment) (instruction : Instruction) (next : ℕ)
    (o : Option Registers) (q : Execution) : Prop where
  steps : m.steps ≠ 0
  fetch : fetch m.heap m.registers = .ok (instruction, next)
  perform : perform host (m.sender host) (m.behind next) instruction m.execution = .ok o q

/-- The moment after another. -/
inductive Next (host : Host) (m : Moment) : Moment → Prop
  /-- An instruction that neither returns nor activates a method. -/
  | inside {instruction : Instruction} {next : ℕ} {r : Registers} {q : Execution}
      (step : m.Performs host instruction next (some r) q)
      (hreturn : ∀ value, instruction ≠ .return value)
      (hactivates : ∀ argumentCount method,
        ¬Activates (m.behind next) m.execution instruction argumentCount method) :
      Next host m ⟨m.steps - 1, r, q, m.callers⟩
  /-- A send that activates a method. The sending frame becomes a caller. -/
  | call {instruction : Instruction} {next : ℕ} {r : Registers} {q : Execution}
      {argumentCount : ℕ} {method : Value}
      (step : m.Performs host instruction next (some r) q)
      (hactivates : Activates (m.behind next) m.execution instruction argumentCount method) :
      Next host m ⟨m.steps - 1, r, q, ⟨m.behind next, m.stack, argumentCount⟩ :: m.callers⟩
  /-- A return. The nearest caller no longer waits. -/
  | return {value : ReturnValue} {next : ℕ} {r : Registers} {q : Execution}
      (step : m.Performs host (.return value) next (some r) q) :
      Next host m ⟨m.steps - 1, r, q, m.callers.tail⟩

/-- The moments that follow on a moment of a run. -/
def Reaches (host : Host) : Moment → Moment → Prop :=
  Relation.ReflTransGen (Next host)

variable {host : Host} {m m' : Moment} {instruction : Instruction} {next : ℕ}
  {o : Option Registers} {q : Execution}

/-! ### Steps -/

/-- What an instruction leaves is determined. -/
lemma Performs.unique {instruction' : Instruction} {next' : ℕ} {o' : Option Registers}
    {q' : Execution} (h : m.Performs host instruction next o q)
    (h' : m.Performs host instruction' next' o' q') :
    instruction = instruction' ∧ next = next' ∧ o = o' ∧ q = q' := by
  have hfetch := h.fetch
  rw [h'.fetch] at hfetch
  cases hfetch
  have hperform := h.perform
  rw [h'.perform] at hperform
  cases hperform
  exact ⟨rfl, rfl, rfl, rfl⟩

/-- An instruction is carried out by a step. -/
lemma step_eq_ok_iff {send : Sender} {r : Registers} {p : Execution} :
    step host send r p = .ok o q ↔ ∃ instruction next,
      Interpreter.fetch p.machine.heap r = .ok (instruction, next) ∧
      Interpreter.perform host send { r with pc := next } instruction p = .ok o q := by
  unfold step
  rw [ask_bind_eq_ok_iff]
  simp only [Prod.exists]

/-- A step at a moment carries out an instruction. -/
lemma exists_performs {steps : ℕ} (hsteps : m.steps = steps + 1)
    (h : step host (send host steps) m.registers m.execution = .ok o q) :
    ∃ instruction next, m.Performs host instruction next o q := by
  obtain ⟨instruction, next, hfetch, hperform⟩ := step_eq_ok_iff.mp h
  refine ⟨instruction, next, by omega, hfetch, ?_⟩
  unfold sender
  rw [hsteps, Nat.add_sub_cancel]
  exact hperform

/-- An instruction that leaves something to run is followed by a moment. -/
lemma exists_next {r : Registers} (h : m.Performs host instruction next (some r) q) :
    ∃ callers, Next host m ⟨m.steps - 1, r, q, callers⟩ := by
  by_cases hreturn : ∃ value, instruction = .return value
  · obtain ⟨value, rfl⟩ := hreturn
    exact ⟨_, .return h⟩
  · by_cases hactivates : ∃ argumentCount method,
        Activates (m.behind next) m.execution instruction argumentCount method
    · obtain ⟨argumentCount, method, hactivates⟩ := hactivates
      exact ⟨_, .call h hactivates⟩
    · exact ⟨_, .inside h (fun value heq => hreturn ⟨value, heq⟩)
        fun argumentCount method h => hactivates ⟨argumentCount, method, h⟩⟩

/-- The next moment comes about by an instruction that leaves its registers and its execution. -/
lemma Next.performs (h : Next host m m') : ∃ instruction next,
    m.Performs host instruction next (some m'.registers) m'.execution ∧ m'.steps = m.steps - 1 := by
  cases h with
  | inside step hreturn hactivates => exact ⟨_, _, step, rfl⟩
  | call step hactivates => exact ⟨_, _, step, rfl⟩
  | «return» step => exact ⟨_, _, step, rfl⟩

/-! ### Runs -/

/-- A run without steps fails. -/
lemma run_zero (host : Host) (r : Registers) : run host 0 r = throw .outOfSteps := by
  rfl

/-- A run is a step and then the run from there, if there is something to run. -/
lemma run_succ (host : Host) (steps : ℕ) (r : Registers) (p : Execution) :
    run host (steps + 1) r p =
      match step host (send host steps) r p with
      | .ok (some r) p => run host steps r p
      | .ok none p => .ok () p
      | .error e p => .error e p := by
  rfl

/-- A run goes on as it would from the next moment. -/
lemma run_eq_of_next (h : Next host m m') :
    run host m.steps m.registers m.execution = run host m'.steps m'.registers m'.execution := by
  obtain ⟨instruction, next, step, hsteps⟩ := h.performs
  obtain ⟨steps, hsucc⟩ : ∃ steps, m.steps = steps + 1 := Nat.exists_eq_succ_of_ne_zero step.steps
  have hperform := step.perform
  unfold sender at hperform
  rw [hsucc, Nat.add_sub_cancel] at hperform hsteps
  have hstep : Interpreter.step host (send host steps) m.registers m.execution =
      .ok (some m'.registers) m'.execution :=
    step_eq_ok_iff.mpr ⟨instruction, next, step.fetch, hperform⟩
  rw [hsucc, hsteps, run_succ, hstep]

/-- A run goes on as it would from any of its moments. -/
lemma run_eq_of_reaches (h : Reaches host m m') :
    run host m.steps m.registers m.execution = run host m'.steps m'.registers m'.execution := by
  induction h with
  | refl => rfl
  | tail _ hnext ih => rw [ih, run_eq_of_next hnext]

/-- A run ends at a moment whose instruction leaves nothing to run. -/
theorem run_eq_ok_iff :
    run host m.steps m.registers m.execution = .ok () q ↔ ∃ m' instruction next,
      Reaches host m m' ∧ m'.Performs host instruction next none q := by
  constructor
  · intro h
    obtain ⟨steps, hsteps⟩ : ∃ steps, steps = m.steps := ⟨_, rfl⟩
    induction steps generalizing m with
    | zero =>
      rw [← hsteps, run_zero] at h
      exact absurd h (throw_ne_ok _)
    | succ steps ih =>
      rw [← hsteps, run_succ] at h
      split at h
      · rename_i r p hstep
        obtain ⟨instruction, next, performs⟩ := exists_performs hsteps.symm hstep
        obtain ⟨callers, hnext⟩ := exists_next performs
        rw [← hsteps, Nat.add_sub_cancel] at hnext
        obtain ⟨m', instruction', next', hreaches, hends⟩ := ih (m := ⟨steps, r, p, callers⟩) h rfl
        exact ⟨m', instruction', next', .head hnext hreaches, hends⟩
      · rename_i p hstep
        obtain rfl : p = q := by simpa using h
        obtain ⟨instruction, next, performs⟩ := exists_performs hsteps.symm hstep
        exact ⟨m, instruction, next, .refl, performs⟩
      · cases h
  · rintro ⟨m', instruction, next, hreaches, hends⟩
    obtain ⟨steps, hsteps⟩ : ∃ steps, m'.steps = steps + 1 :=
      Nat.exists_eq_succ_of_ne_zero hends.steps
    have hperform := hends.perform
    unfold sender at hperform
    rw [hsteps, Nat.add_sub_cancel] at hperform
    have hstep := step_eq_ok_iff.mpr ⟨instruction, next, hends.fetch, hperform⟩
    rw [run_eq_of_reaches hreaches, hsteps, run_succ, hstep]

end Moment

end Interpreter

end TalkMachine
