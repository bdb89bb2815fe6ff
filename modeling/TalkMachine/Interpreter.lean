import TalkMachine.Interpreter.Step

/-!
# Running code

A run repeats steps until the frame that began it returns. Native methods may send messages in the
middle of a step, and each compiled method that they reach is a run of its own; so a run and a send
refer to each other. Both take the greatest number of steps, and fail with `MachineError.outOfSteps`
when that is too small. A result or another failure does not depend on it.

On failure the two pointers of the stack are put back to where they were when the method was
entered.
-/

namespace TalkMachine

namespace Interpreter

open Execution

/-- Pushes the receiver and the arguments, and runs a method on them with `run`. Answers the result.
-/
def enter (run : Registers → ExecutionM Unit) (method receiver : Value) (arguments : List Value) :
    ExecutionM Value := do
  push receiver
  arguments.forM push
  let r ← activate method 0 arguments.length
  run r
  pop

/-- Carries out `x`. On failure the pointers of the stack are set to `sp` and `fp`. They are given
as arguments so that `x` has the only copy of the stack. -/
@[noinline] def restoring {α : Type} (sp fp : Nat) (x : ExecutionM α) : ExecutionM α := fun p =>
  match x p with
  | .ok a p => .ok a p
  | .error e ⟨machine, stack⟩ => .error e ⟨machine, stack.restore sp fp⟩

/-- Runs a method. On failure the pointers of the stack are as on entry. -/
def executeWith (run : Registers → ExecutionM Unit) (method receiver : Value)
    (arguments : List Value) : ExecutionM Value := fun p =>
  restoring p.stack.sp p.stack.fp (enter run method receiver arguments) p

/-- Sends a message. Compiled methods run with `run`, and native methods send with `send`. -/
def sendWith (host : Host) (run : Registers → ExecutionM Unit) (send : Sender) : Sender :=
  fun receiver selector arguments => do
    let cls ← askMachine fun m => m.classOf receiver
    match ← askMachine fun m => m.lookup cls selector with
    | none => doesNotUnderstand host send receiver selector arguments
    | some method =>
      match ← askMachine fun m => m.methodKind method with
      | .compiled method => executeWith run method receiver arguments
      | .native argumentCount index =>
        callNumbered host send index argumentCount receiver arguments

mutual

/-- Runs until the frame that began the run returns. -/
def run (host : Host) : (steps : Nat) → Registers → ExecutionM Unit
  | 0, _ => throw .outOfSteps
  | steps + 1, r => fun p =>
    match step host (send host steps) r p with
    | .ok (some r) p => run host steps r p
    | .ok none p => .ok () p
    | .error e p => .error e p

/-- Sends a message. -/
def send (host : Host) : (steps : Nat) → Sender
  | 0 => fun _ _ _ => throw .outOfSteps
  | steps + 1 => sendWith host (run host steps) (send host steps)

end

/-- Runs a compiled method. -/
def execute (host : Host) (steps : Nat) (method receiver : Value) (arguments : List Value) :
    ExecutionM Value := do
  if !(← ask fun p => .ok (p.machine.heap.isCompiledMethod method)) then throw (.notAMethod method)
  executeWith (run host steps) method receiver arguments

/-- Interns a selector and sends it. -/
def sendNamed (send : Sender) (receiver : Value) (selector : String) (arguments : List Value) :
    ExecutionM Value := do
  let selector ← onMachine (Machine.intern selector)
  send receiver selector arguments

end Interpreter

end TalkMachine
