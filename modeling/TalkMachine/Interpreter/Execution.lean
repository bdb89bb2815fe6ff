import TalkMachine.Machine.Lookup
import TalkMachine.Native.Float
import TalkMachine.Native.Integer
import TalkMachine.Native.Kernel
import TalkMachine.Stack.Frame

/-!
# Executions

An execution is a machine together with the stack that code runs on. Its host supplies native
methods beyond those of the kernel, and may supply a handler of messages that no method understands.
-/

namespace TalkMachine

/-- A machine and a stack. -/
structure Execution where
  machine : Machine
  stack : Stack

/-- A change to an execution, which may fail. -/
abbrev ExecutionM := EStateM MachineError Execution

namespace Execution

/-- Asks the execution without changing it. -/
def ask {α : Type} (question : Execution → Except MachineError α) : ExecutionM α := fun p =>
  match question p with
  | .ok a => .ok a p
  | .error e => .error e p

/-- Changes the machine. -/
def onMachine {α : Type} (x : MachineM α) : ExecutionM α := fun p =>
  match p with
  | ⟨machine, stack⟩ =>
    match x machine with
    | .ok a machine => .ok a ⟨machine, stack⟩
    | .error e machine => .error e ⟨machine, stack⟩

/-- Changes the stack. -/
def onStack {α : Type} (x : StackM α) : ExecutionM α := fun p =>
  match p with
  | ⟨machine, stack⟩ =>
    match x stack with
    | .ok a stack => .ok a ⟨machine, stack⟩
    | .error e stack => .error (.stack e) ⟨machine, stack⟩

/-- Asks the machine without changing it. -/
def askMachine {α : Type} (question : Machine → Except MachineError α) : ExecutionM α :=
  ask fun p => question p.machine

/-- Asks the heap without changing it. -/
def askHeap {α : Type} (question : Heap → Except HeapError α) : ExecutionM α :=
  ask fun p => Except.ofHeap (question p.machine.heap)

/-- Asks the stack without changing it. -/
def askStack {α : Type} (question : Stack → Except StackError α) : ExecutionM α :=
  onStack (Stack.ask question)

/-- Pushes a value. -/
def push (value : Value) : ExecutionM Unit :=
  onStack (Stack.push value)

/-- Pops a value. -/
def pop : ExecutionM Value :=
  onStack Stack.pop

end Execution

/-! ### Hosts -/

/-- A way to send a message: to the receiver, the selector with the arguments. -/
abbrev Sender := Value → Value → List Value → ExecutionM Value

/-- What surrounds an execution. Its functions may themselves send messages. -/
structure Host where
  /-- The native methods that the host knows by number: receiver and arguments. -/
  native : (number : Nat) → Sender → Value → List Value → ExecutionM Value
  /-- Answers a message that no method understands: receiver, selector and arguments. -/
  handler : Option (Sender → Value → Value → List Value → ExecutionM Value)

namespace Host

/-- The host that supplies nothing. -/
def none : Host :=
  ⟨fun number _ _ _ => throw (.notAMethod (Value.ofInt number)), Option.none⟩

end Host

namespace Execution

/-- Carries out a native method. -/
def callNative (host : Host) (send : Sender) (native : Native) (receiver : Value)
    (arguments : List Value) : ExecutionM Value :=
  match native with
  | .object n => onMachine (n.call receiver arguments)
  | .behavior n => onMachine (n.call receiver arguments)
  | .string n => onMachine (n.call receiver arguments)
  | .array n => onMachine (n.call receiver arguments)
  | .characterValue => askMachine fun _ => characterValue receiver
  | .boolean n => askMachine (n.call receiver arguments)
  | .integer n => askMachine (n.answer receiver arguments)
  | .integerText => onMachine (IntegerNative.text receiver)
  | .float n => askMachine (n.answer receiver arguments)
  | .floatText => onMachine (FloatNative.text receiver)
  | .foreign number => host.native number send receiver arguments

/-- Carries out the native method with a number, which takes `argumentCount` arguments. -/
def callNumbered (host : Host) (send : Sender) (index argumentCount : Nat) (receiver : Value)
    (arguments : List Value) : ExecutionM Value := do
  if arguments.length ≠ argumentCount then
    throw (.argumentCountMismatch argumentCount arguments.length)
  match ← askMachine fun m => .ok m.natives[index]? with
  | some native => callNative host send native receiver arguments
  | none => throw (.notAMethod (Value.ofInt index))

/-- Counts a call of the handler. -/
def countHandlerCall : ExecutionM Unit :=
  onMachine fun m => .ok () { m with handlerCalls := m.handlerCalls + 1 }

/-- Answers a message that no method understands: by the handler if there is one. -/
def doesNotUnderstand (host : Host) (send : Sender) (receiver selector : Value)
    (arguments : List Value) : ExecutionM Value :=
  match host.handler with
  | some handler => do
    countHandlerCall
    handler send receiver selector arguments
  | none => throw (.doesNotUnderstand receiver selector)

end Execution

end TalkMachine
