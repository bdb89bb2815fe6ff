import TalkMachine.Bytecode.Listing
import TalkMachine.CommandLine.Options
import TalkMachine.Demo

/-!
# The command line

The program makes a fresh machine with the demonstration in it. It sends three messages and prints
their results, or it lists the methods. The last message is one that nothing understands.
-/

namespace TalkMachine.CommandLine

/-! ### Outcomes -/

/-- How a run of the program ended, and what it printed. -/
inductive Outcome
  | finished (output : String)
  /-- The machine failed after this output. -/
  | failed (output : String) (e : MachineError)
  /-- The arguments could not be understood. -/
  | rejected

namespace Outcome

/-- The exit code. -/
def exitCode : Outcome → UInt32
  | finished _ => 0
  | failed _ _ => 1
  | rejected => 2

/-- What was printed. -/
def output : Outcome → String
  | finished output | failed output _ => output
  | rejected => ""

/-- The line that tells of a failure of the machine. -/
def errorLine? : Outcome → Option String
  | failed _ e => some ("Error: " ++ e.message)
  | finished _ | rejected => none

end Outcome

/-! ### Texts -/

/-- The size of the heap where the arguments do not say. -/
def defaultMemoryLimit : Nat := 64 * 1024 * 1024

/-- The size of the stack where the arguments do not say. -/
def defaultStackSize : Nat := 64 * 1024

/-- The number where the arguments do not say. -/
def defaultNumber : Int := 10

/-- What the arguments may be. -/
def helpText : String := String.join
  ["Usage: talkvm [OPTIONS] [N]\n\n",
   "Arguments:\n",
   "  [N]  Compute the factorial of this number [default: ", toString defaultNumber, "]\n\n",
   "Options:\n",
   "      --dump-bytecode                Dump disassembled bytecode + literals\n",
   "      --memory-limit <MEMORY_LIMIT>  Object memory limit in bytes [default: ",
   toString defaultMemoryLimit, "]\n",
   "      --stack-size <STACK_SIZE>      Execution stack size in bytes [default: ",
   toString defaultStackSize, "]\n",
   "  -v, --verbose                      Log at debug level unless RUST_LOG says otherwise\n",
   "  -h, --help                         Print help\n",
   "  -V, --version                      Print version\n"]

/-- Name and version of the program. -/
def versionText : String := "talk-vm 0.1.0\n"

/-! ### Listing the methods -/

/-- The lines of the literals of a method from `index` on. -/
def literalLines (m : Machine) (method : Value) (count : Nat) : Except MachineError (List String) :=
  (List.range count).mapM fun index => do
    let literal ← m.literalOf method index
    return "  lit " ++ toString index ++ ": " ++ m.print literal ++ "\n"

/-- The listing of a method: a title, the literals, and the code. -/
def methodListing (m : Machine) (selector : String) (method : Value) :
    Except MachineError String := do
  let header ← Except.ofHeap (m.heap.methodHeader method)
  let literals ← literalLines m method header.literalCount
  let code ← Except.ofHeap (m.heap.methodCode method)
  return "== " ++ selector ++ " (" ++ toString header.argumentCount ++ " args, " ++
    toString header.tempCount ++ " temps, " ++ toString header.literalCount ++ " literals) ==\n" ++
    String.join literals ++ disassemble code header.initialPc

/-- The listings of the methods of the demonstration. -/
def listMethods (m : Machine) (demo : Demo) : Except MachineError String := do
  return String.join (← demo.methods.mapM fun (selector, method) => methodListing m selector method)

/-! ### Sending the messages -/

/-- An execution, and what has been printed. -/
structure Session where
  execution : Execution
  output : String

/-- A part of a run, which may fail. What it printed until then stays. -/
abbrev SessionM := EStateM MachineError Session

/-- The steps that a run may take. No run of the demonstration comes near them. -/
def maxSteps : Nat := 1_000_000_000_000_000_000

/-- Prints a line. -/
def printLine (line : String) : SessionM Unit := fun s =>
  .ok () { s with output := s.output ++ line ++ "\n" }

/-- Sends a message to the object of the demonstration. Answers the printed result, or the error. -/
def trySend (demo : Demo) (selector : String) (arguments : List Value) :
    SessionM (Except MachineError String) := fun s =>
  match Interpreter.sendNamed (Interpreter.send Host.none maxSteps) demo.receiver selector arguments
    s.execution with
  | .ok result execution =>
    .ok (.ok (execution.machine.print result)) { s with execution := execution }
  | .error e execution => .ok (.error e) { s with execution := execution }

/-- Sends a message that must be answered. -/
def send (demo : Demo) (selector : String) (arguments : List Value) : SessionM String := do
  match ← trySend demo selector arguments with
  | .ok text => return text
  | .error e => throw e

/-- Sends the messages of the demonstration and prints the results. -/
def sendMessages (demo : Demo) (n : Int) : SessionM Unit := do
  let some number := Value.ofInt? n | throw (.unrepresentable "SmallInteger")
  let product ← send demo Demo.factorialSelector [number]
  printLine (toString n ++ " factorial = " ++ product)
  let sum ← send demo Demo.sumSelector [number]
  printLine ("1 + ... + " ++ toString n ++ " = " ++ sum)
  match ← trySend demo Demo.unknownSelector [] with
  | .ok text => printLine (Demo.unknownSelector ++ " answered " ++ text)
  | .error e => printLine (Demo.unknownSelector ++ " failed: " ++ e.message)

/-! ### Running -/

/-- A fresh machine with the demonstration. -/
def newDemo (memoryLimit : Nat) : Except MachineError (Machine × Demo) := do
  match Demo.define (← Machine.new memoryLimit) with
  | .ok demo m => return (m, demo)
  | .error e _ => throw e

/-- Runs the program with options. -/
def runWith (options : Options) : Outcome :=
  match newDemo (options.memoryLimit.getD defaultMemoryLimit) with
  | .error e => .failed "" e
  | .ok (m, demo) =>
    if options.dumpsCode then
      match listMethods m demo with
      | .ok text => .finished text
      | .error e => .failed "" e
    else
      let stack := Stack.new (options.stackSize.getD defaultStackSize)
      match sendMessages demo (options.number.getD defaultNumber) ⟨⟨m, stack⟩, ""⟩ with
      | .ok () s => .finished s.output
      | .error e s => .failed s.output e

/-- Runs the program with arguments. -/
def run (arguments : List String) : Outcome :=
  match Request.ofArguments arguments with
  | none => .rejected
  | some .help => .finished helpText
  | some .version => .finished versionText
  | some (.run options) => runWith options

end TalkMachine.CommandLine
