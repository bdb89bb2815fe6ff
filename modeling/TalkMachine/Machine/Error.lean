import TalkMachine.Bytecode.Decode
import TalkMachine.Code.Error
import TalkMachine.Stack

/-!
# Errors of the machine
-/

namespace TalkMachine

/-- Why the machine could not do what it was asked. -/
inductive MachineError
  /-- No class from that of the receiver up has the selector. -/
  | doesNotUnderstand (receiver selector : Value)
  | argumentCountMismatch (expected got : Nat)
  /-- The byte at `pc` of the running method is no operation. -/
  | unknownOpcode (byte : UInt8) (pc : Nat)
  | malformedCode (e : DecodeError)
  | assembly (e : AssemblyError)
  | heap (e : HeapError)
  | stack (e : StackError)
  /-- The value is not of the kind that is needed. -/
  | wrongType (expected : String) (got : Value)
  /-- A native method has no answer for its arguments. -/
  | nativeFailed (selector : String) (receiver : Value)
  | notAMethod (value : Value)
  /-- The superclasses of the class would go round in a circle. -/
  | superclassCycle (cls : Value)
  | invalidClass (value : Value)
  /-- A conditional jump met a value that is neither true nor false. -/
  | nonBoolean (value : Value)
  /-- The result has no value of the given kind. -/
  | unrepresentable (kind : String)
  /-- The steps allowed to a run are used up. -/
  | outOfSteps
deriving DecidableEq, Repr

namespace MachineError

/-- The error of a method whose code cannot be read. -/
def ofDecodeError : DecodeError → MachineError
  | .unknownOpcode offset byte => unknownOpcode byte offset
  | e => malformedCode e

/-- Whether a caller can go on after the error. Errors of calling conventions and of code mean that
the code is broken, and after an address overflow nothing goes on. -/
def isRecoverable : MachineError → Bool
  | argumentCountMismatch _ _ | unknownOpcode _ _ | malformedCode _ | outOfSteps => false
  | stack (.tempOutOfRange _) | stack .addressOverflow => false
  | assembly e => e.isRecoverable
  | _ => true

/-- The text of a machine error. -/
def message : MachineError → String
  | doesNotUnderstand receiver selector =>
    receiver.describe ++ " does not understand " ++ selector.describe
  | argumentCountMismatch expected got =>
    "method expects " ++ toString expected ++ " arguments, got " ++ toString got
  | unknownOpcode byte pc =>
    "unknown opcode 0x" ++ Text.hex 2 byte.toNat ++ " at pc " ++ toString pc
  | malformedCode e => "malformed bytecode: " ++ e.message
  | assembly e => "assembler: " ++ e.message
  | heap e => "memory: " ++ e.message
  | stack e => e.message
  | wrongType expected got => "expected " ++ expected ++ ", got " ++ got.describe
  | nativeFailed selector receiver =>
    "primitive " ++ selector ++ " failed for " ++ receiver.describe
  | notAMethod value => value.describe ++ " is not a method"
  | superclassCycle cls => "superclass chain of " ++ cls.describe ++ " would be cyclic"
  | invalidClass value => value.describe ++ " is not a class"
  | nonBoolean value => "conditional jump on non-boolean " ++ value.describe
  | unrepresentable kind => "result is not representable as a " ++ kind
  | outOfSteps => "out of steps"

end MachineError

/-- Names the part of the machine that refused an access. -/
def Except.ofHeap {α : Type} : Except HeapError α → Except MachineError α
  | .ok a => .ok a
  | .error e => .error (.heap e)

end TalkMachine
