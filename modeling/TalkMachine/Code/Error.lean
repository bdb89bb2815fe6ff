import TalkMachine.Heap

/-!
# Errors of assembly
-/

namespace TalkMachine

/-- A place in code that is named before it is known. -/
structure Label where
  number : Nat
deriving DecidableEq, Repr

/-- The text of a label. -/
def Label.text (label : Label) : String :=
  "L" ++ toString label.number

/-- Why code could not be assembled. -/
inductive AssemblyError
  /-- The operand fits no encoding of its instruction. -/
  | operandOutOfRange (operand : Int)
  | tooManyLiterals (count : Nat)
  | tooManyTemps (count : Nat)
  | tooManyArguments (count : Nat)
  /-- The label is not one of this code, or was never placed. -/
  | unboundLabel (label : Label)
  | labelAlreadyBound (label : Label)
  /-- The node at this position does not fit the bytes laid out for it. -/
  | encodingOverrun (position : Nat)
  /-- The heap refused the method object. -/
  | heap (e : HeapError)
deriving DecidableEq, Repr

namespace AssemblyError

/-- Whether the code can be changed so that the error does not come up. -/
def isRecoverable : AssemblyError → Bool
  | encodingOverrun _ => false
  | _ => true

/-- The text of an assembly error. -/
def message : AssemblyError → String
  | operandOutOfRange operand => "operand " ++ toString operand ++ " out of range"
  | tooManyLiterals count => "too many literals: " ++ toString count
  | tooManyTemps count => "too many temporaries: " ++ toString count
  | tooManyArguments count => "too many arguments: " ++ toString count
  | unboundLabel label => "label " ++ label.text ++ " was never bound"
  | labelAlreadyBound label => "label " ++ label.text ++ " is already bound"
  | encodingOverrun position =>
    "encoding overran the computed layout at byte " ++ toString position
  | heap e => e.message

end AssemblyError

end TalkMachine
