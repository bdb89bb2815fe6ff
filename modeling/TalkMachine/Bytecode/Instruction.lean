import TalkMachine.Bytecode.SpecialSelector
import TalkMachine.Value

/-!
# Instructions

An instruction with its operands, whatever the bytes it was read from. Distances of jumps count from
the end of the jump.
-/

namespace TalkMachine

/-- The kinds of variable that an instruction can name by index. -/
inductive Place
  /-- A field of the receiver. -/
  | receiverField
  /-- The value of the binding that is the literal with this index. -/
  | literalBinding
  /-- An argument, or behind the arguments a temporary. -/
  | temporary
deriving DecidableEq, Repr

/-- The values that an instruction can push without an operand. -/
inductive Constant
  | receiver
  | true
  | false
  | nil
  | thisContext
deriving DecidableEq, Repr

/-- What a method returns. -/
inductive ReturnValue
  | receiver
  | true
  | false
  | nil
  | top
deriving DecidableEq, Repr

/-- When a jump is taken. A conditional jump pops the value it asks. -/
inductive JumpKind
  | always
  | ifTrue
  | ifFalse
deriving DecidableEq, Repr

/-- One step of a method. -/
inductive Instruction
  /-- Push the value of a variable. -/
  | pushVariable (place : Place) (index : Nat)
  /-- Push a literal. -/
  | pushLiteral (index : Nat)
  /-- Push a value that needs no operand. -/
  | pushConstant (constant : Constant)
  /-- Push an integer. -/
  | pushInteger (n : Int)
  /-- Push the character with a code point. -/
  | pushCharacter (code : Nat)
  /-- Push the top of the stack again. -/
  | dup
  /-- Drop the top of the stack. -/
  | pop
  /-- Do nothing. -/
  | nop
  /-- End the method with a value. -/
  | return (value : ReturnValue)
  /-- Send a special selector. -/
  | sendSpecial (index : Nat)
  /-- Send the selector that is the literal with this index. -/
  | send (literal argumentCount : Nat)
  /-- Jump over `distance` bytes. -/
  | jump (kind : JumpKind) (distance : Int)
  /-- Store the top of the stack into a variable, and drop it if `popping`. -/
  | store (place : Place) (index : Nat) (popping : Bool)
deriving DecidableEq, Repr

/-! ### Text -/

/-- A distance with its sign, also in front of zero. -/
def signedText (distance : Int) : String :=
  if distance < 0 then toString distance else "+" ++ toString distance

namespace Place

/-- The name of a place where it is read from or stored into in a full name. -/
def fullName : Place → String
  | receiverField => "ReceiverVariable"
  | literalBinding => "LiteralVariable"
  | temporary => "Temp"

/-- The name of a place in a push mnemonic. -/
def pushName : Place → String
  | receiverField => "Rcvr"
  | literalBinding => "LitVar"
  | temporary => "Temp"

end Place

namespace Constant

/-- The name of a constant in a full name. -/
def fullName : Constant → String
  | receiver => "Receiver"
  | true => "True"
  | false => "False"
  | nil => "Nil"
  | thisContext => "ThisContext"

/-- The mnemonic that pushes a constant. -/
def mnemonic : Constant → String
  | receiver => "self"
  | true => "pushConst: true"
  | false => "pushConst: false"
  | nil => "pushConst: nil"
  | thisContext => "pushThisContext"

end Constant

namespace ReturnValue

/-- The name of a returned value in a full name. -/
def fullName : ReturnValue → String
  | receiver => "Receiver"
  | true => "True"
  | false => "False"
  | nil => "Nil"
  | top => "Top"

/-- The mnemonic that returns a value. -/
def mnemonic : ReturnValue → String
  | receiver => "returnSelf"
  | true => "return: true"
  | false => "return: false"
  | nil => "return: nil"
  | top => "returnTop"

end ReturnValue

namespace JumpKind

/-- The name of a kind of jump. -/
def name : JumpKind → String
  | always => "Always"
  | ifTrue => "IfTrue"
  | ifFalse => "IfFalse"

/-- The name of a kind of jump in a full name. -/
def fullName : JumpKind → String
  | always => "Jump"
  | ifTrue => "JumpIfTrue"
  | ifFalse => "JumpIfFalse"

/-- The mnemonic of a kind of jump. -/
def mnemonic : JumpKind → String
  | always => "jumpTo: "
  | ifTrue => "jumpTrue: "
  | ifFalse => "jumpFalse: "

end JumpKind

namespace Instruction

/-- The full name of an instruction with its operands in parentheses or, named, in braces. -/
def describe : Instruction → String
  | pushVariable place index => "Push" ++ place.fullName ++ "(" ++ toString index ++ ")"
  | pushLiteral index => "PushLiteralConstant(" ++ toString index ++ ")"
  | pushConstant constant => "Push" ++ constant.fullName
  | pushInteger n => "PushInteger(" ++ toString n ++ ")"
  | pushCharacter code => "PushCharacter(" ++ toString code ++ ")"
  | dup => "Dup"
  | pop => "Pop"
  | nop => "Nop"
  | .return value => "Return" ++ value.fullName
  | sendSpecial index => "SendSpecial(" ++ toString index ++ ")"
  | send literal argumentCount =>
    "Send \x7b literal: " ++ toString literal ++ ", argc: " ++ toString argumentCount ++ " \x7d"
  | jump kind distance => kind.fullName ++ "(" ++ toString distance ++ ")"
  | store place index popping =>
    (if popping then "PopStore" else "Store") ++ place.fullName ++ "(" ++ toString index ++ ")"

/-- The instruction as a line of a listing shows it. -/
def mnemonic : Instruction → String
  | pushVariable place index => "push" ++ place.pushName ++ ": " ++ toString index
  | pushLiteral index => "pushConst: " ++ toString index
  | pushConstant constant => constant.mnemonic
  | pushInteger n => "pushConst: " ++ toString n
  | pushCharacter code =>
    match Value.scalar? code with
    | some c => "pushConst: $" ++ c.toString
    | none => "pushConst: Character value: " ++ toString code
  | dup => "dup"
  | pop => "pop"
  | nop => "nop"
  | .return value => value.mnemonic
  | sendSpecial index =>
    match SpecialSelector.table[index]? with
    | some selector => "send: #" ++ selector.name
    | none => "send: special " ++ toString index
  | send literal argumentCount =>
    "send: lit " ++ toString literal ++ " (" ++ toString argumentCount ++ " args)"
  | jump kind distance => kind.mnemonic ++ signedText distance
  | store place index popping =>
    (if popping then "popInto" else "storeInto") ++ place.pushName ++ ": " ++ toString index

end Instruction

end TalkMachine
