import TalkMachine.Bytecode.Decode
import TalkMachine.Code.Error
import TalkMachine.Code.Width

/-!
# Writing instructions as bytes

Each instruction is written in its shortest form: the byte that holds its operand if there is one,
else the long form with as few extensions as carry the operand.
-/

namespace TalkMachine

namespace Op

/-- The first byte of the run of an operation. Long forms have only this one. -/
def firstByte (op : Op) : UInt8 :=
  (op.byte? 0).getD 255

/-- The byte of an operation that keeps the operand `embedded`. -/
def short (op : Op) (embedded : Nat) : Except AssemblyError (List UInt8) :=
  match op.byte? embedded with
  | some byte => .ok [byte]
  | none => .error (.operandOutOfRange embedded)

/-- The long form of an operation with an unsigned operand. -/
def longUnsigned (op : Op) (operand : Nat) : Except AssemblyError (List UInt8) :=
  let extension := operand / 256
  let width := unsignedWidth extension
  if maxExtensions < width then .error (.operandOutOfRange operand)
  else .ok (extensionBytes extA.firstByte extension width ++ [op.firstByte, lowByte operand])

/-- The long form of an operation with a signed operand, and `width` extensions. -/
def longSigned (op : Op) (operand : Int) (width : Nat) : List UInt8 :=
  extensionBytes extB.firstByte (operand / 256) width ++ [op.firstByte, lowByte operand]

/-- The short form of an operation if it has one and it has room for the index, else the long form.
-/
def indexed (short : Option Op) (long : Op) (index : Nat) : Except AssemblyError (List UInt8) :=
  match short.bind (fun op => op.byte? index) with
  | some byte => .ok [byte]
  | none => long.longUnsigned index

end Op

/-! ### Jumps -/

namespace JumpKind

/-- The operation of a short jump. -/
def shortOp : JumpKind → Op
  | always => .shortJump
  | ifTrue => .shortJumpIfTrue
  | ifFalse => .shortJumpIfFalse

/-- The operation of a long jump. -/
def longOp : JumpKind → Op
  | always => .longJump
  | ifTrue => .longJumpIfTrue
  | ifFalse => .longJumpIfFalse

end JumpKind

namespace Jump

/-- The sizes a jump can have: the short form, and the long form with 0 to 3 extensions. -/
def sizes : List Nat := [1, 2, 4, 6, 8]

/-- The greatest size of a jump. -/
def maxSize : Nat := 2 + 2 * maxExtensions

/-- The number of extensions of a long jump of this size. -/
def extensions (size : Nat) : Nat := (size - 2) / 2

/-- Whether a jump of this size can go over `distance` bytes. -/
def fits (distance : Int) (size : Nat) : Bool :=
  if size = 1 then 1 ≤ distance && distance ≤ 8
  else 2 ≤ size && size % 2 == 0 && extensions size ≤ maxExtensions &&
    signedWidth (distance / 256) ≤ extensions size

/-- The bytes of a jump of a size that fits. -/
def encode (kind : JumpKind) (distance : Int) (size : Nat) : Except AssemblyError (List UInt8) :=
  if size = 1 then kind.shortOp.short (distance - 1).toNat
  else .ok (kind.longOp.longSigned distance (extensions size))

/-- The bytes of a jump of the least size that fits. -/
def encodeShortest (kind : JumpKind) (distance : Int) : Except AssemblyError (List UInt8) :=
  match sizes.find? (fits distance) with
  | some size => encode kind distance size
  | none => .error (.operandOutOfRange distance)

end Jump

/-! ### Instructions -/

/-- The short and the long operation that push a variable. -/
def Place.pushOps : Place → Op × Op
  | receiverField => (.pushReceiverVariable, .longPushReceiverVariable)
  | literalBinding => (.pushLiteralVariable, .longPushLiteralVariable)
  | temporary => (.pushTemp, .longPushTemp)

/-- The short operation, if there is one, and the long operation that store into a variable. -/
def Place.storeOps : Place → (popping : Bool) → Option Op × Op
  | receiverField, true => (some .popStoreReceiverVariable, .longPopStoreReceiverVariable)
  | receiverField, false => (none, .longStoreReceiverVariable)
  | literalBinding, true => (none, .longPopStoreLiteralVariable)
  | literalBinding, false => (none, .longStoreLiteralVariable)
  | temporary, true => (some .popStoreTemp, .longPopStoreTemp)
  | temporary, false => (none, .longStoreTemp)

/-- The operation that pushes a constant. -/
def Constant.op : Constant → Op
  | receiver => .pushReceiver
  | true => .pushTrue
  | false => .pushFalse
  | nil => .pushNil
  | thisContext => .pushThisContext

/-- The operation that returns a value. -/
def ReturnValue.op : ReturnValue → Op
  | receiver => .returnReceiver
  | true => .returnTrue
  | false => .returnFalse
  | nil => .returnNil
  | top => .returnTop

/-- The operation that sends a literal selector with few arguments. -/
def Op.send? : (argumentCount : Nat) → Option Op
  | 0 => some .send0
  | 1 => some .send1
  | 2 => some .send2
  | _ => none

namespace Instruction

/-- The long form of a send. The literal and the number of arguments share the extensions. -/
def encodeLongSend (literal argumentCount : Nat) : Except AssemblyError (List UInt8) :=
  let unsigned := literal / 32
  let signed : Int := argumentCount / 8
  let unsignedBytes := unsignedWidth unsigned
  let signedBytes := signedWidth signed
  if maxExtensions < unsignedBytes + signedBytes then
    .error (.operandOutOfRange (max literal argumentCount : Nat))
  else
    .ok (extensionBytes Op.extA.firstByte unsigned unsignedBytes ++
      extensionBytes Op.extB.firstByte signed signedBytes ++
      [Op.longSend.firstByte, UInt8.ofNat (literal % 32 * 8 + argumentCount % 8)])

/-- The shortest bytes of an instruction. -/
def encode : Instruction → Except AssemblyError (List UInt8)
  | pushVariable place index => Op.indexed (some place.pushOps.1) place.pushOps.2 index
  | pushLiteral index => Op.indexed (some .pushLiteralConstant) .longPushLiteralConstant index
  | pushConstant constant => constant.op.short 0
  | pushInteger n =>
    if n = 0 then Op.pushZero.short 0
    else if n = 1 then Op.pushOne.short 0
    else
      let width := signedWidth (n / 256)
      if maxExtensions < width then .error (.operandOutOfRange n)
      else .ok (Op.pushInteger.longSigned n width)
  | pushCharacter code => Op.pushCharacter.longUnsigned code
  | dup => Op.dup.short 0
  | pop => Op.pop.short 0
  | nop => Op.nop.short 0
  | .return value => value.op.short 0
  | sendSpecial index =>
    if index < 16 then Op.sendArithmetic.short index else Op.sendSpecial.short (index - 16)
  | send literal argumentCount =>
    match (Op.send? argumentCount).bind (fun op => op.byte? literal) with
    | some byte => .ok [byte]
    | none => encodeLongSend literal argumentCount
  | jump kind distance => Jump.encodeShortest kind distance
  | store place index popping =>
    Op.indexed (place.storeOps popping).1 (place.storeOps popping).2 index

end Instruction

end TalkMachine
