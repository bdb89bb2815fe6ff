/-!
# Operations and their bytes

Each operation owns a run of bytes. A short form keeps its operand in the byte itself, as the
distance from the first byte of the run. A long form is one byte, and an operand byte follows it;
extensions in front of it make the operand wider.
-/

namespace TalkMachine

/-- The operations. -/
inductive Op
  /-- Push a field of the receiver. -/
  | pushReceiverVariable
  /-- Push the value of a binding in the literals. -/
  | pushLiteralVariable
  /-- Push a literal. -/
  | pushLiteralConstant
  /-- Push an argument or temporary. -/
  | pushTemp
  /-- Push the receiver. -/
  | pushReceiver
  /-- Push true. -/
  | pushTrue
  /-- Push false. -/
  | pushFalse
  /-- Push nil. -/
  | pushNil
  /-- Push the integer 0. -/
  | pushZero
  /-- Push the integer 1. -/
  | pushOne
  /-- Push the context of the frame. -/
  | pushThisContext
  /-- Push the top of the stack again. -/
  | dup
  /-- Return the receiver. -/
  | returnReceiver
  /-- Return true. -/
  | returnTrue
  /-- Return false. -/
  | returnFalse
  /-- Return nil. -/
  | returnNil
  /-- Return the top of the stack. -/
  | returnTop
  /-- Do nothing. -/
  | nop
  /-- Send one of the special selectors 0 to 15. -/
  | sendArithmetic
  /-- Send one of the special selectors 16 to 31. -/
  | sendSpecial
  /-- Send a literal selector without arguments. -/
  | send0
  /-- Send a literal selector with one argument. -/
  | send1
  /-- Send a literal selector with two arguments. -/
  | send2
  /-- Jump forward over 1 to 8 bytes. -/
  | shortJump
  /-- Pop, and jump forward over 1 to 8 bytes if it was true. -/
  | shortJumpIfTrue
  /-- Pop, and jump forward over 1 to 8 bytes if it was false. -/
  | shortJumpIfFalse
  /-- Pop into a field of the receiver. -/
  | popStoreReceiverVariable
  /-- Pop into an argument or temporary. -/
  | popStoreTemp
  /-- Pop. -/
  | pop
  /-- Put a byte behind the unsigned extension. -/
  | extA
  /-- Put a byte behind the signed extension; the first byte is signed. -/
  | extB
  /-- As `pushReceiverVariable`, for any index. -/
  | longPushReceiverVariable
  /-- As `pushLiteralVariable`, for any index. -/
  | longPushLiteralVariable
  /-- As `pushLiteralConstant`, for any index. -/
  | longPushLiteralConstant
  /-- As `pushTemp`, for any index. -/
  | longPushTemp
  /-- Push a signed integer. -/
  | pushInteger
  /-- Push a character. -/
  | pushCharacter
  /-- Send a literal selector: five bits of the operand are its index, three the number of
  arguments. -/
  | longSend
  /-- Jump over any distance, forward or back. -/
  | longJump
  /-- Pop, and jump over any distance if it was true. -/
  | longJumpIfTrue
  /-- Pop, and jump over any distance if it was false. -/
  | longJumpIfFalse
  /-- As `popStoreReceiverVariable`, for any index. -/
  | longPopStoreReceiverVariable
  /-- Pop into a binding in the literals. -/
  | longPopStoreLiteralVariable
  /-- As `popStoreTemp`, for any index. -/
  | longPopStoreTemp
  /-- Store the top of the stack into a field of the receiver. -/
  | longStoreReceiverVariable
  /-- Store the top of the stack into a binding in the literals. -/
  | longStoreLiteralVariable
  /-- Store the top of the stack into an argument or temporary. -/
  | longStoreTemp
  /-- A byte that is no operation. -/
  | unassigned
deriving DecidableEq, Repr

namespace Op

/-- Whether an operand byte follows. -/
def hasOperandByte : Op → Bool
  | .extA | .extB | .longPushReceiverVariable | .longPushLiteralVariable
  | .longPushLiteralConstant | .longPushTemp | .pushInteger | .pushCharacter | .longSend
  | .longJump | .longJumpIfTrue | .longJumpIfFalse | .longPopStoreReceiverVariable
  | .longPopStoreLiteralVariable | .longPopStoreTemp | .longStoreReceiverVariable
  | .longStoreLiteralVariable | .longStoreTemp => true
  | _ => false

end Op

/-- The bytes `first`, `first + 1`, ... of one operation, `count` of them. -/
structure OpRange where
  first : Nat
  count : Nat
  op : Op
deriving Repr

/-- The assigned bytes, in rising order. All others are unassigned. -/
def opRanges : List OpRange :=
  [⟨0, 16, .pushReceiverVariable⟩, ⟨16, 16, .pushLiteralVariable⟩,
   ⟨32, 32, .pushLiteralConstant⟩, ⟨64, 12, .pushTemp⟩, ⟨76, 1, .pushReceiver⟩,
   ⟨77, 1, .pushTrue⟩, ⟨78, 1, .pushFalse⟩, ⟨79, 1, .pushNil⟩, ⟨80, 1, .pushZero⟩,
   ⟨81, 1, .pushOne⟩, ⟨82, 1, .pushThisContext⟩, ⟨83, 1, .dup⟩, ⟨88, 1, .returnReceiver⟩,
   ⟨89, 1, .returnTrue⟩, ⟨90, 1, .returnFalse⟩, ⟨91, 1, .returnNil⟩, ⟨92, 1, .returnTop⟩,
   ⟨95, 1, .nop⟩, ⟨96, 16, .sendArithmetic⟩, ⟨112, 16, .sendSpecial⟩, ⟨128, 16, .send0⟩,
   ⟨144, 16, .send1⟩, ⟨160, 16, .send2⟩, ⟨176, 8, .shortJump⟩, ⟨184, 8, .shortJumpIfTrue⟩,
   ⟨192, 8, .shortJumpIfFalse⟩, ⟨200, 8, .popStoreReceiverVariable⟩, ⟨208, 8, .popStoreTemp⟩,
   ⟨216, 1, .pop⟩, ⟨224, 1, .extA⟩, ⟨225, 1, .extB⟩, ⟨226, 1, .longPushReceiverVariable⟩,
   ⟨227, 1, .longPushLiteralVariable⟩, ⟨228, 1, .longPushLiteralConstant⟩,
   ⟨229, 1, .longPushTemp⟩, ⟨232, 1, .pushInteger⟩, ⟨233, 1, .pushCharacter⟩,
   ⟨234, 1, .longSend⟩, ⟨237, 1, .longJump⟩, ⟨238, 1, .longJumpIfTrue⟩,
   ⟨239, 1, .longJumpIfFalse⟩, ⟨240, 1, .longPopStoreReceiverVariable⟩,
   ⟨241, 1, .longPopStoreLiteralVariable⟩, ⟨242, 1, .longPopStoreTemp⟩,
   ⟨243, 1, .longStoreReceiverVariable⟩, ⟨244, 1, .longStoreLiteralVariable⟩,
   ⟨245, 1, .longStoreTemp⟩]

/-- What one byte says: an operation, and the operand kept in the byte. -/
structure Opcode where
  op : Op
  embedded : Nat
deriving DecidableEq, Repr

namespace Opcode

/-- Finds the run that a byte lies in. -/
def find (byte : Nat) : Opcode :=
  match opRanges.find? (fun run => run.first ≤ byte && byte < run.first + run.count) with
  | some run => ⟨run.op, byte - run.first⟩
  | none => ⟨.unassigned, 0⟩

/-- What each of the 256 bytes says. -/
def table : Vector Opcode 256 :=
  Vector.ofFn (fun byte => find byte.val)

/-- What a byte says. -/
@[irreducible] def ofByte (byte : UInt8) : Opcode :=
  have bound : byte.toNat < 256 := byte.toNat_lt
  table[byte.toNat]

theorem ofByte_eq_find (byte : UInt8) : ofByte byte = find byte.toNat := by
  unfold ofByte
  simp [table]

end Opcode

namespace Op

/-- The run of an operation. -/
def range? (op : Op) : Option OpRange :=
  opRanges.find? (fun run => run.op == op)

/-- The number of operands that an operation can keep in its byte. -/
def shortCount (op : Op) : Nat :=
  match op.range? with
  | some run => run.count
  | none => 0

/-- The byte of an operation that keeps the operand `embedded`, if its run is long enough. -/
def byte? (op : Op) (embedded : Nat) : Option UInt8 :=
  match op.range? with
  | some run => if embedded < run.count then some (UInt8.ofNat (run.first + embedded)) else none
  | none => none

end Op

end TalkMachine
