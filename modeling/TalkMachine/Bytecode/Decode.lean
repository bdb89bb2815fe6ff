import TalkMachine.Bytecode.Instruction
import TalkMachine.Bytecode.Opcode
import TalkMachine.Text.Spelling

/-!
# Reading instructions from bytes

An instruction is at most three extensions, each with a byte, and then an operation, with an operand
byte if it has one. Reading takes the bytes from the front of a list and tells how many it took,
also when it fails. At most eight bytes are ever taken.
-/

namespace TalkMachine

/-! ### Errors -/

/-- Why no instruction could be read. The offset is where the instruction begins, but for an
unassigned byte its own. -/
inductive DecodeError
  | unknownOpcode (offset : Nat) (byte : UInt8)
  /-- The bytes ended inside the instruction. -/
  | truncated (offset : Nat)
  | tooManyExtensions (offset : Nat)
  /-- An operand has no meaning for its operation. -/
  | invalidOperand (offset : Nat)
deriving DecidableEq, Repr

/-- The greatest number of extensions of one instruction. -/
def maxExtensions : Nat := 3

/-- The text of a decoding error. -/
def DecodeError.message : DecodeError → String
  | .unknownOpcode offset byte =>
    "unknown opcode 0x" ++ Text.hex 2 byte.toNat ++ " at " ++ toString offset
  | .truncated offset => "truncated instruction at " ++ toString offset
  | .tooManyExtensions offset =>
    "more than " ++ toString maxExtensions ++ " extension prefixes at " ++ toString offset
  | .invalidOperand offset => "invalid operand at " ++ toString offset

/-! ### Extensions -/

/-- What the extensions before an operation have said so far. -/
structure Extensions where
  /-- The unsigned extension. -/
  unsigned : Nat
  /-- The signed extension. -/
  signed : Int
  /-- Whether the signed extension has its first byte, which carries the sign. -/
  signedSeen : Bool
deriving DecidableEq, Repr

namespace Extensions

/-- No extension. -/
def none : Extensions := ⟨0, 0, false⟩

/-- A byte read as a signed number. -/
def signedByte (byte : UInt8) : Int :=
  if byte.toNat < 128 then byte.toNat else (byte.toNat : Int) - 256

/-- Puts a byte behind the unsigned extension. -/
def extendUnsigned (e : Extensions) (byte : UInt8) : Extensions :=
  { e with unsigned := e.unsigned * 256 + byte.toNat }

/-- Puts a byte behind the signed extension. -/
def extendSigned (e : Extensions) (byte : UInt8) : Extensions :=
  if e.signedSeen then { e with signed := e.signed * 256 + byte.toNat }
  else { e with signed := signedByte byte, signedSeen := true }

/-- The unsigned operand that ends in `byte`. -/
def unsignedOperand (e : Extensions) (byte : UInt8) : Nat :=
  e.unsigned * 256 + byte.toNat

/-- The signed operand that ends in `byte`. -/
def signedOperand (e : Extensions) (byte : UInt8) : Int :=
  e.signed * 256 + byte.toNat

end Extensions

/-! ### Operations -/

namespace Op

/-- What an extension does with its byte. -/
def extend? : Op → Option (Extensions → UInt8 → Extensions)
  | .extA => some Extensions.extendUnsigned
  | .extB => some Extensions.extendSigned
  | _ => none

/-- The instruction of an operation without operand byte. -/
def short? (op : Op) (embedded : Nat) : Option Instruction :=
  match op with
  | .pushReceiverVariable => some (.pushVariable .receiverField embedded)
  | .pushLiteralVariable => some (.pushVariable .literalBinding embedded)
  | .pushLiteralConstant => some (.pushLiteral embedded)
  | .pushTemp => some (.pushVariable .temporary embedded)
  | .pushReceiver => some (.pushConstant .receiver)
  | .pushTrue => some (.pushConstant .true)
  | .pushFalse => some (.pushConstant .false)
  | .pushNil => some (.pushConstant .nil)
  | .pushZero => some (.pushInteger 0)
  | .pushOne => some (.pushInteger 1)
  | .pushThisContext => some (.pushConstant .thisContext)
  | .dup => some .dup
  | .returnReceiver => some (.return .receiver)
  | .returnTrue => some (.return .true)
  | .returnFalse => some (.return .false)
  | .returnNil => some (.return .nil)
  | .returnTop => some (.return .top)
  | .nop => some .nop
  | .sendArithmetic => some (.sendSpecial embedded)
  | .sendSpecial => some (.sendSpecial (16 + embedded))
  | .send0 => some (.send embedded 0)
  | .send1 => some (.send embedded 1)
  | .send2 => some (.send embedded 2)
  | .shortJump => some (.jump .always (embedded + 1))
  | .shortJumpIfTrue => some (.jump .ifTrue (embedded + 1))
  | .shortJumpIfFalse => some (.jump .ifFalse (embedded + 1))
  | .popStoreReceiverVariable => some (.store .receiverField embedded true)
  | .popStoreTemp => some (.store .temporary embedded true)
  | .pop => some .pop
  | _ => none

/-- The instruction of an operation with an operand byte. There is none if the number of arguments
of a send comes out negative. -/
def long? (op : Op) (e : Extensions) (byte : UInt8) : Option Instruction :=
  match op with
  | .longPushReceiverVariable => some (.pushVariable .receiverField (e.unsignedOperand byte))
  | .longPushLiteralVariable => some (.pushVariable .literalBinding (e.unsignedOperand byte))
  | .longPushLiteralConstant => some (.pushLiteral (e.unsignedOperand byte))
  | .longPushTemp => some (.pushVariable .temporary (e.unsignedOperand byte))
  | .pushInteger => some (.pushInteger (e.signedOperand byte))
  | .pushCharacter => some (.pushCharacter (e.unsignedOperand byte))
  | .longSend =>
    let argumentCount := e.signed * 8 + (byte.toNat % 8 : Nat)
    if argumentCount < 0 then none
    else some (.send (e.unsigned * 32 + byte.toNat / 8) argumentCount.toNat)
  | .longJump => some (.jump .always (e.signedOperand byte))
  | .longJumpIfTrue => some (.jump .ifTrue (e.signedOperand byte))
  | .longJumpIfFalse => some (.jump .ifFalse (e.signedOperand byte))
  | .longPopStoreReceiverVariable => some (.store .receiverField (e.unsignedOperand byte) true)
  | .longPopStoreLiteralVariable => some (.store .literalBinding (e.unsignedOperand byte) true)
  | .longPopStoreTemp => some (.store .temporary (e.unsignedOperand byte) true)
  | .longStoreReceiverVariable => some (.store .receiverField (e.unsignedOperand byte) false)
  | .longStoreLiteralVariable => some (.store .literalBinding (e.unsignedOperand byte) false)
  | .longStoreTemp => some (.store .temporary (e.unsignedOperand byte) false)
  | _ => none

end Op

/-! ### One instruction -/

/-- What reading found, and how many bytes it took. -/
structure Reading where
  outcome : Except DecodeError Instruction
  length : Nat

namespace Instruction

/-- Reads an instruction that began at offset `start`, after `taken` of its bytes, with `budget`
extensions left to it. -/
def readAfter (start : Nat) : (budget : Nat) → Extensions → (taken : Nat) → List UInt8 → Reading
  | _, _, taken, [] => ⟨.error (.truncated start), taken⟩
  | budget, e, taken, byte :: rest =>
    let opcode := Opcode.ofByte byte
    if opcode.op.hasOperandByte then
      match rest with
      | [] => ⟨.error (.truncated start), taken + 1⟩
      | operand :: rest =>
        match opcode.op.extend? with
        | some extend =>
          match budget with
          | 0 => ⟨.error (.tooManyExtensions start), taken + 2⟩
          | budget + 1 => readAfter start budget (extend e operand) (taken + 2) rest
        | none =>
          match opcode.op.long? e operand with
          | some instruction => ⟨.ok instruction, taken + 2⟩
          | none => ⟨.error (.invalidOperand start), taken + 2⟩
    else
      match opcode.op.short? opcode.embedded with
      | some instruction => ⟨.ok instruction, taken + 1⟩
      | none => ⟨.error (.unknownOpcode (start + taken) byte), taken + 1⟩

/-- Reads the instruction at the front of `bytes`, which lie at offset `start`. -/
def read (start : Nat) (bytes : List UInt8) : Reading :=
  readAfter start maxExtensions Extensions.none 0 bytes

theorem le_length_readAfter (start budget : Nat) (e : Extensions) (taken : Nat)
    (bytes : List UInt8) :
    taken ≤ (readAfter start budget e taken bytes).length := by
  fun_induction readAfter start budget e taken bytes <;> (try simp only []) <;> omega

theorem length_read_pos (start : Nat) (byte : UInt8) (rest : List UInt8) :
    0 < (read start (byte :: rest)).length := by
  unfold read
  rw [readAfter.eq_def]
  simp only
  split
  · split
    · simp
    · split
      · split
        · simp
        · exact Nat.lt_of_lt_of_le (by simp) (le_length_readAfter ..)
      · split <;> simp
  · split <;> simp

end Instruction

end TalkMachine
