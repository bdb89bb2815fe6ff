import TalkMachine.Value

/-!
# Stacks

A stack is a buffer of bytes of fixed size that fills downward with words. Addresses are offsets
into the buffer. The stack pointer is the address of the word pushed last, or the size of the buffer
when there is none; the words from it to the end of the buffer are *live*. Only live words can be
read or written.

The frame pointer is the address of the frame in use, zero while there is none. Neither pointer
needs to be a multiple of the word size.

An address has 64 bits, and the sums that lead to one are checked for overflow. Where an access would
end beyond the last address the program stops (`StackError.addressOverflow`): unlike a refusal this is
nothing that a caller goes on from.

Only the part of the buffer that was ever written to is kept, counted from the end of the buffer.
All bytes below it are zero, so that a large buffer costs nothing until it is filled.
-/

namespace TalkMachine

/-- Why a stack refused an access. -/
inductive StackError
  /-- There is no room for another word. -/
  | overflow
  /-- The access reaches outside the live words. -/
  | underflow
  /-- The access reaches outside the live words, and its end is no address. -/
  | addressOverflow
  /-- The frame has no temporary with this index, of which 32 bits are kept. -/
  | tempOutOfRange (index : UInt32)
deriving DecidableEq, Repr

/-- The text of a stack error. -/
def StackError.message : StackError → String
  | .overflow => "stack overflow"
  | .underflow => "stack underflow"
  | .addressOverflow => "address overflow"
  | .tempOutOfRange index => "temporary " ++ toString index.toNat ++ " out of range"

/-- The error of an access outside the live words that would end at `stop`. -/
def StackError.outside (stop : Nat) : StackError :=
  if stop < 0x1_0000_0000_0000_0000 then .underflow else .addressOverflow

/-- A stack with its two pointers. -/
structure Stack where
  /-- The size of the buffer in bytes. -/
  size : Nat
  /-- The bytes from the last of the buffer down to the lowest that was ever written. -/
  written : Array UInt8
  sp : Nat
  fp : Nat

/-- A change to a stack, which may be refused. -/
abbrev StackM := EStateM StackError Stack

namespace Stack

/-- The empty stack in a buffer of `size` bytes, rounded down to whole words. -/
def new (size : Nat) : Stack :=
  let size := size / wordSize * wordSize
  ⟨size, #[], size, 0⟩

/-- The number of words pushed. -/
def depth (s : Stack) : Nat := (s.size - s.sp) / wordSize

/-! ### Words in the buffer -/

/-- The byte at an address in the buffer. -/
def byteAt (s : Stack) (address : Nat) : UInt8 :=
  s.written.getD (s.size - 1 - address) 0

/-- The number spelled by `count` bytes from an address on, the least significant first. -/
def load (s : Stack) : (count address : Nat) → UInt64
  | 0, _ => 0
  | count + 1, address => (s.byteAt address).toUInt64 + 256 * s.load count (address + 1)

/-- Writes the lowest `count` bytes of a word to the places from `place` on, the least significant
last, as places are counted from the end of the buffer. -/
def spell (place : Nat) : (count : Nat) → UInt64 → Array UInt8 → Array UInt8
  | 0, _, written => written
  | count + 1, word, written =>
    spell place count (word / 256) (written.setIfInBounds (place + count) word.toUInt8)

/-- The stack with the word at an address of the buffer replaced. -/
def writeWord (address : Nat) (word : UInt64) : Stack → Stack
  | ⟨size, written, sp, fp⟩ =>
    let grown := written ++ Array.replicate (size - address - written.size) 0
    ⟨size, spell (size - address - wordSize) wordSize word grown, sp, fp⟩

/-- Whether the word at an address is live. -/
def isLive (s : Stack) (address : Nat) : Bool :=
  s.sp ≤ address && address + wordSize ≤ s.size

/-- The error of an access to a word that is not live. Below the stack pointer its end does not
matter. -/
def refusal (s : Stack) (address : Nat) : StackError :=
  if address < s.sp then .underflow else .outside (address + wordSize)

/-- The live word at an address. -/
def read (s : Stack) (address : Nat) : Except StackError UInt64 :=
  if s.isLive address then .ok (s.load wordSize address) else .error (s.refusal address)

/-- The live value at an address. -/
def readValue (s : Stack) (address : Nat) : Except StackError Value := do
  return ⟨← s.read address⟩

/-- The value `depth` words below the top. Its address does not wrap round: `read` finds its end beyond
the last address. -/
def peek (s : Stack) (depth : Nat) : Except StackError Value :=
  s.readValue (s.sp + depth * wordSize)

/-- The top `count` values, the one pushed last at the end. -/
def top (s : Stack) (count : Nat) : Except StackError (List Value) :=
  (List.range count).mapM (fun i => s.peek (count - 1 - i))

/-! ### Changes -/

/-- Asks the stack without changing it. -/
def ask {α : Type} (question : Stack → Except StackError α) : StackM α := fun s =>
  match question s with
  | .ok a => .ok a s
  | .error e => .error e s

/-- Replaces a live word. -/
def write (address : Nat) (word : UInt64) : StackM Unit := fun s =>
  if s.isLive address then .ok () (s.writeWord address word)
  else .error (s.refusal address) s

/-- Moves the stack pointer to an address in the buffer or to its end. -/
def setSp (sp : Nat) : StackM Unit := fun s =>
  if s.size < sp then .error (.outside sp) s else .ok () { s with sp := sp }

/-- Moves the frame pointer. -/
def setFp (fp : Nat) : StackM Unit := fun s =>
  .ok () { s with fp := fp }

/-- Moves both pointers. -/
def restore (sp fp : Nat) (s : Stack) : Stack :=
  { s with sp := sp, fp := fp }

/-- Pushes a word. -/
def pushWord (word : UInt64) : StackM Unit := fun s =>
  if s.sp < wordSize then .error .overflow s
  else
    let sp := s.sp - wordSize
    .ok () { s.writeWord sp word with sp := sp }

/-- Pushes a value. -/
def push (value : Value) : StackM Unit :=
  pushWord value.raw

/-- Pushes an address. -/
def pushAddress (address : Nat) : StackM Unit :=
  pushWord (UInt64.ofNat address)

/-- Pops a word. -/
def popWord : StackM UInt64 := fun s =>
  match s.read s.sp with
  | .ok word => .ok word { s with sp := s.sp + wordSize }
  | .error e => .error e s

/-- Pops a value. -/
def pop : StackM Value := do
  return ⟨← popWord⟩

/-- Pops an address. -/
def popAddress : StackM Nat := do
  return (← popWord).toNat

/-- Drops words from the top. The new stack pointer does not wrap round: `setSp` finds it beyond the
last address. -/
def drop (count : Nat) : StackM Unit := fun s =>
  setSp (s.sp + count * wordSize) s

end Stack

end TalkMachine
