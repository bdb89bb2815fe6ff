import TalkMachine.Interpreter.Execution

/-!
# One step of the interpreter

The registers of the interpreter are the running method, its header, and the program counter. One
step fetches an instruction, carries it out, and leaves the registers of whatever runs next. When
the frame that began the run returns, nothing runs next.

Everything else that a frame has is on the stack, so that after a return the caller's registers are
read back from there.
-/

namespace TalkMachine

/-- The registers of the running frame. -/
structure Registers where
  method : Value
  header : MethodHeader
  pc : Nat
deriving DecidableEq, Repr

namespace Interpreter

open Execution

/-! ### Frames -/

/-- Pushes a value several times. -/
def pushTimes (value : Value) : (count : Nat) → ExecutionM Unit
  | 0 => pure ()
  | count + 1 => do
    push value
    pushTimes value count

/-- Builds a frame for a method on top of its receiver and `argumentCount` arguments. -/
def activate (method : Value) (returnPc argumentCount : Nat) : ExecutionM Registers := do
  let header ← askHeap fun h => h.methodHeader method
  if header.argumentCount ≠ argumentCount then
    throw (.argumentCountMismatch header.argumentCount argumentCount)
  let receiver ← askStack fun s => s.peek argumentCount
  let nil ← askMachine fun m => .ok m.nil
  onStack (Stack.pushAddress returnPc)
  onStack do
    let s ← get
    Stack.pushAddress s.fp
  onStack do
    let s ← get
    Stack.setFp s.sp
  push method
  onStack (Stack.pushWord (FrameMetadata.ofArgumentCount header.argumentCount).pack)
  push nil
  push receiver
  pushTimes nil header.tempCount
  return ⟨method, header, header.initialPc⟩

/-- Takes down the frame and pushes `value` for the caller. Answers the caller's registers, unless
the frame ends the run. -/
def returnValue (value : Value) : ExecutionM (Option Registers) := do
  let metadata ← askStack fun s => s.frameMetadata
  let fp ← askStack fun s => .ok s.fp
  onStack (Stack.setSp fp)
  let previousFp ← onStack Stack.popAddress
  let returnPc ← onStack Stack.popAddress
  onStack (Stack.drop (metadata.argumentCount + 1))
  onStack (Stack.setFp previousFp)
  push value
  if returnPc = 0 then return none
  let method ← askStack fun s => s.frameMethod
  let header ← ask fun p =>
    if p.machine.heap.isCompiledMethod method then
      Except.ofHeap (p.machine.heap.methodHeader method)
    else .error (.notAMethod method)
  return some ⟨method, header, returnPc⟩

/-! ### Code -/

/-- The greatest number of bytes that an instruction can have. -/
def maxInstructionLength : Nat := 8

/-- Reads the instruction at the program counter. Answers it with the program counter behind it. -/
def fetch (h : Heap) (r : Registers) : Except MachineError (Instruction × Nat) := do
  match ← Except.ofHeap (h.bytesFrom r.method r.pc maxInstructionLength) with
  | [] => throw (.malformedCode (.truncated r.pc))
  | byte :: rest =>
    let reading := Instruction.read r.pc (byte :: rest)
    match reading.outcome with
    | .ok instruction => return (instruction, r.pc + reading.length)
    | .error e => throw (MachineError.ofDecodeError e)

/-- The program counter `distance` bytes on. It must be a word. -/
def jumpTarget (pc : Nat) (distance : Int) : Except MachineError Nat :=
  let target := pc + distance
  if 0 ≤ target ∧ target < 0x1_0000_0000_0000_0000 then .ok target.toNat
  else .error (.malformedCode (.invalidOperand pc))

/-- A literal of the running method. -/
def literal (r : Registers) (index : Nat) : ExecutionM Value :=
  askHeap fun h => h.methodLiteral r.method index

/-- The address of an argument or temporary. -/
def tempAddress (r : Registers) (index : Nat) : ExecutionM Nat :=
  askStack fun s => s.tempAddress r.header.argumentCount r.header.tempCount index

/-- The truth value that a conditional jump asks for. -/
def condition (m : Machine) (value : Value) : Except MachineError Bool :=
  if value = m.trueObject then .ok true
  else if value = m.falseObject then .ok false
  else .error (.nonBoolean value)

/-! ### Variables -/

/-- The value of a variable. -/
def load (r : Registers) (place : Place) (index : Nat) : ExecutionM Value :=
  match place with
  | .receiverField => do
    let receiver ← askStack fun s => s.frameReceiver
    askHeap fun h => h.fetch receiver index
  | .literalBinding => do
    let association ← literal r index
    askHeap fun h => h.fetch association Machine.associationValue
  | .temporary => do
    let address ← tempAddress r index
    askStack fun s => s.readValue address

/-- Stores a value into a variable. -/
def storeInto (r : Registers) (place : Place) (index : Nat) (value : Value) : ExecutionM Unit :=
  match place with
  | .receiverField => do
    let receiver ← askStack fun s => s.frameReceiver
    onMachine (Machine.change (Heap.store receiver index value))
  | .literalBinding => do
    let association ← literal r index
    onMachine (Machine.change (Heap.store association Machine.associationValue value))
  | .temporary => do
    let address ← tempAddress r index
    onStack (Stack.write address value.raw)

/-- The value of a constant. -/
def constant (c : Constant) : ExecutionM Value :=
  match c with
  | .receiver => askStack fun s => s.frameReceiver
  | .true => askMachine fun m => .ok m.trueObject
  | .false => askMachine fun m => .ok m.falseObject
  | .nil => askMachine fun m => .ok m.nil
  | .thisContext => askStack fun s => s.frameValue Frame.thisContext

/-- The value that a method returns. -/
def returned (value : ReturnValue) : ExecutionM Value :=
  match value with
  | .receiver => askStack fun s => s.frameReceiver
  | .true => askMachine fun m => .ok m.trueObject
  | .false => askMachine fun m => .ok m.falseObject
  | .nil => askMachine fun m => .ok m.nil
  | .top => pop

/-! ### Special selectors without a send -/

/-- The result of a special selector between two small integers, if it is answered without a send.
-/
def arithmetic (m : Machine) (index : Nat) (a b : Int) : Option Value :=
  match index with
  | 0 => Value.ofInt? (a + b)
  | 1 => Value.ofInt? (a - b)
  | 2 => some (m.boolean (a < b))
  | 3 => some (m.boolean (b < a))
  | 4 => some (m.boolean (a ≤ b))
  | 5 => some (m.boolean (b ≤ a))
  | 6 => some (m.boolean (a = b))
  | 7 => some (m.boolean (a ≠ b))
  | 8 => Value.ofInt? (a * b)
  | _ => none

/-- Answers a special selector from the operands on the stack if no lookup is needed. Tells whether
it did; if not, the operands are still there. -/
def inlineSpecial (index : Nat) : ExecutionM Bool := do
  if index = SpecialSelector.identical then
    let b ← pop
    let a ← pop
    push (← askMachine fun m => .ok (m.boolean (a = b)))
    return true
  else if index = SpecialSelector.classOf then
    let a ← pop
    push (← askMachine fun m => m.classOf a)
    return true
  else if index ≤ SpecialSelector.multiply then
    let a ← askStack fun s => s.peek 1
    let b ← askStack fun s => s.peek 0
    match a.toInt?, b.toInt? with
    | some a, some b =>
      match ← askMachine fun m => .ok (arithmetic m index a b) with
      | some result =>
        onStack (Stack.drop 2)
        push result
        return true
      | none => return false
    | _, _ => return false
  else return false

/-! ### Sends -/

/-- Sends a selector to the value `argumentCount` words below the top. A compiled method gets a
frame, and its registers are answered. Any other answer takes the place of receiver and arguments.
-/
def sendMessage (host : Host) (send : Sender) (r : Registers) (selector : Value)
    (argumentCount : Nat) : ExecutionM Registers := do
  let receiver ← askStack fun s => s.peek argumentCount
  let cls ← askMachine fun m => m.classOf receiver
  let kind ← askMachine fun m => do
    match ← m.lookup cls selector with
    | some method => return some (← m.methodKind method)
    | none => return none
  match kind with
  | some (.compiled method) => activate method r.pc argumentCount
  | some (.native expected index) =>
    let arguments ← askStack fun s => s.top argumentCount
    finish (← callNumbered host send index expected receiver arguments)
  | none =>
    let arguments ← askStack fun s => s.top argumentCount
    finish (← doesNotUnderstand host send receiver selector arguments)
where
  /-- Puts a result in the place of receiver and arguments. -/
  finish (result : Value) : ExecutionM Registers := do
    onStack (Stack.drop (argumentCount + 1))
    push result
    return r

/-- Sends a special selector. -/
def sendSpecial (host : Host) (send : Sender) (r : Registers) (index : Nat) :
    ExecutionM Registers := do
  if ← inlineSpecial index then return r
  let selector ← askMachine fun m => .ok m.specialSelectors[index]?
  match selector, SpecialSelector.table[index]? with
  | some selector, some special => sendMessage host send r selector special.argumentCount
  | _, _ => throw (.malformedCode (.invalidOperand r.pc))

/-! ### Instructions -/

/-- Carries out an instruction, where `r.pc` is behind it. Answers the registers of what runs next,
unless the run is at its end. -/
def perform (host : Host) (send : Sender) (r : Registers) (instruction : Instruction) :
    ExecutionM (Option Registers) := do
  match instruction with
  | .pushVariable place index =>
    push (← load r place index)
    return some r
  | .pushLiteral index =>
    push (← literal r index)
    return some r
  | .pushConstant c =>
    push (← constant c)
    return some r
  | .pushInteger n =>
    match Value.ofInt? n with
    | some value =>
      push value
      return some r
    | none => throw (.unrepresentable "SmallInteger")
  | .pushCharacter code =>
    push (Value.ofCodePoint (UInt32.ofNat code))
    return some r
  | .dup =>
    push (← askStack fun s => s.peek 0)
    return some r
  | .pop =>
    onStack (Stack.drop 1)
    return some r
  | .nop => return some r
  | .return value =>
    returnValue (← returned value)
  | .sendSpecial index =>
    return some (← sendSpecial host send r index)
  | .send index argumentCount =>
    let selector ← literal r index
    return some (← sendMessage host send r selector argumentCount)
  | .jump kind distance =>
    let taken ← match kind with
      | .always => pure true
      | .ifTrue => do
        let value ← pop
        askMachine fun m => condition m value
      | .ifFalse => do
        let value ← pop
        askMachine fun m => do return !(← condition m value)
    if taken then
      return some { r with pc := ← ask fun _ => jumpTarget r.pc distance }
    else return some r
  | .store place index popping =>
    let value ← askStack fun s => s.peek 0
    storeInto r place index value
    if popping then onStack (Stack.drop 1)
    return some r

/-- Fetches an instruction and carries it out. -/
def step (host : Host) (send : Sender) (r : Registers) : ExecutionM (Option Registers) := do
  let (instruction, next) ← ask fun p => fetch p.machine.heap r
  perform host send { r with pc := next } instruction

end Interpreter

end TalkMachine
