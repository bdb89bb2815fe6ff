import TalkMachine.Machine.Convert

/-!
# Native methods of the kernel

What the native methods of objects, classes, strings, arrays, characters and truth values do with a
receiver and arguments. Those that only look are functions of the machine; those that change it are
changes.
-/

namespace TalkMachine

open Machine

/-! ### Objects -/

/-- Position of a pointer field of the receiver by its index counted from one. -/
def fieldPosition (m : Machine) (receiver : Value) (index : Int) : Except MachineError Nat := do
  m.expectFormat receiver ObjectFormat.isPointers "pointer object"
  let size ← Except.ofHeap (m.heap.slotCount receiver)
  checkedIndex receiver index size

/-- Carries out a native method of objects. -/
def ObjectNative.call (native : ObjectNative) (receiver : Value) (arguments : List Value) :
    MachineM Value :=
  match native with
  | identical => ask fun m => do
    return m.boolean (receiver = (← argument arguments 0))
  | notIdentical => ask fun m => do
    return m.boolean (receiver ≠ (← argument arguments 0))
  | classOf => ask fun m => m.classOf receiver
  | identityHash => ask fun m => do
    return Value.ofInt (← Except.ofHeap (m.heap.identityHashOf receiver))
  | yourself => pure receiver
  | isNil => ask fun m => .ok (m.boolean (receiver = m.nil))
  | notNil => ask fun m => .ok (m.boolean (receiver ≠ m.nil))
  | printString => do
    let text ← ask fun m => .ok (m.print receiver)
    newString text
  | instVarAt => ask fun m => do
    let index ← toInteger (← argument arguments 0)
    let position ← fieldPosition m receiver index
    Except.ofHeap (m.heap.fetch receiver position)
  | instVarAtPut => do
    let (position, value) ← ask fun m => do
      let index ← toInteger (← argument arguments 0)
      let value ← argument arguments 1
      return (← fieldPosition m receiver index, value)
    change (Heap.store receiver position value)
    return value

/-! ### Classes -/

/-- Carries out a native method of classes. -/
def BehaviorNative.call (native : BehaviorNative) (receiver : Value) (arguments : List Value) :
    MachineM Value :=
  match native with
  | new => instantiate receiver 0
  | newSized => do
    let size ← ask fun _ => do toNatural (← argument arguments 0)
    instantiate receiver size
  | name => do
    match ← ask fun m => .ok (m.className? receiver) with
    | some text => newString text
    | none => throw (.invalidClass receiver)
  | superclass => ask fun m => m.superclass receiver

/-! ### Strings -/

/-- Number of bytes of a string. -/
def stringSize (m : Machine) (receiver : Value) : Except MachineError Nat := do
  m.expectFormat receiver ObjectFormat.isBytes "byte object"
  Except.ofHeap (m.heap.byteSize receiver)

/-- Carries out a native method of strings. Their elements are bytes, shown as the characters with
these code points. -/
def StringNative.call (native : StringNative) (receiver : Value) (arguments : List Value) :
    MachineM Value :=
  match native with
  | size => ask fun m => do ofInteger (← stringSize m receiver)
  | fetch => ask fun m => do
    let index ← toInteger (← argument arguments 0)
    let position ← checkedIndex receiver index (← stringSize m receiver)
    let byte ← Except.ofHeap (m.heap.fetchByte receiver position)
    return Value.ofCodePoint byte.toUInt32
  | store => do
    let (position, byte, value) ← ask fun m => do
      let index ← toInteger (← argument arguments 0)
      let value ← argument arguments 1
      let code := (← toCharacter value).toNat
      if 255 < code then throw (.nativeFailed "at:put:" receiver)
      let position ← checkedIndex receiver index (← stringSize m receiver)
      return (position, UInt8.ofNat code, value)
    change (Heap.storeByte receiver position byte)
    return value

/-! ### Arrays -/

/-- Number of elements of an array. -/
def arraySize (m : Machine) (receiver : Value) : Except MachineError Nat := do
  let index ← Except.ofHeap (m.heap.classIndexOf receiver)
  if index ≠ ClassIndex.array then throw (.wrongType "Array" receiver)
  Except.ofHeap (m.heap.elementCount receiver)

/-- Carries out a native method of arrays. -/
def ArrayNative.call (native : ArrayNative) (receiver : Value) (arguments : List Value) :
    MachineM Value :=
  match native with
  | size => ask fun m => do ofInteger (← arraySize m receiver)
  | fetch => ask fun m => do
    let index ← toInteger (← argument arguments 0)
    let position ← checkedIndex receiver index (← arraySize m receiver)
    Except.ofHeap (m.heap.fetch receiver position)
  | store => do
    let (position, value) ← ask fun m => do
      let index ← toInteger (← argument arguments 0)
      let value ← argument arguments 1
      return (← checkedIndex receiver index (← arraySize m receiver), value)
    change (Heap.store receiver position value)
    return value

/-! ### Characters and truth values -/

/-- The code point of a character. -/
def characterValue (receiver : Value) : Except MachineError Value := do
  return Value.ofInt (← toCharacter receiver).toNat

/-- Carries out a native method of truth values. -/
def BooleanNative.call (native : BooleanNative) (receiver : Value) (arguments : List Value)
    (m : Machine) : Except MachineError Value :=
  match native with
  | not => do return m.boolean (!(← m.toBool receiver))
  | and => do
    let a ← m.toBool receiver
    let b ← m.toBool (← argument arguments 0)
    return m.boolean (a && b)
  | or => do
    let a ← m.toBool receiver
    let b ← m.toBool (← argument arguments 0)
    return m.boolean (a || b)

end TalkMachine
