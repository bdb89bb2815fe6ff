import TalkMachine.Object.Format
import TalkMachine.Object.Header
import TalkMachine.Value.Describe

/-!
# The heap

All objects live in one arena of words, addressed by byte. The first word is reserved, so that no
object has address zero; objects follow one another and are never freed.

An object is its header word and the words of its body behind it. An object of 255 or more slots has
one word more, before its header, that holds its true slot count. The address of an object is that
of its header.

This module holds the arena, what can go wrong in it, and everything that is read from it.
`TalkMachine.Heap.Store` holds what is written to it.
-/

namespace TalkMachine

/-! ### Errors -/

/-- Why an access to the heap was refused. -/
inductive HeapError
  /-- An object of `requested` bytes does not fit. -/
  | outOfMemory (requested limit : Nat)
  /-- The format does not admit so many named and indexed fields. -/
  | badLayout (format : ObjectFormat) (fixed indexed : Nat)
  /-- The class index has more bits than a header has for it. -/
  | classIndexOutOfRange (classIndex : Nat)
  /-- The value is no address, or one outside the arena. -/
  | notAnObject (value : Value)
  /-- The header has no format, or lacks the slot count it announces. -/
  | corruptHeader (object : Value)
  /-- The object has `size` fields, and `index` is none of them. -/
  | indexOutOfBounds (object : Value) (index size : Nat)
  /-- Stores into the object are refused. -/
  | immutable (object : Value)
  /-- The body of the object is not a string of bytes. -/
  | notBytes (object : Value)
deriving DecidableEq, Repr

/-- The text of a heap error. -/
def HeapError.message : HeapError → String
  | .outOfMemory requested limit =>
    "out of object memory: " ++ toString requested ++ " bytes requested, limit is " ++
      toString limit
  | .badLayout format fixed indexed =>
    "format " ++ format.name ++ " cannot hold " ++ toString fixed ++ " fixed and " ++
      toString indexed ++ " indexable fields"
  | .classIndexOutOfRange classIndex =>
    "class index " ++ toString classIndex ++ " does not fit the header"
  | .notAnObject value => value.describe ++ " is not a heap object"
  | .corruptHeader object => object.describe ++ " has a corrupt header"
  | .indexOutOfBounds object index size =>
    "index " ++ toString index ++ " out of bounds for " ++ object.describe ++ " of size " ++
      toString size
  | .immutable object => object.describe ++ " is immutable"
  | .notBytes object => object.describe ++ " is not byte indexable"

/-! ### The arena -/

/-- An arena of objects. -/
structure Heap where
  /-- The words in use. -/
  words : Array UInt64
  /-- The number of bytes that may be in use. -/
  limit : Nat
  /-- What fresh pointer slots hold. -/
  nil : Value
  /-- The number of objects. -/
  objectCount : Nat

namespace Heap

/-- The heap without objects, of at most `limit` bytes but never less than its first word. Pointer
slots start as zero words until there is a nil. -/
def new (limit : Nat) : Heap :=
  ⟨#[0], max limit wordSize, Value.zero, 0⟩

/-- The number of bytes in use. -/
def usedBytes (h : Heap) : Nat :=
  wordSize * h.words.size

/-- The word at an address, zero outside the arena. -/
def wordAt (h : Heap) (address : Nat) : UInt64 :=
  h.words.getD (address / wordSize) 0

/-- The byte at an address, zero outside the arena. -/
def byteAt (h : Heap) (address : Nat) : UInt8 :=
  Word.byte (h.wordAt address) (address % wordSize)

/-- The identity hash of an object that is given none. -/
def addressHash (address : Nat) : Nat :=
  address / wordSize % Header.hashRange

/-! ### Headers -/

/-- The address of an object's header. The end of the header is a sum without bound: where 64 bits
would overflow, for the last address that a value can hold, there is no object either. -/
def addressOf (h : Heap) (object : Value) : Except HeapError Nat :=
  match object.toAddress? with
  | none => .error (.notAnObject object)
  | some address =>
    if h.usedBytes < address + wordSize then .error (.notAnObject object) else .ok address

/-- The header of an object. -/
def header (h : Heap) (object : Value) : Except HeapError Header := do
  let address ← h.addressOf object
  return ⟨h.wordAt address⟩

/-- The format of an object, and the number of unused elements in its last word. -/
def format (h : Heap) (object : Value) : Except HeapError (ObjectFormat × Nat) := do
  let header ← h.header object
  match ObjectFormat.ofCode? header.formatCode with
  | some format => return format
  | none => throw (.corruptHeader object)

/-- Whether stores into an object are refused. -/
def isImmutable (h : Heap) (object : Value) : Except HeapError Bool := do
  return (← h.header object).isImmutable

/-- The class index of any value. -/
def classIndexOf (h : Heap) (value : Value) : Except HeapError Nat :=
  match value.immediateClass? with
  | some index => .ok index
  | none => do return (← h.header value).classIndex

/-- The identity hash of any value: of an object the one in its header, else the bits above the tag.
-/
def identityHashOf (h : Heap) (value : Value) : Except HeapError Nat :=
  if value.isImmediate then .ok (value.raw.toNat / wordSize % Header.hashRange)
  else do return (← h.header value).identityHash

/-- The true number of slots of an object. -/
def slotCount (h : Heap) (object : Value) : Except HeapError Nat := do
  let address ← h.addressOf object
  let header := Header.mk (h.wordAt address)
  if header.isExtended then
    if address < 2 * wordSize then throw (.corruptHeader object)
    return (h.wordAt (address - wordSize)).toNat
  return header.slotCount

/-- The address of slot 0. -/
def firstField (h : Heap) (object : Value) : Except HeapError Nat := do
  return (← h.addressOf object) + wordSize

/-! ### Slots -/

/-- The address of a slot. -/
def slotAddress (h : Heap) (object : Value) (index : Nat) : Except HeapError Nat := do
  let size ← h.slotCount object
  if size ≤ index then throw (.indexOutOfBounds object index size)
  return (← h.firstField object) + index * wordSize

/-- The value in a slot. -/
def fetch (h : Heap) (object : Value) (index : Nat) : Except HeapError Value := do
  return ⟨h.wordAt (← h.slotAddress object index)⟩

/-- The word in a slot. -/
def fetchWord (h : Heap) (object : Value) (index : Nat) : Except HeapError UInt64 := do
  return (← h.fetch object index).raw

/-- The words of all slots. -/
def slots (h : Heap) (object : Value) : Except HeapError (List UInt64) := do
  (List.range (← h.slotCount object)).mapM (h.fetchWord object)

/-! ### Elements -/

/-- The number of elements: of slots if they hold pointers, else of elements of the format's size.
-/
def elementCount (h : Heap) (object : Value) : Except HeapError Nat := do
  let (format, unused) ← h.format object
  let slots ← h.slotCount object
  return if format.isPointers then slots else slots * format.divisor - unused

/-- The number of bytes of an object that is a string of bytes. -/
def byteSize (h : Heap) (object : Value) : Except HeapError Nat := do
  let (format, unused) ← h.format object
  if !format.isBytes then throw (.notBytes object)
  return (← h.slotCount object) * wordSize - unused

/-- The bytes of an object from `offset` on, at most `count` of them. -/
def bytesFrom (h : Heap) (object : Value) (offset count : Nat) : Except HeapError (List UInt8) := do
  let size ← h.byteSize object
  let start ← h.firstField object
  return (List.range (min count (size - offset))).map (fun i => h.byteAt (start + offset + i))

/-- All bytes of an object. -/
def bytes (h : Heap) (object : Value) : Except HeapError (List UInt8) := do
  h.bytesFrom object 0 (← h.byteSize object)

/-- One byte of an object. -/
def fetchByte (h : Heap) (object : Value) (index : Nat) : Except HeapError UInt8 := do
  let size ← h.byteSize object
  if size ≤ index then throw (.indexOutOfBounds object index size)
  return h.byteAt ((← h.firstField object) + index)

end Heap

end TalkMachine
