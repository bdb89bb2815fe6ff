import TalkMachine.Heap

/-!
# Changes to the heap

Allocation and stores. Each operation checks all its conditions before it writes its first word, so
that one that is refused leaves the arena as it was; only `allocateBytes`, which is an allocation
and a store in sequence, can fail between the two.
-/

namespace TalkMachine

/-- A change to the heap that may be refused. The heap it leaves is known in either case. -/
abbrev HeapM := EStateM HeapError Heap

namespace Heap

/-- Asks the heap without changing it. -/
def ask {α : Type} (question : Heap → Except HeapError α) : HeapM α := fun h =>
  match question h with
  | .ok a => .ok a h
  | .error e => .error e h

/-- The heap with one word replaced. -/
def writeWord (h : Heap) (address : Nat) (word : UInt64) : Heap :=
  { h with words := h.words.setIfInBounds (address / wordSize) word }

/-- The heap with one byte replaced. -/
def writeByte (h : Heap) (address : Nat) (byte : UInt8) : Heap :=
  let word := Word.setByte (h.wordAt address) (address % wordSize) byte
  h.writeWord address word

/-- The heap with bytes replaced from an address on. -/
def writeBytes (h : Heap) (address : Nat) (bytes : List UInt8) : Heap :=
  (bytes.foldl (fun (h, address) byte => (h.writeByte address byte, address + 1)) (h, address)).1

/-- Makes a value the nil that fresh pointer slots hold. -/
def setNil (nil : Value) : HeapM Unit := fun h =>
  .ok () { h with nil := nil }

/-! ### Allocation -/

/-- Words before the body of an object. -/
def headerWords (slots : Nat) : Nat :=
  if Header.overflowSlots ≤ slots then 2 else 1

/-- The words in front of the body: the true slot count if the header cannot hold it, and the
header. -/
def frontWords (slots : Nat) (header : Header) : Array UInt64 :=
  if Header.overflowSlots ≤ slots then #[UInt64.ofNat slots, header.raw] else #[header.raw]

/-- The header of a fresh object at `address`. -/
def freshHeader (fixed indexed : Nat) (format : ObjectFormat) (classIndex : Nat) (hash : Option Nat)
    (address : Nat) : Header :=
  Header.encode (min (fixed + format.slotsFor indexed) Header.overflowSlots)
    (format.code (format.unusedFor indexed)) classIndex (hash.getD (addressHash address))
    HeaderFlags.none

/-- Allocates an object with `fixed` named and `indexed` indexed fields. Pointer slots start as nil,
all other bodies as zeros. Without a hash the object takes one from its address.

The slots, and the words of the object with those in front of its body, are counted without bound. Sums
of 64 bits that are not checked would wrap round from `2 ^ 64` on, and too few slots be allocated. -/
def allocate (fixed indexed : Nat) (format : ObjectFormat) (classIndex : Nat)
    (hash : Option Nat := none) : HeapM Value := fun h =>
  if Header.maxClassIndex < classIndex then .error (.classIndexOutOfRange classIndex) h
  else if !format.admits fixed indexed then .error (.badLayout format fixed indexed) h
  else
    let slots := fixed + format.slotsFor indexed
    let size := wordSize * (headerWords slots + slots)
    if h.limit < h.usedBytes + size then .error (.outOfMemory (min size 0xffff_ffff_ffff_ffff) h.limit) h
    else
      let address := h.usedBytes + wordSize * (headerWords slots - 1)
      let header := freshHeader fixed indexed format classIndex hash address
      let fill := if format.isPointers then h.nil.raw else 0
      .ok (Value.ofAddress address)
        { h with
          words := h.words ++ frontWords slots header ++ Array.replicate slots fill
          objectCount := h.objectCount + 1 }

/-! ### Stores -/

/-- Replaces the flags of an object. -/
def setFlags (object : Value) (flags : HeaderFlags) : HeapM Unit := fun h =>
  match h.addressOf object with
  | .error e => .error e h
  | .ok address =>
    let header := (Header.mk (h.wordAt address)).setFlags flags
    .ok () (h.writeWord address header.raw)

/-- The address of a slot that may be stored into. -/
def storeAddress (h : Heap) (object : Value) (index : Nat) : Except HeapError Nat := do
  if ← h.isImmutable object then throw (.immutable object)
  h.slotAddress object index

/-- Stores a value into a slot. -/
def store (object : Value) (index : Nat) (value : Value) : HeapM Unit := fun h =>
  match h.storeAddress object index with
  | .error e => .error e h
  | .ok address => .ok () (h.writeWord address value.raw)

/-- Stores a word into a slot, whatever its tag. -/
def storeWord (object : Value) (index : Nat) (word : UInt64) : HeapM Unit :=
  store object index ⟨word⟩

/-- Where the bytes of an object begin and how many there are, if they may be stored into. -/
def storeBytesRange (h : Heap) (object : Value) : Except HeapError (Nat × Nat) := do
  if ← h.isImmutable object then throw (.immutable object)
  let size ← h.byteSize object
  return (← h.firstField object, size)

/-- Stores bytes into an object from `offset` on, as many as it has room for. Answers their number.
-/
def storeBytes (object : Value) (offset : Nat) (bytes : List UInt8) : HeapM Nat := fun h =>
  match h.storeBytesRange object with
  | .error e => .error e h
  | .ok (start, size) =>
    let fitting := bytes.take (size - offset)
    .ok fitting.length (h.writeBytes (start + offset) fitting)

/-- Stores one byte. -/
def storeByte (object : Value) (index : Nat) (byte : UInt8) : HeapM Unit := fun h =>
  match h.storeBytesRange object with
  | .error e => .error e h
  | .ok (start, size) =>
    if size ≤ index then .error (.indexOutOfBounds object index size) h
    else .ok () (h.writeByte (start + index) byte)

/-- Allocates an object that holds these bytes. -/
def allocateBytes (contents : List UInt8) (format : ObjectFormat) (classIndex : Nat) :
    HeapM Value := do
  let object ← allocate 0 contents.length format classIndex
  let _ ← storeBytes object 0 contents
  return object

end Heap

end TalkMachine
