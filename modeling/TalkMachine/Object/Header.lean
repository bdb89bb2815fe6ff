import TalkMachine.Word

/-!
# Object headers

Every object begins with one header word. From the lowest bit it holds the class index (22 bits),
two spare bits, the format code (5), the color for garbage collection (3), the identity hash (22),
the flags (2) and the slot count (8). A slot count of 255 means that the true count stands in the
word before the header.
-/

namespace TalkMachine

/-- The flags of an object. -/
structure HeaderFlags where
  immutable : Bool
  pinned : Bool
deriving DecidableEq, Repr

namespace HeaderFlags

/-- No flag. -/
def none : HeaderFlags := ⟨false, false⟩

/-- The flags in the low two bits of a number. -/
def ofBits (bits : Nat) : HeaderFlags :=
  ⟨bits.testBit 0, bits.testBit 1⟩

/-- The flags as two bits. -/
def bits (flags : HeaderFlags) : Nat :=
  flags.immutable.toNat + 2 * flags.pinned.toNat

end HeaderFlags

/-- A run of bits inside a word: it counts in units of `unit`, a power of two, and holds the numbers
below `range`, another. -/
structure BitField where
  unit : Nat
  range : Nat

namespace BitField

/-- The number that the field holds in a word. -/
def get (field : BitField) (word : Nat) : Nat :=
  word / field.unit % field.range

/-- The word with the field set to a number, cut to the width of the field. -/
def set (field : BitField) (word value : Nat) : Nat :=
  word - field.get word * field.unit + value % field.range * field.unit

end BitField

/-- The header word of an object. -/
structure Header where
  raw : UInt64
deriving DecidableEq, Repr

namespace Header

/-! ### Fields -/

/-- Where the class index is kept. -/
def classIndexField : BitField := ⟨1, 0x40_0000⟩
/-- Where the format code is kept. -/
def formatField : BitField := ⟨0x100_0000, 0x20⟩
/-- Where the color for garbage collection is kept. -/
def colorField : BitField := ⟨0x2000_0000, 8⟩
/-- Where the identity hash is kept. -/
def hashField : BitField := ⟨0x1_0000_0000, 0x40_0000⟩
/-- Where the flags are kept. -/
def flagsField : BitField := ⟨0x40_0000_0000_0000, 4⟩
/-- Where the slot count is kept. -/
def slotCountField : BitField := ⟨0x100_0000_0000_0000, 0x100⟩

/-- The greatest class index. -/
def maxClassIndex : Nat := 0x3f_ffff

/-- The greatest identity hash plus one. -/
def hashRange : Nat := 0x40_0000

/-- The slot count that refers to the word before the header. -/
def overflowSlots : Nat := 255

/-- The field of a header. -/
def get (h : Header) (field : BitField) : Nat :=
  field.get h.raw.toNat

/-- The header with a field replaced. -/
def set (h : Header) (field : BitField) (value : Nat) : Header :=
  ⟨UInt64.ofNat (field.set h.raw.toNat value)⟩

/-! ### Reading -/

/-- The index of the object's class. -/
def classIndex (h : Header) : Nat := h.get classIndexField

/-- The format code. -/
def formatCode (h : Header) : Nat := h.get formatField

/-- The color for garbage collection. -/
def color (h : Header) : Nat := h.get colorField

/-- The identity hash. -/
def identityHash (h : Header) : Nat := h.get hashField

/-- The flags. -/
def flags (h : Header) : HeaderFlags := HeaderFlags.ofBits (h.get flagsField)

/-- The slot count as stored, at most `overflowSlots`. -/
def slotCount (h : Header) : Nat := h.get slotCountField

/-- Whether the true slot count stands in the word before the header. -/
def isExtended (h : Header) : Bool := h.slotCount == overflowSlots

/-- Whether stores into the object are refused. -/
def isImmutable (h : Header) : Bool := h.flags.immutable

/-- Whether the object may not be moved. -/
def isPinned (h : Header) : Bool := h.flags.pinned

/-! ### Writing -/

/-- The header with these fields, each cut to its width, and color zero. -/
def encode (slotCount formatCode classIndex identityHash : Nat) (flags : HeaderFlags) : Header :=
  ((((Header.mk 0).set slotCountField slotCount).set formatField formatCode).set classIndexField
    classIndex).set hashField identityHash |>.set flagsField flags.bits

/-- The header with other flags. -/
def setFlags (h : Header) (flags : HeaderFlags) : Header := h.set flagsField flags.bits

/-- The header with another class index. -/
def setClassIndex (h : Header) (index : Nat) : Header := h.set classIndexField index

/-- The header with another color. -/
def setColor (h : Header) (color : Nat) : Header := h.set colorField color

end Header

/-! ### Text -/

/-- Lists flags by name, joined by bars; without flags, the number zero. -/
def describeFlags (names : List String) : String :=
  if names.isEmpty then "0x0" else String.intercalate " | " names

/-- The names of the flags that are set. -/
def HeaderFlags.describe (flags : HeaderFlags) : String :=
  "HeaderFlags(" ++ describeFlags ((if flags.immutable then ["IMMUTABLE"] else []) ++
    (if flags.pinned then ["PINNED"] else [])) ++ ")"

/-- The fields of a header except the color. -/
def Header.describe (h : Header) : String :=
  "Header \x7b class_index: " ++ toString h.classIndex ++ ", format: " ++ toString h.formatCode ++
    ", identity_hash: " ++ toString h.identityHash ++ ", flags: " ++ h.flags.describe ++
    ", slot_count: " ++ toString h.slotCount ++ " \x7d"

end TalkMachine
