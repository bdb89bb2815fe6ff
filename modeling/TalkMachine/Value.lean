import TalkMachine.Word

/-!
# Tagged values

A value is one word. Its low bits are a tag that tells what the rest means:

* `...1`: a small integer, 63 bits and signed;
* `...010`: a character, its code point above the tag;
* `...100`: a small float, a double whose exponent fits eight bits;
* `...000`, not zero: an object, the byte address of its header.

The zero word and the tag `110` mean nothing. Every word has exactly one of these kinds, and every
reading of a value asks for the tag first.
-/

namespace TalkMachine

/-- A tagged word. -/
structure Value where
  raw : UInt64
deriving DecidableEq, Repr, Inhabited

/-- What the tag of a value says. -/
inductive ValueKind
  | object
  | smallInteger
  | character
  | smallFloat
  | invalid
deriving DecidableEq, Repr

/-- A value taken apart: an address, an integer, a code point, the bits of a double, or a word
without meaning. -/
inductive Decoded
  | object (address : Nat)
  | smallInteger (n : Int)
  | character (code : UInt32)
  | smallFloat (bits : UInt64)
  | invalid (raw : UInt64)
deriving DecidableEq, Repr

namespace Value

/-! ### Tags -/

/-- The word that stands in pointer slots before there is a nil. -/
def zero : Value := ⟨0⟩

/-- The low three bits. -/
def tag (v : Value) : UInt64 := v.raw % 8

/-- Whether the tag is that of a small integer. -/
def isSmallInteger (v : Value) : Bool := v.raw % 2 == 1

/-- Whether the tag is that of a character. -/
def isCharacter (v : Value) : Bool := v.tag == 2

/-- Whether the tag is that of a small float. -/
def isSmallFloat (v : Value) : Bool := v.tag == 4

/-- Whether the value is an address. -/
def isObject (v : Value) : Bool := v.raw != 0 && v.tag == 0

/-- The kind of a value. -/
def kind (v : Value) : ValueKind :=
  if v.isSmallInteger then .smallInteger
  else if v.isObject then .object
  else if v.isCharacter then .character
  else if v.isSmallFloat then .smallFloat
  else .invalid

/-! ### Small integers -/

/-- The least small integer. -/
def minInt : Int := -0x4000_0000_0000_0000

/-- The greatest small integer. -/
def maxInt : Int := 0x3fff_ffff_ffff_ffff

/-- Whether an integer is a small integer. -/
def fitsSmallInteger (n : Int) : Bool :=
  minInt ≤ n && n ≤ maxInt

/-- The small integer `n`, which must lie in the range of small integers. -/
def ofInt (n : Int) : Value :=
  ⟨UInt64.ofInt (2 * n + 1)⟩

/-- The small integer `n`, if there is one. -/
def ofInt? (n : Int) : Option Value :=
  if fitsSmallInteger n then some (ofInt n) else none

/-- The 63 bits above the tag of a small integer. -/
def intPayload (v : Value) : Int :=
  v.raw.toInt64.toInt >>> (1 : Nat)

/-- The integer that a value is, if it is one. -/
def toInt? (v : Value) : Option Int :=
  if v.isSmallInteger then some v.intPayload else none

/-! ### Characters -/

/-- The character with this code point. Code points that are no Unicode scalars are allowed. -/
def ofCodePoint (code : UInt32) : Value :=
  ⟨code.toUInt64 * 8 + 2⟩

/-- The character `c`. -/
def ofChar (c : Char) : Value :=
  ofCodePoint c.val

/-- The 32 bits above the tag of a character. -/
def codePayload (v : Value) : UInt32 :=
  (v.raw / 8).toUInt32

/-- The code point of a character. -/
def toCodePoint? (v : Value) : Option UInt32 :=
  if v.isCharacter then some v.codePayload else none

/-- The Unicode scalar with this code point, if it is one. -/
def scalar? (code : Nat) : Option Char :=
  if code.isValidChar then some (Char.ofNat code) else none

/-- The character that a value is, if its code point is a Unicode scalar. -/
def toChar? (v : Value) : Option Char :=
  v.toCodePoint?.bind (fun code => scalar? code.toNat)

/-! ### Small floats

The bits of a double are rotated left by one, so that the sign becomes the lowest bit. For all
doubles but the two zeros the exponent is then lowered by `exponentBias`, which leaves eight bits of
it. -/

/-- What is taken off the exponent of a double. -/
def exponentBias : Nat := 896

/-- The bias at the place of the exponent in rotated bits. -/
def rotatedBias : UInt64 := 896 * 0x20_0000_0000_0000

/-- Moves the sign from the highest bit to the lowest. -/
def rotateSign (bits : UInt64) : UInt64 :=
  bits <<< 1 ||| bits >>> 63

/-- Moves the sign back to the highest bit. -/
def unrotateSign (rotated : UInt64) : UInt64 :=
  rotated >>> 1 ||| rotated <<< 63

/-- The small float with the bits of this double. Zeros have one, and doubles whose biased exponent
lies strictly between 896 and 1152. -/
def ofFloatBits? (bits : UInt64) : Option Value :=
  let rotated := rotateSign bits
  if rotated ≤ 1 then some ⟨rotated <<< 3 ||| 4⟩
  else
    let exponent := bits.toNat / 0x10_0000_0000_0000 % 0x800
    if exponentBias < exponent ∧ exponent < exponentBias + 256 then
      some ⟨(rotated - rotatedBias) <<< 3 ||| 4⟩
    else none

/-- The small float with this value, if there is one. -/
def ofFloat? (x : Float) : Option Value :=
  ofFloatBits? x.toBits

/-- The bits of the double that a small float stands for. -/
def floatPayload (v : Value) : UInt64 :=
  let rebased := v.raw >>> 3
  unrotateSign (if rebased ≤ 1 then rebased else rebased + rotatedBias)

/-- The bits of the double that a value is, if it is one. -/
def toFloatBits? (v : Value) : Option UInt64 :=
  if v.isSmallFloat then some v.floatPayload else none

/-! ### Objects -/

/-- The object at a byte address, which must be a positive multiple of the word size. -/
def ofAddress (address : Nat) : Value :=
  ⟨UInt64.ofNat address⟩

/-- The byte address of an object. -/
def toAddress? (v : Value) : Option Nat :=
  if v.isObject then some v.raw.toNat else none

/-! ### Taking apart -/

/-- A value taken apart by its kind. -/
def decode (v : Value) : Decoded :=
  match v.kind with
  | .object => .object v.raw.toNat
  | .smallInteger => .smallInteger v.intPayload
  | .character => .character v.codePayload
  | .smallFloat => .smallFloat v.floatPayload
  | .invalid => .invalid v.raw

/-- Whether a value is not an object and needs no memory: an integer, a character or a float. The
answer is the index of its class, which is its tag. -/
def immediateClass? (v : Value) : Option Nat :=
  match v.kind with
  | .smallInteger => some 1
  | .character => some 2
  | .smallFloat => some 4
  | .object | .invalid => none

/-- Whether a value is an integer, a character or a float. -/
def isImmediate (v : Value) : Bool :=
  v.immediateClass?.isSome

end Value

end TalkMachine
