/-!
# Widths of operands

How many extension bytes carry a number, and which bytes they are. An unsigned number takes its
digits to the base 256. A signed number takes as many as leave room for its sign bit; zero takes
none.
-/

namespace TalkMachine

/-- The number of binary digits of `n`. -/
def bitLength (n : Nat) : Nat :=
  if n = 0 then 0 else n.log2 + 1

/-- The number of bytes that carry an unsigned number. -/
def unsignedWidth (n : Nat) : Nat :=
  (bitLength n + 7) / 8

/-- The number of binary digits that differ from the sign bit. -/
def signedLength : Int → Nat
  | .ofNat n => bitLength n
  | .negSucc n => bitLength n

/-- The number of bytes that carry a signed number. -/
def signedWidth (n : Int) : Nat :=
  if n = 0 then 0 else (signedLength n + 8) / 8

/-- The lowest byte of a number. -/
def lowByte (n : Int) : UInt8 :=
  UInt8.ofNat (n % 256).toNat

/-- The lowest `width` bytes of a number, the most significant first, each behind the byte `lead`.
-/
def extensionBytes (lead : UInt8) (n : Int) : (width : Nat) → List UInt8
  | 0 => []
  | width + 1 => lead :: lowByte (n / Int.pow 256 width) :: extensionBytes lead n width

end TalkMachine
