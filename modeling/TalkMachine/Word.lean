/-!
# Words and bytes

A word is 64 bits. It is also eight bytes, the least significant first; all byte access goes through
that view.
-/

namespace TalkMachine

/-- Number of bytes in a word. -/
abbrev wordSize : Nat := 8

namespace Word

/-- The lowest `count` bytes of a word, the least significant first. -/
def lowBytes : (count : Nat) → UInt64 → List UInt8
  | 0, _ => []
  | count + 1, word => word.toUInt8 :: lowBytes count (word / 256)

/-- The eight bytes of a word, the least significant first. -/
def bytes (word : UInt64) : List UInt8 :=
  lowBytes wordSize word

/-- The word with these bytes, the least significant first. Missing bytes are zero. -/
def ofBytes : List UInt8 → UInt64
  | [] => 0
  | byte :: rest => byte.toUInt64 + 256 * ofBytes rest

/-- The byte of a word at position `k`, counted from the least significant. -/
def byte (word : UInt64) (k : Nat) : UInt8 :=
  (word >>> (UInt64.ofNat (8 * k))).toUInt8

/-- The word with the byte at position `k` replaced. -/
def setByte (word : UInt64) (k : Nat) (value : UInt8) : UInt64 :=
  ofBytes ((bytes word).set k value)

end Word

end TalkMachine
