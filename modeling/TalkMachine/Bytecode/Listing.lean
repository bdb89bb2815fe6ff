import TalkMachine.Bytecode.Decode

/-!
# Listings

A listing reads instruction after instruction until the bytes end or one cannot be read. Each line
of its text shows an offset, the bytes, and the instruction.
-/

namespace TalkMachine

/-- An instruction with its bytes and the offset of the first of them. -/
structure Listing.Item where
  offset : Nat
  bytes : List UInt8
  instruction : Instruction

/-- The offset of the byte behind an item. -/
def Listing.Item.next (item : Listing.Item) : Nat :=
  item.offset + item.bytes.length

/-- The instructions in a run of bytes. -/
structure Listing where
  items : List Listing.Item
  /-- Why reading ended before the bytes did. -/
  error : Option DecodeError
  /-- The offset that reading came to. -/
  stop : Nat

namespace Listing

/-- Reads all of `bytes`, which lie at `offset`. -/
def ofBytes (offset : Nat) : List UInt8 → Listing
  | [] => ⟨[], none, offset⟩
  | byte :: rest =>
    let reading := Instruction.read offset (byte :: rest)
    let next := offset + reading.length
    match reading.outcome with
    | .error e => ⟨[], some e, next⟩
    | .ok instruction =>
      let listing := ofBytes next ((byte :: rest).drop reading.length)
      let own := (byte :: rest).take reading.length
      { listing with items := ⟨offset, own, instruction⟩ :: listing.items }
termination_by bytes => bytes.length
decreasing_by
  have := Instruction.length_read_pos offset byte rest
  simp only [List.length_drop, List.length_cons]
  omega

/-- The number of attempts to read an instruction, a failed one included. -/
def attempts (listing : Listing) : Nat :=
  listing.items.length + if listing.error.isSome then 1 else 0

/-- Bytes in hexadecimal, separated by blanks. -/
def hexBytes (bytes : List UInt8) : String :=
  String.intercalate " " (bytes.map (fun byte => Text.hex 2 byte.toNat))

/-- The line of an item, with offsets counted from `base`. -/
def itemLine (base : Nat) (item : Item) : String :=
  Text.padLeft 4 (toString (base + item.offset)) ++ "  " ++
    Text.padRight 12 (hexBytes item.bytes) ++ "  " ++ item.instruction.mnemonic ++ "\n"

/-- The line of the error that ended a listing, with the offset that reading came to. -/
def errorLine (base stop : Nat) (e : DecodeError) : String :=
  Text.padLeft 4 (toString (base + stop)) ++ "  <" ++ e.message ++ ">\n"

end Listing

/-- The listing of `bytes` as text, with offsets counted from `base`. -/
def disassemble (bytes : List UInt8) (base : Nat) : String :=
  let listing := Listing.ofBytes 0 bytes
  String.join (listing.items.map (Listing.itemLine base)) ++
    match listing.error with
    | some e => Listing.errorLine base listing.stop e
    | none => ""

end TalkMachine
