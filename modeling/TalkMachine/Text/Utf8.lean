/-!
# UTF-8 with replacement

Bytes are read as UTF-8. Where they are not well formed, each longest piece that could still have
begun a character becomes one U+FFFD, and reading goes on behind it.
-/

namespace TalkMachine.Text

/-- The UTF-8 bytes of a string. -/
def utf8 (text : String) : List UInt8 :=
  text.toUTF8.data.toList

/-- Stands for a piece of text that is not well formed. -/
def replacement : Char := Char.ofNat 0xFFFD

/-- How a first byte leads a sequence: the number of bytes that follow it, the range of the second
byte, and the bits of the first byte that belong to the code point. -/
structure Lead where
  following : Nat
  secondFrom : Nat
  secondTo : Nat
  bits : Nat

/-- The form of a sequence of two or more bytes, by its first byte. Overlong forms, surrogates and
code points past U+10FFFF are excluded by the range of the second byte. -/
def lead? (first : Nat) : Option Lead :=
  if first < 0xC2 then none
  else if first < 0xE0 then some ⟨1, 0x80, 0xBF, first - 0xC0⟩
  else if first = 0xE0 then some ⟨2, 0xA0, 0xBF, 0⟩
  else if first = 0xED then some ⟨2, 0x80, 0x9F, 0xD⟩
  else if first < 0xF0 then some ⟨2, 0x80, 0xBF, first - 0xE0⟩
  else if first = 0xF0 then some ⟨3, 0x90, 0xBF, 0⟩
  else if first < 0xF4 then some ⟨3, 0x80, 0xBF, first - 0xF0⟩
  else if first = 0xF4 then some ⟨3, 0x80, 0x8F, 4⟩
  else none

/-- Reads `count` continuation bytes, the first of them between `low` and `high`, onto `code`.
Answers the code point if all are there, and the number of bytes that were. -/
def continuation : (count low high code taken : Nat) → List UInt8 → Option Nat × Nat
  | 0, _, _, code, taken, _ => (some code, taken)
  | _ + 1, _, _, _, taken, [] => (none, taken)
  | count + 1, low, high, code, taken, b :: rest =>
    if low ≤ b.toNat ∧ b.toNat ≤ high then
      continuation count 0x80 0xBF (code * 64 + (b.toNat - 0x80)) (taken + 1) rest
    else (none, taken)

/-- The first character of a non-empty text, and how many of the bytes after the first it takes. -/
def firstChar (first : UInt8) (rest : List UInt8) : Char × Nat :=
  if first.toNat < 0x80 then (Char.ofNat first.toNat, 0)
  else
    match lead? first.toNat with
    | none => (replacement, 0)
    | some form =>
      match continuation form.following form.secondFrom form.secondTo form.bits 0 rest with
      | (some code, taken) => (Char.ofNat code, taken)
      | (none, taken) => (replacement, taken)

/-- Reads bytes as UTF-8, each ill-formed piece as one replacement character. -/
def decodeUtf8 : List UInt8 → List Char
  | [] => []
  | first :: rest =>
    let (c, taken) := firstChar first rest
    c :: decodeUtf8 (rest.drop taken)
termination_by bytes => bytes.length
decreasing_by simp only [List.length_cons, List.length_drop]; omega

/-- The string that the bytes spell. -/
def ofUtf8 (bytes : List UInt8) : String :=
  String.ofList (decodeUtf8 bytes)

end TalkMachine.Text
