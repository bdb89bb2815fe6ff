import TalkMachine.Decimal.Shortest

/-!
# Decimal notation

How a decimal is laid out as text: positionally, or with the point behind the first digit and an
exponent.
-/

namespace TalkMachine.Decimal

/-- The digits, most significant first. -/
def text (d : Decimal) : List Char :=
  Nat.toDigits 10 d.digits

/-- Number of digits before the decimal point, at most zero for a fraction that begins with zeros.
-/
def pointAt (d : Decimal) : Int :=
  d.text.length + d.exponent

/-- Writes every digit in its place. A whole number ends in `wholeEnding`. -/
def positional (wholeEnding : String) (d : Decimal) : String :=
  let digits := d.text
  let point := d.pointAt
  if point ≤ 0 then
    "0." ++ String.ofList (List.replicate (-point).toNat '0' ++ digits)
  else if digits.length ≤ point then
    String.ofList (digits ++ List.replicate (point.toNat - digits.length) '0') ++ wholeEnding
  else
    String.ofList (digits.take point.toNat ++ '.' :: digits.drop point.toNat)

/-- Writes one digit, the rest behind a point, and the power of ten. -/
def scientific (d : Decimal) : String :=
  let exponent := "e" ++ toString (d.pointAt - 1)
  match d.text with
  | [] => exponent
  | [digit] => String.ofList [digit] ++ exponent
  | digit :: rest => String.ofList (digit :: '.' :: rest) ++ exponent

/-- Positional from `10 ^ -4` up to `10 ^ 16`, scientific outside. A whole number ends in `.0`. -/
def general (d : Decimal) : String :=
  if -4 < d.pointAt ∧ d.pointAt ≤ 16 then d.positional ".0" else d.scientific

/-- Writes the finite double with these bits: its sign, and its shortest decimal in the given
notation, or `zero` if it is zero. -/
def textOfBits (layout : Decimal → String) (zero : String) (bits : UInt64) : String :=
  let magnitude := Binary.ofBits bits
  (if bits.toNat < 0x8000_0000_0000_0000 then "" else "-") ++
    if magnitude.significand = 0 then zero else layout magnitude.shortest

/-- The double in plain positional notation. -/
def plainText (bits : UInt64) : String :=
  textOfBits (positional "") "0" bits

/-- The double in general notation. -/
def generalText (bits : UInt64) : String :=
  textOfBits general "0.0" bits

end TalkMachine.Decimal
