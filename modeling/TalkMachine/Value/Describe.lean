import TalkMachine.Value
import TalkMachine.Decimal.Notation
import TalkMachine.Text.Spelling

/-!
# Descriptions of values

The description of a value names its kind and shows its payload. Messages use it for values of which
nothing else is known.
-/

namespace TalkMachine.Value

/-- Names the kind of a value and shows its payload. A code point that is no Unicode scalar is shown
by number, and a word without meaning in full. -/
def describe (v : Value) : String :=
  match v.decode with
  | .object address => "Object(0x" ++ Text.hex 1 address ++ ")"
  | .smallInteger n => "SmallInteger(" ++ toString n ++ ")"
  | .character code =>
    match scalar? code.toNat with
    | some c => "Character(" ++ Text.quotedChar c ++ ")"
    | none => "Character(U+" ++ Text.hexUpper code.toNat ++ ")"
  | .smallFloat bits => "SmallFloat(" ++ Decimal.plainText bits ++ ")"
  | .invalid raw => "Invalid(0x" ++ Text.hex 16 raw.toNat ++ ")"

end TalkMachine.Value
