import TalkMachine.Machine.Convert

/-!
# Native methods of small floats

Arithmetic is that of doubles; a small integer as argument is converted. A result that is no small
float makes the native method fail.
-/

namespace TalkMachine

open Machine

namespace FloatNative

/-- Whether a comparison of two doubles holds. -/
def holds (c : Comparison) (a b : Float) : Bool :=
  match c with
  | .less => a < b
  | .greater => b < a
  | .lessEqual => a ≤ b
  | .greaterEqual => b ≤ a

/-- The receiver and the argument as doubles. -/
def operands (receiver : Value) (arguments : List Value) : Except MachineError (Float × Float) := do
  let a ← toFloatBits receiver
  let other ← argument arguments 0
  let b ← match other.toInt? with
    | some n => pure (Int64.ofInt n).toFloat
    | none => Float.ofBits <$> toFloatBits other
  return (Float.ofBits a, b)

/-- The value of a result, or the failure of the native method with this selector. -/
def checked (selector : String) (receiver : Value) (result : Option Float) :
    Except MachineError Value :=
  match result.bind Value.ofFloat? with
  | some value => .ok value
  | none => .error (.nativeFailed selector receiver)

/-- The integer part of the double with these bits. -/
def integerPart (bits : UInt64) : Int :=
  let x := Binary.ofBits bits
  let magnitude := x.significand * Nat.pow 2 x.exponent.toNat / Nat.pow 2 (-x.exponent).toNat
  if bits.toNat < 0x8000_0000_0000_0000 then magnitude else -magnitude

/-- The answer of a native method of small floats. -/
def answer (native : FloatNative) (receiver : Value) (arguments : List Value) (m : Machine) :
    Except MachineError Value :=
  match native with
  | add => do
    let (a, b) ← operands receiver arguments
    checked "+" receiver (some (a + b))
  | subtract => do
    let (a, b) ← operands receiver arguments
    checked "-" receiver (some (a - b))
  | multiply => do
    let (a, b) ← operands receiver arguments
    checked "*" receiver (some (a * b))
  | divide => do
    let (a, b) ← operands receiver arguments
    checked "/" receiver (if b == 0 then none else some (a / b))
  | compare c => do
    let (a, b) ← operands receiver arguments
    return m.boolean (holds c a b)
  | equal => do
    let (a, b) ← operands receiver arguments
    return m.boolean (a == b)
  | notEqual => do
    let (a, b) ← operands receiver arguments
    return m.boolean (!(a == b))
  | truncated => do
    let bits ← toFloatBits receiver
    match Value.ofInt? (integerPart bits) with
    | some value => return value
    | none => throw (.nativeFailed "truncated" receiver)

/-- The digits of a small float, as a new string. -/
def text (receiver : Value) : MachineM Value := do
  let bits ← ask fun _ => toFloatBits receiver
  newString (Decimal.generalText bits)

end FloatNative

end TalkMachine
