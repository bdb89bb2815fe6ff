import TalkMachine.Machine.Convert

/-!
# Native methods of small integers

Sums, differences and products are exact. Quotients, remainders and shifts are computed in signed
words of 64 bits. A result that is no small integer makes the native method fail.
-/

namespace TalkMachine

open Machine

namespace IntegerNative

/-! ### Arithmetic -/

/-- The quotient whose remainder is not negative, from the one rounded toward zero. -/
def euclideanQuotient (a b : Int64) : Int64 :=
  if a % b < 0 then if 0 < b then a / b - 1 else a / b + 1 else a / b

/-- The remainder that is not negative, from the one with the sign of the dividend. -/
def euclideanRemainder (a b : Int64) : Int64 :=
  if a % b < 0 then a % b + b.abs else a % b

/-- The quotient rounded down, from the one whose remainder is not negative. -/
def quotient (a b : Int64) : Int64 :=
  euclideanQuotient a b - if euclideanRemainder a b ≠ 0 ∧ b < 0 then 1 else 0

/-- The remainder with the sign of the divisor, from the one with the sign of the dividend. -/
def remainder (a b : Int64) : Int64 :=
  let r := a % b
  if r ≠ 0 ∧ (r < 0 ↔ ¬b < 0) then r + b else r

/-- The number with its bits moved up by `shift` places, or down if that is negative. There is no
answer for 64 places up and more, nor if moving the bits down again gives another number. -/
def shifted? (a : Int64) (shift : Int) : Option Int64 :=
  if 0 ≤ shift then
    if shift < 64 then
      let moved := a <<< Int64.ofInt shift
      if moved >>> Int64.ofInt shift = a then some moved else none
    else none
  else some (a >>> Int64.ofNat (min shift.natAbs 63))

/-- Combines the bits of two numbers. -/
def bitwise (f : Int64 → Int64 → Int64) (a b : Int) : Value :=
  Value.ofInt (f (Int64.ofInt a) (Int64.ofInt b)).toInt

/-- Whether a comparison of two numbers holds. -/
def holds (c : Comparison) (a b : Int) : Bool :=
  match c with
  | .less => a < b
  | .greater => b < a
  | .lessEqual => a ≤ b
  | .greaterEqual => b ≤ a

/-! ### Calls -/

/-- The value of a result, or the failure of the native method with this selector. -/
def checked (selector : String) (receiver : Value) (result : Option Int) :
    Except MachineError Value :=
  match result.bind Value.ofInt? with
  | some value => .ok value
  | none => .error (.nativeFailed selector receiver)

/-- The receiver and the argument as integers. -/
def operands (receiver : Value) (arguments : List Value) : Except MachineError (Int × Int) := do
  let a ← toInteger receiver
  let b ← toInteger (← argument arguments 0)
  return (a, b)

/-- The character whose code point is the receiver. -/
def character (receiver : Value) : Except MachineError Value := do
  match ← toInteger receiver with
  | .ofNat code =>
    match Value.scalar? code with
    | some c => return Value.ofChar c
    | none => throw (.nativeFailed "asCharacter" receiver)
  | .negSucc _ => throw (.nativeFailed "asCharacter" receiver)

/-- The answer of a native method of small integers. -/
def answer (native : IntegerNative) (receiver : Value) (arguments : List Value) (m : Machine) :
    Except MachineError Value :=
  match native with
  | add => do
    let (a, b) ← operands receiver arguments
    checked "+" receiver (some (a + b))
  | subtract => do
    let (a, b) ← operands receiver arguments
    checked "-" receiver (some (a - b))
  | multiply => do
    let (a, b) ← operands receiver arguments
    checked "*" receiver (some (a * b))
  | divide => do
    let (a, b) ← operands receiver arguments
    checked "//" receiver
      (if b = 0 then none else some (quotient (Int64.ofInt a) (Int64.ofInt b)).toInt)
  | modulo => do
    let (a, b) ← operands receiver arguments
    checked "\\\\" receiver
      (if b = 0 then none else some (remainder (Int64.ofInt a) (Int64.ofInt b)).toInt)
  | compare c => do
    let (a, b) ← operands receiver arguments
    return m.boolean (holds c a b)
  | equal => do return m.boolean ((← argument arguments 0) = receiver)
  | notEqual => do return m.boolean ((← argument arguments 0) ≠ receiver)
  | bitAnd => do
    let (a, b) ← operands receiver arguments
    return bitwise (· &&& ·) a b
  | bitOr => do
    let (a, b) ← operands receiver arguments
    return bitwise (· ||| ·) a b
  | bitXor => do
    let (a, b) ← operands receiver arguments
    return bitwise (· ^^^ ·) a b
  | bitShift => do
    let (a, shift) ← operands receiver arguments
    checked "bitShift:" receiver ((shifted? (Int64.ofInt a) shift).map Int64.toInt)
  | negated => do
    let a ← toInteger receiver
    checked "negated" receiver (some (-a))
  | asFloat => do
    let a ← toInteger receiver
    ofFloatBits (Int64.ofInt a).toFloat.toBits
  | asCharacter => character receiver

/-- The digits of a small integer, as a new string. -/
def text (receiver : Value) : MachineM Value := do
  let n ← ask fun _ => toInteger receiver
  newString (toString n)

end IntegerNative

end TalkMachine
