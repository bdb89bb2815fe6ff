import TalkMachine.Machine.Print

/-!
# Values and what they stand for

Conversions between values of the machine and numbers, truth values, characters and strings. Reading
a value of another kind fails, and so does writing what no value can hold.
-/

namespace TalkMachine.Machine

/-! ### Reading -/

/-- The result, or an error that tells what was expected instead of the value. -/
def expected {α : Type} (kind : String) (value : Value) : Option α → Except MachineError α
  | some a => .ok a
  | none => .error (.wrongType kind value)

/-- The integer that a value is. -/
def toInteger (value : Value) : Except MachineError Int :=
  expected "SmallInteger" value value.toInt?

/-- The natural number that a value is. -/
def toNatural (value : Value) : Except MachineError Nat := do
  match ← toInteger value with
  | .ofNat n => return n
  | .negSucc _ => throw (.wrongType "non-negative SmallInteger" value)

/-- The truth value that a value is. -/
def toBool (m : Machine) (value : Value) : Except MachineError Bool :=
  expected "Boolean" value
    (if value = m.trueObject then some true
    else if value = m.falseObject then some false
    else none)

/-- The character that a value is. -/
def toCharacter (value : Value) : Except MachineError Char :=
  expected "Character" value value.toChar?

/-- The bits of the double that a value is. -/
def toFloatBits (value : Value) : Except MachineError UInt64 :=
  expected "SmallFloat" value value.toFloatBits?

/-- The text of a string or symbol. -/
def toText (m : Machine) (value : Value) : Except MachineError String := do
  let index ← Except.ofHeap (m.heap.classIndexOf value)
  if index = ClassIndex.string ∨ index = ClassIndex.symbol then
    return Text.ofUtf8 (← Except.ofHeap (m.heap.bytes value))
  else throw (.wrongType "String" value)

/-! ### Writing -/

/-- The value of an integer. -/
def ofInteger (n : Int) : Except MachineError Value :=
  match Value.ofInt? n with
  | some value => .ok value
  | none => .error (.unrepresentable "SmallInteger")

/-- The value of the double with these bits. -/
def ofFloatBits (bits : UInt64) : Except MachineError Value :=
  match Value.ofFloatBits? bits with
  | some value => .ok value
  | none => .error (.unrepresentable "SmallFloat")

/-! ### Arguments -/

/-- An argument of a native method. -/
def argument (arguments : List Value) (index : Nat) : Except MachineError Value :=
  match arguments[index]? with
  | some value => .ok value
  | none => .error (.argumentCountMismatch (index + 1) arguments.length)

/-- The position of an element, counted from zero, by its index counted from one. -/
def checkedIndex (receiver : Value) (index : Int) (size : Nat) : Except MachineError Nat :=
  if 1 ≤ index ∧ index ≤ size then .ok (index - 1).toNat
  else .error (.heap (.indexOutOfBounds receiver index.toNat size))

/-- Refuses an object whose format is not accepted. -/
def expectFormat (m : Machine) (receiver : Value) (accepts : ObjectFormat → Bool) (kind : String) :
    Except MachineError Unit :=
  match m.heap.format receiver with
  | .ok (format, _) => if accepts format then .ok () else .error (.wrongType kind receiver)
  | .error _ => .error (.wrongType kind receiver)

end TalkMachine.Machine
