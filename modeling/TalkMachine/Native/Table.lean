import TalkMachine.Text.Spelling

/-!
# Tables of native methods

A native method is carried out by the machine itself. The kernel classes have fixed ones; a host may
add others, which are known by number.
-/

namespace TalkMachine

/-- Native methods of every object. -/
inductive ObjectNative
  | identical
  | notIdentical
  | classOf
  | identityHash
  | yourself
  | isNil
  | notNil
  | printString
  | instVarAt
  | instVarAtPut
deriving DecidableEq, Repr

/-- Native methods of classes. -/
inductive BehaviorNative
  | new
  | newSized
  | name
  | superclass
deriving DecidableEq, Repr

/-- Native methods of strings. -/
inductive StringNative
  | size
  | fetch
  | store
deriving DecidableEq, Repr

/-- Native methods of arrays. -/
inductive ArrayNative
  | size
  | fetch
  | store
deriving DecidableEq, Repr

/-- Native methods of truth values. -/
inductive BooleanNative
  | not
  | and
  | or
deriving DecidableEq, Repr

/-- Comparisons of numbers. -/
inductive Comparison
  | less
  | greater
  | lessEqual
  | greaterEqual
deriving DecidableEq, Repr

/-- Native methods of small integers. -/
inductive IntegerNative
  | add
  | subtract
  | multiply
  | divide
  | modulo
  | compare (c : Comparison)
  | equal
  | notEqual
  | bitAnd
  | bitOr
  | bitXor
  | bitShift
  | negated
  | asFloat
  | asCharacter
deriving DecidableEq, Repr

/-- Native methods of small floats. -/
inductive FloatNative
  | add
  | subtract
  | multiply
  | divide
  | compare (c : Comparison)
  | equal
  | notEqual
  | truncated
deriving DecidableEq, Repr

/-- The native methods. -/
inductive Native
  | object (native : ObjectNative)
  | behavior (native : BehaviorNative)
  | string (native : StringNative)
  | array (native : ArrayNative)
  /-- The code point of a character. -/
  | characterValue
  | boolean (native : BooleanNative)
  | integer (native : IntegerNative)
  /-- The digits of a small integer. -/
  | integerText
  | float (native : FloatNative)
  /-- The digits of a small float. -/
  | floatText
  /-- The native method that the host knows by this number. -/
  | foreign (number : Nat)
deriving DecidableEq, Repr

/-- A native method as it is installed in a class. -/
structure NativeEntry where
  selector : String
  argumentCount : Nat
  native : Native
deriving DecidableEq, Repr

/-- The selector and argument count of an entry. -/
def NativeEntry.describe (entry : NativeEntry) : String :=
  "NativeMethodDescriptor \x7b selector: " ++ Text.quotedString entry.selector ++ ", arity: " ++
    toString entry.argumentCount ++ ", .. \x7d"

namespace NativeTable

/-- Native methods of the class Object. -/
def object : List NativeEntry :=
  [⟨"==", 1, .object .identical⟩, ⟨"~~", 1, .object .notIdentical⟩, ⟨"=", 1, .object .identical⟩,
   ⟨"~=", 1, .object .notIdentical⟩, ⟨"class", 0, .object .classOf⟩,
   ⟨"identityHash", 0, .object .identityHash⟩, ⟨"yourself", 0, .object .yourself⟩,
   ⟨"isNil", 0, .object .isNil⟩, ⟨"notNil", 0, .object .notNil⟩,
   ⟨"printString", 0, .object .printString⟩, ⟨"instVarAt:", 1, .object .instVarAt⟩,
   ⟨"instVarAt:put:", 2, .object .instVarAtPut⟩]

/-- Native methods of the class Behavior. -/
def behavior : List NativeEntry :=
  [⟨"basicNew", 0, .behavior .new⟩, ⟨"new", 0, .behavior .new⟩,
   ⟨"basicNew:", 1, .behavior .newSized⟩, ⟨"new:", 1, .behavior .newSized⟩,
   ⟨"name", 0, .behavior .name⟩, ⟨"superclass", 0, .behavior .superclass⟩]

/-- Native methods of the class String. -/
def string : List NativeEntry :=
  [⟨"size", 0, .string .size⟩, ⟨"at:", 1, .string .fetch⟩, ⟨"at:put:", 2, .string .store⟩]

/-- Native methods of the class Array. -/
def array : List NativeEntry :=
  [⟨"size", 0, .array .size⟩, ⟨"at:", 1, .array .fetch⟩, ⟨"at:put:", 2, .array .store⟩]

/-- Native methods of the class Character. -/
def character : List NativeEntry :=
  [⟨"value", 0, .characterValue⟩, ⟨"asInteger", 0, .characterValue⟩]

/-- Native methods of the class SmallInteger. -/
def smallInteger : List NativeEntry :=
  [⟨"+", 1, .integer .add⟩, ⟨"-", 1, .integer .subtract⟩, ⟨"*", 1, .integer .multiply⟩,
   ⟨"//", 1, .integer .divide⟩, ⟨"\\\\", 1, .integer .modulo⟩, ⟨"<", 1, .integer (.compare .less)⟩,
   ⟨">", 1, .integer (.compare .greater)⟩, ⟨"<=", 1, .integer (.compare .lessEqual)⟩,
   ⟨">=", 1, .integer (.compare .greaterEqual)⟩, ⟨"=", 1, .integer .equal⟩,
   ⟨"~=", 1, .integer .notEqual⟩, ⟨"bitAnd:", 1, .integer .bitAnd⟩, ⟨"bitOr:", 1, .integer .bitOr⟩,
   ⟨"bitXor:", 1, .integer .bitXor⟩, ⟨"bitShift:", 1, .integer .bitShift⟩,
   ⟨"negated", 0, .integer .negated⟩, ⟨"asFloat", 0, .integer .asFloat⟩,
   ⟨"asCharacter", 0, .integer .asCharacter⟩, ⟨"printString", 0, .integerText⟩]

/-- Native methods of the class SmallFloat. -/
def smallFloat : List NativeEntry :=
  [⟨"+", 1, .float .add⟩, ⟨"-", 1, .float .subtract⟩, ⟨"*", 1, .float .multiply⟩,
   ⟨"/", 1, .float .divide⟩, ⟨"<", 1, .float (.compare .less)⟩,
   ⟨">", 1, .float (.compare .greater)⟩,
   ⟨"<=", 1, .float (.compare .lessEqual)⟩, ⟨">=", 1, .float (.compare .greaterEqual)⟩,
   ⟨"=", 1, .float .equal⟩, ⟨"~=", 1, .float .notEqual⟩, ⟨"truncated", 0, .float .truncated⟩,
   ⟨"printString", 0, .floatText⟩]

/-- Native methods of the class Boolean. -/
def boolean : List NativeEntry :=
  [⟨"not", 0, .boolean .not⟩, ⟨"&", 1, .boolean .and⟩, ⟨"|", 1, .boolean .or⟩]

end NativeTable

end TalkMachine
