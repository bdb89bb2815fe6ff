import TalkMachine.Word

/-!
# Object formats

The format of an object says what its body holds: pointers, or elements of 8, 4, 2 or 1 bytes, and
whether their number is fixed. A header stores a format as a five-bit code. For elements smaller
than a word the code also counts the elements that are unused at the end of the last word.
-/

namespace TalkMachine

/-- The layout of an object's body. -/
inductive ObjectFormat
  /-- No body. -/
  | empty
  /-- Named pointer fields. -/
  | fixedSize
  /-- Indexed pointer fields. -/
  | variableSize
  /-- Named, then indexed pointer fields. -/
  | variableSizeIvars
  /-- Named, then indexed weak pointers. -/
  | weakVariableSize
  /-- Named weak pointers. -/
  | weakFixedSize
  /-- Words. -/
  | indexable64
  /-- Half words. -/
  | indexable32
  /-- Quarter words. -/
  | indexable16
  /-- Bytes. -/
  | indexable8
  /-- Bytes of a method: its header word, its literals and its code. -/
  | compiledMethod
deriving DecidableEq, Repr

namespace ObjectFormat

/-- All formats, by rising code. -/
def all : List ObjectFormat :=
  [empty, fixedSize, variableSize, variableSizeIvars, weakVariableSize, weakFixedSize, indexable64,
    indexable32, indexable16, indexable8, compiledMethod]

/-- The name of a format. -/
def name : ObjectFormat → String
  | empty => "Empty"
  | fixedSize => "FixedSize"
  | variableSize => "VariableSize"
  | variableSizeIvars => "VariableSizeIvars"
  | weakVariableSize => "WeakVariableSize"
  | weakFixedSize => "WeakFixedSize"
  | indexable64 => "Indexable64"
  | indexable32 => "Indexable32"
  | indexable16 => "Indexable16"
  | indexable8 => "Indexable8"
  | compiledMethod => "CompiledMethod"

/-- The format with a name. -/
def ofName? (name : String) : Option ObjectFormat :=
  all.find? (fun format => format.name == name)

/-- Bytes in one indexed element. -/
def elementSize : ObjectFormat → Nat
  | indexable32 => 4
  | indexable16 => 2
  | indexable8 | compiledMethod => 1
  | _ => wordSize

/-- Indexed elements in one word. -/
def divisor (format : ObjectFormat) : Nat :=
  wordSize / format.elementSize

/-- Whether the body holds values. -/
def isPointers : ObjectFormat → Bool
  | empty | fixedSize | variableSize | variableSizeIvars | weakVariableSize | weakFixedSize => true
  | _ => false

/-- Whether there are indexed elements. -/
def isIndexable : ObjectFormat → Bool
  | empty | fixedSize | weakFixedSize => false
  | _ => true

/-- Whether the pointers are weak. -/
def isWeak : ObjectFormat → Bool
  | weakVariableSize | weakFixedSize => true
  | _ => false

/-- Whether the body is a string of bytes. -/
def isBytes : ObjectFormat → Bool
  | indexable8 | compiledMethod => true
  | _ => false

/-- Whether an object may have so many named and indexed fields. -/
def admits (format : ObjectFormat) (fixed indexed : Nat) : Bool :=
  match format with
  | empty => fixed == 0 && indexed == 0
  | fixedSize | weakFixedSize => indexed == 0
  | variableSizeIvars | weakVariableSize => true
  | _ => fixed == 0

/-- Words that hold `count` indexed elements. -/
def slotsFor (format : ObjectFormat) (count : Nat) : Nat :=
  (count + format.divisor - 1) / format.divisor

/-- Elements left unused in the last of the words that hold `count` of them. -/
def unusedFor (format : ObjectFormat) (count : Nat) : Nat :=
  format.slotsFor count * format.divisor - count

/-! ### Codes -/

/-- The code of a format without unused elements. -/
def baseCode : ObjectFormat → Nat
  | empty => 0
  | fixedSize => 1
  | variableSize => 2
  | variableSizeIvars => 3
  | weakVariableSize => 4
  | weakFixedSize => 5
  | indexable64 => 9
  | indexable32 => 10
  | indexable16 => 12
  | indexable8 => 16
  | compiledMethod => 24

/-- The code of a format with `unused` elements at the end. -/
def code (format : ObjectFormat) (unused : Nat) : Nat :=
  format.baseCode + unused

/-- The format and the unused elements that a code stands for. -/
def ofCode? (code : Nat) : Option (ObjectFormat × Nat) :=
  (all.find? (fun format => format.baseCode ≤ code && code < format.baseCode + format.divisor)).map
    (fun format => (format, code - format.baseCode))

end ObjectFormat

end TalkMachine
