import Std.Data.HashMap
import TalkMachine.Code
import TalkMachine.Dictionary
import TalkMachine.Native.Table
import TalkMachine.Stack.Registry
import TalkMachine.Text.Utf8

/-!
# The machine

The machine is a heap and what refers to objects in it: nil, true and false, the class table, the
table of interned symbols, and the selectors that are sent without a literal. It also knows which
native method each number stands for, which stacks are in use on it, and how often the handler of
messages that were not understood has been called.

This module holds the machine and the objects of everyday use: symbols, strings, arrays and
associations.
-/

namespace TalkMachine

/-- A machine. -/
structure Machine where
  heap : Heap
  nil : Value
  trueObject : Value
  falseObject : Value
  /-- Classes by class index. Free places hold nil. -/
  classTable : Array Value
  /-- The symbol of each name. -/
  symbols : Std.HashMap String Value
  /-- Native methods by the number in their method objects. -/
  natives : Array Native
  /-- The special selectors, by index. -/
  specialSelectors : Array Value
  registry : StackRegistry
  /-- Calls of the handler of messages that were not understood. -/
  handlerCalls : Nat

/-- A change to a machine, which may fail. The machine it leaves is known in either case. -/
abbrev MachineM := EStateM MachineError Machine

namespace Machine

/-! ### Parts of the machine -/

/-- Asks the machine without changing it. -/
def ask {α : Type} (question : Machine → Except MachineError α) : MachineM α := fun m =>
  match question m with
  | .ok a => .ok a m
  | .error e => .error e m

/-- Changes the heap of a machine. -/
def onHeap {α : Type} (x : EStateM MachineError Heap α) : MachineM α := fun m =>
  match m with
  | ⟨heap, nil, yes, no, classes, symbols, natives, selectors, registry, calls⟩ =>
    match x heap with
    | .ok a heap =>
      .ok a ⟨heap, nil, yes, no, classes, symbols, natives, selectors, registry, calls⟩
    | .error e heap =>
      .error e ⟨heap, nil, yes, no, classes, symbols, natives, selectors, registry, calls⟩

/-- Makes a change to the heap. -/
def change {α : Type} (x : HeapM α) : MachineM α :=
  onHeap (x.adaptExcept MachineError.heap)

/-- The value of a truth value. -/
def boolean (m : Machine) (b : Bool) : Value :=
  if b then m.trueObject else m.falseObject

/-! ### Symbols and strings -/

/-- Enters a symbol under its name. -/
def enterSymbol (name : String) (symbol : Value) : MachineM Unit := fun m =>
  .ok () { m with symbols := m.symbols.insert name symbol }

/-- The symbol with a name. It is made when it is first asked for, and can never be stored into. -/
def intern (name : String) : MachineM Value := do
  match ← ask (fun m => .ok m.symbols[name]?) with
  | some symbol => return symbol
  | none =>
    let symbol ← change (Heap.allocateBytes (Text.utf8 name) .indexable8 ClassIndex.symbol)
    change (Heap.setFlags symbol ⟨true, false⟩)
    enterSymbol name symbol
    return symbol

/-- The name of a symbol. -/
def symbolName? (m : Machine) (symbol : Value) : Option String :=
  match m.heap.classIndexOf symbol with
  | .error _ => none
  | .ok index =>
    if index = ClassIndex.symbol then
      match m.heap.bytes symbol with
      | .ok bytes => some (Text.ofUtf8 bytes)
      | .error _ => none
    else none

/-- A new string. -/
def newString (text : String) : MachineM Value :=
  change (Heap.allocateBytes (Text.utf8 text) .indexable8 ClassIndex.string)

/-! ### Arrays and associations -/

/-- A new array. -/
def newArray (elements : List Value) : MachineM Value := change do
  let array ← Heap.allocate 0 elements.length .variableSize ClassIndex.array
  Code.storeAll array 0 elements
  return array

/-- Slot of the value of an association. -/
def associationValue : Nat := 1

/-- A new binding of a name, which is interned, to a value. -/
def newAssociation (key : String) (value : Value) : MachineM Value := do
  let key ← intern key
  change do
    let association ← Heap.allocate 2 0 .fixedSize ClassIndex.association
    Heap.store association 0 key
    Heap.store association associationValue value
    return association

/-! ### Methods -/

/-- A literal of a compiled method. -/
def literalOf (m : Machine) (method : Value) (index : Nat) : Except MachineError Value :=
  if m.heap.isCompiledMethod method then Except.ofHeap (m.heap.methodLiteral method index)
  else .error (.notAMethod method)

/-- Generates the method with this code. -/
def generate (code : Code) (argumentCount tempCount : Nat) : MachineM Value :=
  onHeap ((code.generate ClassIndex.compiledMethod argumentCount tempCount).adaptExcept
    fun e => MachineError.assembly e)

/-- Generates the method whose code is built by a construction. -/
def build (construction : CodeM Unit) (argumentCount tempCount : Nat) : MachineM Value :=
  match construction Code.empty with
  | .ok () code => generate code argumentCount tempCount
  | .error e _ => throw (.assembly e)

/-- The counts of a machine. -/
def describe (m : Machine) : String :=
  "VM \x7b objects: " ++ toString m.heap.objectCount ++ ", used_bytes: " ++
    toString m.heap.usedBytes ++ ", classes: " ++ toString m.classTable.size ++ ", symbols: " ++
    toString m.symbols.size ++ ", natives: " ++ toString m.natives.size ++ ", .. \x7d"

end Machine

end TalkMachine
