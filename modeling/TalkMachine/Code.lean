import TalkMachine.Code.Layout
import TalkMachine.Heap.Store
import TalkMachine.Method

/-!
# Code under construction

Nodes and literals are put together one by one; labels are made, jumped to, and placed once. From
the whole a method object is generated.
-/

namespace TalkMachine

/-- Code under construction. -/
structure Code where
  nodes : Array Node
  literals : Array Value
  /-- For each label made, whether it has been placed. -/
  bound : Array Bool

/-- A step of construction, which may be refused. -/
abbrev CodeM := EStateM AssemblyError Code

namespace Code

/-- No code. -/
def empty : Code := ⟨#[], #[], #[]⟩

/-- The greatest number of literals. -/
def maxLiterals : Nat := 0xffff

/-! ### Nodes -/

/-- Puts a node at the end. -/
def add (node : Node) : CodeM Unit := fun code =>
  .ok () { code with nodes := code.nodes.push node }

/-- Puts an instruction at the end. -/
def emit (i : Instruction) : CodeM Unit :=
  add (.instruction i)

/-- Puts a jump to a label at the end. -/
def jump (kind : JumpKind) (label : Label) : CodeM Unit :=
  add (.jump kind label)

/-- Makes a label. -/
def newLabel : CodeM Label := fun code =>
  .ok ⟨code.bound.size⟩ { code with bound := code.bound.push false }

/-- Places a label in front of the next node. -/
def bind (label : Label) : CodeM Unit := fun code =>
  match code.bound[label.number]? with
  | none => .error (.unboundLabel label) code
  | some true => .error (.labelAlreadyBound label) code
  | some false =>
    .ok ()
      { code with
        bound := code.bound.setIfInBounds label.number true
        nodes := code.nodes.push (.bind label) }

/-! ### Literals -/

/-- The index of a literal, which is added unless it is there. -/
def literal (value : Value) : CodeM Nat := fun code =>
  match code.literals.findIdx? (fun other => other == value) with
  | some index => .ok index code
  | none =>
    if maxLiterals ≤ code.literals.size then
      .error (.tooManyLiterals (code.literals.size + 1)) code
    else .ok code.literals.size { code with literals := code.literals.push value }

/-- Pushes a literal. -/
def pushLiteral (value : Value) : CodeM Unit := do
  emit (.pushLiteral (← literal value))

/-- Pushes the value of a binding. -/
def pushBinding (association : Value) : CodeM Unit := do
  emit (.pushVariable .literalBinding (← literal association))

/-- Stores into a binding. -/
def storeBinding (association : Value) (popping : Bool) : CodeM Unit := do
  emit (.store .literalBinding (← literal association) popping)

/-- Sends a selector. -/
def send (selector : Value) (argumentCount : Nat) : CodeM Unit := do
  emit (.send (← literal selector) argumentCount)

/-- Pushes an integer: inline if three extensions carry it, else as a literal. -/
def pushInteger (n : Int) : CodeM Unit :=
  if signedWidth (n / 256) ≤ maxExtensions then emit (.pushInteger n)
  else
    match Value.ofInt? n with
    | some value => pushLiteral value
    | none => throw (.operandOutOfRange n)

/-! ### Assembly -/

/-- The layout of the code. -/
def layout (code : Code) : Except AssemblyError Layout :=
  Layout.ofNodes code.bound.size code.nodes

/-- The bytes of the code. -/
def assemble (code : Code) : Except AssemblyError (List UInt8) := do
  (← code.layout).encode code.nodes

/-- The header of the method with this code. -/
def methodHeader (code : Code) (argumentCount tempCount : Nat) :
    Except AssemblyError MethodHeader := do
  if maxLiterals < code.literals.size then throw (.tooManyLiterals code.literals.size)
  if 255 < tempCount then throw (.tooManyTemps tempCount)
  if 255 < argumentCount then throw (.tooManyArguments argumentCount)
  return ⟨code.literals.size, tempCount, argumentCount⟩

/-- Stores values into the slots of an object from `index` on. -/
def storeAll (object : Value) : (index : Nat) → List Value → HeapM Unit
  | _, [] => pure ()
  | index, value :: rest => do
    Heap.store object index value
    storeAll object (index + 1) rest

/-- Allocates the object of a method. -/
def allocateMethod (header : MethodHeader) (literals : List Value) (code : List UInt8)
    (classIndex : Nat) : HeapM Value := do
  let method ← Heap.allocate 0 (header.initialPc + code.length) .compiledMethod classIndex
  Heap.store method 0 (Value.ofInt header.pack)
  storeAll method 1 literals
  let _ ← Heap.storeBytes method header.initialPc code
  return method

/-- Generates the method object: its header, the literals in order, and the code. -/
def generate (code : Code) (classIndex argumentCount tempCount : Nat) :
    EStateM AssemblyError Heap Value := fun h =>
  match code.methodHeader argumentCount tempCount, code.assemble with
  | .error e, _ | .ok _, .error e => .error e h
  | .ok header, .ok bytes =>
    (allocateMethod header code.literals.toList bytes classIndex).adaptExcept AssemblyError.heap h

end Code

end TalkMachine
