import TalkMachine.Machine.Class

/-!
# Finding methods

A selector is looked for in the method dictionary of a class, then in that of its superclass, and so
on. What is found is a compiled method, or an object that refers to a native one by number.
-/

namespace TalkMachine

/-- What the value in a method dictionary is. -/
inductive MethodKind
  | compiled (method : Value)
  | native (argumentCount index : Nat)
deriving DecidableEq, Repr

namespace NativeSlot

/-- Slot of the selector. -/
def selector : Nat := 0
/-- Slot of the number of arguments. -/
def argumentCount : Nat := 1
/-- Slot of the number of the native method. -/
def index : Nat := 2
/-- Slots of the object of a native method. -/
def size : Nat := 3

end NativeSlot

namespace Machine

/-- Looks for a selector in at most `steps` classes from `current` up. `cls` is where the search
began. -/
def lookupFrom (m : Machine) (cls selector : Value) : (steps : Nat) → (current : Value) →
    Except MachineError (Option Value)
  | 0, current => if current = m.nil then .ok none else .error (.superclassCycle cls)
  | steps + 1, current =>
    if current = m.nil then .ok none
    else do
      let dictionary ← m.methodDictionary current
      match ← Dictionary.find? m.heap dictionary selector with
      | some method => return some method
      | none =>
        let next ← m.superclass current
        m.lookupFrom cls selector steps next

/-- The method for a selector in a class or the nearest of its superclasses. -/
def lookup (m : Machine) (cls selector : Value) : Except MachineError (Option Value) :=
  m.lookupFrom cls selector (m.classTable.size + 1) cls

/-- A number in the object of a native method. -/
def nativeField (m : Machine) (method : Value) (slot : Nat) : Except MachineError Nat := do
  let field ← Except.ofHeap (m.heap.fetch method slot)
  match field.toInt? with
  | some (.ofNat n) => return n
  | _ => throw (.notAMethod method)

/-- What the value in a method dictionary is. -/
def methodKind (m : Machine) (method : Value) : Except MachineError MethodKind := do
  if m.heap.isCompiledMethod method then return .compiled method
  if !method.isObject then throw (.notAMethod method)
  let index ← Except.ofHeap (m.heap.classIndexOf method)
  if index ≠ ClassIndex.nativeMethod then throw (.notAMethod method)
  let argumentCount ← m.nativeField method NativeSlot.argumentCount
  let index ← m.nativeField method NativeSlot.index
  return .native argumentCount index

/-! ### Installing native methods -/

/-- Gives a native method the next number. -/
def enterNative (native : Native) : MachineM Nat := fun m =>
  let index := m.natives.size
  .ok index { m with natives := m.natives.push native }

/-- Makes the object of a native method. -/
def newNativeMethod (selector : Value) (argumentCount index : Nat) : HeapM Value := do
  let method ← Heap.allocate NativeSlot.size 0 .fixedSize ClassIndex.nativeMethod
  Heap.store method NativeSlot.selector selector
  Heap.store method NativeSlot.argumentCount (Value.ofInt argumentCount)
  Heap.store method NativeSlot.index (Value.ofInt index)
  return method

/-- Puts native methods into a method dictionary. -/
def installInto (dictionary : Value) : List NativeEntry → MachineM Unit
  | [] => pure ()
  | entry :: rest => do
    let selector ← intern entry.selector
    let index ← enterNative entry.native
    let method ← change (newNativeMethod selector entry.argumentCount index)
    onHeap (Dictionary.insert dictionary selector method)
    installInto dictionary rest

/-- Puts native methods under their selectors of a class. -/
def installNatives (cls : Value) (entries : List NativeEntry) : MachineM Unit := do
  let dictionary ← ask (fun m => m.methodDictionary cls)
  installInto dictionary entries

end Machine

end TalkMachine
