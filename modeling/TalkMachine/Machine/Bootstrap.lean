import TalkMachine.Bytecode.SpecialSelector
import TalkMachine.Machine.Lookup

/-!
# The fresh machine

A machine starts with nil, true and false, the kernel classes, the symbols of the special selectors
and the native methods of the kernel. Nil is its first object, so that every later pointer slot
starts as nil.
-/

namespace TalkMachine

/-- A class that every machine has. -/
structure KernelClass where
  index : Nat
  name : String
  superclass : Option Nat
  spec : InstanceSpec

namespace KernelClass

open ClassIndex

/-- The kernel classes, each behind its superclass. -/
def all : List KernelClass :=
  [⟨object, "Object", none, ⟨.fixedSize, 0⟩⟩,
   ⟨behavior, "Behavior", some object, ⟨.fixedSize, ClassSlot.behaviorSize⟩⟩,
   ⟨classClass, "Class", some behavior, ⟨.fixedSize, ClassSlot.classSize⟩⟩,
   ⟨metaclass, "Metaclass", some behavior, ⟨.fixedSize, ClassSlot.classSize⟩⟩,
   ⟨undefinedObject, "UndefinedObject", some object, ⟨.empty, 0⟩⟩,
   ⟨boolean, "Boolean", some object, ⟨.empty, 0⟩⟩,
   ⟨trueClass, "True", some boolean, ⟨.empty, 0⟩⟩,
   ⟨falseClass, "False", some boolean, ⟨.empty, 0⟩⟩,
   ⟨smallInteger, "SmallInteger", some object, ⟨.empty, 0⟩⟩,
   ⟨character, "Character", some object, ⟨.empty, 0⟩⟩,
   ⟨smallFloat, "SmallFloat", some object, ⟨.empty, 0⟩⟩,
   ⟨string, "String", some object, ⟨.indexable8, 0⟩⟩,
   ⟨symbol, "Symbol", some string, ⟨.indexable8, 0⟩⟩,
   ⟨array, "Array", some object, ⟨.variableSize, 0⟩⟩,
   ⟨byteArray, "ByteArray", some object, ⟨.indexable8, 0⟩⟩,
   ⟨methodDictionary, "MethodDictionary", some object, ⟨.fixedSize, Dictionary.slotCount⟩⟩,
   ⟨compiledMethod, "CompiledMethod", some object, ⟨.compiledMethod, 0⟩⟩,
   ⟨nativeMethod, "NativeMethod", some object, ⟨.fixedSize, NativeSlot.size⟩⟩,
   ⟨association, "Association", some object, ⟨.fixedSize, 2⟩⟩]

end KernelClass

/-- The kernel classes with native methods, by index, and the methods. -/
def NativeTable.kernel : List (Nat × List NativeEntry) :=
  [(ClassIndex.object, object), (ClassIndex.behavior, behavior), (ClassIndex.string, string),
   (ClassIndex.array, array), (ClassIndex.character, character),
   (ClassIndex.smallInteger, smallInteger), (ClassIndex.smallFloat, smallFloat),
   (ClassIndex.boolean, boolean)]

namespace Machine

/-- The class at the index of a kernel class. -/
def kernelClass (m : Machine) (index : Nat) : Except MachineError Value :=
  match m.classAt? index with
  | some cls => .ok cls
  | none => .error (.invalidClass m.nil)

/-- Makes the kernel classes. -/
def createKernelClasses : List KernelClass → MachineM Unit
  | [] => pure ()
  | k :: rest => do
    let superclass ← ask fun m =>
      match k.superclass with
      | some index => m.kernelClass index
      | none => .ok m.nil
    let _ ← createClass k.index k.name superclass k.spec
    createKernelClasses rest

/-- Links the metaclass of Object, which was made before Class was, to Class. -/
def linkObjectMetaclass : MachineM Unit := do
  let (metaclass, cls) ← ask fun m => do
    let object ← m.kernelClass ClassIndex.object
    let cls ← m.kernelClass ClassIndex.classClass
    return (← m.classOf object, cls)
  change (Heap.store metaclass ClassSlot.superclass cls)

/-- Enters the symbol of the next special selector. -/
def enterSpecialSelector (symbol : Value) : MachineM Unit := fun m =>
  .ok () { m with specialSelectors := m.specialSelectors.push symbol }

/-- Interns the special selectors. -/
def internSpecialSelectors : List SpecialSelector → MachineM Unit
  | [] => pure ()
  | selector :: rest => do
    enterSpecialSelector (← intern selector.name)
    internSpecialSelectors rest

/-- Installs the native methods of the kernel. -/
def installKernelNatives : List (Nat × List NativeEntry) → MachineM Unit
  | [] => pure ()
  | (index, entries) :: rest => do
    installNatives (← ask fun m => m.kernelClass index) entries
    installKernelNatives rest

/-- Allocates nil, true and false. -/
def allocateConstants : HeapM (Value × Value × Value) := do
  let nil ← Heap.allocate 0 0 .empty ClassIndex.undefinedObject
  Heap.setNil nil
  let trueObject ← Heap.allocate 0 0 .empty ClassIndex.trueClass
  let falseObject ← Heap.allocate 0 0 .empty ClassIndex.falseClass
  return (nil, trueObject, falseObject)

/-- Fills a machine that has nil, true and false only. -/
def bootstrap : MachineM Unit := do
  createKernelClasses KernelClass.all
  linkObjectMetaclass
  internSpecialSelectors SpecialSelector.all
  installKernelNatives NativeTable.kernel

/-- The fresh machine with a heap of at most `limit` bytes. -/
def new (limit : Nat) : Except MachineError Machine :=
  match allocateConstants (Heap.new limit) with
  | .error e _ => .error (.heap e)
  | .ok (nil, trueObject, falseObject) heap =>
    let m : Machine :=
      { heap, nil, trueObject, falseObject
        classTable := Array.replicate ClassIndex.firstDynamic nil
        symbols := ∅
        natives := #[]
        specialSelectors := #[]
        registry := StackRegistry.empty
        handlerCalls := 0 }
    match bootstrap m with
    | .ok () m => .ok m
    | .error e _ => .error e

end Machine

end TalkMachine
