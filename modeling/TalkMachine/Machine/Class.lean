import TalkMachine.Machine

/-!
# Classes

A class is an object in the class table, at the index that is its identity hash. Its slots hold its
superclass, its method dictionary, what its instances look like, and its name. The class of a class
is its metaclass, which has no name but refers back to the class; the class of a metaclass is
Metaclass.

The superclass of a metaclass is the metaclass of the superclass. Where there is no superclass, it
is the class Class.
-/

namespace TalkMachine

/-! ### What instances look like -/

/-- The format of the instances of a class, and the number of their named fields. -/
structure InstanceSpec where
  format : ObjectFormat
  fixedFields : Nat
deriving DecidableEq, Repr

namespace InstanceSpec

/-- The specification as a value: the code of the format above 16 bits for the named fields. -/
def pack (spec : InstanceSpec) : Value :=
  Value.ofInt (spec.format.baseCode * 0x10000 ||| spec.fixedFields : Nat)

/-- The specification that a value stands for. -/
def unpack? (value : Value) : Option InstanceSpec := do
  let n ← value.toInt?
  let (format, _) ← ObjectFormat.ofCode? (n / 0x10000 % 0x100).toNat
  return ⟨format, (n % 0x10000).toNat⟩

end InstanceSpec

namespace ClassSlot

/-- Slot of the superclass. -/
def superclass : Nat := 0
/-- Slot of the method dictionary. -/
def methodDictionary : Nat := 1
/-- Slot of the instance specification. -/
def format : Nat := 2
/-- Slot of the name of a class, or of the class that a metaclass belongs to. -/
def name : Nat := 3

/-- Slots of a behavior. -/
def behaviorSize : Nat := 3
/-- Slots of a class or metaclass. -/
def classSize : Nat := 4

end ClassSlot

namespace Machine

/-! ### Reading -/

/-- The class at an index. -/
def classAt? (m : Machine) (index : Nat) : Option Value :=
  m.classTable[index]?.filter (fun cls => cls != m.nil)

/-- The class of a value. -/
def classOf (m : Machine) (value : Value) : Except MachineError Value := do
  let index ← Except.ofHeap (m.heap.classIndexOf value)
  match m.classAt? index with
  | some cls => return cls
  | none => throw (.invalidClass value)

/-- Whether a value is a class or metaclass in the class table. -/
def isClass (m : Machine) (value : Value) : Bool :=
  value.isObject &&
    match m.heap.identityHashOf value with
    | .ok hash => m.classAt? hash == some value
    | .error _ => false

/-- Refuses a value that is not a class. -/
def expectClass (m : Machine) (value : Value) : Except MachineError Unit :=
  if m.isClass value then .ok () else .error (.invalidClass value)

/-- The index that instances of a class carry. -/
def classIndexOfClass (m : Machine) (cls : Value) : Except MachineError Nat := do
  m.expectClass cls
  Except.ofHeap (m.heap.identityHashOf cls)

/-- A slot of a class. -/
def classSlot (m : Machine) (cls : Value) (slot : Nat) : Except MachineError Value := do
  m.expectClass cls
  Except.ofHeap (m.heap.fetch cls slot)

/-- The superclass of a class, nil if it has none. -/
def superclass (m : Machine) (cls : Value) : Except MachineError Value :=
  m.classSlot cls ClassSlot.superclass

/-- The method dictionary of a class. -/
def methodDictionary (m : Machine) (cls : Value) : Except MachineError Value :=
  m.classSlot cls ClassSlot.methodDictionary

/-- What the instances of a class look like. -/
def instanceSpec (m : Machine) (cls : Value) : Except MachineError InstanceSpec := do
  match InstanceSpec.unpack? (← m.classSlot cls ClassSlot.format) with
  | some spec => return spec
  | none => throw (.invalidClass cls)

/-- Whether a value is a metaclass. -/
def isMetaclass (m : Machine) (cls : Value) : Bool :=
  m.isClass cls &&
    match m.heap.classIndexOf cls with
    | .ok index => index == ClassIndex.metaclass
    | .error _ => false

/-- The name of a class, following at most `steps` metaclasses to their classes. -/
def classNameIn? (m : Machine) : (steps : Nat) → Value → Option String
  | 0, _ => none
  | steps + 1, cls =>
    if !m.isClass cls then none
    else
      match m.heap.fetch cls ClassSlot.name with
      | .error _ => none
      | .ok slot =>
        if m.isMetaclass cls then (m.classNameIn? steps slot).map (fun name => name ++ " class")
        else m.symbolName? slot

/-- The name of a class. A metaclass goes by the name of its class and the word "class". -/
def className? (m : Machine) (cls : Value) : Option String :=
  m.classNameIn? (m.classTable.size + 1) cls

/-! ### Superclasses -/

/-- Follows at most `steps` superclasses from `current`, and fails where it meets `cls`. -/
def checkAcyclic (m : Machine) (cls : Value) : (steps : Nat) → (current : Value) →
    Except MachineError Unit
  | 0, current => if current = m.nil then .ok () else .error (.superclassCycle cls)
  | steps + 1, current =>
    if current = m.nil then .ok ()
    else if current = cls then .error (.superclassCycle cls)
    else do
      let next ← m.superclass current
      m.checkAcyclic cls steps next

/-- The superclass that the metaclass of a class takes when the class takes `superclass`. -/
def metaSuperclass (m : Machine) (cls superclass : Value) : Except MachineError Value :=
  if superclass = m.nil then .ok ((m.classAt? ClassIndex.classClass).getD m.nil)
  else do
    m.expectClass superclass
    m.checkAcyclic cls (m.classTable.size + 1) superclass
    m.classOf superclass

/-- Gives a class another superclass, and its metaclass the one that goes with it. -/
def setSuperclass (cls superclass : Value) : MachineM Unit := do
  ask (fun m => m.expectClass cls)
  let metaSuperclass ← ask (fun m => m.metaSuperclass cls superclass)
  change (Heap.store cls ClassSlot.superclass superclass)
  let isMetaclass ← ask (fun m => .ok (m.isMetaclass cls))
  if !isMetaclass then
    let metaclass ← ask (fun m => m.classOf cls)
    change (Heap.store metaclass ClassSlot.superclass metaSuperclass)

/-! ### Defining classes -/

/-- Makes the class table long enough for an index. -/
def growClassTable (size : Nat) : MachineM Unit := fun m =>
  .ok () { m with
    classTable := m.classTable ++ Array.replicate (size - m.classTable.size) m.nil }

/-- Enters a class at an index of the class table. -/
def enterClass (index : Nat) (cls : Value) : MachineM Unit := fun m =>
  .ok () { m with classTable := m.classTable.setIfInBounds index cls }

/-- Hands out the next class index. -/
def reserveClassIndex : MachineM Nat := do
  let index ← ask (fun m => .ok (max m.classTable.size ClassIndex.firstDynamic))
  if Header.maxClassIndex < index then throw (.heap (.classIndexOutOfRange index))
  growClassTable (index + 1)
  return index

/-- Refuses a superclass that is neither nil nor a class. -/
def checkSuperclass (m : Machine) (superclass : Value) : Except MachineError Unit :=
  if superclass = m.nil then .ok () else m.expectClass superclass

/-- Sets the slots of a class or metaclass except that of its superclass. -/
def fillClass (cls dictionary : Value) (spec : InstanceSpec) (name : Value) : HeapM Unit := do
  Heap.store cls ClassSlot.methodDictionary dictionary
  Heap.store cls ClassSlot.format spec.pack
  Heap.store cls ClassSlot.name name

/-- Makes the class at `index`, and its metaclass at a fresh index. -/
def createClass (index : Nat) (name : String) (superclass : Value) (spec : InstanceSpec) :
    MachineM Value := do
  ask (fun m => m.checkSuperclass superclass)
  let metaIndex ← reserveClassIndex
  let cls ← change (Heap.allocate ClassSlot.classSize 0 .fixedSize metaIndex (some index))
  let metaclass ←
    change (Heap.allocate ClassSlot.classSize 0 .fixedSize ClassIndex.metaclass (some metaIndex))
  growClassTable (index + 1)
  enterClass index cls
  enterClass metaIndex metaclass
  let symbol ← intern name
  let dictionary ← onHeap (Dictionary.new 0)
  change (fillClass cls dictionary spec symbol)
  let metaDictionary ← onHeap (Dictionary.new 0)
  change (fillClass metaclass metaDictionary ⟨.fixedSize, ClassSlot.classSize⟩ cls)
  setSuperclass cls superclass
  return cls

/-- Defines a class and its metaclass at fresh indices. -/
def defineClass (name : String) (superclass : Value) (spec : InstanceSpec) : MachineM Value := do
  let index ← reserveClassIndex
  createClass index name superclass spec

/-! ### Using classes -/

/-- Puts a method under a selector of a class. -/
def addMethod (cls selector method : Value) : MachineM Unit := do
  let dictionary ← ask (fun m => m.methodDictionary cls)
  onHeap (Dictionary.insert dictionary selector method)

/-- A new instance of a class with `indexed` indexed fields. The classes of immediate values have no
instances on the heap. -/
def instantiate (cls : Value) (indexed : Nat) : MachineM Value := do
  let index ← ask (fun m => m.classIndexOfClass cls)
  if index = ClassIndex.smallInteger ∨ index = ClassIndex.character ∨
      index = ClassIndex.smallFloat then
    throw (.invalidClass cls)
  let spec ← ask (fun m => m.instanceSpec cls)
  change (Heap.allocate spec.fixedFields indexed spec.format index)

end Machine

end TalkMachine
