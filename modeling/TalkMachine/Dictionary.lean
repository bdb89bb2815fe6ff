import TalkMachine.Heap.Store
import TalkMachine.Machine.ClassIndex
import TalkMachine.Machine.Error

/-!
# Method dictionaries

A method dictionary is an object with three slots: the number of its entries, an array of keys, and
an array of values beside it. Keys that are not in use are nil. A key is looked for from the slot
that its identity hash names, on from slot to slot and round the end, until it or a nil is met.
Entries are never removed; a full table makes place for a new key by growing.
-/

namespace TalkMachine

/-- A change to dictionaries on the heap. -/
abbrev DictionaryM := EStateM MachineError Heap

namespace Dictionary

/-- Slot of the number of entries. -/
def tallySlot : Nat := 0
/-- Slot of the array of keys. -/
def keysSlot : Nat := 1
/-- Slot of the array of values. -/
def valuesSlot : Nat := 2
/-- Slots of a dictionary. -/
def slotCount : Nat := 3

/-- The least number of places a table has once it has grown. -/
def minCapacity : Nat := 16

/-- A change to the heap as one to dictionaries. -/
def change {α : Type} (x : HeapM α) : DictionaryM α :=
  x.adaptExcept MachineError.heap

/-- Asks the heap about dictionaries. -/
def ask {α : Type} (question : Heap → Except MachineError α) : DictionaryM α := fun h =>
  match question h with
  | .ok a => .ok a h
  | .error e => .error e h

/-! ### Reading -/

/-- The array of keys. -/
def keys (h : Heap) (dictionary : Value) : Except MachineError Value :=
  Except.ofHeap (h.fetch dictionary keysSlot)

/-- The array of values. -/
def values (h : Heap) (dictionary : Value) : Except MachineError Value :=
  Except.ofHeap (h.fetch dictionary valuesSlot)

/-- The number of entries, as an unsigned word. -/
def tally (h : Heap) (dictionary : Value) : Except MachineError Nat := do
  let tally ← Except.ofHeap (h.fetch dictionary tallySlot)
  match tally.toInt? with
  | some n => return (n % 0x1_0000_0000_0000_0000).toNat
  | none => throw (.wrongType "SmallInteger" tally)

/-- The number of places in the table. -/
def capacity (h : Heap) (dictionary : Value) : Except MachineError Nat := do
  Except.ofHeap (h.elementCount (← keys h dictionary))

/-- Looks at `steps` places from `place` on, round the end of the table, for `key` or a nil. -/
def probe (h : Heap) (keys key : Value) (capacity : Nat) :
    (steps place : Nat) → Except HeapError (Option Nat)
  | 0, _ => .ok none
  | steps + 1, place => do
    let found ← h.fetch keys place
    if found = key ∨ found = h.nil then return some place
    probe h keys key capacity steps (if place + 1 = capacity then 0 else place + 1)

/-- The place of a key in an array of keys, or the first free place on its way. There is none if the
array is full of other keys. -/
def findPlaceIn (h : Heap) (keys key : Value) : Except MachineError (Option Nat) :=
  Except.ofHeap do
    let capacity ← h.elementCount keys
    if capacity = 0 then return none
    let hash ← h.identityHashOf key
    probe h keys key capacity capacity (hash % capacity)

/-- The place of a key, or the first free place on its way. -/
def findPlace (h : Heap) (dictionary key : Value) : Except MachineError (Option Nat) := do
  findPlaceIn h (← keys h dictionary) key

/-- The value of a key. -/
def find? (h : Heap) (dictionary key : Value) : Except MachineError (Option Value) := do
  match ← findPlace h dictionary key with
  | none => return none
  | some place =>
    let found ← Except.ofHeap (h.fetch (← keys h dictionary) place)
    if found = key then
      return some (← Except.ofHeap (h.fetch (← values h dictionary) place))
    else return none

/-- The entry at a place, unless the place is free. -/
def entryAt (h : Heap) (keys values : Value) (place : Nat) :
    Except HeapError (Option (Value × Value)) := do
  let key ← h.fetch keys place
  if key = h.nil then return none
  return some (key, ← h.fetch values place)

/-- Keys and their values, in the order of their places. -/
def entries (h : Heap) (dictionary : Value) : Except MachineError (List (Value × Value)) := do
  let keys ← keys h dictionary
  let values ← values h dictionary
  Except.ofHeap do
    return (← (List.range (← h.elementCount keys)).mapM (entryAt h keys values)).filterMap id

/-! ### Changing -/

/-- Allocates an array of nils. -/
def newArray (size : Nat) : DictionaryM Value :=
  change (Heap.allocate 0 size .variableSize ClassIndex.array)

/-- Allocates an empty dictionary with so many places. -/
def new (capacity : Nat) : DictionaryM Value := do
  let dictionary ← change (Heap.allocate slotCount 0 .fixedSize ClassIndex.methodDictionary)
  let keys ← newArray capacity
  let values ← newArray capacity
  change do
    Heap.store dictionary tallySlot (Value.ofInt 0)
    Heap.store dictionary keysSlot keys
    Heap.store dictionary valuesSlot values
  return dictionary

/-- The place that there must be for a key. -/
def requirePlace : Option Nat → Except MachineError Nat
  | some place => .ok place
  | none => .error (.unrepresentable "method dictionary slot")

/-- Puts entries into an array of keys and one of values. -/
def fill (keys values : Value) : List (Value × Value) → DictionaryM Unit
  | [] => pure ()
  | (key, value) :: rest => do
    let place ← ask (fun h => findPlaceIn h keys key >>= requirePlace)
    change (Heap.store keys place key)
    change (Heap.store values place value)
    fill keys values rest

/-- Moves the entries of a dictionary to a table of twice the capacity, at least `minCapacity`. -/
def grow (dictionary : Value) : DictionaryM Unit := do
  let old ← ask (fun h => capacity h dictionary)
  let entries ← ask (fun h => entries h dictionary)
  let keys ← newArray (max minCapacity (2 * old))
  let values ← newArray (max minCapacity (2 * old))
  fill keys values entries
  change (Heap.store dictionary keysSlot keys)
  change (Heap.store dictionary valuesSlot values)

/-- The place to put a key in, after growing if there was none. -/
def placeFor (dictionary key : Value) : DictionaryM Nat := do
  match ← ask (fun h => findPlace h dictionary key) with
  | some place => return place
  | none =>
    grow dictionary
    ask (fun h => findPlace h dictionary key >>= requirePlace)

/-- Sets the value of a key. -/
def insert (dictionary key value : Value) : DictionaryM Unit := do
  let place ← placeFor dictionary key
  let keys ← ask (fun h => keys h dictionary)
  let values ← ask (fun h => values h dictionary)
  let isFree ← ask (fun h => do return (← Except.ofHeap (h.fetch keys place)) == h.nil)
  if isFree then
    let tally ← ask (fun h => tally h dictionary)
    change (Heap.store dictionary tallySlot (Value.ofInt (tally + 1)))
  change (Heap.store keys place key)
  change (Heap.store values place value)

end Dictionary

end TalkMachine
