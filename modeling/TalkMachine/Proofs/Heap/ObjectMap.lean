import Mathlib.Logic.Function.Basic
import Mathlib.Data.Nat.Notation
import TalkMachine.Heap.Store
import TalkMachine.Proofs.Outcome

/-!
# Objects without an arena

An `ObjectMap` is what the heap means to its users: for each value that an allocation has answered
there is one object, with a class index, a format, a hash, flags and a body of bytes. Words and
bytes are read from and written into the same body, and a change to one object leaves the others as
they are because it does not speak of them. `Heap.Action` names the operations that both the heap
and an object map can perform.
-/

namespace TalkMachine

/-- An object as its users see it. The body holds the bytes of all slots, the least significant byte
of each word first. -/
structure Object where
  classIndex : ℕ
  format : ObjectFormat
  /-- The number of unused elements in the last word. -/
  unused : ℕ
  hash : ℕ
  flags : HeaderFlags
  body : List UInt8

namespace Object

/-! ### Reading an object -/

/-- The number of slots. -/
def slotCount (o : Object) : ℕ :=
  o.body.length / wordSize

/-- The number of bytes that count, if the body is a string of bytes. -/
def byteCount (o : Object) : ℕ :=
  o.body.length - o.unused

/-- The word in a slot. -/
def word (o : Object) (index : ℕ) : UInt64 :=
  Word.ofBytes ((o.body.drop (wordSize * index)).take wordSize)

/-- The value in a slot of the object called `name`. -/
def fetch (o : Object) (name : Value) (index : ℕ) : Except HeapError Value :=
  if o.slotCount ≤ index then .error (.indexOutOfBounds name index o.slotCount)
  else .ok ⟨o.word index⟩

/-- The bytes of an object whose body is a string of bytes. -/
def bytes (o : Object) (name : Value) : Except HeapError (List UInt8) :=
  if o.format.isBytes then .ok (o.body.take o.byteCount) else .error (.notBytes name)

/-- One byte of an object whose body is a string of bytes. -/
def fetchByte (o : Object) (name : Value) (index : ℕ) : Except HeapError UInt8 := do
  match (← o.bytes name)[index]? with
  | some byte => return byte
  | none => throw (.indexOutOfBounds name index o.byteCount)

/-! ### Changing an object -/

/-- The object with bytes in place of those from `start` on. -/
def overwrite (o : Object) (start : ℕ) (bytes : List UInt8) : Object :=
  { o with body := o.body.take start ++ bytes ++ o.body.drop (start + bytes.length) }

/-- Stores a word into a slot. -/
def storeWord (o : Object) (name : Value) (index : ℕ) (word : UInt64) :
    Except HeapError (Unit × Object) :=
  if o.flags.immutable then .error (.immutable name)
  else if o.slotCount ≤ index then .error (.indexOutOfBounds name index o.slotCount)
  else .ok ((), o.overwrite (wordSize * index) (Word.bytes word))

/-- Stores bytes from `offset` on, as many as there is room for. -/
def storeBytes (o : Object) (name : Value) (offset : ℕ) (bytes : List UInt8) :
    Except HeapError (ℕ × Object) :=
  if o.flags.immutable then .error (.immutable name)
  else if !o.format.isBytes then .error (.notBytes name)
  else
    let fitting := bytes.take (o.byteCount - offset)
    .ok (fitting.length, o.overwrite offset fitting)

/-- Stores one byte. -/
def storeByte (o : Object) (name : Value) (index : ℕ) (byte : UInt8) :
    Except HeapError (Unit × Object) :=
  if o.flags.immutable then .error (.immutable name)
  else if !o.format.isBytes then .error (.notBytes name)
  else if o.byteCount ≤ index then .error (.indexOutOfBounds name index o.byteCount)
  else .ok ((), o.overwrite index [byte])

/-- Replaces the flags. -/
def setFlags (o : Object) (flags : HeaderFlags) : Except HeapError (Unit × Object) :=
  .ok ((), { o with flags := flags })

end Object

/-- The objects that have been allocated, by the value that names each. -/
structure ObjectMap where
  /-- The number of bytes that may be in use. -/
  limit : ℕ
  /-- The number of bytes in use. -/
  used : ℕ
  /-- What fresh pointer slots hold. -/
  nil : Value
  objects : Value → Option Object

/-- A change to an object map that may be refused. -/
abbrev ObjectMapM := EStateM HeapError ObjectMap

namespace ObjectMap

/-- No objects. -/
def new (limit : ℕ) : ObjectMap :=
  ⟨max limit wordSize, wordSize, Value.zero, fun _ => none⟩

/-- Puts an object under a name. -/
def put (s : ObjectMap) (name : Value) (o : Object) : ObjectMap :=
  { s with objects := Function.update s.objects name (some o) }

/-- An object is found under the name it was put under. -/
@[simp] lemma objects_put_self (s : ObjectMap) (name : Value) (o : Object) :
    (s.put name o).objects name = some o := by
  simp [put]

/-- Under other names nothing changes. -/
lemma objects_put_of_ne (s : ObjectMap) {name other : Value} (h : other ≠ name) (o : Object) :
    (s.put name o).objects other = s.objects other := by
  simp [put, Function.update_of_ne h]

/-- What is found after an object was put under a name is that object or was there before. -/
lemma objects_put_cases {s : ObjectMap} {name other : Value} {o p : Object}
    (h : (s.put name o).objects other = some p) :
    (other = name ∧ p = o) ∨ (other ≠ name ∧ s.objects other = some p) := by
  by_cases hother : other = name
  · subst hother
    rw [objects_put_self] at h
    exact Or.inl ⟨rfl, (Option.some.inj h).symm⟩
  · rw [objects_put_of_ne s hother] at h
    exact Or.inr ⟨hother, h⟩

/-- A fresh object, with every word of its body the same. -/
def fresh (fixed indexed : ℕ) (format : ObjectFormat) (classIndex hash : ℕ) (fill : UInt64) :
    Object where
  classIndex := classIndex
  format := format
  unused := format.unusedFor indexed
  hash := hash % Header.hashRange
  flags := .none
  body := (List.range (wordSize * (fixed + format.slotsFor indexed))).map fun k =>
    Word.byte fill (k % wordSize)

/-- Allocates an object. It is named by where it begins behind the bytes in use. -/
def allocate (fixed indexed : ℕ) (format : ObjectFormat) (classIndex : ℕ) (hash : Option ℕ) :
    ObjectMapM Value := fun s =>
  if Header.maxClassIndex < classIndex then .error (.classIndexOutOfRange classIndex) s
  else if !format.admits fixed indexed then .error (.badLayout format fixed indexed) s
  else
    let slots := fixed + format.slotsFor indexed
    let size := wordSize * (Heap.headerWords slots + slots)
    if s.limit < s.used + size then .error (.outOfMemory (min size 0xffff_ffff_ffff_ffff) s.limit) s
    else
      let address := s.used + wordSize * (Heap.headerWords slots - 1)
      let fill := if format.isPointers then s.nil.raw else 0
      let o := fresh fixed indexed format classIndex (hash.getD (Heap.addressHash address)) fill
      .ok (Value.ofAddress address) { s.put (Value.ofAddress address) o with used := s.used + size }

/-- Allocation puts a fresh object under the name it answers, with the hash that was asked for. -/
lemma exists_fresh_of_allocate {fixed indexed : ℕ} {format : ObjectFormat} {classIndex : ℕ}
    {hash : Option ℕ} {s s' : ObjectMap} {name : Value}
    (h : allocate fixed indexed format classIndex hash s = .ok name s') :
    classIndex ≤ Header.maxClassIndex ∧ ∃ address used, s' = { s.put name
      (fresh fixed indexed format classIndex (hash.getD address)
        (if format.isPointers then s.nil.raw else 0)) with used := used } := by
  rw [allocate] at h
  split at h
  · cases h
  rename_i hclass
  split at h
  · cases h
  simp only at h
  split at h
  · cases h
  cases h
  exact ⟨Nat.not_lt.mp hclass, _, _, rfl⟩

/-- Allocation puts a fresh object under the name it answers. -/
lemma exists_of_allocate {fixed indexed : ℕ} {format : ObjectFormat} {classIndex : ℕ}
    {hash : Option ℕ} {s s' : ObjectMap} {name : Value}
    (h : allocate fixed indexed format classIndex hash s = .ok name s') :
    ∃ (hash' : ℕ) (fill : UInt64) (used : ℕ), s' =
      { s.put name (fresh fixed indexed format classIndex hash' fill) with used := used } := by
  obtain ⟨-, address, used, heq⟩ := exists_fresh_of_allocate h
  exact ⟨_, _, used, heq⟩

/-- Allocation that is refused changes nothing. -/
lemma state_eq_of_allocate_error {fixed indexed : ℕ} {format : ObjectFormat} {classIndex : ℕ}
    {hash : Option ℕ} {s s' : ObjectMap} {e : HeapError}
    (h : allocate fixed indexed format classIndex hash s = .error e s') : s' = s := by
  rw [allocate] at h
  split at h
  · cases h
    rfl
  · split at h
    · cases h
      rfl
    · simp only at h
      split at h
      · cases h
        rfl
      · cases h

/-- Changes one object. -/
def change {α : Type} (name : Value) (f : Object → Except HeapError (α × Object)) :
    ObjectMapM α := fun s =>
  match s.objects name with
  | none => .error (.notAnObject name) s
  | some o =>
    match f o with
    | .error e => .error e s
    | .ok (a, o') => .ok a (s.put name o')

/-- Allocates an object that holds these bytes. -/
def allocateBytes (contents : List UInt8) (format : ObjectFormat) (classIndex : ℕ) :
    ObjectMapM Value := do
  let name ← allocate 0 contents.length format classIndex none
  let _ ← change name fun o => o.storeBytes name 0 contents
  return name

end ObjectMap

/-! ### Operations of both -/

namespace Heap

/-- The operations that change a heap. -/
inductive Action
  | allocate (fixed indexed : ℕ) (format : ObjectFormat) (classIndex : ℕ) (hash : Option ℕ)
  | allocateBytes (contents : List UInt8) (format : ObjectFormat) (classIndex : ℕ)
  | store (object : Value) (index : ℕ) (value : Value)
  | storeWord (object : Value) (index : ℕ) (word : UInt64)
  | storeByte (object : Value) (index : ℕ) (byte : UInt8)
  | storeBytes (object : Value) (offset : ℕ) (bytes : List UInt8)
  | setFlags (object : Value) (flags : HeaderFlags)
  | setNil (nil : Value)

/-- What an operation answers. -/
inductive Answer
  | done
  /-- The object that was allocated. -/
  | object (object : Value)
  /-- The number of bytes that were stored. -/
  | count (count : ℕ)

namespace Action

/-- The object that an operation is about, if it is about one. -/
def target? : Action → Option Value
  | store object _ _ | storeWord object _ _ | storeByte object _ _ | storeBytes object _ _
  | setFlags object _ => some object
  | _ => none

/-- Whether an operation stores into an object. -/
def StoresInto (name : Value) : Action → Prop
  | store object _ _ | storeWord object _ _ | storeByte object _ _ | storeBytes object _ _ =>
    object = name
  | _ => False

/-- An operation on the heap. -/
def onHeap : Action → HeapM Answer
  | allocate fixed indexed format classIndex hash =>
    .object <$> Heap.allocate fixed indexed format classIndex hash
  | allocateBytes contents format classIndex =>
    .object <$> Heap.allocateBytes contents format classIndex
  | store object index value => (fun _ => .done) <$> Heap.store object index value
  | storeWord object index word => (fun _ => .done) <$> Heap.storeWord object index word
  | storeByte object index byte => (fun _ => .done) <$> Heap.storeByte object index byte
  | storeBytes object offset bytes => .count <$> Heap.storeBytes object offset bytes
  | setFlags object flags => (fun _ => .done) <$> Heap.setFlags object flags
  | setNil nil => (fun _ => .done) <$> Heap.setNil nil

/-- The same operation on an object map. -/
def onMap : Action → ObjectMapM Answer
  | allocate fixed indexed format classIndex hash =>
    .object <$> ObjectMap.allocate fixed indexed format classIndex hash
  | allocateBytes contents format classIndex =>
    .object <$> ObjectMap.allocateBytes contents format classIndex
  | store object index value =>
    (fun _ => .done) <$> ObjectMap.change object fun o => o.storeWord object index value.raw
  | storeWord object index word =>
    (fun _ => .done) <$> ObjectMap.change object fun o => o.storeWord object index word
  | storeByte object index byte =>
    (fun _ => .done) <$> ObjectMap.change object fun o => o.storeByte object index byte
  | storeBytes object offset bytes =>
    .count <$> ObjectMap.change object fun o => o.storeBytes object offset bytes
  | setFlags object flags =>
    (fun _ => .done) <$> ObjectMap.change object fun o => o.setFlags flags
  | setNil nil => fun s => .ok .done { s with nil := nil }

end Action

end Heap

end TalkMachine
