import TalkMachine.Proofs.Heap.Refusals
import TalkMachine.Proofs.Machine.Founding
import TalkMachine.Proofs.Machine.Provision
import TalkMachine.Proofs.Native.Table
import TalkMachine.Proofs.Value

/-!
# Elements by index

The native methods that read and write an element by its index, counted from one, are those of
arrays, those of strings, and those that reach the fields of any object. `Indexed` treats the three
together: an element is a range of bytes of the body (`Indexed.Occupies`), reading answers what
these bytes show (`Indexed.fetch_eq`), and a store writes these bytes and no others
(`Indexed.byteAt_written`). No two elements share a byte, and none reaches into a header, the unused
end of a body or another object (`Indexed.not_occupies`, `Indexed.mem_body_of_occupies`), whatever
the machine has been through (`Machine.ArisesWith.serves`).
-/

namespace TalkMachine

open Machine

/-! ### Machines that arise with their objects -/

/-- The machines that arise from a fresh one, each with the objects that have been allocated: by
operations on the heap that are about one of these objects or about none, also when they are refused,
and by anything that leaves the heap alone. -/
inductive Machine.ArisesWith (limit : ℕ) : Machine → ObjectMap → Prop
  | new {m : Machine} {s : ObjectMap} (hnew : Machine.new limit = .ok m) (founded : m.Founded s) :
    ArisesWith limit m s
  | onHeap {m : Machine} {s : ObjectMap} (arises : ArisesWith limit m s) (action : Heap.Action)
      (htarget : ∀ name ∈ action.target?, ∃ o, s.objects name = some o) :
    ArisesWith limit (m.withHeap (stateAfter (action.onHeap m.heap))) (stateAfter (action.onMap s))
  | beside {m m' : Machine} {s : ObjectMap} (arises : ArisesWith limit m s)
      (heap_eq : m'.heap = m.heap) : ArisesWith limit m' s

variable {limit : ℕ} {m m' : Machine} {s : ObjectMap} {name index value answer : Value} {o : Object}
  {i : ℤ} {h h' : Heap}

/-- The heap of a machine that arises represents the objects it arises with. -/
theorem Machine.ArisesWith.represents (arises : m.ArisesWith limit s) : m.heap.Represents s := by
  induction arises with
  | new _ founded => exact founded.based.rep
  | onHeap _ action htarget ih => exact (Heap.agree_action ih action htarget).outcome_eq.2
  | beside _ heap_eq ih => exact heap_eq ▸ ih

/-- A fresh object arises under the name that allocation answers. -/
lemma Machine.ArisesWith.exists_of_allocate (arises : m.ArisesWith limit s) {fixed indexed : ℕ}
    {format : ObjectFormat} {classIndex : ℕ} {hash : Option ℕ}
    (hok : Heap.allocate fixed indexed format classIndex hash m.heap = .ok name h') :
    ∃ s', (m.withHeap h').ArisesWith limit s' ∧ ∃ o, s'.objects name = some o ∧
      o.classIndex = classIndex ∧ o.format = format ∧
      o.slotCount = fixed + format.slotsFor indexed ∧ o.flags.immutable = false := by
  have hagree := (Heap.agree_allocate arises.represents fixed indexed format classIndex hash).1
  have arises' := arises.onHeap (.allocate fixed indexed format classIndex hash)
    (by simp [Heap.Action.target?])
  simp only [Heap.Action.onHeap, Heap.Action.onMap, stateAfter_map, hok] at arises'
  cases hmap : ObjectMap.allocate fixed indexed format classIndex hash s with
  | error e s' =>
    rw [hok, hmap] at hagree
    exact hagree.elim
  | ok other s' =>
    rw [hok, hmap] at hagree
    rw [hmap] at arises'
    obtain ⟨rfl, -⟩ := hagree
    obtain ⟨hash', fill, used, rfl⟩ := ObjectMap.exists_of_allocate hmap
    exact ⟨_, arises', _, ObjectMap.objects_put_self s name _, rfl, rfl,
      Heap.slotCount_fresh .., rfl⟩

/-! ### Elements -/

/-- The families of native methods that reach elements by their index. -/
inductive Indexed
  | array
  | string
  | fields

namespace Indexed

/-- The objects that a family is for: arrays, objects of bytes, and objects of pointers. -/
def Suits (o : Object) : Indexed → Prop
  | array => o.classIndex = ClassIndex.array ∧ o.format = .variableSize
  | string => o.format = .indexable8
  | fields => o.format.isPointers = true

/-- The number of elements. -/
def count (o : Object) : Indexed → ℕ
  | string => o.byteCount
  | array | fields => o.slotCount

/-- The number of bytes of an element. -/
def width : Indexed → ℕ
  | string => 1
  | array | fields => 8

/-- The address of the element at an index. -/
def place (natives : Indexed) (name : Value) (i : ℤ) : ℕ :=
  name.raw.toNat + 8 + natives.width * (i - 1).toNat

/-- Whether a byte of the heap belongs to the element at an index. -/
def Occupies (natives : Indexed) (name : Value) (i : ℤ) (b : ℕ) : Prop :=
  natives.place name i ≤ b ∧ b < natives.place name i + natives.width

/-- What the bytes of an element are shown as. -/
def shown (h : Heap) (address : ℕ) : Indexed → Value
  | string => .ofCodePoint (h.byteAt address).toUInt32
  | array | fields => ⟨h.wordAt address⟩

/-- Whether a value can be an element. -/
def Accepts (value : Value) : Indexed → Prop
  | string => ∃ c, value.toChar? = some c ∧ c.toNat ≤ 255
  | array | fields => True

/-- What is read of a value that was stored. -/
def kept (value : Value) : Indexed → Value
  | string => .ofCodePoint value.codePayload
  | array | fields => value

/-- The heap with the bytes of an element replaced. -/
def written (h : Heap) (address : ℕ) (value : Value) : Indexed → Heap
  | string => h.writeByte address value.codePayload.toUInt8
  | array | fields => h.writeWord address value.raw

/-- The store on the heap that puts a value in place of an element. -/
def action (name : Value) (i : ℤ) (value : Value) : Indexed → Heap.Action
  | string => .storeByte name (i - 1).toNat value.codePayload.toUInt8
  | array | fields => .store name (i - 1).toNat value

/-- Reads the element at an index. -/
def fetch (name index : Value) : Indexed → MachineM Value
  | array => ArrayNative.fetch.call name [index]
  | string => StringNative.fetch.call name [index]
  | fields => ObjectNative.instVarAt.call name [index]

/-- Puts a value in place of the element at an index. -/
def store (name index value : Value) : Indexed → MachineM Value
  | array => ArrayNative.store.call name [index, value]
  | string => StringNative.store.call name [index, value]
  | fields => ObjectNative.instVarAtPut.call name [index, value]

/-- Answers the number of elements. There is no native method for the number of fields. -/
def size? (name : Value) : Indexed → Option (MachineM Value)
  | array => some (ArrayNative.size.call name [])
  | string => some (StringNative.size.call name [])
  | fields => none

/-! ### Where elements are -/

variable {natives natives' : Indexed}

/-- In an object of pointers all bytes of the body count. -/
lemma byteCount_of_isPointers (hwell : o.WellFormed) (hpointers : o.format.isPointers = true) :
    o.byteCount = 8 * o.slotCount := by
  have hdivisor : o.format.divisor = 1 := by
    revert hpointers
    cases o.format <;> decide
  have hunused := hwell.unused_lt
  have hlength := hwell.length_eq
  rw [Object.byteCount]
  omega

/-- The elements of an object are all bytes that count. -/
lemma Suits.width_mul_count (hwell : o.WellFormed) (suits : natives.Suits o) :
    natives.width * natives.count o = o.byteCount := by
  cases natives with
  | array => exact (byteCount_of_isPointers hwell (suits.2 ▸ rfl)).symm
  | string => exact Nat.one_mul _
  | fields => exact (byteCount_of_isPointers hwell suits).symm

/-- An element lies behind the header and before the unused end of the body. -/
lemma mem_body_of_occupies (hwell : o.WellFormed) (suits : natives.Suits o)
    (hi : 1 ≤ i ∧ i ≤ natives.count o) {b : ℕ} (hb : natives.Occupies name i b) :
    name.raw.toNat + 8 ≤ b ∧ b < name.raw.toNat + 8 + o.byteCount := by
  have hcount := suits.width_mul_count hwell
  obtain ⟨hstart, hend⟩ := hb
  unfold place at hstart hend
  cases natives <;> simp only [width] at hcount hstart hend <;> omega

/-- So it lies within the object. -/
lemma covers_of_occupies (hwell : o.WellFormed) (suits : natives.Suits o)
    (hi : 1 ≤ i ∧ i ≤ natives.count o) {b : ℕ} (hb : natives.Occupies name i b) :
    o.Covers name.raw.toNat b := by
  obtain ⟨hstart, hend⟩ := mem_body_of_occupies hwell suits hi hb
  have hcount : o.byteCount ≤ o.body.length := Nat.sub_le _ _
  exact ⟨by omega, by omega⟩

/-- The elements of an object are equally wide in all families for it. -/
lemma Suits.width_eq (suits : natives.Suits o) (suits' : natives'.Suits o) :
    natives'.width = natives.width := by
  cases natives <;> cases natives' <;> simp_all [Suits, width, ObjectFormat.isPointers]

/-- No two elements share a byte. -/
lemma not_occupies (rep : h.Represents s) (ho : s.objects name = some o) (suits : natives.Suits o)
    (hi : 1 ≤ i ∧ i ≤ natives.count o) {name' : Value} {o' : Object} {i' : ℤ}
    (ho' : s.objects name' = some o') (suits' : natives'.Suits o')
    (hi' : 1 ≤ i' ∧ i' ≤ natives'.count o') (hne : ¬(name' = name ∧ i' = i)) {b : ℕ}
    (hb : natives'.Occupies name' i' b) : ¬natives.Occupies name i b := by
  by_cases hname : name' = name
  · subst hname
    obtain rfl : o' = o := Option.some.inj (ho'.symm.trans ho)
    have hwidth := suits.width_eq suits'
    have hindex : i' ≠ i := fun heq => hne ⟨rfl, heq⟩
    unfold Occupies place at hb ⊢
    rw [hwidth] at hb
    cases natives <;> simp only [width] at hb ⊢ <;> omega
  · intro hb'
    exact rep.disjoint ho' ho hname b (covers_of_occupies (rep.holds ho').wellFormed suits' hi' hb)
      (covers_of_occupies (rep.holds ho).wellFormed suits hi hb')

/-! ### Bytes that are written -/

/-- The code point of a character is the bits above its tag. -/
lemma toNat_codePayload_of_toChar? {c : Char} (hc : value.toChar? = some c) :
    value.codePayload.toNat = c.toNat := by
  rw [Value.toChar?, Option.bind_eq_some_iff] at hc
  obtain ⟨code, hcode, hscalar⟩ := hc
  obtain ⟨-, hpayload⟩ := Option.ite_none_right_eq_some.mp hcode
  obtain rfl := Option.some.inj hpayload
  exact Value.scalar?_eq_some_iff.mp hscalar

/-- The byte of a character. -/
lemma toUInt8_codePayload_of_toChar? {c : Char} (hc : value.toChar? = some c) :
    value.codePayload.toUInt8 = UInt8.ofNat c.toNat := by
  rw [← toNat_codePayload_of_toChar? hc, ← UInt8.toNat_inj, UInt32.toNat_toUInt8, UInt8.toNat_ofNat']

/-- An element lies among the bytes in use. -/
lemma place_lt (hold : h.Holds name.raw.toNat o) (suits : natives.Suits o)
    (hi : 1 ≤ i ∧ i ≤ natives.count o) : natives.place name i < h.usedBytes := by
  have hwidth : 0 < natives.width := by cases natives <;> decide
  have hcount : o.byteCount ≤ o.body.length := Nat.sub_le _ _
  have hfits := hold.fits
  have hfirst : natives.Occupies name i (natives.place name i) :=
    ⟨le_rfl, Nat.lt_add_of_pos_right hwidth⟩
  obtain ⟨-, hend⟩ := mem_body_of_occupies hold.wellFormed suits hi hfirst
  omega

/-- An element of the width of a word is aligned. -/
lemma place_mod (hold : h.Holds name.raw.toNat o) (hwidth : natives.width = 8) :
    natives.place name i % 8 = 0 := by
  have haligned := hold.aligned
  rw [place, hwidth]
  omega

/-- What an element is shown as depends on its bytes only. -/
lemma shown_congr (hold : h.Holds name.raw.toNat o)
    (heq : ∀ b, natives.Occupies name i b → h'.byteAt b = h.byteAt b) :
    natives.shown h' (natives.place name i) = natives.shown h (natives.place name i) := by
  cases natives with
  | string =>
    rw [shown, shown, heq _ ⟨le_rfl, Nat.lt_succ_self _⟩]
  | array | fields =>
    rw [shown, shown]
    exact congrArg Value.mk (Heap.wordAt_congr (place_mod hold rfl) fun k hk =>
      heq _ ⟨Nat.le_add_right _ _, Nat.add_lt_add_left hk _⟩)

/-- A store writes the bytes of its element and no others. -/
lemma byteAt_written (hold : h.Holds name.raw.toNat o) (suits : natives.Suits o)
    (hi : 1 ≤ i ∧ i ≤ natives.count o) {b : ℕ} (hb : ¬natives.Occupies name i b) :
    (natives.written h (natives.place name i) value).byteAt b = h.byteAt b := by
  have hlt := place_lt hold suits hi
  have haligned (hwidth : natives.width = 8) := place_mod (i := i) hold hwidth
  cases natives with
  | string =>
    rw [written, Heap.byteAt_writeByte hlt, if_neg]
    rintro rfl
    exact hb ⟨le_rfl, Nat.lt_succ_self _⟩
  | array | fields =>
    have hmod := haligned rfl
    rw [written, Heap.byteAt_writeWord hlt, if_neg]
    intro hword
    exact hb ⟨by omega, by simp only [width]; omega⟩

/-- A store leaves as many bytes in use. -/
lemma usedBytes_written (h : Heap) (address : ℕ) (value : Value) :
    (natives.written h address value).usedBytes = h.usedBytes := by
  cases natives with
  | string => exact Heap.usedBytes_writeByte h address _
  | array | fields => exact Heap.usedBytes_writeWord h address _

/-- What was stored is read. -/
lemma shown_written (hold : h.Holds name.raw.toNat o) (suits : natives.Suits o)
    (hi : 1 ≤ i ∧ i ≤ natives.count o) (haccepts : natives.Accepts value) :
    natives.shown (natives.written h (natives.place name i) value) (natives.place name i) =
      natives.kept value := by
  have hlt := place_lt hold suits hi
  have haligned (hwidth : natives.width = 8) := place_mod (i := i) hold hwidth
  cases natives with
  | string =>
    obtain ⟨c, hc, hcode⟩ := haccepts
    have hpayload := toNat_codePayload_of_toChar? hc
    rw [shown, written, kept, Heap.byteAt_writeByte hlt, if_pos rfl]
    congr 1
    rw [← UInt32.toNat_inj, UInt8.toNat_toUInt32, UInt32.toNat_toUInt8]
    omega
  | array | fields =>
    have hmod := haligned rfl
    rw [shown, written, kept]
    refine congrArg Value.mk (Word.ext_byte fun k hk => ?_)
    rw [← Heap.byteAt_add _ hmod hk, Heap.byteAt_writeWord hlt, if_pos (by omega)]
    congr 1
    omega

/-! ### Numbers of elements -/

/-- An array has as many elements as slots. -/
lemma arraySize_eq (rep : m.heap.Represents s) (ho : s.objects name = some o)
    (suits : array.Suits o) : arraySize m name = .ok o.slotCount := by
  have hold := rep.holds ho
  have hshows := hold.shows rep.usedBytes_lt
  have hpointers : o.format.isPointers = true := suits.2 ▸ rfl
  simp only [arraySize, hshows.classIndex, hold.elementCount_eq rep.usedBytes_lt, suits.1, hpointers,
    Except.ofHeap, bind, Except.bind, ne_eq, not_true_eq_false, if_true, if_false]

/-- A string has as many elements as bytes that count. -/
lemma stringSize_eq (rep : m.heap.Represents s) (ho : s.objects name = some o)
    (suits : string.Suits o) : stringSize m name = .ok o.byteCount := by
  have hold := rep.holds ho
  have hshows := hold.shows rep.usedBytes_lt
  have hbytes : o.format.isBytes = true := suits ▸ rfl
  simp only [stringSize, expectFormat, hshows.format, hold.byteSize_eq rep.usedBytes_lt, hbytes,
    Except.ofHeap, bind, Except.bind, if_true]

/-- An object of pointers has as many fields as slots. -/
lemma fieldPosition_eq (rep : m.heap.Represents s) (ho : s.objects name = some o)
    (suits : fields.Suits o) (i : ℤ) : fieldPosition m name i = checkedIndex name i o.slotCount := by
  have hold := rep.holds ho
  have hshows := hold.shows rep.usedBytes_lt
  have hpointers : o.format.isPointers = true := suits
  simp only [fieldPosition, expectFormat, hshows.format, hshows.slotCount, hpointers,
    Except.ofHeap, bind, Except.bind, if_true]

/-! ### Reading -/

/-- The value in a slot of an object that lies in the arena is its word. -/
lemma fetch_of_lt (hold : h.Holds name.raw.toNat o) (hused : h.usedBytes < 2 ^ 64) {k : ℕ}
    (hk : k < o.slotCount) : h.fetch name k = .ok ⟨h.wordAt (name.raw.toNat + 8 + 8 * k)⟩ := by
  rw [hold.fetch_eq hused, Object.fetch, if_neg (Nat.not_le.mpr hk), Nat.mul_comm 8,
    hold.wordAt_eq hk]

/-- One byte of an object that lies in the arena. -/
lemma fetchByte_of_lt (hold : h.Holds name.raw.toNat o) (hused : h.usedBytes < 2 ^ 64)
    (hbytes : o.format.isBytes = true) {k : ℕ} (hk : k < o.byteCount) :
    h.fetchByte name k = .ok (h.byteAt (name.raw.toNat + 8 + k)) := by
  simp only [Heap.fetchByte, hold.byteSize_eq hused, hbytes, if_true, bind, Except.bind,
    if_neg (Nat.not_le.mpr hk), Heap.firstField, hold.addressOf_eq]
  rfl

/-- Reading answers what the bytes of an element show, and changes nothing. -/
lemma fetch_of_mem (rep : m.heap.Represents s) (ho : s.objects name = some o)
    (suits : natives.Suits o) (hindex : index.toInt? = some i) (hi : 1 ≤ i ∧ i ≤ natives.count o) :
    natives.fetch name index m = .ok (natives.shown m.heap (natives.place name i)) m := by
  have hold := rep.holds ho
  have hinteger : toInteger index = .ok i := expected_eq_ok_iff.mpr hindex
  have hposition : checkedIndex name i (natives.count o) = .ok (i - 1).toNat :=
    checkedIndex_eq_ok_iff.mpr ⟨hi, rfl⟩
  cases natives with
  | array =>
    simp only [count] at hi hposition
    have hword := fetch_of_lt hold rep.usedBytes_lt (k := (i - 1).toNat) (by omega)
    rw [fetch, ArrayNative.call]
    refine run_ask_of_ok ?_
    simp only [argument, List.getElem?_cons_zero, hinteger, arraySize_eq rep ho suits, hposition,
      hword, Except.ofHeap, bind, Except.bind, shown, place, width]
  | string =>
    simp only [count] at hi hposition
    have hbyte := fetchByte_of_lt hold rep.usedBytes_lt (suits ▸ rfl) (k := (i - 1).toNat) (by omega)
    rw [fetch, StringNative.call]
    refine run_ask_of_ok ?_
    simp only [argument, List.getElem?_cons_zero, hinteger, stringSize_eq rep ho suits, hposition,
      hbyte, Except.ofHeap, bind, Except.bind, shown, place, width, Nat.one_mul]
    rfl
  | fields =>
    simp only [count] at hi hposition
    have hword := fetch_of_lt hold rep.usedBytes_lt (k := (i - 1).toNat) (by omega)
    rw [fetch, ObjectNative.call]
    refine run_ask_of_ok ?_
    simp only [argument, List.getElem?_cons_zero, hinteger, fieldPosition_eq rep ho suits, hposition,
      hword, Except.ofHeap, bind, Except.bind, shown, place, width]

/-- Without an element at the index reading is refused, and changes nothing. -/
lemma fetch_of_not_mem (rep : m.heap.Represents s) (ho : s.objects name = some o)
    (suits : natives.Suits o) (hindex : index.toInt? = some i)
    (hi : ¬(1 ≤ i ∧ i ≤ natives.count o)) : natives.fetch name index m =
      .error (.heap (.indexOutOfBounds name i.toNat (natives.count o))) m := by
  have hinteger : toInteger index = .ok i := expected_eq_ok_iff.mpr hindex
  have hposition : checkedIndex name i (natives.count o) =
      .error (.heap (.indexOutOfBounds name i.toNat (natives.count o))) := if_neg hi
  cases natives with
  | array =>
    simp only [count] at hposition ⊢
    rw [fetch, ArrayNative.call]
    refine run_ask_of_error ?_
    simp only [argument, List.getElem?_cons_zero, hinteger, arraySize_eq rep ho suits, hposition,
      bind, Except.bind]
  | string =>
    simp only [count] at hposition ⊢
    rw [fetch, StringNative.call]
    refine run_ask_of_error ?_
    simp only [argument, List.getElem?_cons_zero, hinteger, stringSize_eq rep ho suits, hposition,
      bind, Except.bind]
  | fields =>
    simp only [count] at hposition ⊢
    rw [fetch, ObjectNative.call]
    refine run_ask_of_error ?_
    simp only [argument, List.getElem?_cons_zero, hinteger, fieldPosition_eq rep ho suits, hposition,
      bind, Except.bind]

/-! ### Storing -/

/-- A value is stored into a slot just when the object is mutable. -/
lemma heapStore_eq_ok_iff (rep : h.Represents s) (ho : s.objects name = some o) {k : ℕ}
    (hk : k < o.slotCount) : Heap.store name k value h = .ok () h' ↔ o.flags.immutable = false ∧
      h' = h.writeWord (name.raw.toNat + 8 + 8 * k) value.raw := by
  have hold := rep.holds ho
  have haddress : h.storeAddress name k =
      if o.flags.immutable then .error (.immutable name) else .ok (name.raw.toNat + 8 + 8 * k) := by
    rw [Heap.storeAddress, (hold.shows rep.usedBytes_lt).immutable,
      hold.slotAddress_eq rep.usedBytes_lt, if_neg (Nat.not_le.mpr hk), Nat.mul_comm 8]
    cases o.flags.immutable <;> rfl
  rw [Heap.store, haddress]
  cases o.flags.immutable <;> simp [eq_comm]

/-- A byte is stored just when the object is mutable. -/
lemma heapStoreByte_eq_ok_iff (rep : h.Represents s) (ho : s.objects name = some o)
    (hbytes : o.format.isBytes = true) {k : ℕ} (hk : k < o.byteCount) {byte : UInt8} :
    Heap.storeByte name k byte h = .ok () h' ↔ o.flags.immutable = false ∧
      h' = h.writeByte (name.raw.toNat + 8 + k) byte := by
  rw [Heap.storeByte, Heap.storeBytesRange_eq rep ho, hbytes]
  cases o.flags.immutable <;> simp [Nat.not_le.mpr hk, eq_comm]

/-- A store is the store of the element on the heap, if there is one at the index and the value can be
an element. It answers the value. -/
lemma store_eq_ok_iff (rep : m.heap.Represents s) (ho : s.objects name = some o)
    (suits : natives.Suits o) (hindex : index.toInt? = some i) :
    natives.store name index value m = .ok answer m' ↔
      (1 ≤ i ∧ i ≤ natives.count o) ∧ natives.Accepts value ∧ answer = value ∧
        ∃ h', (natives.action name i value).onHeap m.heap = .ok .done h' ∧ m' = m.withHeap h' := by
  cases natives with
  | array =>
    simp only [store, ArrayNative.call, action, Heap.Action.onHeap, run_map_const_eq_ok_iff,
      run_bind_eq_ok_iff, ask_eq_ok_iff, change_eq_ok_iff, bind_eq_ok_iff, argument_eq_ok_iff,
      toInteger, expected_eq_ok_iff, checkedIndex_eq_ok_iff, arraySize_eq rep ho suits, Accepts,
      count]
    constructor
    · rintro ⟨_, _, ⟨⟨_, ⟨⟩, j, hj, _, ⟨⟩, _, ⟨⟩, _, ⟨hi, rfl⟩, ⟨⟩⟩, rfl⟩, _, _, ⟨h', hok, rfl⟩, ⟨⟩⟩
      obtain rfl : j = i := Option.some.inj (hj.symm.trans hindex)
      exact ⟨hi, trivial, rfl, h', ⟨trivial, hok⟩, rfl⟩
    · rintro ⟨hi, -, rfl, h', ⟨-, hok⟩, rfl⟩
      exact ⟨_, _, ⟨⟨_, rfl, i, hindex, _, rfl, _, rfl, _, ⟨hi, rfl⟩, rfl⟩, rfl⟩, _, _, ⟨h', hok, rfl⟩,
        rfl⟩
  | string =>
    simp only [store, StringNative.call, action, Heap.Action.onHeap, run_map_const_eq_ok_iff,
      run_bind_eq_ok_iff, ask_eq_ok_iff, change_eq_ok_iff, bind_eq_ok_iff, guard_eq_ok_iff,
      argument_eq_ok_iff, toInteger, toCharacter, expected_eq_ok_iff, checkedIndex_eq_ok_iff,
      stringSize_eq rep ho suits, Accepts, count]
    constructor
    · rintro ⟨_, _, ⟨⟨_, ⟨⟩, j, hj, _, ⟨⟩, c, hc, hcode, _, ⟨⟩, _, ⟨hi, rfl⟩, ⟨⟩⟩, rfl⟩, _, _,
        ⟨h', hok, rfl⟩, ⟨⟩⟩
      obtain rfl : j = i := Option.some.inj (hj.symm.trans hindex)
      rw [← toUInt8_codePayload_of_toChar? hc] at hok
      exact ⟨hi, ⟨c, hc, Nat.not_lt.mp hcode⟩, rfl, h', ⟨trivial, hok⟩, rfl⟩
    · rintro ⟨hi, ⟨c, hc, hcode⟩, rfl, h', ⟨-, hok⟩, rfl⟩
      rw [toUInt8_codePayload_of_toChar? hc] at hok
      exact ⟨_, _, ⟨⟨_, rfl, i, hindex, _, rfl, c, hc, Nat.not_lt.mpr hcode, _, rfl, _, ⟨hi, rfl⟩, rfl⟩,
        rfl⟩, _, _, ⟨h', hok, rfl⟩, rfl⟩
  | fields =>
    simp only [store, ObjectNative.call, action, Heap.Action.onHeap, run_map_const_eq_ok_iff,
      run_bind_eq_ok_iff, ask_eq_ok_iff, change_eq_ok_iff, bind_eq_ok_iff, argument_eq_ok_iff,
      toInteger, expected_eq_ok_iff, checkedIndex_eq_ok_iff, fieldPosition_eq rep ho suits, Accepts,
      count]
    constructor
    · rintro ⟨_, _, ⟨⟨_, ⟨⟩, j, hj, _, ⟨⟩, _, ⟨hi, rfl⟩, ⟨⟩⟩, rfl⟩, _, _, ⟨h', hok, rfl⟩, ⟨⟩⟩
      obtain rfl : j = i := Option.some.inj (hj.symm.trans hindex)
      exact ⟨hi, trivial, rfl, h', ⟨trivial, hok⟩, rfl⟩
    · rintro ⟨hi, -, rfl, h', ⟨-, hok⟩, rfl⟩
      exact ⟨_, _, ⟨⟨_, rfl, i, hindex, _, rfl, _, ⟨hi, rfl⟩, rfl⟩, rfl⟩, _, _, ⟨h', hok, rfl⟩, rfl⟩

/-- The heap stores an element just when the object is mutable. -/
lemma onHeap_action_eq_ok_iff (rep : h.Represents s) (ho : s.objects name = some o)
    (suits : natives.Suits o) (hi : 1 ≤ i ∧ i ≤ natives.count o) :
    (natives.action name i value).onHeap h = .ok .done h' ↔
      o.flags.immutable = false ∧ h' = natives.written h (natives.place name i) value := by
  cases natives with
  | array | fields =>
    simp only [count] at hi
    simp only [action, Heap.Action.onHeap, run_map_const_eq_ok_iff, true_and]
    exact heapStore_eq_ok_iff rep ho (by omega)
  | string =>
    simp only [count] at hi
    simp only [action, Heap.Action.onHeap, run_map_const_eq_ok_iff, true_and, written, place, width,
      Nat.one_mul]
    exact heapStoreByte_eq_ok_iff rep ho (suits ▸ rfl) (by omega)

/-- A store that is refused changes nothing. -/
lemma state_eq_of_store_error {e : MachineError}
    (herror : natives.store name index value m = .error e m') : m' = m := by
  cases natives with
  | array =>
    rcases run_bind_eq_error_iff.mp herror with hask | ⟨⟨k, v⟩, m₁, hask, hrest⟩
    · exact (ask_eq_error_iff.mp hask).2.symm
    · obtain ⟨-, rfl⟩ := ask_eq_ok_iff.mp hask
      exact state_eq_of_change_bind_error Heap.state_eq_of_store_error hrest
  | string =>
    rcases run_bind_eq_error_iff.mp herror with hask | ⟨⟨k, byte, v⟩, m₁, hask, hrest⟩
    · exact (ask_eq_error_iff.mp hask).2.symm
    · obtain ⟨-, rfl⟩ := ask_eq_ok_iff.mp hask
      exact state_eq_of_change_bind_error Heap.state_eq_of_storeByte_error hrest
  | fields =>
    rcases run_bind_eq_error_iff.mp herror with hask | ⟨⟨k, v⟩, m₁, hask, hrest⟩
    · exact (ask_eq_error_iff.mp hask).2.symm
    · obtain ⟨-, rfl⟩ := ask_eq_ok_iff.mp hask
      exact state_eq_of_change_bind_error Heap.state_eq_of_store_error hrest

/-! ### What elements are kept -/

/-- What a family is for is told from what no operation changes. -/
lemma Suits.of_sameShape {o' : Object} (suits : natives.Suits o) (same : o.SameShape o') :
    natives.Suits o' := by
  cases natives with
  | array => exact ⟨same.classIndex.trans suits.1, same.format.trans suits.2⟩
  | string => exact same.format.trans suits
  | fields => exact (congrArg ObjectFormat.isPointers same.format).trans suits

/-- So is the number of elements. -/
lemma count_of_sameShape {o' : Object} (same : o.SameShape o') :
    natives.count o' = natives.count o := by
  cases natives with
  | string => rw [count, count, Object.byteCount, Object.byteCount, same.length, same.unused]
  | array | fields => rw [count, count, Object.slotCount, Object.slotCount, same.length]

/-- What a store of an element leads to: the element is read as what was stored, every other element
of this and any other object as before, and all bytes outside the element are as they were. -/
structure Replaces (natives : Indexed) (limit : ℕ) (m : Machine) (s : ObjectMap) (name : Value)
    (i : ℤ) (value : Value) (m' : Machine) : Prop where
  arises : ∃ s', m'.ArisesWith limit s'
  fetch_self : ∀ index : Value, index.toInt? = some i →
    natives.fetch name index m' = .ok (natives.kept value) m'
  fetch_other : ∀ (natives' : Indexed) (other index : Value) (p : Object) (j : ℤ),
    s.objects other = some p → natives'.Suits p → index.toInt? = some j →
    ¬(other = name ∧ j = i) →
    outcome (natives'.fetch other index m') = outcome (natives'.fetch other index m)
  usedBytes : m'.heap.usedBytes = m.heap.usedBytes
  byteAt : ∀ b, ¬natives.Occupies name i b → m'.heap.byteAt b = m.heap.byteAt b

/-- A store of an element replaces it and nothing else. -/
theorem replaces (arises : m.ArisesWith limit s) (ho : s.objects name = some o)
    (suits : natives.Suits o) (hi : 1 ≤ i ∧ i ≤ natives.count o) (haccepts : natives.Accepts value)
    (hok : (natives.action name i value).onHeap m.heap = .ok .done h') :
    natives.Replaces limit m s name i value (m.withHeap h') := by
  have rep := arises.represents
  have hold := rep.holds ho
  have htarget : ∀ target ∈ (natives.action name i value).target?, ∃ o, s.objects target = some o := by
    intro target hmem
    have heq : (natives.action name i value).target? = some name := by cases natives <;> rfl
    obtain rfl : name = target := Option.some.inj (heq.symm.trans hmem)
    exact ⟨o, ho⟩
  obtain ⟨-, rfl⟩ := (onHeap_action_eq_ok_iff rep ho suits hi).mp hok
  have arises' : (m.withHeap (natives.written m.heap (natives.place name i) value)).ArisesWith limit
      (stateAfter ((natives.action name i value).onMap s)) := by
    have hstep := arises.onHeap _ htarget
    rw [hok] at hstep
    exact hstep
  have follows := Heap.follows_action rep (natives.action name i value)
  have rep' := arises'.represents
  have hframe : ∀ b, ¬natives.Occupies name i b →
      (natives.written m.heap (natives.place name i) value).byteAt b = m.heap.byteAt b :=
    fun b => byteAt_written hold suits hi
  refine ⟨⟨_, arises'⟩, fun index hindex => ?_, fun natives' other index p j hp suits' hindex hne => ?_,
    usedBytes_written _ _ _, hframe⟩
  · obtain ⟨o', ho', same⟩ := follows.shape ho
    rw [fetch_of_mem rep' ho' (suits.of_sameShape same) hindex (count_of_sameShape same ▸ hi)]
    exact congrArg (EStateM.Result.ok · _) (shown_written hold suits hi haccepts)
  · obtain ⟨p', hp', same⟩ := follows.shape hp
    by_cases hj : 1 ≤ j ∧ j ≤ natives'.count p
    · rw [fetch_of_mem rep hp suits' hindex hj,
        fetch_of_mem rep' hp' (suits'.of_sameShape same) hindex (count_of_sameShape same ▸ hj)]
      exact congrArg Except.ok (shown_congr (rep.holds hp) fun b hb =>
        hframe b (not_occupies rep ho suits hi hp suits' hj hne hb))
    · rw [fetch_of_not_mem rep hp suits' hindex hj, fetch_of_not_mem rep' hp'
        (suits'.of_sameShape same) hindex (count_of_sameShape same ▸ hj), count_of_sameShape same]
      rfl

/-- The native method that counts the elements of an object answers their number. -/
lemma size_eq (rep : m.heap.Represents s) (ho : s.objects name = some o) (suits : natives.Suits o)
    {size : MachineM Value} (hsize : size ∈ natives.size? name) :
    size m = ask (fun _ => ofInteger (natives.count o)) m := by
  cases natives with
  | array =>
    obtain rfl := Option.some.inj hsize
    simp only [ArrayNative.call, ask, arraySize_eq rep ho suits, bind, Except.bind, count]
  | string =>
    obtain rfl := Option.some.inj hsize
    simp only [StringNative.call, ask, stringSize_eq rep ho suits, bind, Except.bind, count]
  | fields => cases hsize

end Indexed

/-- In every machine that arises, the native methods by index treat each object they are for as an
array that counts from one. `size` answers the number of elements. Reading answers what the bytes of
the element show, and is refused where there is none. A store succeeds just where there is an element,
the object is mutable and the value can be an element; it replaces that element and nothing else. What
is refused changes nothing. The bytes of an element are none of a header, of the unused end of the body
or of another object. -/
theorem Machine.ArisesWith.serves (arises : m.ArisesWith limit s) {natives : Indexed}
    (ho : s.objects name = some o) (suits : natives.Suits o) (hindex : index.toInt? = some i) :
    (∀ size ∈ natives.size? name, size m = ask (fun _ => ofInteger (natives.count o)) m) ∧
    (natives.fetch name index m =
      if 1 ≤ i ∧ i ≤ natives.count o then .ok (natives.shown m.heap (natives.place name i)) m
      else .error (.heap (.indexOutOfBounds name i.toNat (natives.count o))) m) ∧
    (∀ value, (∃ answer m', natives.store name index value m = .ok answer m') ↔
      (1 ≤ i ∧ i ≤ natives.count o) ∧ o.flags.immutable = false ∧ natives.Accepts value) ∧
    (∀ value answer m', natives.store name index value m = .ok answer m' →
      answer = value ∧ natives.Replaces limit m s name i value m') ∧
    (∀ value e m', natives.store name index value m = .error e m' → m' = m) ∧
    (1 ≤ i ∧ i ≤ natives.count o → ∀ b, natives.Occupies name i b →
      (name.raw.toNat + 8 ≤ b ∧ b < name.raw.toNat + 8 + o.byteCount) ∧
        ∀ other p, s.objects other = some p → other ≠ name → ¬p.Covers other.raw.toNat b) := by
  have rep := arises.represents
  refine ⟨fun size => Indexed.size_eq rep ho suits, ?_, fun value => ?_, fun value answer m' hok => ?_,
    fun value e m' => Indexed.state_eq_of_store_error, fun hi b hb => ⟨?_, fun other p hp hne hb' => ?_⟩⟩
  · split
    case isTrue hi => exact Indexed.fetch_of_mem rep ho suits hindex hi
    case isFalse hi => exact Indexed.fetch_of_not_mem rep ho suits hindex hi
  · constructor
    · rintro ⟨answer, m', hok⟩
      obtain ⟨hi, haccepts, -, h', hstore, -⟩ := (Indexed.store_eq_ok_iff rep ho suits hindex).mp hok
      exact ⟨hi, ((Indexed.onHeap_action_eq_ok_iff rep ho suits hi).mp hstore).1, haccepts⟩
    · rintro ⟨hi, hmutable, haccepts⟩
      exact ⟨value, _, (Indexed.store_eq_ok_iff rep ho suits hindex).mpr ⟨hi, haccepts, rfl, _,
        (Indexed.onHeap_action_eq_ok_iff rep ho suits hi).mpr ⟨hmutable, rfl⟩, rfl⟩⟩
  · obtain ⟨hi, haccepts, rfl, h', hstore, rfl⟩ :=
      (Indexed.store_eq_ok_iff rep ho suits hindex).mp hok
    exact ⟨rfl, Indexed.replaces arises ho suits hi haccepts hstore⟩
  · exact Indexed.mem_body_of_occupies (rep.holds ho).wellFormed suits hi hb
  · exact rep.disjoint hp ho hne b hb'
      (Indexed.covers_of_occupies (rep.holds ho).wellFormed suits hi hb)

/-- In a fresh machine an array is allocated whose slots the header cannot count. Its last element is
replaced, and there is none behind it. -/
theorem Machine.ArisesWith.serves_largeArray :
    ∃ (m m' : Machine) (s : ObjectMap) (array : Value) (o : Object), m.ArisesWith 1048576 s ∧
      s.objects array = some o ∧ Indexed.array.Suits o ∧ (Value.ofInt 300).toInt? = some 300 ∧
      (Value.ofInt 301).toInt? = some 301 ∧
      Indexed.array.store array (Value.ofInt 300) (Value.ofInt 7) m = .ok (Value.ofInt 7) m' ∧
      Indexed.array.fetch array (Value.ofInt 300) m' = .ok (Value.ofInt 7) m' ∧
      Indexed.array.fetch array (Value.ofInt 301) m =
        .error (.heap (.indexOutOfBounds array 301 300)) m := by
  have hcost : freshCost + Heap.objectSize (0 + ObjectFormat.variableSize.slotsFor 300) ≤ 1048576 := by
    decide +kernel
  obtain ⟨m, hnew, hroom, -⟩ := exists_new (show 1048576 < 2 ^ 64 by norm_num) (by omega)
  obtain ⟨s, founded, -⟩ := exists_founded_of_new (by norm_num) hnew
  have hleft : Heap.objectSize (0 + ObjectFormat.variableSize.slotsFor 300) ≤ m.heap.room := by
    have : m.room = m.heap.room := rfl
    omega
  obtain ⟨array, h', hallocate, -⟩ := Heap.affords_allocate
    (show ClassIndex.array ≤ Header.maxClassIndex by decide)
    (show ObjectFormat.variableSize.admits 0 300 = true by decide) none m.heap hleft
  obtain ⟨s', arises, o, ho, hshape⟩ := (ArisesWith.new hnew founded).exists_of_allocate hallocate
  have suits : Indexed.array.Suits o := ⟨hshape.1, hshape.2.1⟩
  have hcount : Indexed.array.count o = 300 := hshape.2.2.1
  have hlast : (Value.ofInt 300).toInt? = some 300 := by decide
  have hbehind : (Value.ofInt 301).toInt? = some 301 := by decide
  obtain ⟨-, -, hstore, hreplaces, -⟩ := arises.serves ho suits hlast
  obtain ⟨-, hfetch, -⟩ := arises.serves ho suits hbehind
  obtain ⟨answer, m', hok⟩ := (hstore (Value.ofInt 7)).mpr
    ⟨by rw [hcount]; decide, hshape.2.2.2, trivial⟩
  obtain ⟨rfl, replaces⟩ := hreplaces _ _ _ hok
  rw [hcount, if_neg (by decide)] at hfetch
  exact ⟨_, m', s', array, o, arises, ho, suits, hlast, hbehind, hok, replaces.fetch_self _ hlast,
    hfetch⟩

end TalkMachine
