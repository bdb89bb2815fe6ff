import TalkMachine.Proofs.Dictionary.Outcomes
import TalkMachine.Proofs.Heap.Allocation
import TalkMachine.Proofs.Machine.Operations

/-!
# Machines that arise

Whatever is done to a fresh machine, its bytes in use stay within its limit, nil stays among them, and
its class table keeps the places of the kernel (`Machine.Arises.isSound`). This holds of more machines
than operations lead to: any object on the heap may be stored into, and anything may be entered in the
tables. An operation is made of such steps, so it leads from a machine that arises to one that arises,
also when it is refused (`Operation.maintains_run`).
-/

namespace TalkMachine

namespace Heap

variable {P : Heap → Prop}

/-! ### Properties that last -/

/-- Whether every operation on the heap keeps a property, also when it is refused. -/
def Lasts (P : Heap → Prop) : Prop :=
  ∀ action : Action, Maintains P action.onHeap

namespace Lasts

/-- Allocation keeps a property that lasts. -/
lemma allocate (lasts : Lasts P) (fixed indexed : ℕ) (format : ObjectFormat) (classIndex : ℕ)
    (hash : Option ℕ) : Maintains P (Heap.allocate fixed indexed format classIndex hash) :=
  .of_map (lasts (.allocate fixed indexed format classIndex hash))

/-- So does the allocation of bytes. -/
lemma allocateBytes (lasts : Lasts P) (contents : List UInt8) (format : ObjectFormat)
    (classIndex : ℕ) : Maintains P (Heap.allocateBytes contents format classIndex) :=
  .of_map (lasts (.allocateBytes contents format classIndex))

/-- So does a store. -/
lemma store (lasts : Lasts P) (object : Value) (index : ℕ) (value : Value) :
    Maintains P (Heap.store object index value) :=
  .of_map (lasts (.store object index value))

/-- So does the store of a byte. -/
lemma storeByte (lasts : Lasts P) (object : Value) (index : ℕ) (byte : UInt8) :
    Maintains P (Heap.storeByte object index byte) :=
  .of_map (lasts (.storeByte object index byte))

/-- So does the store of several bytes. -/
lemma storeBytes (lasts : Lasts P) (object : Value) (offset : ℕ) (bytes : List UInt8) :
    Maintains P (Heap.storeBytes object offset bytes) :=
  .of_map (lasts (.storeBytes object offset bytes))

/-- So does a change of flags. -/
lemma setFlags (lasts : Lasts P) (object : Value) (flags : HeaderFlags) :
    Maintains P (Heap.setFlags object flags) :=
  .of_map (lasts (.setFlags object flags))

/-- So do stores into slots in a row. -/
lemma storeAll (lasts : Lasts P) (object : Value) (index : ℕ) (values : List Value) :
    Maintains P (Code.storeAll object index values) := by
  induction values generalizing index with
  | nil => exact .pure ()
  | cons value rest ih => exact (lasts.store object index value).bind fun _ => ih (index + 1)

/-- So does the generation of a method. -/
lemma generate (lasts : Lasts P) (code : Code) (classIndex argumentCount tempCount : ℕ) :
    Maintains P (code.generate classIndex argumentCount tempCount) := by
  intro h hP
  rw [Code.generate]
  split
  · exact hP
  · exact hP
  · rename_i header bytes _ _
    have hmethod : Maintains P
        (Code.allocateMethod header code.literals.toList bytes classIndex) := by
      refine (lasts.allocate ..).bind fun method => ?_
      refine (lasts.store ..).bind fun _ => ?_
      refine (lasts.storeAll ..).bind fun _ => ?_
      exact (lasts.storeBytes ..).bind fun _ => .pure method
    exact hmethod.adaptExcept _ hP

end Lasts

end Heap

namespace Dictionary

variable {P : Heap → Prop}

/-! ### Dictionaries -/

/-- A new array keeps what lasts. -/
lemma maintains_newArray (lasts : Heap.Lasts P) (size : ℕ) : Maintains P (newArray size) :=
  (lasts.allocate ..).adaptExcept _

/-- So does a new dictionary. -/
lemma maintains_new (lasts : Heap.Lasts P) (capacity : ℕ) : Maintains P (new capacity) := by
  refine Maintains.bind ((lasts.allocate ..).adaptExcept _) fun dictionary => ?_
  refine (maintains_newArray lasts capacity).bind fun keys => ?_
  refine (maintains_newArray lasts capacity).bind fun values => ?_
  have hfill := lasts.storeAll dictionary 0 [Value.ofInt 0, keys, values]
  simp only [Code.storeAll, bind_pure_unit] at hfill
  exact (hfill.adaptExcept _).bind fun _ => .pure dictionary

/-- So does growing. -/
lemma maintains_grow (lasts : Heap.Lasts P) (dictionary : Value) : Maintains P (grow dictionary) := by
  refine (maintains_ask _).bind fun old => ?_
  refine (maintains_ask _).bind fun entries => ?_
  refine (maintains_newArray lasts _).bind fun keys => ?_
  refine (maintains_newArray lasts _).bind fun values => ?_
  refine (maintains_fill (lasts.store _) (lasts.store _) entries).bind fun _ => ?_
  refine Maintains.bind ((lasts.store ..).adaptExcept _) fun _ => ?_
  exact (lasts.store ..).adaptExcept _

/-- So does the search for a place. -/
lemma maintains_placeFor (lasts : Heap.Lasts P) (dictionary key : Value) :
    Maintains P (placeFor dictionary key) := by
  refine (maintains_ask _).bind fun place => ?_
  cases place with
  | some place => exact .pure place
  | none => exact (maintains_grow lasts dictionary).bind fun _ => maintains_ask _

/-- So does putting a value under a key. -/
lemma maintains_insert (lasts : Heap.Lasts P) (dictionary key value : Value) :
    Maintains P (insert dictionary key value) := by
  refine (maintains_placeFor lasts dictionary key).bind fun place => ?_
  refine (maintains_ask _).bind fun keys => ?_
  refine (maintains_ask _).bind fun values => ?_
  refine (maintains_ask _).bind fun isFree => ?_
  have hstores : Maintains P (do
      change (Heap.store keys place key)
      change (Heap.store values place value)) :=
    Maintains.bind ((lasts.store ..).adaptExcept _) fun _ => (lasts.store ..).adaptExcept _
  split
  · refine (maintains_ask _).bind fun tally => ?_
    exact Maintains.bind ((lasts.store ..).adaptExcept _) fun _ => hstores
  · exact hstores

end Dictionary

namespace Machine

variable {m m' : Machine} {s : ObjectMap} {limit : ℕ} {α : Type}

/-! ### Machines that arise -/

/-- The machines that arise from a fresh one by steps of any kind: by operations on the heap, whatever
they are about, also when they are refused; and by anything that leaves the heap and nil alone and does
not shorten the class table. -/
inductive Arises (limit : ℕ) : Machine → Prop
  | new {m : Machine} (hnew : Machine.new limit = .ok m) : Arises limit m
  | onHeap {m : Machine} (arises : Arises limit m) (action : Heap.Action) :
      Arises limit (m.withHeap (stateAfter (action.onHeap m.heap)))
  | beside {m m' : Machine} (arises : Arises limit m) (heap_eq : m'.heap = m.heap)
      (nil_eq : m'.nil = m.nil) (size_le : m.classTable.size ≤ m'.classTable.size) : Arises limit m'

/-- Whether a machine has what nothing takes away from it: its bytes in use are within its limit, nil
lies among them, and its class table has the places of the kernel. -/
structure IsSound (m : Machine) : Prop where
  bounded : m.heap.Bounded
  nil_lt : m.nil.raw.toNat < m.heap.usedBytes
  kernel_le : ClassIndex.firstDynamic ≤ m.classTable.size

/-- A based machine whose class table has the places of the kernel is sound. -/
lemma Based.isSound (based : m.Based s) (hkernel : ClassIndex.firstDynamic ≤ m.classTable.size) :
    m.IsSound := by
  obtain ⟨o, ho, -⟩ := based.nil
  have hfits := (based.rep.holds ho).fits
  exact ⟨.of_represents based.rep, by omega, hkernel⟩

/-- A fresh machine is sound. -/
lemma isSound_of_new (hlimit : limit < 2 ^ 64) (hnew : Machine.new limit = .ok m) : m.IsSound := by
  obtain ⟨s, founded, -⟩ := exists_founded_of_new hlimit hnew
  obtain ⟨p, pair, -⟩ := founded.kernel _ (List.mem_cons_self : _ ∈ KernelClass.all)
  exact founded.based.isSound (pair.dynamic.trans (lt_size_of_classAt? pair.classAt?_metaIndex).le)

/-- Every machine that arises is sound. -/
theorem Arises.isSound (hlimit : limit < 2 ^ 64) (arises : m.Arises limit) : m.IsSound := by
  induction arises with
  | new hnew => exact isSound_of_new hlimit hnew
  | @onHeap m _ action ih =>
    have remains := Heap.remains_action action m.heap
    exact ⟨remains.bounded ih.bounded, ih.nil_lt.trans_le remains.used_le, ih.kernel_le⟩
  | beside _ heap_eq nil_eq size_le ih =>
    exact ⟨heap_eq ▸ ih.bounded, heap_eq ▸ nil_eq ▸ ih.nil_lt, ih.kernel_le.trans size_le⟩

/-! ### Operations of the machine -/

/-- A question leaves the machine as it is. -/
lemma maintains_ask {P : Machine → Prop} (question : Machine → Except MachineError α) :
    Maintains P (ask question) := by
  intro m hP
  unfold ask
  cases question m <;> exact hP

/-- What keeps every property of the heap that lasts leads to machines that arise. -/
lemma maintains_onHeap {x : EStateM MachineError Heap α}
    (hx : ∀ P, Heap.Lasts P → Maintains P x) : Maintains (Arises limit) (onHeap x) := by
  intro m arises
  rw [stateAfter_onHeap]
  exact hx (fun h => (m.withHeap h).Arises limit) (fun action _ arises => arises.onHeap action) arises

/-- The same for a change that only the heap can refuse. -/
lemma maintains_change {x : HeapM α} (hx : ∀ P, Heap.Lasts P → Maintains P x) :
    Maintains (Arises limit) (change x) :=
  maintains_onHeap fun P lasts => (hx P lasts).adaptExcept _

/-- A machine that arises may grow its class table. -/
lemma maintains_growClassTable (size : ℕ) : Maintains (Arises limit) (growClassTable size) :=
  fun m arises => arises.beside rfl rfl ((le_max_left ..).trans_eq (size_classTable_grown m size).symm)

/-- So it may enter a class. -/
lemma maintains_enterClass (index : ℕ) (cls : Value) :
    Maintains (Arises limit) (enterClass index cls) :=
  fun m arises => arises.beside rfl rfl (size_classTable_withClassAt m index cls).ge

/-- So it may intern a name. -/
lemma maintains_intern (name : String) : Maintains (Arises limit) (intern name) := by
  refine (maintains_ask _).bind fun symbol => ?_
  cases symbol with
  | some symbol => exact .pure symbol
  | none =>
    refine (maintains_change fun _ lasts => lasts.allocateBytes ..).bind fun symbol => ?_
    refine (maintains_change fun _ lasts => lasts.setFlags ..).bind fun _ => ?_
    have henter : Maintains (Arises limit) (enterSymbol name symbol) :=
      fun _ arises => arises.beside rfl rfl le_rfl
    exact henter.bind fun _ => .pure symbol

/-- So it may make a string. -/
lemma maintains_newString (text : String) : Maintains (Arises limit) (newString text) :=
  maintains_change fun _ lasts => lasts.allocateBytes ..

/-- So it may make an array. -/
lemma maintains_newArray (elements : List Value) : Maintains (Arises limit) (newArray elements) :=
  maintains_change fun _ lasts => (lasts.allocate ..).bind fun array =>
    (lasts.storeAll array 0 elements).bind fun _ => .pure array

/-- So it may make an association. -/
lemma maintains_newAssociation (key : String) (value : Value) :
    Maintains (Arises limit) (newAssociation key value) :=
  (maintains_intern key).bind fun _ => maintains_change fun _ lasts =>
    (lasts.allocate ..).bind fun association => (lasts.store ..).bind fun _ =>
      (lasts.store ..).bind fun _ => .pure association

/-- So it may generate a method. -/
lemma maintains_build (construction : CodeM Unit) (argumentCount tempCount : ℕ) :
    Maintains (Arises limit) (build construction argumentCount tempCount) := by
  unfold build
  split
  · exact maintains_onHeap fun _ lasts => (lasts.generate ..).adaptExcept _
  · exact .throw _

/-- So it may give a class another superclass. -/
lemma maintains_setSuperclass (cls superclass : Value) :
    Maintains (Arises limit) (setSuperclass cls superclass) := by
  refine (maintains_ask _).bind fun _ => ?_
  refine (maintains_ask _).bind fun metaSuperclass => ?_
  refine (maintains_change fun _ lasts => lasts.store ..).bind fun _ => ?_
  refine (maintains_ask _).bind fun isMetaclass => ?_
  split
  · exact (maintains_ask _).bind fun metaclass => maintains_change fun _ lasts => lasts.store ..
  · exact .pure ()

/-- So it may hand out a class index. -/
lemma maintains_reserveClassIndex : Maintains (Arises limit) reserveClassIndex := by
  refine (maintains_ask _).bind fun index => .guard ?_
  exact (maintains_growClassTable (index + 1)).bind fun _ => .pure index

/-- So it may fill a class with a new dictionary. -/
lemma maintains_fillClass (cls : Value) (spec : InstanceSpec) (name : Value)
    {rest : MachineM α} (hrest : Maintains (Arises limit) rest) :
    Maintains (Arises limit) (do
      let dictionary ← onHeap (Dictionary.new 0)
      change (fillClass cls dictionary spec name)
      rest) := by
  refine (maintains_onHeap fun _ lasts => Dictionary.maintains_new lasts 0).bind fun dictionary => ?_
  refine (maintains_change fun _ lasts => ?_).bind fun _ => hrest
  exact (lasts.store ..).bind fun _ => (lasts.store ..).bind fun _ => lasts.store ..

/-- So it may make a class with its metaclass. -/
lemma maintains_createClass (index : ℕ) (name : String) (superclass : Value) (spec : InstanceSpec) :
    Maintains (Arises limit) (createClass index name superclass spec) := by
  refine (maintains_ask _).bind fun _ => ?_
  refine maintains_reserveClassIndex.bind fun metaIndex => ?_
  refine (maintains_change fun _ lasts => lasts.allocate ..).bind fun cls => ?_
  refine (maintains_change fun _ lasts => lasts.allocate ..).bind fun metaclass => ?_
  refine (maintains_growClassTable _).bind fun _ => ?_
  refine (maintains_enterClass ..).bind fun _ => ?_
  refine (maintains_enterClass ..).bind fun _ => ?_
  refine (maintains_intern name).bind fun symbol => ?_
  refine maintains_fillClass cls spec symbol ?_
  refine maintains_fillClass metaclass ⟨.fixedSize, ClassSlot.classSize⟩ cls ?_
  exact (maintains_setSuperclass cls superclass).bind fun _ => .pure cls

/-- So it may define a class. -/
lemma maintains_defineClass (name : String) (superclass : Value) (spec : InstanceSpec) :
    Maintains (Arises limit) (defineClass name superclass spec) :=
  maintains_reserveClassIndex.bind fun index => maintains_createClass index name superclass spec

/-- So it may put a method into a class. -/
lemma maintains_addMethod (cls selector method : Value) :
    Maintains (Arises limit) (addMethod cls selector method) :=
  (maintains_ask _).bind fun _ => maintains_onHeap fun _ lasts =>
    Dictionary.maintains_insert lasts ..

/-- So it may put native methods into a class. -/
lemma maintains_installNatives (cls : Value) (entries : List NativeEntry) :
    Maintains (Arises limit) (installNatives cls entries) := by
  refine (maintains_ask _).bind fun dictionary => ?_
  induction entries with
  | nil => exact .pure ()
  | cons entry rest ih =>
    have henter : Maintains (Arises limit) (enterNative entry.native) :=
      fun _ arises => arises.beside rfl rfl le_rfl
    refine (maintains_intern entry.selector).bind fun selector => ?_
    refine henter.bind fun index => ?_
    refine (maintains_change fun _ lasts => ?_).bind fun method => ?_
    · refine (lasts.allocate ..).bind fun method => (lasts.store ..).bind fun _ => ?_
      exact (lasts.store ..).bind fun _ => (lasts.store ..).bind fun _ => .pure method
    · exact (maintains_onHeap fun _ lasts => Dictionary.maintains_insert lasts ..).bind fun _ => ih

/-- So it may make an instance of a class. -/
lemma maintains_instantiate (cls : Value) (indexed : ℕ) :
    Maintains (Arises limit) (instantiate cls indexed) := by
  refine (maintains_ask _).bind fun index => .guard ?_
  exact (maintains_ask _).bind fun spec => maintains_change fun _ lasts => lasts.allocate ..

end Machine

open Machine

variable {limit : ℕ} {α : Type}

/-! ### Native methods -/

/-- A native method of objects leads to machines that arise. -/
lemma ObjectNative.maintains_call (native : ObjectNative) (receiver : Value)
    (arguments : List Value) :
    Maintains (Machine.Arises limit) (native.call receiver arguments) := by
  cases native with
  | yourself => exact .pure receiver
  | isNil | notNil => exact fun _ => id
  | printString => exact (maintains_ask _).bind fun text => maintains_newString text
  | instVarAtPut =>
    refine (maintains_ask _).bind ?_
    rintro ⟨position, value⟩
    exact (maintains_change fun _ lasts => lasts.store ..).bind fun _ => .pure value
  | _ => exact maintains_ask _

/-- So does one of classes. -/
lemma BehaviorNative.maintains_call (native : BehaviorNative) (receiver : Value)
    (arguments : List Value) :
    Maintains (Machine.Arises limit) (native.call receiver arguments) := by
  cases native with
  | new => exact maintains_instantiate receiver 0
  | newSized => exact (maintains_ask _).bind fun size => maintains_instantiate receiver size
  | name =>
    refine (maintains_ask _).bind fun text => ?_
    cases text with
    | some text => exact maintains_newString text
    | none => exact .throw _
  | superclass => exact maintains_ask _

/-- So does one of strings. -/
lemma StringNative.maintains_call (native : StringNative) (receiver : Value)
    (arguments : List Value) :
    Maintains (Machine.Arises limit) (native.call receiver arguments) := by
  cases native with
  | store =>
    refine (maintains_ask _).bind ?_
    rintro ⟨position, byte, value⟩
    exact (maintains_change fun _ lasts => lasts.storeByte ..).bind fun _ => .pure value
  | _ => exact maintains_ask _

/-- So does one of arrays. -/
lemma ArrayNative.maintains_call (native : ArrayNative) (receiver : Value)
    (arguments : List Value) :
    Maintains (Machine.Arises limit) (native.call receiver arguments) := by
  cases native with
  | store =>
    refine (maintains_ask _).bind ?_
    rintro ⟨position, value⟩
    exact (maintains_change fun _ lasts => lasts.store ..).bind fun _ => .pure value
  | _ => exact maintains_ask _

/-! ### Executions -/

namespace Execution

/-- Whether the machine of an execution arises. Its stack may be any. -/
def Arises (limit : ℕ) (p : Execution) : Prop :=
  p.machine.Arises limit

/-- A question leaves an execution as it is. -/
lemma maintains_ask (question : Execution → Except MachineError α) :
    Maintains (Arises limit) (ask question) := by
  intro p arises
  unfold ask
  cases question p <;> exact arises

/-- A change of the stack leaves the machine as it is. -/
lemma maintains_onStack (x : StackM α) : Maintains (Arises limit) (onStack x) := by
  intro p arises
  unfold onStack
  cases hx : x p.stack <;> simp only [hx] <;> exact arises

/-- A change of the machine leads to where it leads without a stack. -/
lemma maintains_onMachine {x : MachineM α} (hx : Maintains (Machine.Arises limit) x) :
    Maintains (Arises limit) (onMachine x) := by
  intro p arises
  have hkept := hx arises
  unfold onMachine
  cases hrun : x p.machine <;> rw [hrun] at hkept <;> simp only [hrun] <;> exact hkept

end Execution

/-- Whether the messages that are sent in some way lead to machines that arise. -/
def Sender.LeadsOn (limit : ℕ) (send : Sender) : Prop :=
  ∀ receiver selector arguments,
    Maintains (Execution.Arises limit) (send receiver selector arguments)

/-- Whether what a host supplies leads to machines that arise if the messages do that it sends. -/
structure Host.LeadsOn (limit : ℕ) (host : Host) : Prop where
  native : ∀ number send, send.LeadsOn limit → ∀ receiver arguments,
    Maintains (Execution.Arises limit) (host.native number send receiver arguments)
  handler : ∀ handler ∈ host.handler, ∀ send, send.LeadsOn limit →
    Sender.LeadsOn limit (handler send)

namespace Execution

variable {host : Host} {send : Sender}

/-- A native method leads to machines that arise. -/
lemma maintains_callNative {native : Native}
    (hforeign : ∀ number, native = .foreign number → host.LeadsOn limit ∧ send.LeadsOn limit)
    (receiver : Value) (arguments : List Value) :
    Maintains (Arises limit) (callNative host send native receiver arguments) := by
  cases native with
  | object native => exact maintains_onMachine (native.maintains_call receiver arguments)
  | behavior native => exact maintains_onMachine (native.maintains_call receiver arguments)
  | string native => exact maintains_onMachine (native.maintains_call receiver arguments)
  | array native => exact maintains_onMachine (native.maintains_call receiver arguments)
  | integerText | floatText =>
    exact maintains_onMachine ((Machine.maintains_ask _).bind fun _ => Machine.maintains_newString _)
  | foreign number =>
    obtain ⟨hhost, hsend⟩ := hforeign number rfl
    exact hhost.native number send hsend receiver arguments
  | _ => exact maintains_ask _

end Execution

/-! ### Operations -/

namespace Operation

/-- Whether an operation leads to machines that arise for all that the host adds to it. -/
def LeadsOn (limit : ℕ) : Operation → Prop
  | native host send _ method _ _ =>
    ∀ number, method = .foreign number → host.LeadsOn limit ∧ send.LeadsOn limit
  | _ => True

/-- An operation and nothing else. -/
lemma maintains_discard {P : Machine → Prop} {x : MachineM α} (hx : Maintains P x) :
    Maintains P (do let _ ← x) :=
  hx.bind fun _ => .pure ()

/-- An operation leads from machines that arise to machines that arise, also when it is refused. -/
theorem maintains_run {op : Operation} (hop : op.LeadsOn limit) :
    Maintains (Machine.Arises limit) op.run := by
  cases op with
  | intern name => exact maintains_discard (maintains_intern name)
  | defineClass name superclass spec =>
    exact maintains_discard (maintains_defineClass name superclass spec)
  | setSuperclass cls superclass => exact maintains_setSuperclass cls superclass
  | addMethod cls selector method => exact maintains_addMethod cls selector method
  | installNatives cls entries => exact maintains_installNatives cls entries
  | newString text => exact maintains_discard (maintains_newString text)
  | newArray elements => exact maintains_discard (maintains_newArray elements)
  | newAssociation key value => exact maintains_discard (maintains_newAssociation key value)
  | instantiate cls indexed => exact maintains_discard (maintains_instantiate cls indexed)
  | native host send stack method receiver arguments =>
    refine maintains_discard fun m arises => ?_
    have hstart : Execution.Arises limit ⟨m, stack⟩ := arises
    have hkept := Execution.maintains_callNative hop receiver arguments hstart
    unfold performNative
    cases hrun : Execution.callNative host send method receiver arguments ⟨m, stack⟩ <;>
      rw [hrun] at hkept <;> exact hkept

end Operation

/-- Every machine that is reached by operations arises, if these lead to machines that arise for all
that the host adds to them. -/
theorem Machine.Reached.arises {allows : Machine → Operation → Prop} {m : Machine}
    (reached : Reached allows limit m) (hallows : ∀ m op, allows m op → op.LeadsOn limit) :
    m.Arises limit := by
  obtain ⟨m₀, hnew, steps⟩ := reached
  induction steps with
  | refl => exact .new hnew
  | tail _ step ih =>
    obtain ⟨op, hop, rfl⟩ := step
    exact Operation.maintains_run (hallows _ op hop) ih

end TalkMachine
