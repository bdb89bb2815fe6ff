import TalkMachine.Proofs.Machine.InstanceSpecs

/-!
# Definitions that are refused

A definition that is refused leaves the class table longer than it was, unless that was full, whatever
has been done to the machine before; but what has been in the table stays there
(`Machine.Arises.leaves`). A superclass that is no class costs a place; and if memory ends in the middle,
classes are left behind that have not been finished (`Machine.exists_leftBehind`).
-/

namespace TalkMachine

namespace Machine

open Heap (objectSize)

variable {m m' : Machine} {s : ObjectMap} {superclass : Value} {name : String} {spec : InstanceSpec}
  {e : MachineError} {limit : ℕ}

/-! ### What is left behind -/

namespace Leaves

/-- The table is as it was just where it was full. -/
lemma classTable_eq_iff (h : m.Leaves superclass e m') :
    m'.classTable = m.classTable ↔ Header.maxClassIndex < m.classTable.size := by
  have hlonger : m.classTable.size ≤ Header.maxClassIndex → m'.classTable.size ≠ m.classTable.size →
      (m'.classTable = m.classTable ↔ Header.maxClassIndex < m.classTable.size) := fun hfits hne =>
    iff_of_false (fun heq => hne (congrArg Array.size heq)) (Nat.not_lt.mpr hfits)
  cases h with
  | nothing hfull => exact iff_of_true rfl hfull
  | place hfits _ _ heq => exact hlonger hfits (by simp [heq])
  | places hfits _ heq => exact hlonger hfits.le (by simp [heq, Nat.add_assoc])
  | classes hfits _ _ _ heq => exact hlonger hfits.le (by simp [heq, Nat.add_assoc])

/-- What was in the table before is still there. -/
lemma getElem?_eq (h : m.Leaves superclass e m') {index : ℕ} (hindex : index < m.classTable.size) :
    m'.classTable[index]? = m.classTable[index]? := by
  cases h with
  | nothing => rfl
  | place _ _ _ heq | places _ _ heq | classes _ _ _ _ heq =>
    simp only [heq, Array.getElem?_push, Array.size_push]
    grind

end Leaves

/-- A definition that is refused leaves behind what has been entered. -/
lemma IsSound.leaves_of_defineClass (sound : m.IsSound)
    (herror : defineClass name superclass spec m = .error e m') : m.Leaves superclass e m' := by
  rcases defineClass_cases sound name superclass spec with ⟨e', m'', hrefused, leaves⟩ |
    ⟨_, _, _, _, _, _, hok, -⟩
  · obtain ⟨rfl, rfl⟩ := EStateM.Result.error.inj (hrefused.symm.trans herror)
    exact leaves
  · rw [hok] at herror
    cases herror

/-- In a machine that has arisen in any way, a definition that is refused leaves behind what has been
entered. The class table is as it was before only if there was no place left in it. Otherwise it is
longer, and what was in it is still there. -/
theorem Arises.leaves (hlimit : limit < 2 ^ 64) (arises : m.Arises limit)
    (herror : defineClass name superclass spec m = .error e m') :
    m.Leaves superclass e m' ∧
      (m'.classTable = m.classTable ↔ Header.maxClassIndex < m.classTable.size) ∧
      ∀ index < m.classTable.size, m'.classTable[index]? = m.classTable[index]? := by
  have leaves := (arises.isSound hlimit).leaves_of_defineClass herror
  exact ⟨leaves, leaves.classTable_eq_iff, fun index hindex => leaves.getElem?_eq hindex⟩

/-! ### Definitions that leave something behind -/

/-- Where not even a header fits, to intern a name changes nothing. -/
lemma eq_of_intern_of_room_lt (hbounded : m.heap.Bounded) (hroom : m.room < objectSize 0)
    {symbol : Value} (hok : intern name m = .ok symbol m') : m' = m := by
  rw [intern] at hok
  obtain ⟨found, _, hask, hrest⟩ := run_bind_eq_ok_iff.mp hok
  obtain ⟨-, rfl⟩ := ask_eq_ok_iff.mp hask
  cases found with
  | some symbol =>
    cases hrest
    rfl
  | none =>
    obtain ⟨_, _, hchange, -⟩ := run_bind_eq_ok_iff.mp hrest
    obtain ⟨h', hbytes, -⟩ := change_eq_ok_iff.mp hchange
    obtain ⟨_, _, hallocate, -⟩ := run_bind_eq_ok_iff.mp hbytes
    exact absurd hallocate (hbounded.allocate_ne_ok hroom)

/-- Nor is a class filled there. -/
lemma furnish_ne_ok (hbounded : m.heap.Bounded) (hroom : m.room < objectSize 0)
    {cls metaclass : Value} : furnish cls metaclass name spec m ≠ .ok () m' := by
  intro hok
  obtain ⟨symbol, m₁, hintern, hrest⟩ := run_bind_eq_ok_iff.mp hok
  obtain rfl := eq_of_intern_of_room_lt hbounded hroom hintern
  obtain ⟨dictionary, m₂, hnew, -⟩ := run_bind_eq_ok_iff.mp hrest
  obtain ⟨h', hnew, -⟩ := onHeap_eq_ok_iff.mp hnew
  obtain ⟨_, _, hchange, -⟩ := run_bind_eq_ok_iff.mp hnew
  exact absurd (adaptExcept_eq_ok_iff.mp hchange) (hbounded.allocate_ne_ok hroom)

/-- A superclass that is neither nil nor a class is refused after a place has been handed out. -/
lemma defineClass_eq_error_of_not_isClass (hdynamic : ClassIndex.firstDynamic ≤ m.classTable.size)
    (hfits : m.classTable.size ≤ Header.maxClassIndex) (hne : superclass ≠ m.nil)
    (hnot : m.isClass superclass = false) (name : String) (spec : InstanceSpec) :
    defineClass name superclass spec m =
      .error (.invalidClass superclass) (m.grown (m.classTable.size + 1)) := by
  have hreserve : reserveClassIndex m = .ok m.classTable.size (m.grown (m.classTable.size + 1)) :=
    reserveClassIndex_eq_ok_iff.mpr ⟨(max_eq_left hdynamic).symm, hfits, rfl⟩
  have hcheck : (m.grown (m.classTable.size + 1)).checkSuperclass superclass =
      .error (.invalidClass superclass) :=
    checkSuperclass_eq_error_iff.mpr ⟨hne, (isClass_grown m _ superclass).trans hnot, rfl⟩
  rw [defineClass, run_bind_of_ok hreserve, createClass]
  exact run_bind_of_error (run_ask_of_error hcheck)

/-- Where the bytes are left for a class and its metaclass only, both are left behind. -/
lemma exists_unfinished (sound : m.IsSound) (hfits : m.classTable.size < Header.maxClassIndex)
    (hroom : 2 * objectSize ClassSlot.classSize ≤ m.room)
    (hfull : m.room < 2 * objectSize ClassSlot.classSize + objectSize 0) (name : String)
    (spec : InstanceSpec) :
    ∃ e m' cls metaclass, defineClass name m.nil spec m = .error e m' ∧
      m'.classTable = (m.classTable.push cls).push metaclass ∧
      m.heap.usedBytes ≤ cls.raw.toNat ∧ m'.isClass cls = true := by
  cases hrun : defineClass name m.nil spec m with
  | error e m' =>
    cases sound.leaves_of_defineClass hrun with
    | nothing hover => exact absurd hfits (Nat.not_lt.mpr hover.le)
    | place _ hcause => exact absurd hcause (by simp [hfits.ne])
    | places _ hless => exact absurd hroom (Nat.not_le.mpr hless)
    | classes _ _ behind isClass heq => exact ⟨e, m', _, _, rfl, heq, behind.1, isClass.1⟩
  | ok cls m' =>
    rw [defineClass] at hrun
    obtain ⟨index, m₁, hreserve, hcreate⟩ := run_bind_eq_ok_iff.mp hrun
    obtain ⟨rfl, -, hm₁⟩ := reserveClassIndex_eq_ok_iff.mp hreserve
    rw [max_eq_left sound.kernel_le] at hm₁ hcreate
    rw [createClass_eq_enterPair] at hcreate
    obtain ⟨_, _, hask, hrest⟩ := run_bind_eq_ok_iff.mp hcreate
    obtain ⟨-, rfl⟩ := ask_eq_ok_iff.mp hask
    obtain ⟨pair, m₂, henter, hrest⟩ := run_bind_eq_ok_iff.mp hrest
    obtain ⟨_, m₃, hfurnish, -⟩ := run_bind_eq_ok_iff.mp hrest
    rcases enterPair_cases sound hm₁ with
      ⟨-, hrefused⟩ | ⟨-, -, _, _, _, hrefused, -⟩ | ⟨-, _, _, m₂', s₂, hok, enters⟩
    · rw [hrefused] at henter
      cases henter
    · rw [hrefused] at henter
      cases henter
    · rw [hok] at henter
      obtain ⟨rfl, rfl⟩ := EStateM.Result.ok.inj henter
      have hleft : m.room = m₂'.room + 2 * objectSize ClassSlot.classSize := enters.room_eq
      exact absurd hfurnish (furnish_ne_ok (.of_represents enters.rep) (by omega))

/-- The instances of Array have indexed fields only. -/
lemma Founded.exists_arrayPair (founded : m.Founded s) : ∃ p, m.HasPair s p ∧
    p.index = ClassIndex.array ∧ InstanceSpec.unpack? p.spec.pack = some ⟨.variableSize, 0⟩ := by
  have harray : (⟨ClassIndex.array, "Array", some ClassIndex.object, ⟨.variableSize, 0⟩⟩ :
    KernelClass) ∈ KernelClass.all := by simp [KernelClass.all]
  obtain ⟨p, pair, hindex, -, hspec⟩ := founded.kernel _ harray
  refine ⟨p, pair, hindex, ?_⟩
  rw [hspec]
  decide

/-- A large array takes up two words more than it has elements. -/
lemma Founded.exists_array (founded : m.Founded s) {count : ℕ} (hlarge : 255 ≤ count)
    (hroom : 8 * (2 + count) ≤ m.room) :
    ∃ cls array h, instantiate cls count m = .ok array (m.withHeap h) ∧
      m.room = h.room + 8 * (2 + count) := by
  obtain ⟨p, pair, hindex, hunpack⟩ := founded.exists_arrayPair
  have hbounded : m.heap.Bounded := .of_represents founded.based.rep
  have hsize : objectSize (0 + ObjectFormat.variableSize.slotsFor count) = 8 * (2 + count) := by
    rw [Nat.zero_add, ObjectFormat.slotsFor_of_isPointers rfl, Heap.objectSize_eq,
      if_neg (Nat.not_lt.mpr hlarge)]
  obtain ⟨array, m', hok, -⟩ := pair.affords_instantiate founded.based hunpack
    (hindex ▸ (by decide : ClassIndex.smallFloat < ClassIndex.array)) count rfl (hsize ▸ hroom)
  obtain ⟨_, h, -, rfl, hallocates⟩ := exists_allocates_of_instantiate hbounded
    ((pair.instanceSpec_cls_eq_ok_iff founded.based).mpr hunpack) hok
  exact ⟨p.cls, array, h, hok, hallocates.room_eq.trans (congrArg (h.room + ·) hsize)⟩

/-- An operation that spares classes leads to machines that arise. -/
lemma leadsOn_of_sparesClasses {op : Operation} (hspares : op.SparesClasses m) :
    op.LeadsOn limit := by
  cases op with
  | native host send stack native receiver arguments =>
    exact fun number hforeign => absurd hforeign (hspares.1 number)
  | _ => trivial

/-- A machine is reached in which the bytes are left for a class and its metaclass only. -/
lemma exists_reached_of_room : ∃ m, Reached Operation.SparesClasses 1048576 m ∧
    m.classTable.size < Header.maxClassIndex ∧
    2 * objectSize ClassSlot.classSize ≤ m.room ∧
    m.room < 2 * objectSize ClassSlot.classSize + objectSize 0 := by
  have hcost : freshCost + 8192 ≤ 1048576 := by decide +kernel
  obtain ⟨m, hnew, hroom, building⟩ := exists_new (show 1048576 < 2 ^ 64 by norm_num)
    (Nat.le_of_add_right_le hcost)
  obtain ⟨s, founded, -⟩ := exists_founded_of_new (by norm_num) hnew
  have hmuch : 8192 ≤ m.room := by
    generalize freshCost = cost at hcost hroom
    omega
  clear hcost hroom
  have hpair : 2 * objectSize ClassSlot.classSize = 80 ∧ objectSize 0 = 8 := by decide
  -- An array takes up all the other bytes.
  obtain ⟨cls, array, h, hok, hleft⟩ := founded.exists_array
    (show 255 ≤ (m.room - 96) / 8 by omega) (by omega)
  have hrun : (Operation.instantiate cls ((m.room - 96) / 8)).run m = .ok () (m.withHeap h) :=
    run_bind_eq_ok_iff.mpr ⟨array, _, hok, rfl⟩
  refine ⟨m.withHeap h, ⟨m, hnew, .single ⟨.instantiate cls _, trivial, by rw [hrun]; rfl⟩⟩,
    building.size_lt, ?_, ?_⟩
  · show 2 * objectSize ClassSlot.classSize ≤ h.room
    omega
  · show h.room < 2 * objectSize ClassSlot.classSize + objectSize 0
    omega

/-- A fresh machine refuses to define a class below a number. -/
lemma exists_refused : ∃ m, Machine.new 1048576 = .ok m ∧
    defineClass "Bad" (Value.ofInt 1) ⟨.fixedSize, 0⟩ m =
      .error (.invalidClass (Value.ofInt 1)) (m.grown (m.classTable.size + 1)) := by
  have hcost : freshCost ≤ 1048576 := by decide +kernel
  obtain ⟨m, hnew, -, building⟩ := exists_new (show 1048576 < 2 ^ 64 by norm_num) hcost
  obtain ⟨s, founded, -⟩ := exists_founded_of_new (by norm_num) hnew
  have himmediate : (Value.ofInt 1).isObject = false := by decide
  have hnot : m.isClass (Value.ofInt 1) = false := by
    rw [isClass, himmediate, Bool.false_and]
  refine ⟨m, hnew, defineClass_eq_error_of_not_isClass building.size_ge building.size_lt.le ?_ hnot _ _⟩
  rintro heq
  obtain ⟨o, ho, -⟩ := founded.based.nil
  have hobject := (founded.based.rep.holds ho).isObject
  rw [← heq, himmediate] at hobject
  cases hobject

/-- Below a number, a class is refused in a fresh machine, and a free place is left behind. -/
theorem Arises.leaves_place : ∃ m m', (1048576 : ℕ) < 2 ^ 64 ∧ m.Arises 1048576 ∧
    defineClass "Bad" (Value.ofInt 1) ⟨.fixedSize, 0⟩ m = .error (.invalidClass (Value.ofInt 1)) m' ∧
    m.Leaves (Value.ofInt 1) (.invalidClass (Value.ofInt 1)) m' := by
  have hlimit : (1048576 : ℕ) < 2 ^ 64 := by norm_num
  obtain ⟨m, hnew, herror⟩ := exists_refused
  exact ⟨m, _, hlimit, .new hnew, herror, (Arises.leaves hlimit (.new hnew) herror).1⟩

/-- The class table is not as it was before: below a number a class is refused in a fresh machine, which
costs a place; and where the bytes are left for a class and its metaclass only, these are classes after
the definition has been refused. -/
theorem exists_leftBehind :
    (∃ m m', Machine.new 1048576 = .ok m ∧
      defineClass "Bad" (Value.ofInt 1) ⟨.fixedSize, 0⟩ m = .error (.invalidClass (Value.ofInt 1)) m' ∧
      m'.classTable = m.classTable.push m.nil ∧ m'.classTable ≠ m.classTable) ∧
    ∃ m e m' cls metaclass, Reached Operation.SparesClasses 1048576 m ∧
      defineClass "Half" m.nil ⟨.fixedSize, 0⟩ m = .error e m' ∧
      m'.classTable = (m.classTable.push cls).push metaclass ∧
      m.heap.usedBytes ≤ cls.raw.toNat ∧ m'.isClass cls = true := by
  constructor
  · obtain ⟨m, hnew, herror⟩ := exists_refused
    have htable := classTable_grown_succ m
    refine ⟨m, _, hnew, herror, htable, fun heq => ?_⟩
    have hsize := congrArg Array.size (htable.symm.trans heq)
    rw [Array.size_push] at hsize
    omega
  · obtain ⟨m, reached, hfits, hroom, hfull⟩ := exists_reached_of_room
    have sound := (reached.arises fun _ _ => leadsOn_of_sparesClasses).isSound (by norm_num)
    obtain ⟨e, m', cls, metaclass, herror, hrest⟩ :=
      exists_unfinished sound hfits hroom hfull "Half" ⟨.fixedSize, 0⟩
    exact ⟨m, e, m', cls, metaclass, reached, herror, hrest⟩

end Machine

end TalkMachine
