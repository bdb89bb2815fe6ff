import Mathlib.Data.List.Nodup
import TalkMachine.Machine.Bootstrap
import TalkMachine.Proofs.Interpreter.Dispatch
import TalkMachine.Proofs.Machine.Steps
import TalkMachine.Proofs.Value

/-!
# Special selectors without a send

Eleven of the special selectors are answered from the operands on the stack when these allow it.
Where the selector means to the receiver what the kernel has installed for it
(`Interpreter.FindsKernel`), nothing but time is saved by that (`Interpreter.agreesWithSend`): what is
answered without a send is what the native method answers, and it leaves the same stack. A sum, a
difference or a product is exact, and it is left to the native method only if it is no small
integer, where the native method fails.

Both ways are compared with one function of the operands (`Interpreter.inlineAnswer?`).
-/

namespace TalkMachine

/-! ### Native methods of the kernel -/

namespace NativeTable

variable {index : ℕ} {entry own : NativeEntry}

/-- The native methods that a kernel class starts with. -/
def ofClass (index : ℕ) : List NativeEntry :=
  (kernel.lookup index).getD []

/-- The native method that the instances of a class have from the kernel for the selector of the
entry: the class's own one if it has one, else one of the other classes. -/
def Gives (index : ℕ) (entry : NativeEntry) : Prop :=
  entry ∈ ofClass index ∨
    (∃ row ∈ kernel, entry ∈ row.2) ∧ ∀ own ∈ ofClass index, own.selector ≠ entry.selector

/-- No class has two native methods for one selector. -/
lemma nodup_selector_smallInteger : (smallInteger.map NativeEntry.selector).Nodup := by
  decide

/-- The instances of SmallInteger have the native methods of their own class. -/
lemma Gives.eq_of_mem_smallInteger (h : Gives ClassIndex.smallInteger entry)
    (hown : own ∈ smallInteger) (hselector : entry.selector = own.selector) : entry = own := by
  rcases h with hentry | ⟨-, hnone⟩
  · exact List.inj_on_of_nodup_map nodup_selector_smallInteger hentry hown hselector
  · exact absurd hselector.symm (hnone own hown)

/-- A selector for which the kernel has one native method only has it in every class. -/
lemma Gives.eq_of_unique {name : String} (h : Gives index entry) (hselector : entry.selector = name)
    (hunique : ∀ row ∈ kernel, ∀ entry ∈ row.2, entry.selector = name → entry = own) :
    entry = own := by
  rcases h with hentry | ⟨⟨row, hrow, hentry⟩, -⟩
  · rw [ofClass] at hentry
    cases hlookup : kernel.lookup index with
    | none =>
      rw [hlookup] at hentry
      cases hentry
    | some entries =>
      rw [hlookup] at hentry
      obtain ⟨before, after, hkernel, -⟩ := List.lookup_eq_some_iff.mp hlookup
      have hrow : (index, entries) ∈ kernel := by
        rw [hkernel]
        exact List.mem_append_right _ List.mem_cons_self
      exact hunique _ hrow entry hentry hselector
  · exact hunique row hrow entry hentry hselector

end NativeTable

namespace Interpreter

open Execution

variable {host : Host} {sender : Sender} {r : Registers} {p q : Execution} {m : Machine}
  {receiver selector cls argument value : Value} {arguments : List Value} {entry : NativeEntry}
  {special : SpecialSelector} {index argumentCount : ℕ} {a b : ℤ}

/-- A selector means to a receiver what the kernel has installed under this name for its class: the
search for it ends at the object of that native method. -/
structure FindsKernel (m : Machine) (receiver selector : Value) (name : String)
    (entry : NativeEntry) : Prop where
  given : ∃ classIndex, m.heap.classIndexOf receiver = .ok classIndex ∧
    NativeTable.Gives classIndex entry
  named : entry.selector = name
  found : ∃ number, m.find receiver selector = .ok (some (.native entry.argumentCount number)) ∧
    m.natives[number]? = some entry.native

/-! ### The answer without a send -/

/-- What is answered for a special selector without a send. -/
def inlineAnswer? (m : Machine) (index : ℕ) (receiver cls : Value) : List Value → Option Value
  | [] => if index = SpecialSelector.classOf then some cls else none
  | [argument] =>
    if index = SpecialSelector.identical then some (m.boolean (receiver = argument))
    else if index ≤ SpecialSelector.multiply then do
      arithmetic m index (← receiver.toInt?) (← argument.toInt?)
    else none
  | _ => none

/-- These are the answers without a send. -/
lemma inlineAnswer?_eq_some (h : inlineAnswer? m index receiver cls arguments = some value) :
    (index = SpecialSelector.identical ∧ ∃ argument, arguments = [argument] ∧
      value = m.boolean (receiver = argument)) ∨
    (index = SpecialSelector.classOf ∧ arguments = [] ∧ value = cls) ∨
    (index ≤ SpecialSelector.multiply ∧ ∃ argument a b, arguments = [argument] ∧
      receiver.toInt? = some a ∧ argument.toInt? = some b ∧ arithmetic m index a b = some value) := by
  match arguments with
  | [] =>
    obtain ⟨hindex, h⟩ := Option.ite_none_right_eq_some.mp h
    exact .inr (.inl ⟨hindex, rfl, (Option.some.inj h).symm⟩)
  | [argument] =>
    rw [inlineAnswer?] at h
    split at h
    · exact .inl ⟨‹_›, argument, rfl, (Option.some.inj h).symm⟩
    · obtain ⟨hindex, h⟩ := Option.ite_none_right_eq_some.mp h
      obtain ⟨a, ha, h⟩ := Option.bind_eq_some_iff.mp h
      obtain ⟨b, hb, h⟩ := Option.bind_eq_some_iff.mp h
      exact .inr (.inr ⟨hindex, argument, a, b, rfl, ha, hb, h⟩)
  | _ :: _ :: _ => cases h

/-- The operation of a special selector whose results need not be small integers. -/
def exactOperation? (index : ℕ) : Option (ℤ → ℤ → ℤ) :=
  if index = SpecialSelector.add then some (· + ·)
  else if index = SpecialSelector.subtract then some (· - ·)
  else if index = SpecialSelector.multiply then some (· * ·)
  else none

/-- The argument of a send with one argument is on top. -/
lemma exists_of_top_one (h : p.stack.top 1 = .ok arguments) :
    ∃ argument, arguments = [argument] ∧ p.stack.peek 0 = .ok argument := by
  obtain ⟨argument, rest, hpeek, hrest, rfl⟩ := List.forall₂_cons_left_iff.mp
    ((mapM_eq_ok_iff (fun k => p.stack.peek (1 - 1 - k)) [0] arguments).mp h)
  obtain rfl := List.forall₂_nil_left_iff.mp hrest
  exact ⟨argument, rfl, hpeek⟩

/-- A send without arguments has none. -/
lemma eq_nil_of_top_zero (h : p.stack.top 0 = .ok arguments) : arguments = [] :=
  List.forall₂_nil_left_iff.mp
    ((mapM_eq_ok_iff (fun k => p.stack.peek (0 - 1 - k)) [] arguments).mp h)

/-- A result takes the place of receiver and arguments when these are dropped and it is pushed. -/
lemma finish_eq_ok_iff {r' : Registers} : sendMessage.finish r argumentCount value p = .ok r' q ↔
    r' = r ∧ p.stack.sp + 8 * (argumentCount + 1) ≤ p.stack.size ∧
      push value ⟨p.machine, p.stack.restore (p.stack.sp + 8 * (argumentCount + 1)) p.stack.fp⟩ =
        .ok () q := by
  rw [sendMessage.finish, onStack_bind_eq_ok_iff]
  constructor
  · rintro ⟨_, s, hdrop, h⟩
    obtain ⟨hsize, rfl⟩ := Stack.drop_eq_ok_iff.mp hdrop
    obtain ⟨_, q', hpush, h⟩ := run_bind_eq_ok_iff.mp h
    obtain ⟨rfl, rfl⟩ := pure_eq_ok_iff.mp h
    exact ⟨rfl, hsize, hpush⟩
  · rintro ⟨rfl, hsize, hpush⟩
    refine ⟨(), _, Stack.drop_eq_ok_iff.mpr ⟨hsize, rfl⟩, ?_⟩
    exact run_bind_eq_ok_iff.mpr ⟨(), q, hpush, rfl⟩

/-- Arithmetic goes by the two operands. -/
lemma inlineSpecial_arithmetic (hindex : index ≤ SpecialSelector.multiply)
    (hreceiver : p.stack.peek 1 = .ok receiver) (hargument : p.stack.peek 0 = .ok argument) :
    inlineSpecial index p =
      match (do arithmetic p.machine index (← receiver.toInt?) (← argument.toInt?)) with
      | some value => (do onStack (Stack.drop 2); push value; return true : ExecutionM Bool) p
      | none => .ok false p := by
  have hle : index ≤ 8 := hindex
  rw [inlineSpecial, if_neg (by simp only [SpecialSelector.identical]; omega),
    if_neg (by simp only [SpecialSelector.classOf]; omega), if_pos hindex,
    run_bind_of_ok (run_askStack_of_ok hreceiver), run_bind_of_ok (run_askStack_of_ok hargument)]
  cases receiver.toInt? with
  | none => rfl
  | some a =>
    cases argument.toInt? with
    | none => rfl
    | some b =>
      refine (run_bind_of_ok (x := askMachine fun m => .ok (arithmetic m index a b))
        (run_askMachine_of_ok rfl)).trans ?_
      simp only [Option.bind_eq_bind, Option.bind_some]
      cases arithmetic p.machine index a b <;> rfl

section Operands

variable (hspecial : SpecialSelector.table[index]? = some special)
  (hreceiver : p.stack.peek special.argumentCount = .ok receiver)
  (harguments : p.stack.top special.argumentCount = .ok arguments)
include hspecial hreceiver harguments

/-- The operands of the selectors that are answered without a send. -/
lemma operands_of_top :
    (index = SpecialSelector.identical → special.argumentCount = 1 ∧
      ∃ argument, arguments = [argument] ∧ p.stack.peek 0 = .ok argument) ∧
    (index = SpecialSelector.classOf → special.argumentCount = 0 ∧ arguments = []) ∧
    (index ≤ SpecialSelector.multiply → special.argumentCount = 1 ∧
      ∃ argument, arguments = [argument] ∧ p.stack.peek 0 = .ok argument) := by
  refine ⟨fun hindex => ?_, fun hindex => ?_, fun hindex => ?_⟩
  · rw [hindex] at hspecial
    obtain rfl : _ = special := Option.some.inj hspecial
    exact ⟨rfl, exists_of_top_one harguments⟩
  · rw [hindex] at hspecial
    obtain rfl : _ = special := Option.some.inj hspecial
    exact ⟨rfl, eq_nil_of_top_zero harguments⟩
  · have hcount := argumentCount_arithmetic hindex
    rw [hspecial, Option.map_some, Option.some.injEq] at hcount
    rw [hcount] at harguments
    exact ⟨hcount, exists_of_top_one harguments⟩

/-- A selector that is not answered without a send leaves the execution as it is. -/
lemma inlineSpecial_of_inlineAnswer?_eq_none
    (hnone : inlineAnswer? p.machine index receiver cls arguments = none) :
    inlineSpecial index p = .ok false p := by
  obtain ⟨hidentical, hclass, harithmetic⟩ := operands_of_top hspecial hreceiver harguments
  by_cases hindex : index ≤ SpecialSelector.multiply
  · obtain ⟨hcount, argument, rfl, hargument⟩ := harithmetic hindex
    rw [hcount] at hreceiver
    have hne : index ≠ SpecialSelector.identical := by
      rintro rfl
      exact absurd hindex (by decide)
    rw [inlineAnswer?, if_neg hne, if_pos hindex] at hnone
    rw [inlineSpecial_arithmetic hindex hreceiver hargument, hnone]
  · have hne : index ≠ SpecialSelector.identical := by
      intro heq
      obtain ⟨-, argument, rfl, -⟩ := hidentical heq
      rw [inlineAnswer?, if_pos heq] at hnone
      cases hnone
    have hne' : index ≠ SpecialSelector.classOf := by
      intro heq
      obtain ⟨-, rfl⟩ := hclass heq
      rw [inlineAnswer?, if_pos heq] at hnone
      cases hnone
    rw [inlineSpecial, if_neg hne, if_neg hne', if_neg hindex]
    rfl

/-- The answer without a send takes the place of receiver and arguments. -/
lemma inlineSpecial_of_inlineAnswer?_eq_some (hcls : p.machine.classOf receiver = .ok cls)
    (hsome : inlineAnswer? p.machine index receiver cls arguments = some value)
    (hfinish : sendMessage.finish r special.argumentCount value p = .ok r q) :
    inlineSpecial index p = .ok true q := by
  obtain ⟨hidentical, hclass, harithmetic⟩ := operands_of_top hspecial hreceiver harguments
  obtain ⟨-, hsize, hpush⟩ := finish_eq_ok_iff.mp hfinish
  rcases inlineAnswer?_eq_some hsome with ⟨hindex, argument, rfl, rfl⟩ | ⟨hindex, rfl, rfl⟩ |
    ⟨hindex, argument, a, b, rfl, ha, hb, hresult⟩
  · obtain ⟨hcount, _, heq, hargument⟩ := hidentical hindex
    obtain rfl := List.singleton_inj.mp heq
    rw [hcount] at hreceiver
    rw [hcount, show p.stack.sp + 8 * (1 + 1) = p.stack.sp + 8 + 8 by omega] at hpush
    rw [inlineSpecial, if_pos hindex]
    refine run_bind_eq_ok_iff.mpr ⟨_, _, pop_of_peek hargument, ?_⟩
    refine run_bind_eq_ok_iff.mpr ⟨_, _, pop_of_peek (Stack.peek_restore_add hreceiver), ?_⟩
    refine askMachine_bind_eq_ok_iff.mpr ⟨_, rfl, ?_⟩
    exact run_bind_eq_ok_iff.mpr ⟨(), q, hpush, rfl⟩
  · obtain ⟨hcount, -⟩ := hclass hindex
    rw [hcount] at hreceiver
    rw [hcount, Nat.zero_add, Nat.mul_one] at hpush
    rw [inlineSpecial, if_neg (by rw [hindex]; decide), if_pos hindex]
    refine run_bind_eq_ok_iff.mpr ⟨_, _, pop_of_peek hreceiver, ?_⟩
    refine askMachine_bind_eq_ok_iff.mpr ⟨_, hcls, ?_⟩
    exact run_bind_eq_ok_iff.mpr ⟨(), q, hpush, rfl⟩
  · obtain ⟨hcount, _, heq, hargument⟩ := harithmetic hindex
    obtain rfl := List.singleton_inj.mp heq
    rw [hcount] at hreceiver hsize hpush
    rw [inlineSpecial_arithmetic hindex hreceiver hargument, ha, hb]
    simp only [Option.bind_eq_bind, Option.bind_some, hresult]
    refine onStack_bind_eq_ok_iff.mpr ⟨(), _, Stack.drop_eq_ok_iff.mpr ⟨hsize, rfl⟩, ?_⟩
    exact run_bind_eq_ok_iff.mpr ⟨(), q, hpush, rfl⟩

end Operands

/-! ### The answer of the native method -/

/-- The native method that SmallInteger has for an arithmetic special selector. -/
def arithmeticNative (index : ℕ) : IntegerNative :=
  match index with
  | 0 => .add
  | 1 => .subtract
  | 2 => .compare .less
  | 3 => .compare .greater
  | 4 => .compare .lessEqual
  | 5 => .compare .greaterEqual
  | 6 => .equal
  | 7 => .notEqual
  | _ => .multiply

/-- SmallInteger has a native method for every arithmetic special selector. -/
lemma mem_smallInteger_of_le (hindex : index ≤ SpecialSelector.multiply)
    (hspecial : SpecialSelector.table[index]? = some special) :
    (⟨special.name, 1, .integer (arithmeticNative index)⟩ : NativeEntry) ∈
      NativeTable.smallInteger := by
  simp only [SpecialSelector.multiply] at hindex
  interval_cases index <;> obtain rfl : _ = special := Option.some.inj hspecial <;> decide

/-- The native method answers what is answered without a send, and it fails where there is no such
answer. -/
lemma answer_arithmeticNative (hindex : index ≤ SpecialSelector.multiply)
    (hspecial : SpecialSelector.table[index]? = some special) (ha : receiver.toInt? = some a)
    (hb : argument.toInt? = some b) :
    (arithmeticNative index).answer receiver [argument] m =
      match arithmetic m index a b with
      | some value => .ok value
      | none => .error (.nativeFailed special.name receiver) := by
  have hoperands : IntegerNative.operands receiver [argument] = .ok (a, b) := by
    simp only [IntegerNative.operands, Machine.toInteger, ha, Machine.argument, Machine.expected,
      List.getElem?_cons_zero, bind, Except.bind, hb]
    rfl
  have heq : argument = receiver ↔ a = b := by
    rw [Value.eq_iff_of_toInt? hb ha, eq_comm]
  simp only [SpecialSelector.multiply] at hindex
  interval_cases index <;> obtain rfl : _ = special := Option.some.inj hspecial <;>
    simp only [arithmeticNative, IntegerNative.answer, hoperands, bind, Except.bind, arithmetic,
      IntegerNative.checked, Option.bind, IntegerNative.holds, Machine.argument,
      List.getElem?_cons_zero, heq, ne_eq] <;> rfl

/-- Small integers are instances of SmallInteger. -/
lemma classIndexOf_of_toInt? {h : Heap} (ha : receiver.toInt? = some a) :
    h.classIndexOf receiver = .ok ClassIndex.smallInteger := by
  rw [Value.toInt?, Option.ite_none_right_eq_some] at ha
  rw [Heap.classIndexOf, Value.immediateClass?, Value.kind, if_pos ha.1]
  rfl

/-- What the kernel gives a small integer for an arithmetic special selector. -/
lemma FindsKernel.eq_arithmetic (finds : FindsKernel m receiver selector special.name entry)
    (hindex : index ≤ SpecialSelector.multiply)
    (hspecial : SpecialSelector.table[index]? = some special) (ha : receiver.toInt? = some a) :
    entry = ⟨special.name, 1, .integer (arithmeticNative index)⟩ := by
  obtain ⟨classIndex, hclass, hgives⟩ := finds.given
  obtain rfl := Except.ok.inj ((classIndexOf_of_toInt? ha).symm.trans hclass)
  exact hgives.eq_of_mem_smallInteger (mem_smallInteger_of_le hindex hspecial) finds.named

/-- What the kernel gives every value for the comparison of identity. -/
lemma FindsKernel.eq_identical (finds : FindsKernel m receiver selector "==" entry) :
    entry = ⟨"==", 1, .object .identical⟩ := by
  obtain ⟨classIndex, -, hgives⟩ := finds.given
  exact hgives.eq_of_unique finds.named (by decide)

/-- What the kernel gives every value for the question for its class. -/
lemma FindsKernel.eq_classOf (finds : FindsKernel m receiver selector "class" entry) :
    entry = ⟨"class", 0, .object .classOf⟩ := by
  obtain ⟨classIndex, -, hgives⟩ := finds.given
  exact hgives.eq_of_unique finds.named (by decide)

/-! ### Both ways -/

/-- A special selector comes to the same with and without a send. -/
structure AgreesWithSend (host : Host) (sender : Sender) (r : Registers) (p : Execution)
    (index : ℕ) (special : SpecialSelector) (selector receiver : Value) (arguments : List Value) :
    Prop where
  /-- Whether the selector is answered without a send is always told. -/
  answers : ∃ inlined q, inlineSpecial index p = .ok inlined q
  /-- An answer without a send leaves what the send would leave. -/
  inlined : ∀ q, inlineSpecial index p = .ok true q →
    sendMessage host sender r selector special.argumentCount p = .ok r q
  /-- Without an answer everything is as it was. -/
  left : ∀ q, inlineSpecial index p = .ok false q → q = p
  /-- The instruction does what the send does. -/
  unnoticed : sendSpecial host sender r index p =
    sendMessage host sender r selector special.argumentCount p
  /-- A sum, difference or product is answered for small integers only, and it is exact. -/
  exact : ∀ operation q, exactOperation? index = some operation →
    inlineSpecial index p = .ok true q → ∃ argument a b result, arguments = [argument] ∧
      receiver.toInt? = some a ∧ argument.toInt? = some b ∧ q.stack.peek 0 = .ok result ∧
      result.toInt? = some (operation a b)
  /-- For small integers it is left to a send exactly when it is none, and then the send fails. -/
  overflow : ∀ operation argument a b, exactOperation? index = some operation →
    arguments = [argument] → receiver.toInt? = some a → argument.toInt? = some b →
    (inlineSpecial index p = .ok false p ↔ ¬Value.fitsSmallInteger (operation a b) = true) ∧
    (inlineSpecial index p = .ok false p →
      sendMessage host sender r selector special.argumentCount p =
        .error (.nativeFailed special.name receiver) p)

/-- Sums, differences and products are arithmetic. -/
lemma arithmetic_of_exactOperation? {operation : ℤ → ℤ → ℤ}
    (h : exactOperation? index = some operation) : index ≤ SpecialSelector.multiply ∧
      ∀ m a b, arithmetic m index a b = Value.ofInt? (operation a b) := by
  rw [exactOperation?] at h
  split at h
  · rename_i hindex
    obtain rfl := Option.some.inj h
    rw [hindex]
    exact ⟨by decide, fun m a b => rfl⟩
  split at h
  · rename_i hindex
    obtain rfl := Option.some.inj h
    rw [hindex]
    exact ⟨by decide, fun m a b => rfl⟩
  split at h
  · rename_i hindex
    obtain rfl := Option.some.inj h
    rw [hindex]
    exact ⟨by decide, fun m a b => rfl⟩
  · cases h

/-- What is answered without a send for a sum, difference or product. -/
lemma inlineAnswer?_of_exactOperation? {operation : ℤ → ℤ → ℤ}
    (h : exactOperation? index = some operation) (ha : receiver.toInt? = some a)
    (hb : argument.toInt? = some b) :
    inlineAnswer? m index receiver cls [argument] = Value.ofInt? (operation a b) := by
  obtain ⟨hindex, harithmetic⟩ := arithmetic_of_exactOperation? h
  have hne : index ≠ SpecialSelector.identical := by
    rintro rfl
    exact absurd hindex (by decide)
  rw [inlineAnswer?, if_neg hne, if_pos hindex, ha, hb, ← harithmetic m]
  rfl

section Agreement

variable (finds : FindsKernel p.machine receiver selector special.name entry)
  (hreceiver : p.stack.peek special.argumentCount = .ok receiver)
  (harguments : p.stack.top special.argumentCount = .ok arguments)
include finds hreceiver harguments

/-- A send for which a native method of the kernel is found calls it, and the result takes the place
of receiver and arguments. -/
lemma sendMessage_of_findsKernel (host : Host) (sender : Sender) (r : Registers)
    (harity : entry.argumentCount = special.argumentCount)
    (hlength : arguments.length = special.argumentCount) :
    sendMessage host sender r selector special.argumentCount p = (do
      let value ← callNative host sender entry.native receiver arguments
      sendMessage.finish r special.argumentCount value) p := by
  obtain ⟨number, hfind, hnative⟩ := finds.found
  rw [sendMessage_eq, run_bind_of_ok (run_askStack_of_ok hreceiver),
    run_bind_of_ok (run_askMachine_of_ok hfind), sendFound,
    run_bind_of_ok (run_askStack_of_ok harguments)]
  refine run_bind_congr ?_
  rw [callNumbered_eq, if_neg (by rw [hlength, harity]; simp), hnative]

variable (hspecial : SpecialSelector.table[index]? = some special)
include hspecial

/-- A send of an arithmetic special selector to a small integer with another goes by the result. -/
lemma sendMessage_arithmetic (host : Host) (sender : Sender) (r : Registers)
    (hindex : index ≤ SpecialSelector.multiply) (hargument : arguments = [argument])
    (ha : receiver.toInt? = some a) (hb : argument.toInt? = some b) :
    sendMessage host sender r selector special.argumentCount p =
      match arithmetic p.machine index a b with
      | some value => sendMessage.finish r special.argumentCount value p
      | none => .error (.nativeFailed special.name receiver) p := by
  subst hargument
  obtain ⟨-, -, harithmetic⟩ := operands_of_top hspecial hreceiver harguments
  obtain ⟨hcount, -⟩ := harithmetic hindex
  obtain rfl := finds.eq_arithmetic hindex hspecial ha
  rw [sendMessage_of_findsKernel finds hreceiver harguments host sender r hcount.symm hcount.symm]
  have hanswer := answer_arithmeticNative (m := p.machine) hindex hspecial ha hb
  cases hresult : arithmetic p.machine index a b with
  | some value =>
    rw [hresult] at hanswer
    exact run_bind_of_ok (run_askMachine_of_ok hanswer)
  | none =>
    rw [hresult] at hanswer
    exact run_bind_of_error (run_askMachine_of_error hanswer)

/-- A send answers what is answered without one. -/
lemma sendMessage_of_inlineAnswer? (host : Host) (sender : Sender) (r : Registers)
    (hcls : p.machine.classOf receiver = .ok cls)
    (hsome : inlineAnswer? p.machine index receiver cls arguments = some value) :
    sendMessage host sender r selector special.argumentCount p =
      sendMessage.finish r special.argumentCount value p := by
  rcases inlineAnswer?_eq_some hsome with ⟨hindex, argument, rfl, rfl⟩ | ⟨hindex, rfl, rfl⟩ |
    ⟨hindex, argument, a, b, rfl, ha, hb, hresult⟩
  · rw [hindex] at hspecial
    obtain rfl : _ = special := Option.some.inj hspecial
    obtain rfl := finds.eq_identical
    rw [sendMessage_of_findsKernel finds hreceiver harguments host sender r rfl rfl]
    exact run_bind_of_ok (onMachine_eq_ok_iff.mpr ⟨rfl, rfl⟩)
  · rw [hindex] at hspecial
    obtain rfl : _ = special := Option.some.inj hspecial
    obtain rfl := finds.eq_classOf
    rw [sendMessage_of_findsKernel finds hreceiver harguments host sender r rfl rfl]
    have hcall : Machine.ask (fun m => m.classOf receiver) p.machine = .ok value p.machine :=
      Machine.run_ask_of_ok hcls
    exact run_bind_of_ok (onMachine_eq_ok_iff.mpr ⟨hcall, rfl⟩)
  · rw [sendMessage_arithmetic finds hreceiver harguments hspecial host sender r hindex rfl ha hb,
      hresult]

/-- A special selector that is not answered without a send agrees with its send. -/
lemma agreesWithSend_of_eq_none (host : Host) (sender : Sender) (r : Registers)
    (hselector : p.machine.specialSelectors[index]? = some selector)
    (hnone : inlineAnswer? p.machine index receiver cls arguments = none) :
    AgreesWithSend host sender r p index special selector receiver arguments := by
  have hinline := inlineSpecial_of_inlineAnswer?_eq_none hspecial hreceiver harguments hnone
  have hfalse : ∀ q, inlineSpecial index p ≠ .ok true q := fun q h => by
    cases hinline.symm.trans h
  refine ⟨⟨false, p, hinline⟩, fun q h => absurd h (hfalse q), fun q h => ?_, ?_,
    fun operation q _ h => absurd h (hfalse q), ?_⟩
  · exact (EStateM.Result.ok.inj (h.symm.trans hinline)).2
  · rw [sendSpecial, run_bind_of_ok hinline, if_neg (by decide)]
    refine (run_bind_of_ok (x := askMachine fun m => .ok m.specialSelectors[index]?)
      (run_askMachine_of_ok rfl)).trans ?_
    simp only [hselector, hspecial]
  · intro operation argument a b hoperation hargument ha hb
    obtain ⟨hindex, harithmetic⟩ := arithmetic_of_exactOperation? hoperation
    rw [hargument, inlineAnswer?_of_exactOperation? hoperation ha hb] at hnone
    refine ⟨iff_of_true hinline (Value.ofInt?_eq_none_iff.mp hnone), fun _ => ?_⟩
    rw [sendMessage_arithmetic finds hreceiver harguments hspecial host sender r hindex hargument
      ha hb, harithmetic, hnone]

/-- A special selector that is answered without a send agrees with its send. -/
lemma agreesWithSend_of_eq_some (host : Host) (sender : Sender) (r : Registers)
    (hcls : p.machine.classOf receiver = .ok cls)
    (hsome : inlineAnswer? p.machine index receiver cls arguments = some value) :
    AgreesWithSend host sender r p index special selector receiver arguments := by
  obtain ⟨hlive, -⟩ := Stack.peek_eq_ok_iff.mp hreceiver
  obtain ⟨q, hfinish⟩ := exists_finish r value hlive
  have hinline := inlineSpecial_of_inlineAnswer?_eq_some hspecial hreceiver harguments hcls hsome
    hfinish
  have hsend := (sendMessage_of_inlineAnswer? finds hreceiver harguments hspecial host sender r
    hcls hsome).trans hfinish
  have htrue : ∀ q', inlineSpecial index p = .ok true q' → q' = q := fun q' h =>
    (EStateM.Result.ok.inj (h.symm.trans hinline)).2
  have hfalse : ∀ q', inlineSpecial index p ≠ .ok false q' := fun q' h => by
    cases hinline.symm.trans h
  refine ⟨⟨true, q, hinline⟩, fun q' h => htrue q' h ▸ hsend, fun q' h => absurd h (hfalse q'),
    ?_, ?_, ?_⟩
  · rw [hsend, sendSpecial, run_bind_of_ok hinline]
    rfl
  · intro operation q' hoperation h
    obtain ⟨hindex, harithmetic⟩ := arithmetic_of_exactOperation? hoperation
    obtain rfl := htrue q' h
    obtain ⟨-, -, hreplaced⟩ := replaced_of_finish hfinish
    have htop : q'.stack.peek 0 = .ok value := by
      have hsp := hreplaced.sp
      have hsize := hreplaced.same.size
      exact Stack.peek_eq_ok_iff.mpr ⟨by omega, hreplaced.top⟩
    rcases inlineAnswer?_eq_some hsome with ⟨rfl, -⟩ | ⟨rfl, -⟩ |
      ⟨-, argument, a, b, hargument, ha, hb, hresult⟩
    · exact absurd hindex (by decide)
    · exact absurd hindex (by decide)
    · rw [harithmetic] at hresult
      exact ⟨argument, a, b, value, hargument, ha, hb, htop, Value.ofInt?_eq_some_iff.mp hresult⟩
  · intro operation argument a b hoperation hargument ha hb
    rw [hargument, inlineAnswer?_of_exactOperation? hoperation ha hb] at hsome
    refine ⟨iff_of_false (hfalse p) fun hnot => ?_, fun h => absurd h (hfalse p)⟩
    rw [Value.ofInt?_eq_none_iff.mpr hnot] at hsome
    cases hsome

/-- What is answered without a send is what the send of the special selector comes to, wherever that
finds the native method that the kernel has for it. -/
theorem agreesWithSend (host : Host) (sender : Sender) (r : Registers)
    (hselector : p.machine.specialSelectors[index]? = some selector) :
    AgreesWithSend host sender r p index special selector receiver arguments := by
  obtain ⟨number, hfind, -⟩ := finds.found
  obtain ⟨cls, hcls, -⟩ := bind_eq_ok_iff.mp hfind
  cases hanswer : inlineAnswer? p.machine index receiver cls arguments with
  | none =>
    exact agreesWithSend_of_eq_none finds hreceiver harguments hspecial host sender r hselector
      hanswer
  | some value =>
    exact agreesWithSend_of_eq_some finds hreceiver harguments hspecial host sender r hcls hanswer

end Agreement

/-- An execution with 3 and 4 on the stack, where the class of small integers understands `+`, for
which the character f stands, by the native method of the kernel. -/
def addingSample : Execution where
  machine := { Moment.sampleExecution.machine with
    heap.words := #[0,
      -- the class: no superclass, and the dictionary
      0x0200000101000016, 0, 32,
      -- the dictionary, its keys and its values: the character f goes with the native method
      0x0300000401000011, 0, 64, 80,
      0x010000080200000f, 0x332,
      0x0100000a0200000f, 96,
      -- the native method: one argument, and the number 0
      0x0300000c01000013, 0x332, 3, 1]
    natives := #[.integer .add]
    specialSelectors := #[Value.ofChar 'f'] }
  stack := (((Stack.new 64).writeWord 56 (Value.ofInt 3).raw).writeWord 48 (Value.ofInt 4).raw).restore
    48 0

/-- In the sample the sum is answered without a send, and that agrees with the send. -/
theorem agreesWithSend_addingSample :
    FindsKernel addingSample.machine (Value.ofInt 3) (Value.ofChar 'f') "+"
      ⟨"+", 1, .integer .add⟩ ∧
    addingSample.stack.peek 1 = .ok (Value.ofInt 3) ∧
    addingSample.stack.top 1 = .ok [Value.ofInt 4] ∧
    SpecialSelector.table[0]? = some ⟨"+", 1⟩ ∧
    addingSample.machine.specialSelectors[0]? = some (Value.ofChar 'f') ∧
    AgreesWithSend Host.none (send Host.none 0) ⟨Value.zero, ⟨0, 0, 0⟩, 0⟩ addingSample 0 ⟨"+", 1⟩
      (Value.ofChar 'f') (Value.ofInt 3) [Value.ofInt 4] := by
  have finds : FindsKernel addingSample.machine (Value.ofInt 3) (Value.ofChar 'f') "+"
      ⟨"+", 1, .integer .add⟩ := by
    refine ⟨⟨ClassIndex.smallInteger, by decide +kernel, .inl ?_⟩, rfl, 0, ?_, rfl⟩
    · decide
    · decide +kernel
  have hreceiver : addingSample.stack.peek (SpecialSelector.mk "+" 1).argumentCount =
      .ok (Value.ofInt 3) := by decide +kernel
  have harguments : addingSample.stack.top (SpecialSelector.mk "+" 1).argumentCount =
      .ok [Value.ofInt 4] := by decide +kernel
  have hspecial : SpecialSelector.table[0]? = some ⟨"+", 1⟩ := rfl
  exact ⟨finds, hreceiver, harguments, hspecial, rfl,
    agreesWithSend finds hreceiver harguments hspecial Host.none (send Host.none 0)
      ⟨Value.zero, ⟨0, 0, 0⟩, 0⟩ rfl⟩

end Interpreter

end TalkMachine
