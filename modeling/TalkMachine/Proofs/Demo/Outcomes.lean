import TalkMachine.Proofs.Demo.Factorial

/-!
# What the demonstration answers

Both methods of the demonstration come to an end for every small integer, on every stack and
whatever the host, and they either answer what they are meant to compute or fail in one of two ways
(`Demo.outcomes`). The arithmetic is left to the native methods of the kernel where a result is no
small integer, and these fail; and a push fails where the stack has no room. The loop needs 96 bytes
of it, the recursion 72 bytes for each factor and 8 besides.
-/

namespace TalkMachine

namespace Demo

open Interpreter Nat

/-! ### Outcomes -/

/-- A value is answered, and all else is as it was: the machine, the pointers of the stack, and the
words above them. -/
def Answered (p : Execution) (value : Value) : Demand Value := fun outcome =>
  ∃ s, outcome = .ok value ⟨p.machine, s⟩ ∧ s.sp = p.stack.sp ∧ s.fp = p.stack.fp ∧
    Stack.SameFrom p.stack.sp p.stack s

/-- There is an error of some kind, and the pointers of the stack are where they were. -/
def Failed (p : Execution) (kind : MachineError → Prop) : Demand Value := fun outcome =>
  ∃ e q, outcome = .error e q ∧ kind e ∧ q.stack.sp = p.stack.sp ∧ q.stack.fp = p.stack.fp

/-- A native method of the kernel has failed. -/
def NativeFailed (name : String) (e : MachineError) : Prop :=
  ∃ receiver, e = .nativeFailed name receiver

/-- There was no room on the stack. -/
def Overflowed (e : MachineError) : Prop :=
  e = .stack .overflow

/-- An overflow is no room on the stack. -/
lemma overflowed_stack : Overflowed (.stack .overflow) :=
  rfl

variable {p q : Execution} {host : Host} {receiver selector method value : Value} {e : MachineError}
  {kind : MachineError → Prop} {Q : Demand Value} {n : ℤ} {k : ℕ}

/-- An error during a method is one of the send, with the pointers put back. -/
lemma failed_leave (h : kind e) (q : Execution) :
    Failed p kind (leave p (.error e q : EStateM.Result MachineError Execution Unit)) :=
  ⟨e, _, leave_error, h, rfl, rfl⟩

/-- The value that the method returns is answered. -/
lemma returns_answered {header : MethodHeader} {arguments : List Value} (hfp : p.stack.fp < 2 ^ 64)
    (value : Value) :
    Returns host p.machine (.entered p.machine method header receiver arguments p.stack.fp 0)
      p.stack (fun outcome => Answered p value (leave p outcome)) value :=
  returns_outside hfp fun s htopped hfp' => ⟨s, rfl, htopped.sp, hfp', htopped.same⟩

/-! ### The two methods -/

/-- The receiver understands the two methods of the demonstration, each under its selector. -/
structure Understands (m : Machine) (receiver factorial sum : Value) : Prop where
  factorial : ∃ method, IsBuilt (factorialCode factorial) 1 0 method m ∧
    m.find receiver factorial = .ok (some (.compiled method))
  sum : ∃ method, IsBuilt sumCode 1 2 method m ∧
    m.find receiver sum = .ok (some (.compiled method))

/-- What comes of the sum of the numbers up to `n`. -/
structure SumOutcome (x : ℕ → ExecutionM Value) (p : Execution) (n : ℤ) : Prop where
  negative : n < 0 → 96 ≤ p.stack.sp → Settles x p (Answered p (Value.ofInt 0))
  fits : 0 ≤ n → Value.fitsSmallInteger (n * (n + 1) / 2) = true → 96 ≤ p.stack.sp →
    Settles x p (Answered p (Value.ofInt (n * (n + 1) / 2)))
  large : 0 ≤ n → ¬Value.fitsSmallInteger (n * (n + 1) / 2) = true → 96 ≤ p.stack.sp →
    Settles x p (Failed p (NativeFailed "+"))
  overflow : p.stack.sp < 96 → Settles x p (Failed p Overflowed)

/-- What comes of the factorial of `n`. -/
structure FactorialOutcome (x : ℕ → ExecutionM Value) (p : Execution) (n : ℤ) : Prop where
  one : n ≤ 1 → factorialRoom n.toNat ≤ p.stack.sp → Settles x p (Answered p (Value.ofInt 1))
  product : 2 ≤ n → n ≤ 20 → factorialRoom n.toNat ≤ p.stack.sp →
    Settles x p (Answered p (Value.ofInt n.toNat !))
  never : 21 ≤ n → ∀ steps value q, x steps p ≠ .ok value q
  large : 21 ≤ n → factorialRoom n.toNat ≤ p.stack.sp → Settles x p (Failed p (NativeFailed "*"))
  overflow : p.stack.sp < factorialRoom n.toNat → Settles x p (Failed p Overflowed)

section Sends

variable (provides : Provides p.machine) (hlive : p.stack.sp ≤ p.stack.size)
  (hsize : p.stack.size < 2 ^ 64) (hn : Value.fitsSmallInteger n = true)
  (hfind : p.machine.find receiver selector = .ok (some (.compiled method)))
include provides hlive hsize hn hfind

/-- A send of the method that loops settles to the sum of the numbers up to the argument, if that is
a small integer. -/
lemma settles_sum (built : IsBuilt sumCode 1 2 method p.machine)
    (hfull : p.stack.sp < 96 →
      ∀ q, Q (leave p (.error (.stack .overflow) q : EStateM.Result MachineError Execution Unit)))
    (hfails : 96 ≤ p.stack.sp → 2 ^ 62 ≤ triangle n.toNat → ∀ x q, Q (leave p
      (.error (.nativeFailed "+" x) q : EStateM.Result MachineError Execution Unit)))
    (hreturns : 96 ≤ p.stack.sp → triangle n.toNat < 2 ^ 62 →
      Returns host p.machine
        (.entered p.machine method ⟨0, 2, 1⟩ receiver [Value.ofInt n] p.stack.fp 0) p.stack
        (fun outcome => Q (leave p outcome)) (Value.ofInt (triangle n.toNat))) :
    Settles (fun steps => send host steps receiver selector [Value.ofInt n]) p Q := by
  obtain ⟨g⟩ := built.exists_generated sumCode_eq
  refine g.settles_send rfl hlive hsize hfind (fun hlt => hfull ?_) ?_
  · exact hlt.trans_le (by simp)
  · exact goes_sum g provides hn hfull rfl hfails hreturns

/-- A send of the method that recurs settles to the factorial of the argument, if that is a small
integer. -/
lemma settles_factorial (built : IsBuilt (factorialCode selector) 1 0 method p.machine)
    (hfull : p.stack.sp < factorialRoom n.toNat →
      ∀ q, Q (leave p (.error (.stack .overflow) q : EStateM.Result MachineError Execution Unit)))
    (hfails : factorialRoom n.toNat ≤ p.stack.sp → 21 ≤ n → ∀ x q, Q (leave p
      (.error (.nativeFailed "*" x) q : EStateM.Result MachineError Execution Unit)))
    (hreturns : factorialRoom n.toNat ≤ p.stack.sp → n ≤ 20 →
      Returns host p.machine
        (.entered p.machine method ⟨1, 0, 1⟩ receiver [Value.ofInt n] p.stack.fp 0) p.stack
        (fun outcome => Q (leave p outcome)) (Value.ofInt n.toNat !)) :
    Settles (fun steps => send host steps receiver selector [Value.ofInt n]) p Q := by
  obtain ⟨g⟩ := built.exists_generated (factorialCode_eq selector)
  refine g.settles_send rfl hlive hsize hfind (fun hlt => hfull ?_) ?_
  · have hroom : 80 ≤ factorialRoom n.toNat := by
      unfold factorialRoom
      omega
    exact hlt.trans_le ((by simp : _ ≤ 80).trans hroom)
  cases hk : n.toNat with
  | zero =>
    rw [hk] at hfull hreturns
    exact goes_factorial_one g provides.distinct hn (by omega) rfl hfull
      fun hroom => hreturns hroom (by omega)
  | succ k =>
    obtain rfl : n = (k + 1 : ℕ) := by omega
    rw [hk] at hfull hfails hreturns
    exact goes_factorial_succ g provides (fitsSmallInteger_natCast.mp hn) rfl hfind hfull
      (fun hroom hle => hfails hroom (by omega)) fun hroom hlt => hreturns hroom (by omega)

/-- These are all outcomes of the sum. -/
lemma sumOutcome (hfp : p.stack.fp < 2 ^ 64) (built : IsBuilt sumCode 1 2 method p.machine) :
    SumOutcome (fun steps => send host steps receiver selector [Value.ofInt n]) p n := by
  have htriangle : 0 ≤ n → n * (n + 1) / 2 = (triangle n.toNat : ℕ) := fun h => by
    lift n to ℕ using h
    rfl
  constructor
  · intro hneg hroom
    have hzero : n.toNat = 0 := Int.toNat_of_nonpos hneg.le
    refine settles_sum provides hlive hsize hn hfind built (fun hlt => by omega) ?_ fun _ _ => ?_
    · rw [hzero]
      exact fun _ hlarge => absurd hlarge (by decide)
    · rw [hzero]
      exact returns_answered hfp _
  · intro hnonneg hfits hroom
    rw [htriangle hnonneg] at hfits ⊢
    have hlt := fitsSmallInteger_natCast.mp hfits
    exact settles_sum provides hlive hsize hn hfind built (fun hlt => by omega)
      (fun _ hlarge => by omega) fun _ _ => returns_answered hfp _
  · intro hnonneg hlarge hroom
    rw [htriangle hnonneg] at hlarge
    exact settles_sum provides hlive hsize hn hfind built (fun hlt => by omega)
      (fun _ _ x q => failed_leave ⟨x, rfl⟩ q)
      fun _ hlt => absurd (fitsSmallInteger_natCast.mpr hlt) hlarge
  · intro hlt
    exact settles_sum provides hlive hsize hn hfind built
      (fun _ q => failed_leave overflowed_stack q) (fun hroom => by omega) fun hroom => by omega

/-- These are all outcomes of the factorial. -/
lemma factorialOutcome (hfp : p.stack.fp < 2 ^ 64)
    (built : IsBuilt (factorialCode selector) 1 0 method p.machine) :
    FactorialOutcome (fun steps => send host steps receiver selector [Value.ofInt n]) p n := by
  have hlarge : 21 ≤ n → factorialRoom n.toNat ≤ p.stack.sp →
      Settles (fun steps => send host steps receiver selector [Value.ofInt n]) p
        (Failed p (NativeFailed "*")) := by
    intro hle hroom
    exact settles_factorial provides hlive hsize hn hfind built (fun hlt => by omega)
      (fun _ _ x q => failed_leave ⟨x, rfl⟩ q) fun _ hle' => by omega
  have hoverflow : p.stack.sp < factorialRoom n.toNat →
      Settles (fun steps => send host steps receiver selector [Value.ofInt n]) p
        (Failed p Overflowed) := by
    intro hlt
    exact settles_factorial provides hlive hsize hn hfind built
      (fun _ q => failed_leave overflowed_stack q) (fun hroom => by omega) fun hroom => by omega
  have hanswered : n ≤ 20 → factorialRoom n.toNat ≤ p.stack.sp →
      Settles (fun steps => send host steps receiver selector [Value.ofInt n]) p
        (Answered p (Value.ofInt n.toNat !)) := by
    intro hle hroom
    exact settles_factorial provides hlive hsize hn hfind built (fun hlt => by omega)
      (fun _ hle' => by omega) fun _ _ => returns_answered hfp _
  refine ⟨fun hone hroom => ?_, fun _ hle hroom => hanswered hle hroom, fun hle => ?_, hlarge,
    hoverflow⟩
  · have hfactorial : n.toNat ! = 1 := factorial_eq_one.mpr (by omega)
    have hsettles := hanswered (by omega) hroom
    rwa [hfactorial] at hsettles
  · have hnot : ∀ {kind : MachineError → Prop} value q, ¬Failed p kind (.ok value q) := by
      rintro kind value q ⟨e, q', heq, -⟩
      cases heq
    rcases Nat.lt_or_ge p.stack.sp (factorialRoom n.toNat) with hlt | hge
    · exact (hoverflow hlt).ne_ok hnot
    · exact (hlarge hle hge).ne_ok hnot

end Sends

/-- On every machine that has what the kernel gives to small integers, wherever the receiver finds
the two methods, and for every small integer: the sum and the factorial are answered if they are
small integers and there is room for them on the stack, with all else as it was. A sum that is none
fails with `+`, a factorial that is none with `*`, and either fails with an overflow if there is no
room. -/
theorem outcomes {factorial sum : Value} (provides : Provides p.machine)
    (understands : Understands p.machine receiver factorial sum) (hlive : p.stack.sp ≤ p.stack.size)
    (hsize : p.stack.size < 2 ^ 64) (hfp : p.stack.fp < 2 ^ 64) (host : Host) (n : ℤ)
    (hn : Value.fitsSmallInteger n = true) :
    SumOutcome (fun steps => send host steps receiver sum [Value.ofInt n]) p n ∧
      FactorialOutcome (fun steps => send host steps receiver factorial [Value.ofInt n]) p n := by
  obtain ⟨⟨method, built, hfind⟩, method', built', hfind'⟩ := understands
  exact ⟨sumOutcome provides hlive hsize hn hfind' hfp built',
    factorialOutcome provides hlive hsize hn hfind hfp built⟩

/-! ### A machine with the two methods -/

/-- A machine where small integers have two native methods of the kernel, and characters two methods
that are not built yet, under the characters f and s. -/
def bareSample : Machine where
  heap.words := #[0,
    -- the class of small integers and that of characters: no superclass, and the dictionary
    0x0200000101000016, 0, 56,
    0x0200000201000016, 0, 200,
    -- the dictionary of small integers, its keys and its values
    0x0300000701000011, 5, 88, 112,
    0x0200000b0200000f, 0x152, 0x15a,
    0x0200000e0200000f, 136, 168,
    -- the native methods: one argument each, and their numbers
    0x0300001101000013, 0x152, 3, 3,
    0x0300001501000013, 0x15a, 3, 1,
    -- the dictionary of characters, its keys and its values
    0x0300001901000011, 5, 232, 256,
    0x0200001d0200000f, 0x332, 0x39a,
    0x020000200200000f, 280, 320]
  heap.limit := 1024
  heap.nil := Value.zero
  heap.objectCount := 10
  nil := Value.zero
  trueObject := Value.ofChar 't'
  falseObject := Value.ofChar 'n'
  classTable := #[Value.zero, Value.ofAddress 8, Value.ofAddress 32]
  symbols := ∅
  natives := #[.integer .add, .integer .multiply]
  specialSelectors := #[Value.ofChar '+', Value.zero, Value.zero, Value.zero, Value.zero,
    Value.zero, Value.zero, Value.zero, Value.ofChar '*']
  registry := .empty
  handlerCalls := 0

/-- The machine with the two methods behind all else, and an empty stack. -/
def sample : Execution where
  machine := { bareSample with
    heap.words := bareSample.heap.words ++ #[
      -- one argument, and the selector as a literal
      0x040000231a000012, 0x02000003, 0x332, 0x4c405c51c1645140, 0x00005c6890615140,
      -- one argument and two temporaries
      0x0400002819000012, 0x02040001, 0xef644042d251d150, 0x605142d16042410c, 0x005c41efedffe1d2]
    heap.objectCount := 12 }
  stack := Stack.new 1024

/-- What is answered, if there is no error. -/
def answer? {ε σ α : Type} : EStateM.Result ε σ α → Option α
  | .ok a _ => some a
  | .error _ _ => none

/-- What is answered, with the state that is left. -/
lemma eq_ok_of_answer? {ε σ α : Type} {r : EStateM.Result ε σ α} {a : α} (h : answer? r = some a) :
    r = .ok a (stateAfter r) := by
  cases r with
  | ok _ _ =>
    obtain rfl := Option.some.inj h
    rfl
  | error _ _ => cases h

/-- Heaps are equal when all their parts are. -/
lemma heap_eq_of_parts {h h' : Heap}
    (hparts : (h.words, h.limit, h.nil, h.objectCount) =
      (h'.words, h'.limit, h'.nil, h'.objectCount)) : h = h' := by
  obtain ⟨words, limit, nil, count⟩ := h
  obtain ⟨words', limit', nil', count'⟩ := h'
  simpa using hparts

/-- Both methods are built in the sample, where the dictionary of characters has them. -/
lemma isBuilt_sample :
    IsBuilt (factorialCode (Value.ofChar 'f')) 1 0 (Value.ofAddress 280) sample.machine ∧
      IsBuilt sumCode 1 2 (Value.ofAddress 320) sample.machine := by
  have hfactorial := eq_ok_of_answer? (a := Value.ofAddress 280)
    (r := Machine.build (factorialCode (Value.ofChar 'f')) 1 0 bareSample) (by decide +kernel)
  have hsum := eq_ok_of_answer? (a := Value.ofAddress 320) (r := Machine.build sumCode 1 2
    (stateAfter (Machine.build (factorialCode (Value.ofChar 'f')) 1 0 bareSample)))
    (by decide +kernel)
  obtain ⟨built, built'⟩ :=
    IsBuilt.of_build_build ⟨by decide, by decide, by decide⟩ hfactorial hsum
  have hheap : (stateAfter (Machine.build sumCode 1 2 (stateAfter
      (Machine.build (factorialCode (Value.ofChar 'f')) 1 0 bareSample)))).heap =
        sample.machine.heap := heap_eq_of_parts (by decide +kernel)
  exact ⟨built.keep (hheap ▸ .refl _ _), built'.keep (hheap ▸ .refl _ _)⟩

/-- The sample has what the kernel gives to small integers. -/
lemma provides_sample : Provides sample.machine := by
  have hindex : ∀ n, sample.machine.heap.classIndexOf (Value.ofInt n) =
      .ok ClassIndex.smallInteger :=
    fun n => classIndexOf_of_toInt? (Value.toInt?_ofInt_bmod n)
  have hcls : ∀ n, sample.machine.classOf (Value.ofInt n) = .ok (Value.ofAddress 8) := by
    have hclass : sample.machine.classAt? ClassIndex.smallInteger = some (Value.ofAddress 8) := by
      decide +kernel
    intro n
    simp only [Machine.classOf, hindex, Except.ofHeap, bind, Except.bind, hclass]
    rfl
  refine ⟨by decide +kernel, ⟨Value.ofChar '+', by decide +kernel, fun n => ?_⟩,
    ⟨Value.ofChar '*', by decide +kernel, fun n => ?_⟩⟩
  · refine ⟨⟨"+", 1, .integer .add⟩, ⟨_, hindex n, .inl (by decide)⟩, rfl, 0, ?_, by decide +kernel⟩
    rw [Machine.find, hcls]
    decide +kernel
  · refine ⟨⟨"*", 1, .integer .multiply⟩, ⟨_, hindex n, .inl (by decide)⟩, rfl, 1, ?_,
      by decide +kernel⟩
    rw [Machine.find, hcls]
    decide +kernel

/-- In the sample the sum of the numbers up to 5 is 15 and the factorial of 5 is 120. -/
theorem outcomes_sample :
    Provides sample.machine ∧
    Understands sample.machine (Value.ofChar 'd') (Value.ofChar 'f') (Value.ofChar 's') ∧
    sample.stack.sp ≤ sample.stack.size ∧ sample.stack.size < 2 ^ 64 ∧ sample.stack.fp < 2 ^ 64 ∧
    Value.fitsSmallInteger 5 = true ∧
    SumOutcome (fun steps =>
      send Host.none steps (Value.ofChar 'd') (Value.ofChar 's') [Value.ofInt 5]) sample 5 ∧
    FactorialOutcome (fun steps =>
      send Host.none steps (Value.ofChar 'd') (Value.ofChar 'f') [Value.ofInt 5]) sample 5 ∧
    Settles (fun steps =>
      send Host.none steps (Value.ofChar 'd') (Value.ofChar 's') [Value.ofInt 5]) sample
      (Answered sample (Value.ofInt 15)) ∧
    Settles (fun steps =>
      send Host.none steps (Value.ofChar 'd') (Value.ofChar 'f') [Value.ofInt 5]) sample
      (Answered sample (Value.ofInt 120)) := by
  have understands : Understands sample.machine (Value.ofChar 'd') (Value.ofChar 'f')
      (Value.ofChar 's') :=
    ⟨⟨_, isBuilt_sample.1, by decide +kernel⟩, ⟨_, isBuilt_sample.2, by decide +kernel⟩⟩
  have hlive : sample.stack.sp ≤ sample.stack.size := by decide +kernel
  have hsize : sample.stack.size < 2 ^ 64 := by decide +kernel
  have hfp : sample.stack.fp < 2 ^ 64 := by decide +kernel
  have hn : Value.fitsSmallInteger 5 = true := by decide
  obtain ⟨hsum, hfactorial⟩ :=
    outcomes provides_sample understands hlive hsize hfp Host.none 5 hn
  exact ⟨provides_sample, understands, hlive, hsize, hfp, hn, hsum, hfactorial,
    hsum.fits (by decide) (by decide) (by decide +kernel),
    hfactorial.product (by decide) (by decide) (by decide +kernel)⟩

end Demo

end TalkMachine
