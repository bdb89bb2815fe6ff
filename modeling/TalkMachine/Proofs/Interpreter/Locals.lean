import TalkMachine.Proofs.Interpreter.Activation
import TalkMachine.Proofs.Interpreter.CallReturn

/-!
# Arguments and temporaries of a frame

A frame that was built on top of a receiver and arguments holds the arguments and, behind them, the
temporaries, each at an address of its own (`Stack.HoldsLocals`). This is so after whatever a method
does with its frame: it assigns to these variables, and pushes and pops words below them
(`Interpreter.Uses`). At any time a return then leaves the stack as it was before the receiver was
pushed, with one value more. The main statement is `Interpreter.holds_of_activate`.
-/

namespace TalkMachine

/-- Distances of the words that a frame with so many arguments has beside its variables: those that it
needs for itself, and the receiver that the caller has pushed. -/
def Frame.controls (argumentCount : ℕ) : List ℤ :=
  [Frame.returnPc, 0, Frame.method, Frame.metadata, Frame.thisContext, Frame.receiver,
    Frame.firstArgument + Stack.wordDistance argumentCount]

namespace Stack

variable {s : Stack} {argumentCount tempCount : ℕ} {values : List Value}

/-- Whether the words at two addresses have no byte in common. -/
def Apart (address address' : ℕ) : Prop :=
  address + wordSize ≤ address' ∨ address' + wordSize ≤ address

/-- Whether a frame with so many arguments and temporaries holds these values in them. -/
structure HoldsLocals (argumentCount tempCount : ℕ) (values : List Value) (s : Stack) : Prop where
  /-- Each is read at an address that is live. -/
  reads : ∀ (index : ℕ) (value : Value), values[index]? = some value →
    ∃ address, s.tempAddress argumentCount tempCount index = .ok address ∧
      s.isLive address = true ∧ s.readValue address = .ok value
  /-- They have nothing in common. -/
  apart : ∀ (index index' address address' : ℕ), index ≠ index' →
    s.tempAddress argumentCount tempCount index = .ok address →
    s.tempAddress argumentCount tempCount index' = .ok address' → Apart address address'
  /-- Nor have they with the other words of the frame. -/
  control : ∀ distance ∈ Frame.controls argumentCount, ∃ place, s.frameAddress distance = .ok place ∧
    ∀ index address, s.tempAddress argumentCount tempCount index = .ok address →
      Apart address place
  /-- There are no more of them. -/
  beyond : ∀ index, values.length ≤ index →
    s.tempAddress argumentCount tempCount index = .error (.tempOutOfRange (UInt32.ofNat index))

/-- Two different indices name words that have nothing in common. -/
lemma apart_of_tempAddress {index index' address address' : ℕ} (hargs : argumentCount < 256)
    (htemps : tempCount < 256) (hne : index ≠ index')
    (h : s.tempAddress argumentCount tempCount index = .ok address)
    (h' : s.tempAddress argumentCount tempCount index' = .ok address') : Apart address address' := by
  have hcases := tempAddress_cases hargs htemps h
  have hcases' := tempAddress_cases hargs htemps h'
  unfold Apart
  simp only [wordSize]
  omega

/-- The words that a frame has beside its variables lie between the arguments and the temporaries or
behind them. -/
lemma exists_control (hargs : argumentCount < 256) (htemps : tempCount < 256) (hlow : 32 ≤ s.fp)
    (hhigh : s.fp + 24 + 8 * argumentCount ≤ 2 ^ 64) {distance : ℤ}
    (hdistance : distance ∈ Frame.controls argumentCount) :
    ∃ place, s.frameAddress distance = .ok place ∧
      ∀ index address, s.tempAddress argumentCount tempCount index = .ok address →
        Apart address place := by
  have hrange : (-32 ≤ distance ∧ distance ≤ 8) ∨ distance = 16 + 8 * argumentCount := by
    simp only [Frame.controls, wordDistance_eq hargs, Frame.returnPc, Frame.method, Frame.metadata,
      Frame.thisContext, Frame.receiver, Frame.firstArgument, List.mem_cons, List.not_mem_nil,
      or_false] at hdistance
    omega
  have hplace : s.frameAddress distance = .ok (s.fp + distance).toNat := by
    unfold frameAddress
    exact if_pos (by omega)
  refine ⟨_, hplace, fun index address h => ?_⟩
  have hcases := tempAddress_cases hargs htemps h
  unfold Apart
  simp only [wordSize]
  omega

end Stack

namespace Activation

variable {a : Activation} {base s : Stack} {operands : List Value}

/-- The variables of an activation are what its frame holds. -/
theorem On.holdsLocals (h : a.On base operands s) :
    s.HoldsLocals a.arguments.length a.temporaries.length a.locals := by
  have hsp := h.sp_add
  have hfp := h.fp_lt
  have hsize := h.topped.same.size
  have hlt := h.size_lt
  constructor
  · intro index value hvalue
    have hindex := (List.getElem?_eq_some_iff.mp hvalue).1
    have hread := h.readValue hvalue
    obtain ⟨hlive, hfits, -⟩ := Stack.readValue_eq_ok_iff.mp hread
    refine ⟨_, h.tempAddress_eq hindex, ?_, hread⟩
    simp only [Stack.isLive, wordSize, Bool.and_eq_true, decide_eq_true_eq]
    exact ⟨hlive, hfits⟩
  · intro index index' address address' hne
    exact Stack.apart_of_tempAddress h.arguments_lt h.temporaries_lt hne
  · intro distance hdistance
    exact Stack.exists_control h.arguments_lt h.temporaries_lt (by omega) (by omega) hdistance
  · intro index hindex
    rw [length_locals] at hindex
    exact Stack.tempAddress_eq_error hindex

end Activation

namespace Interpreter

open Execution

/-- What a method does with its frame. It assigns to its variables, it pushes words, and it pops as
many again, which leads from the stack `start` on which the variables have the values `initial` to a
stack on which they have others. -/
inductive Uses (header : MethodHeader) (start : Stack) (initial : List Value) :
    List Value → Stack → Prop
  | none : Uses header start initial initial start
  | assign {values : List Value} {s s' : Stack} {index address : ℕ} {value : Value}
      (uses : Uses header start initial values s)
      (haddress : s.tempAddress header.argumentCount header.tempCount index = .ok address)
      (hwrite : Stack.write address value.raw s = .ok () s') :
      Uses header start initial (values.set index value) s'
  | push {values : List Value} {s s' : Stack} {word : UInt64}
      (uses : Uses header start initial values s) (hpush : Stack.pushWord word s = .ok () s') :
      Uses header start initial values s'
  | pop {values : List Value} {s s' : Stack} {word : UInt64}
      (uses : Uses header start initial values s) (hpop : Stack.popWord s = .ok word s')
      (hsp : s'.sp ≤ start.sp) : Uses header start initial values s'

/-- What holds of a frame on top of the stack `base` as long as it stands: it has its variables, and a
return takes it down to `base` with one value on top. It ends the run if there is no program counter
to return to. -/
structure Holds (header : MethodHeader) (returnPc : ℕ) (base : Stack) (values : List Value)
    (s : Stack) : Prop where
  holdsLocals : s.HoldsLocals header.argumentCount header.tempCount values
  returns : ∀ (m : Machine) (value : Value), ∃ s',
    stateAfter (returnValue value ⟨m, s⟩) = ⟨m, s'⟩ ∧ Stack.Topped [value.raw] base s' ∧
      s'.fp = base.fp ∧ (returnPc = 0 → returnValue value ⟨m, s⟩ = .ok none ⟨m, s'⟩)

/-- Whether some activation of a method with the given values lies on a stack. -/
def HasActivation (header : MethodHeader) (returnPc : ℕ) (base : Stack) (values : List Value)
    (s : Stack) : Prop :=
  ∃ (a : Activation) (operands : List Value), a.On base operands s ∧ a.locals = values ∧
    a.arguments.length = header.argumentCount ∧ a.temporaries.length = header.tempCount ∧
    a.callerFp = base.fp ∧ a.returnPc = returnPc

variable {header : MethodHeader} {returnPc : ℕ} {base start s : Stack} {initial values : List Value}

/-- A frame with an activation holds its values. -/
lemma HasActivation.holds (hfp : base.fp < 2 ^ 64)
    (h : HasActivation header returnPc base values s) : Holds header returnPc base values s := by
  obtain ⟨a, operands, on, rfl, hargs, htemps, hcaller, hreturn⟩ := h
  refine ⟨hargs ▸ htemps ▸ on.holdsLocals, fun m value => ?_⟩
  obtain ⟨s', htopped, hfp', heq⟩ := on.returnValue m value
  refine ⟨s', ?_, htopped, ?_, fun hzero => ?_⟩
  · rw [heq, stateAfter_resume]
  · rw [hfp', hcaller, UInt64.toNat_ofNat_of_lt' hfp]
  · rw [heq, hreturn, hzero]
    exact resume_zero

/-- An activation stays, with the values that are assigned, whatever a method does with its frame. -/
theorem Uses.hasActivation (hstart : HasActivation header returnPc base initial start)
    (hsp : start.sp + 8 * header.tempCount + 56 + 8 * header.argumentCount = base.sp)
    (uses : Uses header start initial values s) : HasActivation header returnPc base values s := by
  induction uses with
  | none => exact hstart
  | @assign values s s' index address value uses haddress hwrite ih =>
    obtain ⟨a, operands, on, rfl, hargs, htemps, hcaller, hreturn⟩ := ih
    rw [← hargs, ← htemps] at haddress
    have hindex : index < a.locals.length := by
      by_contra hbeyond
      rw [on.holdsLocals.beyond index (not_lt.mp hbeyond)] at haddress
      cases haddress
    obtain rfl := Except.ok.inj ((on.tempAddress_eq hindex).symm.trans haddress)
    obtain ⟨hwrite', on'⟩ := on.assign hindex value
    obtain ⟨-, rfl⟩ := EStateM.Result.ok.inj (hwrite'.symm.trans hwrite)
    refine ⟨a.assign index value, operands, on', Activation.locals_assign, ?_, ?_, ?_, ?_⟩
    · rw [Activation.length_arguments_assign, hargs]
    · rw [Activation.length_temporaries_assign, htemps]
    · rw [Activation.callerFp_assign, hcaller]
    · rw [Activation.returnPc_assign, hreturn]
  | @push values s s' word uses hpush ih =>
    obtain ⟨a, operands, on, hrest⟩ := ih
    have hpush' : Stack.Pushed (⟨word⟩ : Value).raw s s' := Stack.pushed_of_pushWord hpush
    exact ⟨a, ⟨word⟩ :: operands, on.push hpush', hrest⟩
  | @pop values s s' word uses hpop hlow ih =>
    obtain ⟨a, operands, on, hvalues, hargs, htemps, hrest⟩ := ih
    obtain ⟨-, -, rfl⟩ := Stack.popWord_eq_ok_iff.mp hpop
    have hon := on.sp_add
    have hfp := on.fp
    rw [Stack.sp_restore] at hlow
    cases operands with
    | nil =>
      rw [List.length_nil] at hon
      omega
    | cons value rest =>
      have hfront : a.On base ([value] ++ rest) s := on
      exact ⟨a, rest, hfront.drop, hvalues, hargs, htemps, hrest⟩

/-- A frame that was built on top of a receiver and arguments holds the arguments and, as temporaries,
nil. Whatever a method does with it, each variable keeps the value that it was assigned last, and a
return leaves the stack as it was before the receiver was pushed, with the value on top. -/
theorem holds_of_activate {p p' : Execution} {r : Registers} {method receiver : Value}
    {arguments : List Value} (hsize : p.stack.size < 2 ^ 64) (hfp : p.stack.fp < 2 ^ 64)
    (h : (do
      push receiver
      arguments.forM push
      activate method returnPc arguments.length) p = .ok r p') :
    ∃ header, p.machine.heap.methodHeader method = .ok header ∧
      header.argumentCount = arguments.length ∧ r = ⟨method, header, header.initialPc⟩ ∧
      p'.machine = p.machine ∧ ∀ values s, Uses header p'.stack
        (arguments ++ List.replicate header.tempCount p.machine.nil) values s →
          Holds header returnPc p.stack values s := by
  obtain ⟨_, p₁, hreceiver, h⟩ := run_bind_eq_ok_iff.mp h
  obtain ⟨_, p₂, harguments, h⟩ := run_bind_eq_ok_iff.mp h
  obtain ⟨hreceiver, hmachine₁⟩ := push_eq_ok_iff.mp hreceiver
  have hpushed := Stack.pushed_of_pushWord hreceiver
  obtain ⟨hpushedAll, hmachine₂⟩ := pushedAll_of_forM_push harguments
  -- The activation has its operands on the stack, so there was a stack to push them on.
  obtain ⟨-, -, -, -, hlive, -⟩ := activated_of_activate h
  have hfits : p.stack.sp ≤ p.stack.size := by
    have hsp := hpushed.sp
    have hsp' := hpushedAll.sp
    rw [hpushedAll.same.size, hpushed.same.size] at hlive
    rw [List.length_map] at hsp'
    omega
  have htopped : Stack.Topped (arguments.reverse.map Value.raw ++ [receiver.raw]) p.stack
      p₂.stack := by
    have hframe := ((Stack.Topped.refl hfits).push hpushed).pushAll hpushedAll
    rwa [← List.map_reverse] at hframe
  obtain ⟨header, hheader, hcount, hr, hmachine, on⟩ := exists_on_of_activate htopped hsize h
  have hnil : p₂.machine = p.machine := hmachine₂.trans hmachine₁
  rw [hnil] at hheader hmachine on
  refine ⟨header, hheader, hcount, hr, hmachine, fun values s uses => ?_⟩
  have hstart : HasActivation header returnPc p.stack
      (arguments ++ List.replicate header.tempCount p.machine.nil) p'.stack := by
    refine ⟨_, _, on, rfl, hcount.symm, List.length_replicate, ?_, rfl⟩
    exact hpushedAll.fp.trans hpushed.fp
  have hsp := on.sp_add
  have hbase := on.fp
  simp only [List.length_nil, List.length_replicate] at hsp hbase
  exact (uses.hasActivation hstart (by omega)).holds hfp

/-- A method of the sample with one argument and one temporary. -/
def sampleCallee : Value :=
  Value.ofAddress 96

/-- In the sample the method with one argument and one temporary is activated with the argument 5. Its
frame holds 5 and nil and, once 3 is assigned to the temporary, 5 and 3. -/
theorem holds_of_activate_sample : ∃ r p' address s, (do
      push (Value.ofInt 7)
      [Value.ofInt 5].forM push
      activate sampleCallee 0 [Value.ofInt 5].length) Moment.sampleExecution = .ok r p' ∧
    p'.stack.tempAddress 1 1 1 = .ok address ∧
    Stack.write address (Value.ofInt 3).raw p'.stack = .ok () s ∧
    Holds ⟨0, 1, 1⟩ 0 Moment.sampleExecution.stack [Value.ofInt 5, Value.zero] p'.stack ∧
    Holds ⟨0, 1, 1⟩ 0 Moment.sampleExecution.stack [Value.ofInt 5, Value.ofInt 3] s := by
  cases hrun : (do
      push (Value.ofInt 7)
      [Value.ofInt 5].forM push
      activate sampleCallee 0 [Value.ofInt 5].length) Moment.sampleExecution with
  | error e p' =>
    have hok : outcome ((do
        push (Value.ofInt 7)
        [Value.ofInt 5].forM push
        activate sampleCallee 0 [Value.ofInt 5].length) Moment.sampleExecution) =
          .ok ⟨sampleCallee, ⟨0, 1, 1⟩, 8⟩ := by decide +kernel
    rw [hrun] at hok
    cases hok
  | ok r p' =>
    obtain ⟨header, hheader, -, -, -, hholds⟩ :=
      holds_of_activate (by decide +kernel) (by decide +kernel) hrun
    have hknown : Moment.sampleExecution.machine.heap.methodHeader sampleCallee =
        .ok ⟨0, 1, 1⟩ := by decide +kernel
    obtain rfl := Except.ok.inj (hheader.symm.trans hknown)
    have hstart := hholds _ _ .none
    obtain ⟨address, haddress, -, hread⟩ := hstart.holdsLocals.reads 1 Value.zero rfl
    obtain ⟨hsp, hfits, -⟩ := Stack.readValue_eq_ok_iff.mp hread
    have hwrite : Stack.write address (Value.ofInt 3).raw p'.stack = .ok () _ :=
      Stack.write_eq_ok_iff.mpr ⟨hsp, hfits, rfl⟩
    exact ⟨r, p', address, _, rfl, haddress, hwrite, hstart, hholds _ _ (.assign .none haddress hwrite)⟩

end Interpreter

end TalkMachine
