import TalkMachine.Proofs.Interpreter.Instructions
import TalkMachine.Proofs.Interpreter.Runs
import TalkMachine.Proofs.Method

/-!
# The chain of callers

The registers of a running method, its frame, the caller's frame, the frame of the caller's caller,
and so on, fit together: each frame lies where the arguments of its caller end, and its saved words
are the frame pointer and the program counter of its caller (`Interpreter.Chain`). What the caller
has on the stack above the receiver of its send is as it was.

The chain is kept by all that a running method does in its frame (`Interpreter.Chain.keepsFrame`),
gets longer with an activation (`Interpreter.Chain.activate`), and loses its first frame with a
return (`Interpreter.Chain.exists_return`).
-/

namespace TalkMachine

namespace Interpreter

open Execution

variable {h h' : Heap} {r r' : Registers} {s s' : Stack} {callers : List Caller} {caller : Caller}

/-- The frame in use on a stack is one of the running method. -/
structure InFrame (h : Heap) (r : Registers) (s : Stack) : Prop where
  compiled : h.isCompiledMethod r.method = true
  header : h.methodHeader r.method = .ok r.header
  size : s.size < 2 ^ 64
  room : s.sp + 32 + 8 * r.header.tempCount ≤ s.fp
  above : s.fp + 24 + 8 * r.header.argumentCount ≤ s.size
  method : s.load 8 (s.fp - 8) = r.method.raw
  metadata : s.load 8 (s.fp - 16) =
    (FrameMetadata.ofArgumentCount r.header.argumentCount).pack

/-- The frame in use on a stack has been activated by a caller with so many arguments. -/
structure CalledBy (caller : Caller) (argumentCount : ℕ) (s : Stack) : Prop where
  argumentCount : argumentCount = caller.argumentCount
  base : s.fp + 16 = caller.stack.sp
  callerFp : s.load 8 s.fp = UInt64.ofNat caller.stack.fp
  returnPc : s.load 8 (s.fp + 8) = UInt64.ofNat caller.registers.pc
  same : Stack.SameFrom (caller.stack.sp + 8 * caller.argumentCount + 8) caller.stack s
  pos : 0 < caller.registers.pc
  lt : caller.registers.pc < 2 ^ 64
  operands : caller.stack.sp + 8 * (caller.argumentCount + 1) + 32 +
    8 * caller.registers.header.tempCount ≤ caller.stack.fp

/-- The frame in use and those of the callers fit together. The last one ends the run. -/
inductive Chain (h : Heap) : Registers → Stack → List Caller → Prop
  /-- The frame that began the run. -/
  | entry {r : Registers} {s : Stack} (frame : InFrame h r s)
      (returnPc : s.load 8 (s.fp + 8) = 0) : Chain h r s []
  /-- The frame of a method that was activated by a send. -/
  | called {r : Registers} {s : Stack} {caller : Caller} {callers : List Caller}
      (frame : InFrame h r s) (called : CalledBy caller r.header.argumentCount s)
      (rest : Chain h caller.registers caller.stack callers) : Chain h r s (caller :: callers)

/-- A caller goes on with a value in the place of the receiver and the arguments that it sent. All
its words above these are as they were: its operands below the receiver, its temporaries, its saved
words, its own receiver and its arguments. -/
structure Resumes (caller : Caller) (value : Value) (s : Stack) : Prop extends
    Replaced value caller.argumentCount caller.stack s where
  operands : caller.stack.sp + 8 * (caller.argumentCount + 1) + 32 +
    8 * caller.registers.header.tempCount ≤ caller.stack.fp

/-- A value in the place of a receiver and arguments that are operands of the frame keeps it. -/
lemma Replaced.keepsFrame {value : Value} {argumentCount : ℕ} {header : MethodHeader}
    (replaced : Replaced value argumentCount s s')
    (hoperands : s.sp + 8 * (argumentCount + 1) + 32 + 8 * header.tempCount ≤ s.fp) :
    KeepsFrame header s s' := by
  have hsp := replaced.sp
  exact ⟨.of_sameFrom replaced.same replaced.fp (by omega), by omega⟩

/-! ### The frame in use -/

namespace InFrame

/-- A method has few arguments and temporaries. -/
lemma counts_lt (frame : InFrame h r s) :
    r.header.argumentCount < 256 ∧ r.header.tempCount < 256 :=
  Heap.counts_lt_of_methodHeader frame.header

/-- The frame is still one of the method while nothing is stored into the method. -/
lemma keeps (frame : InFrame h r s) (keeps : Heap.Keeps r.method h h') : InFrame h' r s :=
  { frame with
    compiled := by rw [keeps.isCompiledMethod, frame.compiled]
    header := by rw [keeps.methodHeader, frame.header] }

/-- The frame is still one of the method after a change in it. -/
lemma keepsFrame (frame : InFrame h r s) (keeps : KeepsFrame r.header s s') (pc : ℕ) :
    InFrame h { r with pc := pc } s' := by
  have hroom := frame.room
  have habove := frame.above
  constructor
  · exact frame.compiled
  · exact frame.header
  · rw [keeps.same.size]
    exact frame.size
  · rw [keeps.same.fp]
    exact keeps.room
  · rw [keeps.same.fp, keeps.same.size]
    exact frame.above
  · rw [keeps.same.fp, keeps.same.load (by omega) (by omega) (by omega)]
    exact frame.method
  · rw [keeps.same.fp, keeps.same.load (by omega) (by omega) (by omega)]
    exact frame.metadata

/-- An activation leaves the frame of the activated method in use. -/
lemma activate {method : Value} {header : MethodHeader} {returnPc pc : ℕ}
    (hcompiled : h.isCompiledMethod method = true) (hheader : h.methodHeader method = .ok header)
    (hsize : s.size < 2 ^ 64) (hlive : s.sp + 8 * header.argumentCount + 8 ≤ s.size)
    (activated : Activated method header returnPc s s') : InFrame h ⟨method, header, pc⟩ s' := by
  have hfp := activated.fp
  have hsp := activated.sp
  have hsame := activated.same.size
  constructor
  · exact hcompiled
  · exact hheader
  · omega
  · dsimp only
    omega
  · dsimp only
    omega
  · exact activated.method
  · exact activated.metadata

end InFrame

namespace CalledBy

/-- What the running method does in its frame does not change who called it. -/
lemma keepsFrame {header : MethodHeader} (called : CalledBy caller header.argumentCount s)
    (hsize : s.fp + 24 + 8 * header.argumentCount ≤ s.size) (keeps : KeepsFrame header s s') :
    CalledBy caller header.argumentCount s' := by
  have hbase := called.base
  have hargs := called.argumentCount
  have hsame := called.same.size
  constructor
  · exact called.argumentCount
  · rw [keeps.same.fp]
    exact called.base
  · rw [keeps.same.fp, keeps.same.load (by omega) (by omega) (by omega)]
    exact called.callerFp
  · rw [keeps.same.fp, keeps.same.load (by omega) (by omega) (by omega)]
    exact called.returnPc
  · constructor
    · rw [keeps.same.size, hsame]
    · intro b hb hlt
      rw [keeps.same.byteAt b (by omega) (by omega) (by omega), called.same.byteAt b hb hlt]
  · exact called.pos
  · exact called.lt
  · exact called.operands

end CalledBy

/-! ### The chain -/

namespace Chain

/-- The frame in use is one of the running method. -/
lemma frame (chain : Chain h r s callers) : InFrame h r s := by
  cases chain with
  | entry frame returnPc => exact frame
  | called frame called rest => exact frame

/-- The chain holds as long as nothing is stored into the methods of its frames. -/
lemma keeps (chain : Chain h r s callers)
    (keeps : ∀ method ∈ r.method :: callers.map (·.registers.method),
      Heap.Keeps method h h') : Chain h' r s callers := by
  induction chain with
  | entry frame returnPc => exact .entry (frame.keeps (keeps _ (by simp))) returnPc
  | called frame called rest ih =>
    refine .called (frame.keeps (keeps _ (by simp))) called (ih ?_)
    intro method hmethod
    apply keeps
    rw [List.map_cons]
    exact List.mem_cons_of_mem _ hmethod

/-- What a running method does in its frame keeps the chain. -/
theorem keepsFrame (chain : Chain h r s callers) (keeps : KeepsFrame r.header s s') (pc : ℕ) :
    Chain h { r with pc := pc } s' callers := by
  cases chain with
  | entry frame returnPc =>
    refine .entry (frame.keepsFrame keeps pc) ?_
    have habove := frame.above
    rw [keeps.same.fp, keeps.same.load (by omega) (by omega) (by omega)]
    exact returnPc
  | called frame called rest =>
    exact .called (frame.keepsFrame keeps pc) (called.keepsFrame frame.above keeps) rest

/-- An activation makes the running frame a caller. -/
theorem activate (chain : Chain h r s callers) {method : Value} {header : MethodHeader} (pc : ℕ)
    (hcompiled : h.isCompiledMethod method = true) (hheader : h.methodHeader method = .ok header)
    (hpos : 0 < r.pc) (hlt : r.pc < 2 ^ 64)
    (hoperands : s.sp + 8 * (header.argumentCount + 1) + 32 + 8 * r.header.tempCount ≤ s.fp)
    (activated : Activated method header r.pc s s') :
    Chain h ⟨method, header, pc⟩ s' (⟨r, s, header.argumentCount⟩ :: callers) := by
  have habove := chain.frame.above
  refine .called ?_ ?_ chain
  · exact .activate hcompiled hheader chain.frame.size (by omega) activated
  · exact ⟨rfl, activated.fp, activated.callerFp, activated.returnPc,
      activated.same.mono (by dsimp only; omega), hpos, hlt, hoperands⟩

/-- The caller's method is still in the caller's frame when the callee's frame is taken down. -/
lemma frameMethod_of_takenDown {value : Value} (frame : InFrame h caller.registers caller.stack)
    (called : CalledBy caller r.header.argumentCount s)
    (down : TakenDown value r.header.argumentCount s s') :
    s'.frameMethod = .ok caller.registers.method := by
  have hbase := called.base
  have hargs := called.argumentCount
  have hoperands := called.operands
  have habove := frame.above
  have hlt := frame.size
  have hsp := down.sp
  have hsize := called.same.size
  have hsize' := down.same.size
  have hfp : s'.fp = caller.stack.fp := by
    rw [down.fp, called.callerFp, UInt64.toNat_ofNat_of_lt' (by simp only [UInt64.size]; omega)]
  have hload : s'.load 8 (caller.stack.fp - 8) = caller.registers.method.raw := by
    rw [down.same.load (by omega) (by omega), called.same.load (by omega) (by omega), frame.method]
  refine (Stack.frameValue_sub_eq_ok_iff 8 (by omega) (by omega)).mpr ⟨?_, ?_, ?_⟩
  · omega
  · omega
  · rw [hfp, hload]

/-- Taking down the frame of a callee puts the value in the place of what the caller sent. -/
lemma resumes_of_takenDown {value : Value} (frame : InFrame h caller.registers caller.stack)
    (called : CalledBy caller r.header.argumentCount s)
    (down : TakenDown value r.header.argumentCount s s') : Resumes caller value s' := by
  have hbase := called.base
  have hargs := called.argumentCount
  have hoperands := called.operands
  have habove := frame.above
  have hlt := frame.size
  refine ⟨⟨?_, ?_, ?_, down.top⟩, called.operands⟩
  · rw [down.fp, called.callerFp, UInt64.toNat_ofNat_of_lt' (by simp only [UInt64.size]; omega)]
  · rw [down.sp]
    omega
  · exact called.same.trans (down.same.mono (by omega))

/-- A return always succeeds. It ends the run when there are no callers; otherwise the nearest
caller goes on. -/
theorem exists_return {p : Execution} (chain : Chain p.machine.heap r p.stack callers)
    (value : Value) : ∃ s', match callers with
      | [] => returnValue value p = .ok none ⟨p.machine, s'⟩
      | caller :: rest => returnValue value p = .ok (some caller.registers) ⟨p.machine, s'⟩ ∧
          Resumes caller value s' ∧ Chain p.machine.heap caller.registers s' rest := by
  have frame := chain.frame
  have hroom := frame.room
  have habove := frame.above
  have hlt := frame.size
  have hmetadata := frame.metadata
  obtain ⟨s', down, hresume⟩ := exists_takenDown value
    (by rw [hmetadata, FrameMetadata.argumentCount_unpack frame.counts_lt.1]) (by omega) (by omega)
    (by omega)
  refine ⟨s', ?_⟩
  cases chain with
  | entry frame returnPc =>
    rw [hresume, returnPc]
    exact resume_zero
  | @called _ _ caller rest frame called chain =>
    have resumes := resumes_of_takenDown chain.frame called down
    have hpc : (p.stack.load 8 (p.stack.fp + 8)).toNat = caller.registers.pc := by
      rw [called.returnPc, UInt64.toNat_ofNat_of_lt' called.lt]
    rw [hpc] at hresume
    have hreturn := resume_eq_ok (p := ⟨p.machine, s'⟩) called.pos.ne'
      (frameMethod_of_takenDown chain.frame called down) chain.frame.compiled chain.frame.header
    exact ⟨hresume.trans hreturn, resumes,
      chain.keepsFrame (resumes.toReplaced.keepsFrame resumes.operands) caller.registers.pc⟩

end Chain

end Interpreter

end TalkMachine
