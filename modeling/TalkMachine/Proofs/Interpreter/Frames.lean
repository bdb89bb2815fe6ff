import TalkMachine.Interpreter.Step
import TalkMachine.Proofs.Interpreter.Execution
import TalkMachine.Proofs.Stack.Frame

/-!
# Building and taking down frames

An activation puts a frame below the receiver and the arguments
(`Interpreter.activated_of_activate`) and a return takes it down again, from what is in the frame
alone (`Interpreter.exists_takenDown`). Both keep all that the caller has on the stack above.
-/

namespace TalkMachine

namespace Interpreter

open Execution

variable {p p' : Execution} {r : Registers}

/-! ### Pushes -/

/-- A push of a value is a push of its word. -/
lemma push_eq_ok_iff {value : Value} :
    push value p = .ok () p' ↔
      Stack.pushWord value.raw p.stack = .ok () p'.stack ∧ p'.machine = p.machine :=
  onStack_eq_ok_iff

/-- A value pushed several times. -/
lemma pushedAll_of_pushTimes {value : Value} {count : ℕ} (h : pushTimes value count p = .ok () p') :
    Stack.PushedAll (List.replicate count value.raw) p.stack p'.stack ∧
      p'.machine = p.machine := by
  induction count generalizing p with
  | zero =>
    obtain ⟨-, rfl⟩ := pure_eq_ok_iff.mp h
    exact ⟨rfl, rfl⟩
  | succ count ih =>
    obtain ⟨_, t, hpush, hrest⟩ := run_bind_eq_ok_iff.mp h
    obtain ⟨hpush, hmachine⟩ := push_eq_ok_iff.mp hpush
    obtain ⟨hrest, hmachine'⟩ := ih hrest
    refine ⟨⟨t.stack, Stack.pushed_of_pushWord hpush, hrest⟩, ?_⟩
    rw [hmachine', hmachine]

/-- Several values pushed, the first one first. -/
lemma pushedAll_of_forM_push {values : List Value} (h : values.forM push p = .ok () p') :
    Stack.PushedAll (values.map Value.raw) p.stack p'.stack ∧ p'.machine = p.machine := by
  induction values generalizing p with
  | nil =>
    obtain ⟨-, rfl⟩ := pure_eq_ok_iff.mp h
    exact ⟨rfl, rfl⟩
  | cons value rest ih =>
    obtain ⟨_, t, hpush, hrest⟩ := run_bind_eq_ok_iff.mp h
    obtain ⟨hpush, hmachine⟩ := push_eq_ok_iff.mp hpush
    obtain ⟨hrest, hmachine'⟩ := ih hrest
    exact ⟨⟨t.stack, Stack.pushed_of_pushWord hpush, hrest⟩, hmachine'.trans hmachine⟩

/-! ### Activations -/

/-- `s'` is `s` with a frame on top. -/
structure Activated (method : Value) (header : MethodHeader) (returnPc : ℕ) (s s' : Stack) :
    Prop where
  fp : s'.fp + 16 = s.sp
  sp : s'.sp + 32 + 8 * header.tempCount = s'.fp
  same : Stack.SameFrom s.sp s s'
  returnPc : s'.load 8 (s'.fp + 8) = UInt64.ofNat returnPc
  callerFp : s'.load 8 s'.fp = UInt64.ofNat s.fp
  method : s'.load 8 (s'.fp - 8) = method.raw
  metadata : s'.load 8 (s'.fp - 16) = (FrameMetadata.ofArgumentCount header.argumentCount).pack

/-- The words of a frame, one pushed after the other, make up a frame. -/
lemma activated_of_pushes {method nil receiver : Value} {header : MethodHeader} {returnPc : ℕ}
    {s s₁ s₂ s' : Stack} (hsize : s.sp ≤ s.size)
    (hreturn : Stack.Pushed (UInt64.ofNat returnPc) s s₁)
    (hcaller : Stack.Pushed (UInt64.ofNat s.fp) s₁ s₂)
    (hrest : Stack.PushedAll (method.raw ::
      (FrameMetadata.ofArgumentCount header.argumentCount).pack :: nil.raw :: receiver.raw ::
      List.replicate header.tempCount nil.raw) (s₂.restore s₂.sp s₂.sp) s') :
    Activated method header returnPc s s' := by
  have hsp₁ := hreturn.sp
  have hsp₂ := hcaller.sp
  have hsize₁ := hreturn.same.size
  have hsize₂ := hcaller.same.size
  have hsp := hrest.sp
  have hfp : s'.fp = s₂.sp := by rw [hrest.fp, Stack.fp_restore]
  have hsame : Stack.SameFrom s₂.sp s₂ s' := (Stack.sameFrom_restore _ s₂ _ _).trans hrest.same
  simp only [Stack.sp_restore, List.length_cons, List.length_replicate] at hsp
  obtain ⟨t₁, hmethod, t₂, hmetadata, hbelow⟩ := hrest
  have hspt₁ := hmethod.sp
  have hspt₂ := hmetadata.sp
  have hsizet₁ := hmethod.same.size
  have hsizet₂ := hmetadata.same.size
  simp only [Stack.sp_restore, Stack.size_restore] at hspt₁ hsizet₁
  constructor
  · omega
  · omega
  · exact (hreturn.same.trans (hcaller.same.mono (by omega))).trans (hsame.mono (by omega))
  · rw [hfp, hsp₂, hsame.load (by omega) (by omega), hcaller.same.load le_rfl (by omega),
      hreturn.load hsize]
  · rw [hfp, hsame.load le_rfl (by omega), hcaller.load (by omega)]
  · rw [show s'.fp - 8 = t₁.sp by omega,
      (hmetadata.same.trans (hbelow.same.mono (by omega))).load le_rfl (by omega),
      hmethod.load (by rw [Stack.sp_restore, Stack.size_restore]; omega)]
  · rw [show s'.fp - 16 = t₂.sp by omega, hbelow.same.load le_rfl (by omega),
      hmetadata.load (by omega)]

/-- An activation of a method that takes as many arguments pushes the words of a frame, one after the
other, and has the frame pointer in between. -/
lemma pushes_of_activate {method : Value} {returnPc argumentCount : ℕ}
    (h : activate method returnPc argumentCount p = .ok r p') :
    ∃ header receiver s₁ s₂, p.machine.heap.methodHeader method = .ok header ∧
      header.argumentCount = argumentCount ∧ r = ⟨method, header, header.initialPc⟩ ∧
      p.stack.peek argumentCount = .ok receiver ∧ p'.machine = p.machine ∧
      Stack.Pushed (UInt64.ofNat returnPc) p.stack s₁ ∧
      Stack.Pushed (UInt64.ofNat p.stack.fp) s₁ s₂ ∧
      Stack.PushedAll (method.raw ::
        (FrameMetadata.ofArgumentCount header.argumentCount).pack :: p.machine.nil.raw ::
        receiver.raw :: List.replicate header.tempCount p.machine.nil.raw)
        (s₂.restore s₂.sp s₂.sp) p'.stack := by
  unfold activate at h
  obtain ⟨header, hheader, h⟩ := askHeap_bind_eq_ok_iff.mp h
  obtain ⟨hcount, h⟩ := run_guard_eq_ok_iff.mp h
  obtain ⟨receiver, hreceiver, h⟩ := askStack_bind_eq_ok_iff.mp h
  obtain ⟨nil, hnil, h⟩ := askMachine_bind_eq_ok_iff.mp h
  obtain ⟨_, s₁, hreturn, h⟩ := onStack_bind_eq_ok_iff.mp h
  obtain ⟨_, s₂, hcaller, h⟩ := onStack_bind_eq_ok_iff.mp h
  obtain ⟨_, s₃, hfp, h⟩ := onStack_bind_eq_ok_iff.mp h
  obtain ⟨_, s₄, hmethod, h⟩ := onStack_bind_eq_ok_iff.mp h
  obtain ⟨_, s₅, hmetadata, h⟩ := onStack_bind_eq_ok_iff.mp h
  obtain ⟨_, s₆, hcontext, h⟩ := onStack_bind_eq_ok_iff.mp h
  obtain ⟨_, s₇, hself, h⟩ := onStack_bind_eq_ok_iff.mp h
  obtain ⟨_, p₈, htemps, h⟩ := run_bind_eq_ok_iff.mp h
  obtain ⟨htemps, hmachine⟩ := pushedAll_of_pushTimes htemps
  obtain ⟨rfl, rfl⟩ := pure_eq_ok_iff.mp h
  obtain rfl : p.machine.nil = nil := Except.ok.inj hnil
  have hreturn := Stack.pushed_of_pushWord hreturn
  have hcaller : Stack.Pushed (UInt64.ofNat p.stack.fp) s₁ s₂ := by
    rw [← hreturn.fp]
    exact Stack.pushed_of_pushWord hcaller
  obtain rfl : s₃ = s₂.restore s₂.sp s₂.sp := Stack.setFp_eq_ok_iff.mp hfp
  exact ⟨header, receiver, s₁, s₂, hheader, not_ne_iff.mp hcount, rfl, hreceiver, hmachine, hreturn,
    hcaller, s₄, Stack.pushed_of_pushWord hmethod, s₅, Stack.pushed_of_pushWord hmetadata,
    s₆, Stack.pushed_of_pushWord hcontext, s₇, Stack.pushed_of_pushWord hself, htemps⟩

/-- An activation builds a frame on top of receiver and arguments, for a method that takes as many
arguments. -/
theorem activated_of_activate {method : Value} {returnPc argumentCount : ℕ}
    (h : activate method returnPc argumentCount p = .ok r p') :
    ∃ header, p.machine.heap.methodHeader method = .ok header ∧
      header.argumentCount = argumentCount ∧ r = ⟨method, header, header.initialPc⟩ ∧
      p.stack.sp + 8 * argumentCount + 8 ≤ p.stack.size ∧ p'.machine = p.machine ∧
      Activated method header returnPc p.stack p'.stack := by
  obtain ⟨header, receiver, s₁, s₂, hheader, hcount, hr, hreceiver, hmachine, hreturn, hcaller,
    hrest⟩ := pushes_of_activate h
  have hlive := (Stack.peek_eq_ok_iff.mp hreceiver).1
  exact ⟨header, hheader, hcount, hr, hlive, hmachine,
    activated_of_pushes (by omega) hreturn hcaller hrest⟩

/-- A value can be pushed several times as long as there is room. -/
lemma exists_pushTimes (value : Value) (count : ℕ) (hroom : 8 * count ≤ p.stack.sp) :
    ∃ p', pushTimes value count p = .ok () p' := by
  induction count generalizing p with
  | zero => exact ⟨p, rfl⟩
  | succ count ih =>
    obtain ⟨s, hpush⟩ := Stack.exists_pushWord (s := p.stack) (by omega) value.raw
    have hsp := (Stack.pushed_of_pushWord hpush).sp
    obtain ⟨p', hrest⟩ := ih (p := ⟨p.machine, s⟩) (by dsimp only; omega)
    exact ⟨p', onStack_bind_eq_ok_iff.mpr ⟨(), s, hpush, hrest⟩⟩

/-- Several values can be pushed as long as there is room. -/
lemma exists_forM_push (values : List Value) (hroom : 8 * values.length ≤ p.stack.sp) :
    ∃ p', values.forM push p = .ok () p' := by
  induction values generalizing p with
  | nil => exact ⟨p, rfl⟩
  | cons value rest ih =>
    rw [List.length_cons] at hroom
    obtain ⟨s, hpush⟩ := Stack.exists_pushWord (s := p.stack) (by omega) value.raw
    have hsp := (Stack.pushed_of_pushWord hpush).sp
    obtain ⟨p', hrest⟩ := ih (p := ⟨p.machine, s⟩) (by dsimp only; omega)
    exact ⟨p', onStack_bind_eq_ok_iff.mpr ⟨(), s, hpush, hrest⟩⟩

/-- A method that takes as many arguments is activated as long as there is room for its frame, and
the frame has the receiver below the saved words. -/
theorem exists_activate {method receiver : Value} {header : MethodHeader} (returnPc : ℕ)
    (hheader : p.machine.heap.methodHeader method = .ok header)
    (hreceiver : p.stack.peek header.argumentCount = .ok receiver)
    (hroom : 8 * (6 + header.tempCount) ≤ p.stack.sp) :
    ∃ p', activate method returnPc header.argumentCount p =
        .ok ⟨method, header, header.initialPc⟩ p' ∧
      p'.stack.load 8 (p'.stack.fp - 32) = receiver.raw := by
  have hsize := (Stack.peek_eq_ok_iff.mp hreceiver).1
  obtain ⟨s₁, hreturn⟩ := Stack.exists_pushWord (s := p.stack) (by omega) (UInt64.ofNat returnPc)
  obtain ⟨hsp₁, -, hsame₁, -⟩ := Stack.pushed_of_pushWord hreturn
  obtain ⟨s₂, hcaller⟩ := Stack.exists_pushWord (s := s₁) (by omega) (UInt64.ofNat s₁.fp)
  obtain ⟨hsp₂, -, hsame₂, -⟩ := Stack.pushed_of_pushWord hcaller
  obtain ⟨s₃, hmethod⟩ := Stack.exists_pushWord (s := s₂.restore s₂.sp s₂.sp)
    (by rw [Stack.sp_restore]; omega) method.raw
  obtain ⟨hsp₃, hfp₃, hsame₃, -⟩ := Stack.pushed_of_pushWord hmethod
  simp only [Stack.sp_restore, Stack.fp_restore] at hsp₃ hfp₃
  obtain ⟨s₄, hmetadata⟩ := Stack.exists_pushWord (s := s₃) (by omega)
    (FrameMetadata.ofArgumentCount header.argumentCount).pack
  obtain ⟨hsp₄, hfp₄, hsame₄, -⟩ := Stack.pushed_of_pushWord hmetadata
  obtain ⟨s₅, hcontext⟩ := Stack.exists_pushWord (s := s₄) (by omega) p.machine.nil.raw
  obtain ⟨hsp₅, hfp₅, hsame₅, -⟩ := Stack.pushed_of_pushWord hcontext
  obtain ⟨s₆, hself⟩ := Stack.exists_pushWord (s := s₅) (by omega) receiver.raw
  obtain ⟨hsp₆, hfp₆, -, hload₆⟩ := Stack.pushed_of_pushWord hself
  obtain ⟨p', htemps⟩ := exists_pushTimes (p := ⟨p.machine, s₆⟩) p.machine.nil header.tempCount
    (by dsimp only; omega)
  obtain ⟨hpushed, -⟩ := pushedAll_of_pushTimes htemps
  have hsize₅ : s₅.size = p.stack.size := by
    rw [hsame₅.size, hsame₄.size, hsame₃.size, Stack.size_restore, hsame₂.size, hsame₁.size]
  refine ⟨p', askHeap_bind_eq_ok_iff.mpr ⟨header, hheader, ?_⟩, ?_⟩
  · refine run_guard_eq_ok_iff.mpr ⟨not_not.mpr rfl, ?_⟩
    refine askStack_bind_eq_ok_iff.mpr ⟨receiver, hreceiver, ?_⟩
    refine askMachine_bind_eq_ok_iff.mpr ⟨p.machine.nil, rfl, ?_⟩
    refine onStack_bind_eq_ok_iff.mpr ⟨(), s₁, hreturn, ?_⟩
    refine onStack_bind_eq_ok_iff.mpr ⟨(), s₂, hcaller, ?_⟩
    refine onStack_bind_eq_ok_iff.mpr ⟨(), _, Stack.setFp_eq_ok_iff.mpr rfl, ?_⟩
    refine onStack_bind_eq_ok_iff.mpr ⟨(), s₃, hmethod, ?_⟩
    refine onStack_bind_eq_ok_iff.mpr ⟨(), s₄, hmetadata, ?_⟩
    refine onStack_bind_eq_ok_iff.mpr ⟨(), s₅, hcontext, ?_⟩
    refine onStack_bind_eq_ok_iff.mpr ⟨(), s₆, hself, ?_⟩
    exact run_bind_eq_ok_iff.mpr ⟨(), p', htemps, rfl⟩
  · have hfp : p'.stack.fp = s₂.sp := by
      rw [hpushed.fp, hfp₆, hfp₅, hfp₄, hfp₃]
    have hsize₆ := (Stack.pushed_of_pushWord hself).same.size
    rw [hfp, show s₂.sp - 32 = s₆.sp by omega, hpushed.same.load le_rfl (by dsimp only; omega),
      hload₆ (by omega)]

/-! ### Returns -/

/-- `s'` is `s` with the frame on top, its receiver and its arguments replaced by a value. -/
structure TakenDown (value : Value) (argumentCount : ℕ) (s s' : Stack) : Prop where
  fp : s'.fp = (s.load 8 s.fp).toNat
  sp : s'.sp = s.fp + 16 + 8 * argumentCount
  same : Stack.SameFrom (s.fp + 24 + 8 * argumentCount) s s'
  top : s'.load 8 s'.sp = value.raw

/-- A value pushed behind the receiver of a frame takes the frame down, once the caller's frame
pointer is read from it. -/
lemma takenDown_of_pushed {value : Value} {argumentCount : ℕ} {s s' : Stack}
    (hsize : s.fp + 24 + 8 * argumentCount ≤ s.size)
    (hpush : Stack.Pushed value.raw
      (s.restore (s.fp + 24 + 8 * argumentCount) (s.load 8 s.fp).toNat) s') :
    TakenDown value argumentCount s s' := by
  have hsp := hpush.sp
  have hsame := hpush.same
  simp only [Stack.sp_restore] at hsp hsame
  constructor
  · rw [hpush.fp, Stack.fp_restore]
  · omega
  · exact (Stack.sameFrom_restore _ s _ _).trans hsame
  · apply hpush.load
    rw [Stack.sp_restore, Stack.size_restore]
    exact hsize

/-- What a return does once the value is in its place: it ends the run, or reads the registers of
the caller. -/
def resume (returnPc : ℕ) : ExecutionM (Option Registers) := do
  if returnPc = 0 then return none
  let method ← askStack fun s => s.frameMethod
  let header ← ask fun p =>
    if p.machine.heap.isCompiledMethod method then
      Except.ofHeap (p.machine.heap.methodHeader method)
    else .error (.notAMethod method)
  return some ⟨method, header, returnPc⟩

/-- Without a program counter to return to the run ends. -/
lemma resume_zero : resume 0 p = .ok none p := rfl

/-- The registers of the caller are those of the method in its frame. -/
lemma resume_eq_ok {returnPc : ℕ} (hpc : returnPc ≠ 0) {method : Value} {header : MethodHeader}
    (hmethod : p.stack.frameMethod = .ok method)
    (hcompiled : p.machine.heap.isCompiledMethod method = true)
    (hheader : p.machine.heap.methodHeader method = .ok header) :
    resume returnPc p = .ok (some ⟨method, header, returnPc⟩) p := by
  unfold resume
  rw [if_neg hpc]
  refine askStack_bind_eq_ok_iff.mpr ⟨method, hmethod, ?_⟩
  refine ask_bind_eq_ok_iff.mpr ⟨header, ?_, rfl⟩
  rw [if_pos hcompiled, hheader]
  rfl

/-- To read the registers of the caller changes nothing, also when they are not there. -/
lemma stateAfter_resume (returnPc : ℕ) (p : Execution) : stateAfter (resume returnPc p) = p := by
  have hresume : Maintains (· = p) (resume returnPc) := by
    unfold resume
    split
    · exact .pure _
    · refine .bind (fun q hq => (stateAfter_askStack _ q).trans hq) fun method => ?_
      exact .bind (fun q hq => (stateAfter_ask _ q).trans hq) fun header => .pure _
  exact hresume rfl

/-- A return goes by the words of the frame: the metadata tell how many arguments to drop, the
program counter to return to whether there is a caller to go on with. -/
theorem exists_takenDown {argumentCount : ℕ} (value : Value)
    (hmetadata : (FrameMetadata.unpack (p.stack.load 8 (p.stack.fp - 16))).argumentCount =
      argumentCount)
    (hsp : p.stack.sp + 16 ≤ p.stack.fp) (hlt : p.stack.fp < 2 ^ 64)
    (hsize : p.stack.fp + 24 + 8 * argumentCount ≤ p.stack.size) :
    ∃ s', TakenDown value argumentCount p.stack s' ∧ returnValue value p =
      resume (p.stack.load 8 (p.stack.fp + 8)).toNat ⟨p.machine, s'⟩ := by
  obtain ⟨m, s⟩ := p
  dsimp only at hmetadata hsp hlt hsize ⊢
  obtain ⟨s', hpush⟩ := Stack.exists_pushWord (s := s.restore
    (s.fp + 24 + 8 * argumentCount) (s.load 8 s.fp).toNat)
    (by rw [Stack.sp_restore]; omega) value.raw
  refine ⟨s', takenDown_of_pushed hsize (Stack.pushed_of_pushWord hpush), ?_⟩
  have hask : askStack (fun s => s.frameMetadata) ⟨m, s⟩ = .ok _ ⟨m, s⟩ := run_askStack_of_ok
    ((Stack.frameMetadata_eq_ok_iff (by omega) hlt).mpr ⟨by omega, by omega, rfl⟩)
  have hfp : askStack (fun s => .ok s.fp) ⟨m, s⟩ = .ok s.fp ⟨m, s⟩ := run_askStack_of_ok rfl
  refine (run_bind_of_ok hask).trans ?_
  refine (run_bind_of_ok hfp).trans ?_
  refine (run_bind_of_ok (run_onStack_of_ok (Stack.setSp_eq_ok_iff.mpr ⟨by omega, rfl⟩))).trans ?_
  refine (run_bind_of_ok (run_onStack_of_ok
    (Stack.popAddress_eq_ok_iff.mpr ⟨?_, rfl, rfl⟩))).trans ?_
  · simp only [Stack.sp_restore, Stack.size_restore]
    omega
  refine (run_bind_of_ok (run_onStack_of_ok
    (Stack.popAddress_eq_ok_iff.mpr ⟨?_, rfl, rfl⟩))).trans ?_
  · simp only [Stack.sp_restore, Stack.size_restore]
    omega
  refine (run_bind_of_ok (run_onStack_of_ok (Stack.drop_eq_ok_iff.mpr ⟨?_, rfl⟩))).trans ?_
  · simp only [Stack.sp_restore, Stack.size_restore]
    omega
  refine (run_bind_of_ok (run_onStack_of_ok (Stack.setFp_eq_ok_iff.mpr rfl))).trans ?_
  simp only [Stack.sp_restore, Stack.fp_restore, Stack.load_restore, Stack.restore_restore,
    hmetadata]
  rw [show s.fp + 8 + 8 + 8 * (argumentCount + 1) = s.fp + 24 + 8 * argumentCount by omega]
  exact run_bind_of_ok (run_onStack_of_ok hpush)

/-- A return leaves the machine as it was. -/
lemma machine_of_returnValue {value : Value} {o : Option Registers}
    (h : returnValue value p = .ok o p') : p'.machine = p.machine := by
  unfold returnValue at h
  obtain ⟨metadata, -, h⟩ := askStack_bind_eq_ok_iff.mp h
  obtain ⟨fp, -, h⟩ := askStack_bind_eq_ok_iff.mp h
  obtain ⟨_, s₁, -, h⟩ := onStack_bind_eq_ok_iff.mp h
  obtain ⟨previousFp, s₂, -, h⟩ := onStack_bind_eq_ok_iff.mp h
  obtain ⟨returnPc, s₃, -, h⟩ := onStack_bind_eq_ok_iff.mp h
  obtain ⟨_, s₄, -, h⟩ := onStack_bind_eq_ok_iff.mp h
  obtain ⟨_, s₅, -, h⟩ := onStack_bind_eq_ok_iff.mp h
  obtain ⟨_, s₆, -, h⟩ := onStack_bind_eq_ok_iff.mp h
  split at h
  · obtain ⟨-, rfl⟩ := pure_eq_ok_iff.mp h
    rfl
  · obtain ⟨method, -, h⟩ := askStack_bind_eq_ok_iff.mp h
    obtain ⟨header, -, h⟩ := ask_bind_eq_ok_iff.mp h
    obtain ⟨-, rfl⟩ := pure_eq_ok_iff.mp h
    rfl

end Interpreter

end TalkMachine
