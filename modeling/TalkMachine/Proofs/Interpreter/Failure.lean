import TalkMachine.Proofs.Interpreter.CallReturn
import TalkMachine.Proofs.Interpreter.Sparing

/-!
# Executions that fail

When the execution of a method fails, the two pointers of the stack are back where they were on
entry. The words that were live on entry are the same as well, if the run keeps below them: if no
instruction takes a word that is not below the stack pointer on entry, and no frame reaches above it
(`Interpreter.Moment.restored_of_executeWith_eq_error`).

Nothing else protects these words. A method that pops more than it pushed comes to the words of its
caller, and what it pushes then overwrites them; that the pointers are moved back in the end does
not bring them back (`Interpreter.Moment.overwritten_poppingMethod`).

A disciplined run keeps below the words that were live on entry, however it ends
(`Interpreter.Moment.contained_of_disciplined`).
-/

namespace TalkMachine

namespace Interpreter

open Execution

namespace Moment

variable {host : Host} {send : Sender} {m m' : Moment} {instruction : Instruction} {next : ℕ}
  {r r' : Registers} {p p₀ q : Execution} {method receiver : Value} {arguments : List Value}
  {base steps : ℕ}

/-- At a moment of a run everything that the running method reaches is below an address. -/
structure Contained (host : Host) (base : ℕ) (m : Moment) : Prop where
  /-- The words that an instruction takes are below. -/
  operands : ∀ instruction next, fetch m.heap m.registers = .ok (instruction, next) →
    m.stack.sp + 8 * demand instruction ≤ base
  /-- So is the frame with receiver and arguments. -/
  frame : m.stack.fp + 24 + 8 * m.registers.header.argumentCount ≤ base
  /-- So it is with as many arguments as it notes itself, which are those that a return drops. -/
  metadata : ∀ metadata, m.stack.frameMetadata = .ok metadata →
    m.stack.fp + 24 + 8 * metadata.argumentCount ≤ base
  /-- Native methods and the handler change nothing above. -/
  calls : ∀ instruction next argumentCount x,
    fetch m.heap m.registers = .ok (instruction, next) →
    Calls host (m.sender host) (m.behind next) m.execution instruction argumentCount x →
    CallSpares base x m.execution

/-! ### Runs that keep below an address -/

/-- The registers of a caller are those of a method, with few arguments and temporaries. -/
lemma counts_lt_of_returnValue {value : Value} (h : returnValue value p = .ok (some r) q) :
    r.header.argumentCount < 256 ∧ r.header.tempCount < 256 := by
  unfold returnValue at h
  obtain ⟨metadata, -, h⟩ := askStack_bind_eq_ok_iff.mp h
  obtain ⟨fp, -, h⟩ := askStack_bind_eq_ok_iff.mp h
  obtain ⟨_, s₁, -, h⟩ := onStack_bind_eq_ok_iff.mp h
  obtain ⟨previousFp, s₂, -, h⟩ := onStack_bind_eq_ok_iff.mp h
  obtain ⟨returnPc, s₃, -, h⟩ := onStack_bind_eq_ok_iff.mp h
  obtain ⟨_, s₄, -, h⟩ := onStack_bind_eq_ok_iff.mp h
  obtain ⟨_, s₅, -, h⟩ := onStack_bind_eq_ok_iff.mp h
  obtain ⟨_, s₆, -, h⟩ := onStack_bind_eq_ok_iff.mp h
  split at h
  · obtain ⟨hnone, -⟩ := pure_eq_ok_iff.mp h
    cases hnone
  · obtain ⟨method, -, h⟩ := askStack_bind_eq_ok_iff.mp h
    obtain ⟨header, hheader, h⟩ := ask_bind_eq_ok_iff.mp h
    obtain ⟨hr, -⟩ := pure_eq_ok_iff.mp h
    obtain rfl := Option.some.inj hr
    split at hheader
    · exact Heap.counts_lt_of_methodHeader (Except.ofHeap_eq_ok_iff.mp hheader)
    · cases hheader

/-- The registers of what runs next are those of a method, with few arguments and temporaries. -/
lemma counts_lt_of_perform
    (hcounts : r.header.argumentCount < 256 ∧ r.header.tempCount < 256)
    (h : perform host send r instruction p = .ok (some r') q) :
    r'.header.argumentCount < 256 ∧ r'.header.tempCount < 256 := by
  by_cases hreturn : ∃ value, instruction = .return value
  · obtain ⟨value, rfl⟩ := hreturn
    obtain ⟨value, t, -, h⟩ := run_bind_eq_ok_iff.mp h
    exact counts_lt_of_returnValue h
  · by_cases hsend : IsSend instruction
    · obtain ⟨r'', hr, result⟩ := sendResult_of_perform hsend h
      obtain rfl := Option.some.inj hr
      cases result with
      | inlined => exact hcounts
      | answered => exact hcounts
      | activated hactivates hactivate =>
        obtain ⟨header, hheader, -, rfl, -⟩ := activated_of_activate hactivate
        exact Heap.counts_lt_of_methodHeader hheader
    · obtain ⟨pc, hr, -⟩ := effect_of_perform (fun value heq => hreturn ⟨value, heq⟩) hsend h
      obtain rfl := Option.some.inj hr
      exact hcounts

/-- A step of a contained run leaves the stack above as it was, also when it fails. -/
lemma Contained.spares_step (contained : m.Contained host base)
    (hcounts : m.registers.header.argumentCount < 256 ∧ m.registers.header.tempCount < 256) :
    Spares base (step host (m.sender host) m.registers) m.execution := by
  unfold step
  refine .ask_bind fun ⟨instruction, next⟩ hfetch => ?_
  exact spares_perform hcounts.1 hcounts.2 (contained.operands instruction next hfetch)
    contained.frame contained.metadata fun argumentCount x hcalls =>
      contained.calls instruction next argumentCount x hfetch hcalls

/-- A run that is contained at all its moments leaves the stack above as it was, also when it
fails. -/
theorem spares_run
    (hcounts : m.registers.header.argumentCount < 256 ∧ m.registers.header.tempCount < 256)
    (contained : ∀ m', Reaches host m m' → m'.Contained host base) :
    Spares base (run host m.steps m.registers) m.execution := by
  obtain ⟨steps, hsteps⟩ : ∃ steps, steps = m.steps := ⟨_, rfl⟩
  induction steps generalizing m with
  | zero =>
    rw [← hsteps, run_zero]
    exact .throw _
  | succ steps ih =>
    have hspares := (contained m .refl).spares_step hcounts
    unfold sender at hspares
    rw [← hsteps, Nat.add_sub_cancel] at hspares
    unfold Spares
    rw [← hsteps, run_succ]
    cases hstep : step host (send host steps) m.registers m.execution with
    | error e q => exact hspares.of_error hstep
    | ok o q =>
      cases o with
      | none => exact hspares.of_ok hstep
      | some r =>
        obtain ⟨instruction, next, performs⟩ := exists_performs hsteps.symm hstep
        obtain ⟨callers, hnext⟩ := exists_next performs
        rw [← hsteps, Nat.add_sub_cancel] at hnext
        have hcounts' := counts_lt_of_perform (r := m.behind next) hcounts performs.perform
        have hrest := ih (m := ⟨steps, r, q, callers⟩) hcounts'
          (fun m' hreaches => contained m' (.head hnext hreaches)) rfl
        exact (hspares.of_ok hstep).trans hrest

/-! ### Entering a method -/

/-- Pushing values writes below the stack pointer. -/
lemma spares_forM_push {values : List Value} (hsp : p.stack.sp ≤ base) :
    Spares base (values.forM push) p := by
  induction values generalizing p with
  | nil => exact .pure ()
  | cons value rest ih => exact spares_push_bind hsp fun s hs => ih hs

/-- Preparing a method writes below the stack pointer. -/
lemma spares_prepare (hsp : p.stack.sp ≤ base) :
    Spares base (prepare method receiver arguments) p := by
  unfold prepare
  refine spares_push_bind hsp fun s hs => .bind (spares_forM_push hs) fun _ q hpush => ?_
  have hdown := (pushedAll_of_forM_push hpush).1.sp
  exact spares_activate (by dsimp only at hdown; omega)

/-- A prepared method has few arguments and temporaries. -/
lemma counts_lt_of_prepare (h : prepare method receiver arguments p = .ok r p₀) :
    r.header.argumentCount < 256 ∧ r.header.tempCount < 256 := by
  obtain ⟨_, s, -, h⟩ := onStack_bind_eq_ok_iff.mp h
  obtain ⟨_, p₁, -, h⟩ := run_bind_eq_ok_iff.mp h
  obtain ⟨header, hheader, -, rfl, -⟩ := activated_of_activate h
  exact Heap.counts_lt_of_methodHeader hheader

/-- Entering a method spares what its run spares. -/
lemma spares_enter {run : Registers → ExecutionM Unit} (hsp : p.stack.sp ≤ base)
    (hrun : ∀ r p₀, prepare method receiver arguments p = .ok r p₀ → Spares base (run r) p₀) :
    Spares base (enter run method receiver arguments) p := by
  rw [enter_eq]
  refine .bind (spares_prepare hsp) fun r p₀ hprepare => ?_
  exact .bind (hrun r p₀ hprepare) fun _ _ _ => .onStack Stack.spares_pop

/-! ### Disciplined runs -/

/-- The frames at a moment, with receivers and arguments, are below an address. -/
structure FramesBelow (base : ℕ) (m : Moment) : Prop where
  /-- The frame in use. -/
  frame : m.stack.fp + 24 + 8 * m.registers.header.argumentCount ≤ base
  /-- The frames of the callers. -/
  callers : ∀ caller ∈ m.callers,
    caller.stack.fp + 24 + 8 * caller.registers.header.argumentCount ≤ base

/-- The frame that begins a run ends where the stack pointer was on entry. -/
lemma framesBelow_of_prepare (h : prepare method receiver arguments p = .ok r p₀) (steps : ℕ) :
    FramesBelow p.stack.sp ⟨steps, r, p₀, []⟩ := by
  obtain ⟨_, s, hpush, h⟩ := onStack_bind_eq_ok_iff.mp h
  obtain ⟨_, p₁, harguments, h⟩ := run_bind_eq_ok_iff.mp h
  obtain ⟨header, -, hcount, rfl, -, -, hactivated⟩ := activated_of_activate h
  have hsp := (Stack.pushed_of_pushWord hpush).sp
  have hsp₁ := (pushedAll_of_forM_push harguments).1.sp
  have hfp := hactivated.fp
  rw [List.length_map] at hsp₁
  refine ⟨?_, by simp⟩
  unfold stack
  dsimp only at hsp₁ ⊢
  omega

/-- The frames are below the address at the next moment too. -/
lemma framesBelow_of_next (disciplined : m.Disciplined host) (chain : m.Chain)
    (below : m.FramesBelow base) (hnext : Next host m m') : m'.FramesBelow base := by
  have hframe := below.frame
  cases hnext with
  | @inside instruction next r q step hreturn hactivates =>
    obtain ⟨pc, rfl, hkeeps⟩ := exists_keepsFrame disciplined chain step hreturn hactivates
    refine ⟨?_, below.callers⟩
    unfold stack
    rw [hkeeps.same.fp]
    exact hframe
  | @call instruction next r q argumentCount method step hactivates =>
    obtain ⟨header, hr, rfl, -, -, -, hactivated⟩ := exists_activated step hactivates
    obtain rfl := Option.some.inj hr
    obtain ⟨selector, receiver, hsends, -, -⟩ := hactivates
    have hroom := disciplined.room chain step.fetch
    rw [demand_of_sentCount? hsends.sentCount?] at hroom
    have hfp := hactivated.fp
    constructor
    · unfold stack
      dsimp only
      omega
    · intro caller hcaller
      rcases List.mem_cons.mp hcaller with rfl | hcaller
      · exact hframe
      · exact below.callers caller hcaller
  | @«return» value next r q step =>
    obtain ⟨_, _, q', -, -, hresumes⟩ :=
      exists_resumes_of_return disciplined chain step.steps step.fetch
    have hcallers := below.callers
    cases hlist : m.callers with
    | nil =>
      rw [hlist] at hresumes
      have := (step.unique hresumes).2.2.1
      cases this
    | cons caller rest =>
      rw [hlist] at hresumes hcallers
      obtain ⟨performs, resumes, -⟩ := hresumes
      obtain ⟨-, -, hr, rfl⟩ := step.unique performs
      obtain rfl := Option.some.inj hr
      refine ⟨?_, fun caller hcaller => hcallers caller (List.mem_cons_of_mem _ hcaller)⟩
      unfold stack
      rw [resumes.fp]
      exact hcallers caller List.mem_cons_self

/-- A disciplined run is contained below the words that were live on entry, if native methods and
the handler leave these as they were when they fail. -/
theorem contained_of_disciplined (hsize : p.stack.size < 2 ^ 64)
    (hmethod : p.machine.heap.isCompiledMethod method = true)
    (hstart : prepare method receiver arguments p = .ok r p₀)
    (disciplined : ∀ m, Reaches host ⟨steps, r, p₀, []⟩ m → m.Disciplined host)
    (calls : ∀ m, Reaches host ⟨steps, r, p₀, []⟩ m → ∀ instruction next argumentCount x,
      fetch m.heap m.registers = .ok (instruction, next) →
      Calls host (m.sender host) (m.behind next) m.execution instruction argumentCount x →
      Spares p.stack.sp x m.execution)
    (hreaches : Reaches host ⟨steps, r, p₀, []⟩ m) : m.Contained host p.stack.sp := by
  have chain : ∀ m, Reaches host ⟨steps, r, p₀, []⟩ m → m.Chain := fun m hreaches =>
    chain_of_reaches disciplined (chain_of_prepare hsize hmethod hstart steps) hreaches
  have below : m.FramesBelow p.stack.sp := by
    clear calls
    induction hreaches with
    | refl => exact framesBelow_of_prepare hstart steps
    | tail hreaches hnext ih =>
      exact framesBelow_of_next (disciplined _ hreaches) (chain _ hreaches) ih hnext
  have frame := (chain m hreaches).frame
  have hframe := below.frame
  constructor
  · intro instruction next hfetch
    have hroom := (disciplined m hreaches).room (chain m hreaches) hfetch
    omega
  · exact hframe
  · intro metadata hmetadata
    have hroom := frame.room
    have habove := frame.above
    have hlt := frame.size
    obtain ⟨-, -, rfl⟩ :=
      (Stack.frameMetadata_eq_ok_iff (by omega) (by omega)).mp hmetadata
    rw [frame.metadata, FrameMetadata.argumentCount_unpack frame.counts_lt.1]
    exact hframe
  · intro instruction next argumentCount x hfetch hcalls
    refine ⟨calls m hreaches _ _ _ x hfetch hcalls, fun value q hx => ?_⟩
    have leaves := (disciplined m hreaches).answers _ _ _ _ _ hfetch (hcalls.answers hx)
    exact leaves.sp.le

/-! ### Executions that fail -/

/-- A failed execution leaves the stack of the failed method with the pointers moved back. -/
lemma exists_of_executeWith_eq_error {run : Registers → ExecutionM Unit} {e : MachineError}
    (h : executeWith run method receiver arguments p = .error e q) :
    ∃ q', enter run method receiver arguments p = .error e q' ∧
      q.stack = q'.stack.restore p.stack.sp p.stack.fp := by
  unfold executeWith restoring at h
  cases henter : enter run method receiver arguments p with
  | ok value q' => simp [henter] at h
  | error e' q' =>
    simp only [henter, EStateM.Result.error.injEq] at h
    obtain ⟨rfl, rfl⟩ := h
    exact ⟨q', rfl, rfl⟩

/-- When the execution of a method fails, the pointers of the stack are as on entry; so are the
words that were live then, if the run is contained below them. -/
theorem restored_of_executeWith_eq_error {e : MachineError}
    (h : executeWith (run host steps) method receiver arguments p = .error e q) :
    q.stack.sp = p.stack.sp ∧ q.stack.fp = p.stack.fp ∧
      ((∀ r p₀ m, prepare method receiver arguments p = .ok r p₀ →
          Reaches host ⟨steps, r, p₀, []⟩ m → m.Contained host p.stack.sp) →
        Stack.SameFrom p.stack.sp p.stack q.stack) := by
  obtain ⟨q', henter, hstack⟩ := exists_of_executeWith_eq_error h
  rw [hstack]
  refine ⟨rfl, rfl, fun contained => ?_⟩
  have hspares : Spares p.stack.sp (enter (run host steps) method receiver arguments) p := by
    refine spares_enter le_rfl fun r p₀ hprepare => ?_
    exact spares_run (m := ⟨steps, r, p₀, []⟩) (counts_lt_of_prepare hprepare) fun m hreaches =>
      contained r p₀ m hprepare hreaches
  exact (hspares.of_error henter).trans (Stack.sameFrom_restore _ _ _ _)

/-- Objects for two methods that fail: one pushes 1, and one first pops eight words; then both come
to a byte that is no instruction. The stack has one word, the number 5. -/
def failingExecution : Execution where
  machine := { sampleExecution.machine with
    heap.words := #[0,
      0x0200000c1e000012, 1, 0xd951,
      0x0300000d1e000012, 1, 0xd8d8d8d8d8d8d8d8, 0xd951] }
  stack := ((Stack.new 256).writeWord 248 (Value.ofInt 5).raw).restore 248 0

/-- The method that pushes. -/
def pushingMethod : Value :=
  Value.ofAddress 8

/-- The method that pops first. -/
def poppingMethod : Value :=
  Value.ofAddress 32

/-- What a method that failed has left. -/
def failed? : EStateM.Result MachineError Execution Value → Option Execution
  | .ok _ _ => none
  | .error _ q => some q

/-- The method that pushes fails with the stack as it was on entry. -/
theorem restored_pushingMethod : ∃ e q,
    executeWith (run Host.none 20) pushingMethod (Value.ofInt 7) [] failingExecution =
      .error e q ∧
    (∀ r p₀ m, prepare pushingMethod (Value.ofInt 7) [] failingExecution = .ok r p₀ →
      Reaches Host.none ⟨20, r, p₀, []⟩ m → m.Contained Host.none failingExecution.stack.sp) ∧
    q.stack.sp = failingExecution.stack.sp ∧ q.stack.fp = failingExecution.stack.fp ∧
    Stack.SameFrom failingExecution.stack.sp failingExecution.stack q.stack := by
  have hsize : failingExecution.stack.size < 2 ^ 64 := by decide +kernel
  have hmethod : failingExecution.machine.heap.isCompiledMethod pushingMethod = true := by
    decide +kernel
  have hcalm : isCalmFrom Host.none 20
      (prepare pushingMethod (Value.ofInt 7) [] failingExecution) = true := by decide +kernel
  have hfails : (failed? (executeWith (run Host.none 20) pushingMethod (Value.ofInt 7) []
      failingExecution)).isSome = true := by decide +kernel
  have contained : ∀ r p₀ m,
      prepare pushingMethod (Value.ofInt 7) [] failingExecution = .ok r p₀ →
      Reaches Host.none ⟨20, r, p₀, []⟩ m →
      m.Contained Host.none failingExecution.stack.sp := by
    intro r p₀ m hstart hreaches
    rw [hstart, isCalmFrom] at hcalm
    refine contained_of_disciplined hsize hmethod hstart (fun m hreaches => ?_) ?_ hreaches
    · exact disciplined_of_isCalm hcalm hreaches
    · exact fun m _ _ _ _ _ _ hcalls => (CallSpares.of_none hcalls).spares
  cases h : executeWith (run Host.none 20) pushingMethod (Value.ofInt 7) [] failingExecution with
  | ok value q => simp [h, failed?] at hfails
  | error e q =>
    obtain ⟨hsp, hfp, hsame⟩ := restored_of_executeWith_eq_error h
    exact ⟨e, q, rfl, contained, hsp, hfp, hsame contained⟩

/-- A method that pops more words than it pushed overwrites the live words of the caller, although
the pointers are as on entry when it has failed. -/
theorem overwritten_poppingMethod : ∃ e q,
    executeWith (run Host.none 20) poppingMethod (Value.ofInt 7) [] failingExecution =
      .error e q ∧
    q.stack.sp = failingExecution.stack.sp ∧ q.stack.fp = failingExecution.stack.fp ∧
    failingExecution.stack.load 8 failingExecution.stack.sp = (Value.ofInt 5).raw ∧
    q.stack.load 8 q.stack.sp = (Value.ofInt 1).raw := by
  have hrun : (failed? (executeWith (run Host.none 20) poppingMethod (Value.ofInt 7) []
      failingExecution)).any (fun q => decide (q.stack.sp = failingExecution.stack.sp ∧
        q.stack.fp = failingExecution.stack.fp ∧
        q.stack.load 8 q.stack.sp = (Value.ofInt 1).raw)) = true := by decide +kernel
  cases h : executeWith (run Host.none 20) poppingMethod (Value.ofInt 7) [] failingExecution with
  | ok value q => simp [h, failed?] at hrun
  | error e q =>
    rw [h] at hrun
    obtain ⟨hsp, hfp, hload⟩ := of_decide_eq_true hrun
    exact ⟨e, q, rfl, hsp, hfp, by decide +kernel, hload⟩

end Moment

end Interpreter

end TalkMachine
