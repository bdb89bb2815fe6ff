import TalkMachine.Proofs.Interpreter.Callers
import TalkMachine.Proofs.Interpreter.Discipline

/-!
# Calls and returns

In a disciplined run the frames always form a chain with those of the callers
(`Interpreter.Moment.chain_of_reaches`), whatever the numbers of arguments and temporaries and
however deep the sends are nested. Therefore every return of an activated method goes on with the
caller, with the returned value in the place of what the caller sent; and the run ends just when the
frame that began it returns (`Interpreter.Moment.callsReturn_of_disciplined`).
-/

namespace TalkMachine

namespace Interpreter

open Execution

namespace Moment

/-- The frames at a moment form a chain. -/
def Chain (m : Moment) : Prop :=
  Interpreter.Chain m.heap m.registers m.stack m.callers

variable {host : Host} {m m' : Moment} {instruction : Instruction} {next : ℕ}
  {o : Option Registers} {r : Registers} {q : Execution}

/-- The demand of an instruction is met by the operands of the frame. -/
lemma Disciplined.room (disciplined : m.Disciplined host) (chain : m.Chain)
    (hfetch : fetch m.heap m.registers = .ok (instruction, next)) :
    m.stack.sp + 8 * demand instruction + 32 + 8 * m.registers.header.tempCount ≤ m.stack.fp := by
  have hdemand := disciplined.operands instruction next hfetch
  have hroom := chain.frame.room
  unfold operandCount at hdemand
  omega

/-- An instruction takes at least one byte. -/
lemma pc_lt_of_fetch {h : Heap} (hfetch : fetch h r = .ok (instruction, next)) : r.pc < next := by
  unfold fetch at hfetch
  obtain ⟨bytes, -, hfetch⟩ := bind_eq_ok_iff.mp hfetch
  split at hfetch
  · cases hfetch
  · rename_i byte rest
    have hpos := Instruction.length_read_pos r.pc byte rest
    dsimp only at hfetch
    split at hfetch
    · cases hfetch
      omega
    · cases hfetch

/-! ### Answers without a frame -/

/-- What a native method or the handler leaves below the live words does not matter. -/
lemma replaced_of_leaves {s t s' : Stack} {value : Value} {argumentCount : ℕ}
    (leaves : Leaves s t) (replaced : Replaced value argumentCount t s') :
    Replaced value argumentCount s s' := by
  have hsp := leaves.sp
  constructor
  · rw [replaced.fp, leaves.fp]
  · rw [replaced.sp, hsp]
  · have hsame := replaced.same
    rw [hsp] at hsame
    exact (leaves.same.mono (by omega)).trans hsame
  · exact replaced.top

/-- An instruction that sends demands the receiver and the arguments. -/
lemma demand_of_answers {send : Sender} {r : Registers} {p : Execution} {argumentCount : ℕ}
    {value : Value} (h : Answers host send r p instruction argumentCount value q) :
    demand instruction = argumentCount + 1 := by
  cases h with
  | native hsends => exact demand_of_sentCount? hsends.sentCount?
  | handler hsends => exact demand_of_sentCount? hsends.sentCount?

/-- The answer of a native method or of the handler takes the place of receiver and arguments, and
the method that sent goes on. -/
theorem exists_resumes_of_answers (disciplined : m.Disciplined host) (chain : m.Chain)
    (hsteps : m.steps ≠ 0) (hfetch : fetch m.heap m.registers = .ok (instruction, next))
    {argumentCount : ℕ} {value : Value}
    (hanswers : Answers host (m.sender host) (m.behind next) m.execution instruction argumentCount
      value q) :
    ∃ q', m.Performs host instruction next (some (m.behind next)) q' ∧
      Resumes ⟨m.behind next, m.stack, argumentCount⟩ value q'.stack := by
  have hroom := disciplined.room chain hfetch
  rw [demand_of_answers hanswers] at hroom
  have leaves := disciplined.answers _ _ _ _ _ hfetch hanswers
  have hsp := leaves.sp
  have hsize := leaves.same.size
  have habove := chain.frame.above
  have hfits : q.stack.sp + 8 * argumentCount + 8 ≤ q.stack.size := by omega
  obtain ⟨q', hfinish⟩ := exists_finish (m.behind next) value hfits
  refine ⟨q', ⟨hsteps, hfetch, perform_of_answers hanswers hfinish⟩, ?_, hroom⟩
  exact replaced_of_leaves leaves (replaced_of_finish hfinish).2.2

/-! ### Returns -/

/-- The value to return is there. -/
lemma exists_returned {h : Heap} {p : Execution} (frame : InFrame h r p.stack)
    {returnValue : ReturnValue}
    (hroom : p.stack.sp + 8 * demand (.return returnValue) + 32 + 8 * r.header.tempCount ≤
      p.stack.fp) : ∃ value q, returned returnValue p = .ok value q := by
  have habove := frame.above
  have hsize := frame.size
  cases returnValue with
  | receiver =>
    refine ⟨⟨p.stack.load 8 (p.stack.fp - 32)⟩, _, askStack_eq_ok_iff.mpr ⟨?_, rfl⟩⟩
    apply (Stack.frameValue_sub_eq_ok_iff 32 (by omega) (by omega)).mpr
    exact ⟨by omega, by omega, rfl⟩
  | true => exact ⟨p.machine.trueObject, p, rfl⟩
  | false => exact ⟨p.machine.falseObject, p, rfl⟩
  | nil => exact ⟨p.machine.nil, p, rfl⟩
  | top =>
    refine ⟨⟨p.stack.load 8 p.stack.sp⟩, ⟨p.machine, p.stack.restore (p.stack.sp + 8) p.stack.fp⟩,
      onStack_eq_ok_iff.mpr ⟨?_, rfl⟩⟩
    exact Stack.pop_eq_ok_iff.mpr ⟨by omega, rfl, rfl⟩

/-- A return always succeeds. It ends the run when there are no callers; otherwise the nearest
caller goes on, with the value in the place of what it sent. -/
theorem exists_resumes_of_return (disciplined : m.Disciplined host) (chain : m.Chain)
    (hsteps : m.steps ≠ 0) {returnValue : ReturnValue}
    (hfetch : fetch m.heap m.registers = .ok (.return returnValue, next)) :
    ∃ value p q, returned returnValue m.execution = .ok value p ∧ q.machine = m.execution.machine ∧
      match m.callers with
      | [] => m.Performs host (.return returnValue) next none q
      | caller :: rest =>
        m.Performs host (.return returnValue) next (some caller.registers) q ∧
          Resumes caller value q.stack ∧
          Interpreter.Chain q.machine.heap caller.registers q.stack rest := by
  have hroom := disciplined.room chain hfetch
  obtain ⟨value, p, hreturned⟩ := exists_returned chain.frame hroom
  obtain ⟨hmachine, hstack⟩ := of_returned hreturned
  have hchain : Interpreter.Chain p.machine.heap m.registers p.stack m.callers := by
    rw [hmachine, hstack]
    exact chain.keepsFrame (.restore hroom) m.registers.pc
  obtain ⟨s', hreturn⟩ := hchain.exists_return value
  refine ⟨value, p, ⟨p.machine, s'⟩, hreturned, hmachine, ?_⟩
  cases hcallers : m.callers with
  | nil =>
    rw [hcallers] at hreturn
    exact ⟨hsteps, hfetch, run_bind_eq_ok_iff.mpr ⟨value, p, hreturned, hreturn⟩⟩
  | cons caller rest =>
    rw [hcallers] at hreturn
    obtain ⟨hreturn, resumes, hrest⟩ := hreturn
    exact ⟨⟨hsteps, hfetch, run_bind_eq_ok_iff.mpr ⟨value, p, hreturned, hreturn⟩⟩, resumes, hrest⟩

/-! ### The chain of callers in a run -/

/-- An instruction that neither returns nor activates a method goes on in its method and keeps its
frame. -/
lemma exists_keepsFrame (disciplined : m.Disciplined host) (chain : m.Chain)
    (step : m.Performs host instruction next (some r) q)
    (hreturn : ∀ value, instruction ≠ .return value)
    (hactivates : ∀ argumentCount method,
      ¬Activates (m.behind next) m.execution instruction argumentCount method) :
    ∃ pc, r = { m.registers with pc := pc } ∧
      KeepsFrame m.registers.header m.stack q.stack := by
  have hroom := disciplined.room chain step.fetch
  by_cases hsend : IsSend instruction
  · obtain ⟨r', hr, result⟩ := sendResult_of_perform hsend step.perform
    obtain rfl : r = r' := Option.some.inj hr
    cases result with
    | inlined hcount hsends hmachine hreplaced =>
      rw [demand_of_sentCount? hcount] at hroom
      exact ⟨next, rfl, hreplaced.keepsFrame hroom⟩
    | activated hactivates' hactivate => exact absurd hactivates' (hactivates _ _)
    | answered hanswers hmachine hreplaced =>
      rw [demand_of_answers hanswers] at hroom
      have leaves := disciplined.answers _ _ _ _ _ step.fetch hanswers
      exact ⟨next, rfl, (replaced_of_leaves leaves hreplaced).keepsFrame hroom⟩
  · obtain ⟨pc, hr, effect⟩ := effect_of_perform hreturn hsend step.perform
    obtain ⟨hargs, htemps⟩ := chain.frame.counts_lt
    exact ⟨pc, Option.some.inj hr, effect.keepsFrame hargs htemps hroom⟩

/-- The frames still form a chain at the next moment. -/
theorem chain_of_next (disciplined : m.Disciplined host) (chain : m.Chain)
    (hnext : Next host m m') : m'.Chain := by
  cases hnext with
  | @inside instruction next r q step hreturn hactivates =>
    obtain ⟨pc, rfl, hkeeps⟩ := exists_keepsFrame disciplined chain step hreturn hactivates
    exact (chain.keepsFrame hkeeps pc).keeps (disciplined.methods _ _ _ _ step)
  | @call instruction next r q argumentCount method step hactivates =>
    obtain ⟨header, hr, rfl, hcompiled, hheader, hmachine, hactivated⟩ :=
      exists_activated step hactivates
    obtain rfl := Option.some.inj hr
    obtain ⟨selector, receiver, hsends, -, -⟩ := hactivates
    have hroom := disciplined.room chain step.fetch
    rw [demand_of_sentCount? hsends.sentCount?] at hroom
    have hpos := pc_lt_of_fetch step.fetch
    have hlt := disciplined.pc _ _ step.fetch
    have chain' := (chain.keepsFrame (.refl (by omega)) next).activate header.initialPc hcompiled
      hheader (by dsimp only; omega) hlt hroom hactivated
    unfold Chain heap
    rw [hmachine]
    exact chain'
  | @«return» value next r q step =>
    obtain ⟨_, _, q', -, -, hresumes⟩ :=
      exists_resumes_of_return disciplined chain step.steps step.fetch
    unfold Chain
    cases hcallers : m.callers with
    | nil =>
      rw [hcallers] at hresumes
      have := (step.unique hresumes).2.2.1
      cases this
    | cons caller rest =>
      rw [hcallers] at hresumes
      obtain ⟨performs, -, hrest⟩ := hresumes
      obtain ⟨-, -, hr, rfl⟩ := step.unique performs
      cases hr
      exact hrest

/-- The frames form a chain at all moments of a disciplined run that begins with a chain. -/
theorem chain_of_reaches (disciplined : ∀ m', Reaches host m m' → m'.Disciplined host)
    (chain : m.Chain) (hreaches : Reaches host m m') : m'.Chain := by
  induction hreaches with
  | refl => exact chain
  | tail hreaches hnext ih => exact chain_of_next (disciplined _ hreaches) ih hnext

/-- An instruction leaves nothing to run just when it is a return without a caller. -/
lemma eq_none_iff (disciplined : m.Disciplined host) (chain : m.Chain)
    (step : m.Performs host instruction next o q) :
    o = none ↔ (∃ value, instruction = .return value) ∧ m.callers = [] := by
  by_cases hreturn : ∃ value, instruction = .return value
  · obtain ⟨value, rfl⟩ := hreturn
    obtain ⟨_, _, q', -, -, hresumes⟩ :=
      exists_resumes_of_return disciplined chain step.steps step.fetch
    cases hcallers : m.callers with
    | nil =>
      rw [hcallers] at hresumes
      simp [(step.unique hresumes).2.2.1]
    | cons caller rest =>
      rw [hcallers] at hresumes
      simp [(step.unique hresumes.1).2.2.1]
  · refine ⟨fun hnone => ?_, fun h => absurd h.1 hreturn⟩
    subst hnone
    by_cases hsend : IsSend instruction
    · obtain ⟨r', hr, -⟩ := sendResult_of_perform hsend step.perform
      cases hr
    · obtain ⟨pc, hr, -⟩ :=
        effect_of_perform (fun value heq => hreturn ⟨value, heq⟩) hsend step.perform
      cases hr

/-! ### The beginning of a run -/

/-- The frame that begins a run is a chain without callers. -/
lemma chain_of_prepare {method receiver : Value} {arguments : List Value} {p p₀ : Execution}
    (hsize : p.stack.size < 2 ^ 64) (hmethod : p.machine.heap.isCompiledMethod method = true)
    (hstart : prepare method receiver arguments p = .ok r p₀) (steps : ℕ) :
    Chain ⟨steps, r, p₀, []⟩ := by
  obtain ⟨_, s, hpush, h⟩ := onStack_bind_eq_ok_iff.mp hstart
  obtain ⟨_, p₁, harguments, h⟩ := run_bind_eq_ok_iff.mp h
  obtain ⟨header, hheader, hcount, rfl, hlive, hmachine, hactivated⟩ := activated_of_activate h
  obtain ⟨hpushed, hmachine₁⟩ := pushedAll_of_forM_push harguments
  have hsize₁ := hpushed.same.size
  have hsize₀ := (Stack.pushed_of_pushWord hpush).same.size
  unfold Chain heap
  rw [hmachine, hmachine₁]
  rw [hmachine₁] at hheader
  refine .entry (.activate hmethod hheader ?_ ?_ hactivated) hactivated.returnPc
  · rw [hsize₁]
    dsimp only
    omega
  · rw [hcount]
    exact hlive

/-! ### Calls and returns -/

/-- What holds of the calls and returns of a run that begins at a moment. -/
structure CallsReturn (host : Host) (start : Moment) : Prop where
  /-- A return succeeds. Without a caller it ends the run. Otherwise the nearest caller goes on with
  its method behind its send, on a stack with the value in the place of what it sent. -/
  returns : ∀ m, Reaches host start m → m.steps ≠ 0 → ∀ returnValue next,
    fetch m.heap m.registers = .ok (.return returnValue, next) →
    ∃ value p q, returned returnValue m.execution = .ok value p ∧
      match m.callers with
      | [] => m.Performs host (.return returnValue) next none q
      | caller :: _ =>
        m.Performs host (.return returnValue) next (some caller.registers) q ∧
          Resumes caller value q.stack
  /-- What a native method or the handler answers takes the place of what was sent, and the method
  that sent goes on behind its send. -/
  answers : ∀ m, Reaches host start m → m.steps ≠ 0 → ∀ instruction next argumentCount value p,
    fetch m.heap m.registers = .ok (instruction, next) →
    Answers host (m.sender host) (m.behind next) m.execution instruction argumentCount value p →
    ∃ q, m.Performs host instruction next (some (m.behind next)) q ∧
      Resumes ⟨m.behind next, m.stack, argumentCount⟩ value q.stack
  /-- An instruction leaves nothing to run just when it is a return of the frame that began the
  run. -/
  none_iff : ∀ m, Reaches host start m → ∀ instruction next o q,
    m.Performs host instruction next o q →
    (o = none ↔ (∃ value, instruction = .return value) ∧ m.callers = [])
  /-- The run ends just when the frame that began it returns. -/
  ends_iff : ∀ q, run host start.steps start.registers start.execution = .ok () q ↔
    ∃ m value next o, Reaches host start m ∧ m.callers = [] ∧
      m.Performs host (.return value) next o q

/-- In a disciplined run each activation that returns goes back to the frame that sent. -/
theorem callsReturn_of_disciplined {method receiver : Value} {arguments : List Value}
    {p p₀ : Execution} (steps : ℕ) (hsize : p.stack.size < 2 ^ 64)
    (hmethod : p.machine.heap.isCompiledMethod method = true)
    (hstart : prepare method receiver arguments p = .ok r p₀)
    (disciplined : ∀ m, Reaches host ⟨steps, r, p₀, []⟩ m → m.Disciplined host) :
    CallsReturn host ⟨steps, r, p₀, []⟩ := by
  have chain : ∀ m, Reaches host ⟨steps, r, p₀, []⟩ m → m.Chain := fun m hreaches =>
    chain_of_reaches disciplined (chain_of_prepare hsize hmethod hstart steps) hreaches
  constructor
  · intro m hreaches hsteps returnValue next hfetch
    obtain ⟨value, p, q, hreturned, -, hresumes⟩ :=
      exists_resumes_of_return (disciplined m hreaches) (chain m hreaches) hsteps hfetch
    refine ⟨value, p, q, hreturned, ?_⟩
    cases hcallers : m.callers with
    | nil =>
      rw [hcallers] at hresumes
      exact hresumes
    | cons caller rest =>
      rw [hcallers] at hresumes
      exact ⟨hresumes.1, hresumes.2.1⟩
  · intro m hreaches hsteps instruction next argumentCount value p hfetch hanswers
    exact exists_resumes_of_answers (disciplined m hreaches) (chain m hreaches) hsteps hfetch
      hanswers
  · intro m hreaches instruction next o q step
    exact eq_none_iff (disciplined m hreaches) (chain m hreaches) step
  · intro q
    constructor
    · intro hrun
      obtain ⟨m, instruction, next, hreaches, step⟩ := run_eq_ok_iff.mp hrun
      obtain ⟨⟨value, rfl⟩, hcallers⟩ :=
        (eq_none_iff (disciplined m hreaches) (chain m hreaches) step).mp rfl
      exact ⟨m, value, next, none, hreaches, hcallers, step⟩
    · rintro ⟨m, value, next, o, hreaches, hcallers, step⟩
      obtain rfl := (eq_none_iff (disciplined m hreaches) (chain m hreaches) step).mpr
        ⟨⟨value, rfl⟩, hcallers⟩
      exact run_eq_ok_iff.mpr ⟨m, _, next, hreaches, step⟩

/-- An execution with objects for a send: the class of small integers, which understands one
selector by a method that returns the receiver, and a method that sends the selector with the
argument 1. -/
def sampleExecution : Execution where
  machine.heap.words := #[0,
    -- the class: no superclass, and the dictionary
    0x0200000101000016, 0, 32,
    -- the dictionary, its keys and its values: the character f goes with the first method
    0x0300000401000011, 0, 64, 80,
    0x010000080200000f, 0x332,
    0x0100000a0200000f, 96,
    -- one argument and one temporary; return receiver
    0x0200000c1f000012, 0x02020001, 0x58,
    -- one literal; push receiver, push 1, send with one argument, return top
    0x0300000f1c000012, 3, 0x332, 0x5c90514c]
  machine.heap.limit := 1024
  machine.heap.nil := Value.zero
  machine.heap.objectCount := 6
  machine.nil := Value.zero
  machine.trueObject := Value.zero
  machine.falseObject := Value.zero
  machine.classTable := #[Value.zero, Value.ofAddress 8]
  machine.symbols := ∅
  machine.natives := #[]
  machine.specialSelectors := #[]
  machine.registry := .empty
  machine.handlerCalls := 0
  stack := Stack.new 256

/-- The method of the sample that sends. -/
def sampleMethod : Value :=
  Value.ofAddress 120

/-- The run of the sample is disciplined, and the method that it activates returns to the one that
sent. -/
theorem callsReturn_sample : ∃ r p₀, sampleExecution.stack.size < 2 ^ 64 ∧
    sampleExecution.machine.heap.isCompiledMethod sampleMethod = true ∧
    prepare sampleMethod (Value.ofInt 7) [] sampleExecution = .ok r p₀ ∧
    (∀ m, Reaches Host.none ⟨10, r, p₀, []⟩ m → m.Disciplined Host.none) ∧
    CallsReturn Host.none ⟨10, r, p₀, []⟩ := by
  have hsize : sampleExecution.stack.size < 2 ^ 64 := by decide +kernel
  have hmethod : sampleExecution.machine.heap.isCompiledMethod sampleMethod = true := by
    decide +kernel
  have hcalm : isCalmFrom Host.none 10 (prepare sampleMethod (Value.ofInt 7) [] sampleExecution) =
      true := by decide +kernel
  cases hstart : prepare sampleMethod (Value.ofInt 7) [] sampleExecution with
  | error e p => simp [hstart, isCalmFrom] at hcalm
  | ok r p₀ =>
    rw [hstart, isCalmFrom] at hcalm
    have disciplined : ∀ m, Reaches Host.none ⟨10, r, p₀, []⟩ m → m.Disciplined Host.none :=
      fun m hreaches => disciplined_of_isCalm hcalm hreaches
    exact ⟨r, p₀, hsize, hmethod, rfl, disciplined,
      callsReturn_of_disciplined 10 hsize hmethod hstart disciplined⟩

end Moment

end Interpreter

end TalkMachine
