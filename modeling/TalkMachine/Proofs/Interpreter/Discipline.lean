import TalkMachine.Proofs.Interpreter.Instructions
import TalkMachine.Proofs.Interpreter.Runs
import TalkMachine.Proofs.Method

/-!
# Disciplined runs

A run is disciplined while no instruction takes more words than its frame has operands, nothing is
stored into the methods of its frames, and native methods and the handler leave the stack as they
found it (`Interpreter.Moment.Disciplined`).

For a run that sends to compiled methods only and stores into no object, this can be told by running
it (`Interpreter.Moment.disciplined_of_isCalm`).
-/

namespace TalkMachine

namespace Interpreter

open Execution

/-- A stack has been left with its pointers and its live words. -/
structure Leaves (s s' : Stack) : Prop where
  sp : s'.sp = s.sp
  fp : s'.fp = s.fp
  same : Stack.SameFrom s.sp s s'

namespace Moment

/-- The methods of the frames of a run, of the running one first. -/
def methods (m : Moment) : List Value :=
  m.registers.method :: m.callers.map (·.registers.method)

/-- What a run keeps to at a moment. -/
structure Disciplined (host : Host) (m : Moment) : Prop where
  /-- No instruction pops or peeks more words than its frame has as operands. -/
  operands : ∀ instruction next, fetch m.heap m.registers = .ok (instruction, next) →
    demand instruction ≤ operandCount m.registers m.stack
  /-- The methods in use are not stored into. -/
  methods : ∀ instruction next o q, m.Performs host instruction next o q →
    ∀ method ∈ m.methods, Heap.Keeps method m.heap q.machine.heap
  /-- Native methods and the handler leave the stack as they found it. -/
  answers : ∀ instruction next argumentCount value q,
    fetch m.heap m.registers = .ok (instruction, next) →
    Answers host (m.sender host) (m.behind next) m.execution instruction argumentCount value q →
    Leaves m.stack q.stack
  /-- The program counter is a word. -/
  pc : ∀ instruction next, fetch m.heap m.registers = .ok (instruction, next) → next < 2 ^ 64

variable {host : Host} {m m' : Moment} {instruction : Instruction} {next : ℕ}
  {o : Option Registers} {r : Registers} {q : Execution}

/-! ### Activations -/

/-- A send that activates a method builds its frame below the arguments, and the method begins at its
first instruction. -/
lemma exists_activated {argumentCount : ℕ} {method : Value}
    (step : m.Performs host instruction next o q)
    (hactivates : Activates (m.behind next) m.execution instruction argumentCount method) :
    ∃ header, o = some ⟨method, header, header.initialPc⟩ ∧ header.argumentCount = argumentCount ∧
      m.heap.isCompiledMethod method = true ∧ m.heap.methodHeader method = .ok header ∧
      q.machine = m.execution.machine ∧ Activated method header next m.stack q.stack := by
  obtain ⟨selector, receiver, hsends, hreceiver, hfind⟩ := hactivates
  obtain ⟨r, rfl, result⟩ := sendResult_of_perform hsends.isSend step.perform
  cases result with
  | inlined hcount hsends' hmachine hreplaced => exact absurd hsends (hsends' _ _)
  | answered hanswers hmachine hreplaced =>
    exact absurd ⟨selector, receiver, hsends, hreceiver, hfind⟩ hanswers.not_activates
  | activated hactivates' hactivate =>
    obtain ⟨rfl, rfl⟩ := hactivates'.unique ⟨selector, receiver, hsends, hreceiver, hfind⟩
    obtain ⟨header, hheader, hcount, rfl, -, hmachine, hactivated⟩ :=
      activated_of_activate hactivate
    exact ⟨header, rfl, hcount, Machine.compiled_of_find hfind, hheader,
      hmachine, hactivated⟩

/-! ### Calm runs -/

/-- An instruction stores into no object, and sends to compiled methods only. -/
def isCalmInstruction (r : Registers) (p : Execution) : Instruction → Bool
  | .store place _ _ => place = .temporary
  | .sendSpecial _ => false
  | .send index argumentCount =>
    match p.machine.heap.methodLiteral r.method index, p.stack.peek argumentCount with
    | .ok selector, .ok receiver =>
      match p.machine.find receiver selector with
      | .ok (some (.compiled _)) => true
      | _ => false
    | _, _ => false
  | _ => true

/-- A run of at most so many steps is disciplined as far as its frames go, and all its instructions
are calm. -/
def isCalm (host : Host) : (steps : ℕ) → Registers → Execution → Bool
  | 0, _, _ => false
  | steps + 1, r, p =>
    match fetch p.machine.heap r with
    | .error _ => true
    | .ok (instruction, next) =>
      demand instruction ≤ operandCount r p.stack && next < 2 ^ 64 &&
        isCalmInstruction { r with pc := next } p instruction &&
        match perform host (send host steps) { r with pc := next } instruction p with
        | .ok (some r) q => isCalm host steps r q
        | _ => true

/-- A method is ready to be run, and the run from there is calm. -/
def isCalmFrom (host : Host) (steps : ℕ) : EStateM.Result MachineError Execution Registers → Bool
  | .ok r p => isCalm host steps r p
  | .error _ _ => false

/-- A calm send activates a method. -/
lemma exists_activates_of_isCalm {r : Registers} {p : Execution} (hsend : IsSend instruction)
    (hcalm : isCalmInstruction r p instruction = true) :
    ∃ argumentCount method, Activates r p instruction argumentCount method := by
  cases instruction <;> try exact absurd hsend id
  case sendSpecial index => cases hcalm
  case send index argumentCount =>
    unfold isCalmInstruction at hcalm
    cases hselector : p.machine.heap.methodLiteral r.method index with
    | error e => simp [hselector] at hcalm
    | ok selector =>
      cases hreceiver : p.stack.peek argumentCount with
      | error e => simp [hselector, hreceiver] at hcalm
      | ok receiver =>
        simp only [hselector, hreceiver] at hcalm
        split at hcalm
        · rename_i method hfind
          exact ⟨argumentCount, method, selector, receiver, .literal hselector, hreceiver, hfind⟩
        · cases hcalm

/-- A calm instruction leaves the machine as it was. -/
lemma machine_of_isCalm (step : m.Performs host instruction next o q)
    (hcalm : isCalmInstruction (m.behind next) m.execution instruction = true) :
    q.machine = m.execution.machine := by
  by_cases hreturn : ∃ value, instruction = .return value
  · obtain ⟨value, rfl⟩ := hreturn
    obtain ⟨value, p, hreturned, hreturn⟩ := run_bind_eq_ok_iff.mp step.perform
    rw [machine_of_returnValue hreturn, (of_returned hreturned).1]
  · by_cases hsend : IsSend instruction
    · obtain ⟨argumentCount, method, hactivates⟩ := exists_activates_of_isCalm hsend hcalm
      obtain ⟨header, -, -, -, -, hmachine, -⟩ := exists_activated step hactivates
      exact hmachine
    · obtain ⟨pc, -, effect⟩ :=
        effect_of_perform (fun value heq => hreturn ⟨value, heq⟩) hsend step.perform
      apply effect.machine
      rintro place index popping rfl
      exact of_decide_eq_true hcalm

/-- A run is calm if its first instruction is and what follows. -/
lemma isCalm_succ (host : Host) (steps : ℕ) (r : Registers) (p : Execution) :
    isCalm host (steps + 1) r p =
      match fetch p.machine.heap r with
      | .error _ => true
      | .ok (instruction, next) =>
        demand instruction ≤ operandCount r p.stack && next < 2 ^ 64 &&
          isCalmInstruction { r with pc := next } p instruction &&
          match perform host (send host steps) { r with pc := next } instruction p with
          | .ok (some r) q => isCalm host steps r q
          | _ => true := by
  rfl

/-- What is known of an instruction in a calm run. -/
lemma of_isCalm (hcalm : isCalm host m.steps m.registers m.execution = true)
    (hfetch : fetch m.heap m.registers = .ok (instruction, next)) :
    demand instruction ≤ operandCount m.registers m.stack ∧ next < 2 ^ 64 ∧
      isCalmInstruction (m.behind next) m.execution instruction = true ∧
      ∀ r q, m.Performs host instruction next (some r) q →
        isCalm host (m.steps - 1) r q = true := by
  obtain ⟨steps, hsteps⟩ : ∃ steps, m.steps = steps + 1 := by
    cases hzero : m.steps with
    | zero =>
      rw [hzero] at hcalm
      cases hcalm
    | succ steps => exact ⟨steps, rfl⟩
  rw [hsteps] at hcalm ⊢
  unfold heap at hfetch
  simp only [isCalm_succ, hfetch, Bool.and_eq_true, decide_eq_true_eq] at hcalm
  obtain ⟨⟨⟨hoperands, hpc⟩, hinstruction⟩, hrest⟩ := hcalm
  refine ⟨hoperands, hpc, hinstruction, fun r q step => ?_⟩
  have hperform := step.perform
  unfold sender behind at hperform
  rw [hsteps, Nat.add_sub_cancel] at hperform
  rw [hperform] at hrest
  exact hrest

/-- A calm instruction keeps all objects. -/
lemma keeps_of_isCalm_self (hcalm : isCalm host m.steps m.registers m.execution = true)
    (step : m.Performs host instruction next o q) (object : Value) :
    Heap.Keeps object m.heap q.machine.heap := by
  have hmachine := machine_of_isCalm step (of_isCalm hcalm step.fetch).2.2.1
  unfold heap
  rw [hmachine]
  exact ⟨rfl, fun _ => rfl⟩

/-- A calm run is disciplined at its moment. -/
lemma disciplined_of_isCalm_self (hcalm : isCalm host m.steps m.registers m.execution = true) :
    m.Disciplined host := by
  constructor
  · intro instruction next hfetch
    exact (of_isCalm hcalm hfetch).1
  · intro instruction next o q step method _
    exact keeps_of_isCalm_self hcalm step method
  · intro instruction next argumentCount value q hfetch hanswers
    obtain ⟨argumentCount', method, hactivates⟩ :=
      exists_activates_of_isCalm hanswers.isSend (of_isCalm hcalm hfetch).2.2.1
    exact absurd hactivates hanswers.not_activates
  · intro instruction next hfetch
    exact (of_isCalm hcalm hfetch).2.1

/-- A calm run is calm from each of its moments on. -/
lemma isCalm_of_reaches (hcalm : isCalm host m.steps m.registers m.execution = true)
    (hreaches : Reaches host m m') : isCalm host m'.steps m'.registers m'.execution = true := by
  induction hreaches with
  | refl => exact hcalm
  | tail hreaches hnext ih =>
    obtain ⟨instruction, next, step, hsteps⟩ := hnext.performs
    rw [hsteps]
    exact (of_isCalm ih step.fetch).2.2.2 _ _ step

/-- A calm run keeps all objects. -/
lemma keeps_of_isCalm (hcalm : isCalm host m.steps m.registers m.execution = true)
    (hreaches : Reaches host m m') (step : m'.Performs host instruction next o q)
    (object : Value) : Heap.Keeps object m'.heap q.machine.heap :=
  keeps_of_isCalm_self (isCalm_of_reaches hcalm hreaches) step object

/-- A calm run is disciplined at all its moments. -/
theorem disciplined_of_isCalm (hcalm : isCalm host m.steps m.registers m.execution = true)
    (hreaches : Reaches host m m') : m'.Disciplined host :=
  disciplined_of_isCalm_self (isCalm_of_reaches hcalm hreaches)

end Moment

end Interpreter

end TalkMachine
