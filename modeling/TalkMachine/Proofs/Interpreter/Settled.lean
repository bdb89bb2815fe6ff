import TalkMachine.Proofs.Interpreter.Dispatch

/-!
# Outcomes and numbers of steps

A run is given the greatest number of steps that it may take. That a run *settles* says that this
number decides one thing only, whether it is enough: there is a bound below which the steps run out,
and from the bound on the outcome is always the same (`Interpreter.Settles`).

What a run from some place settles to follows from one step and from what the run from the next
place settles to (`Interpreter.Ends.of_perform`). So the outcome of a program is derived backwards,
and no number of steps is ever counted.
-/

namespace TalkMachine

namespace Interpreter

open Execution

variable {host : Host} {r : Registers} {p p' q : Execution} {instruction : Instruction} {next : ℕ}
  {method receiver selector : Value} {arguments : List Value} {e : MachineError} {α β : Type}
  {o : EStateM.Result MachineError Execution (Option Registers)}

/-- What is demanded of an outcome. -/
abbrev Demand (α : Type) : Type :=
  EStateM.Result MachineError Execution α → Prop

/-- Whether `x` runs out of steps when it may take too few of them, and else always comes to the
same outcome, which is as `P` demands. -/
def Settles (x : ℕ → ExecutionM α) (p : Execution) (P : Demand α) : Prop :=
  ∃ bound outcome, P outcome ∧ (∀ steps < bound, ∃ q, x steps p = .error .outOfSteps q) ∧
    ∀ steps, bound ≤ steps → x steps p = outcome

namespace Settles

variable {x : ℕ → ExecutionM α} {y : ℕ → ExecutionM β} {P P' : Demand α}

/-- A weaker demand is met too. -/
lemma mono (h : Settles x p P) (himp : ∀ outcome, P outcome → P' outcome) : Settles x p P' := by
  obtain ⟨bound, outcome, hP, hfew, henough⟩ := h
  exact ⟨bound, outcome, himp outcome hP, hfew, henough⟩

/-- What settles to a failure never succeeds, whatever the number of steps. -/
lemma ne_ok (h : Settles x p P) (hP : ∀ a q, ¬P (.ok a q)) (steps : ℕ) (a : α) (q : Execution) :
    x steps p ≠ .ok a q := by
  intro heq
  obtain ⟨bound, outcome, houtcome, hfew, henough⟩ := h
  rcases Nat.lt_or_ge steps bound with hlt | hge
  · obtain ⟨q', hq'⟩ := hfew steps hlt
    cases heq.symm.trans hq'
  · rw [henough steps hge] at heq
    exact hP a q (heq ▸ houtcome)

/-- What the number of steps makes no difference to settles. -/
lemma of_forall {outcome : EStateM.Result MachineError Execution α}
    (hx : ∀ steps, x steps p = outcome) (hP : P outcome) : Settles x p P :=
  ⟨0, outcome, hP, fun _ hlt => absurd hlt (Nat.not_lt_zero _), fun steps _ => hx steps⟩

/-- What comes to what something else comes to settles if that does. -/
lemma of_eq {f : EStateM.Result MachineError Execution β → EStateM.Result MachineError Execution α}
    (hx : ∀ steps, x steps p = f (y steps p'))
    (hf : ∀ q, ∃ q', f (.error .outOfSteps q) = .error .outOfSteps q')
    (h : Settles y p' fun outcome => P (f outcome)) : Settles x p P := by
  obtain ⟨bound, outcome, hP, hfew, henough⟩ := h
  refine ⟨bound, f outcome, hP, fun steps hlt => ?_, fun steps hle => ?_⟩
  · obtain ⟨q, hq⟩ := hfew steps hlt
    obtain ⟨q', hq'⟩ := hf q
    exact ⟨q', by rw [hx, hq, hq']⟩
  · rw [hx, henough steps hle]

/-- What one step is enough for settles. -/
lemma of_one (hzero : x 0 p = .error .outOfSteps p)
    {outcome : EStateM.Result MachineError Execution α}
    (hsucc : ∀ steps, x (steps + 1) p = outcome) (hP : P outcome) : Settles x p P := by
  refine ⟨1, outcome, hP, fun steps hlt => ⟨p, ?_⟩, fun steps hle => ?_⟩
  · rwa [Nat.lt_one_iff.mp hlt]
  · obtain ⟨steps, rfl⟩ := Nat.exists_eq_add_of_le' hle
    exact hsucc steps

/-- What comes, with one step more, to what something else comes to, settles if that does. -/
lemma of_succ (hzero : x 0 p = .error .outOfSteps p)
    {f : EStateM.Result MachineError Execution β → EStateM.Result MachineError Execution α}
    (hsucc : ∀ steps, x (steps + 1) p = f (y steps p'))
    (hf : ∀ q, ∃ q', f (.error .outOfSteps q) = .error .outOfSteps q')
    (h : Settles y p' fun outcome => P (f outcome)) : Settles x p P := by
  obtain ⟨bound, outcome, hP, hfew, henough⟩ := h
  refine ⟨bound + 1, f outcome, hP, fun steps hlt => ?_, fun steps hle => ?_⟩
  · cases steps with
    | zero => exact ⟨p, hzero⟩
    | succ steps =>
      obtain ⟨q, hq⟩ := hfew steps (Nat.lt_of_succ_lt_succ hlt)
      obtain ⟨q', hq'⟩ := hf q
      exact ⟨q', by rw [hsucc, hq, hq']⟩
  · obtain ⟨steps, rfl⟩ := Nat.exists_eq_add_of_le' (Nat.le_of_add_left_le hle)
    rw [hsucc, henough steps (Nat.le_of_succ_le_succ hle)]

end Settles

/-! ### Runs -/

variable {P : Demand Unit} {Q : Demand Value}

/-- Whether a run from some place settles to what is demanded. -/
def Ends (host : Host) (r : Registers) (p : Execution) (P : Demand Unit) : Prop :=
  Settles (fun steps => run host steps r) p P

/-- Whether a run settles to what is demanded when a step of it comes out like this. -/
def Continues (host : Host) (P : Demand Unit) : Demand (Option Registers)
  | .ok (some r) p => Ends host r p P
  | .ok none p => P (.ok () p)
  | .error e p => P (.error e p)

/-- Behind a step that leaves something to run, the run from there counts. -/
lemma continues_some : Continues host P (.ok (some r) p) ↔ Ends host r p P :=
  Iff.rfl

/-- A run settles as it does behind its first step, if native methods make no difference to that. -/
lemma Ends.of_step (hstep : ∀ sender, step host sender r p = o) (h : Continues host P o) :
    Ends host r p P := by
  match o with
  | .ok (some r') p' =>
    refine Settles.of_succ (f := id) rfl (fun steps => ?_) (fun q => ⟨q, rfl⟩) h
    rw [Moment.run_succ, hstep]
    rfl
  | .ok none p' =>
    refine Settles.of_one rfl (fun steps => ?_) h
    rw [Moment.run_succ, hstep]
  | .error e p' =>
    refine Settles.of_one rfl (fun steps => ?_) h
    rw [Moment.run_succ, hstep]

/-- A run settles as it does behind the instruction that it fetches first. -/
theorem Ends.of_perform (hfetch : fetch p.machine.heap r = .ok (instruction, next))
    (hperform : ∀ sender, perform host sender { r with pc := next } instruction p = o)
    (h : Continues host P o) : Ends host r p P := by
  refine .of_step (fun sender => ?_) h
  refine (run_bind_of_ok (ask_eq_ok_iff.mpr ⟨hfetch, rfl⟩)).trans ?_
  exact hperform sender

/-! ### Sends -/

/-- What the execution of a method comes to when its preparation or its run comes out like this: the
value on top is popped, and after a failure the pointers of the stack are put back to where they
were. -/
def leave (p : Execution) (outcome : EStateM.Result MachineError Execution α) :
    EStateM.Result MachineError Execution Value :=
  restoring p.stack.sp p.stack.fp (fun _ =>
    match outcome with
    | .ok _ q => pop q
    | .error e q => .error e q) p

/-- After a failure the pointers of the stack are put back. -/
lemma leave_error : leave p (.error e q : EStateM.Result MachineError Execution α) =
    .error e ⟨q.machine, q.stack.restore p.stack.sp p.stack.fp⟩ :=
  rfl

/-- The value on top is answered. -/
lemma leave_ok {a : α} {value : Value} (hpop : pop q = .ok value p') :
    leave p (.ok a q : EStateM.Result MachineError Execution α) = .ok value p' := by
  simp only [leave, restoring, hpop]

/-- What is popped behind some steps, and what the steps come to. -/
lemma restoring_bind_pop (x : ExecutionM α) (p : Execution) :
    restoring p.stack.sp p.stack.fp (x >>= fun _ => pop) p = leave p (x p) := by
  unfold leave restoring
  cases hx : x p with
  | ok a q => rw [run_bind_of_ok hx]
  | error e q => rw [run_bind_of_error hx]

/-- To execute a method is to prepare it and to run it. -/
lemma executeWith_eq_leave (run : Registers → ExecutionM Unit) :
    executeWith run method receiver arguments p = leave p ((do
      let r ← prepare method receiver arguments
      run r) p) := by
  rw [executeWith, enter_eq, ← bind_assoc]
  exact restoring_bind_pop _ p

/-- A compiled method is executed. -/
lemma execute_of_isCompiledMethod (hmethod : p.machine.heap.isCompiledMethod method = true)
    (steps : ℕ) : execute host steps method receiver arguments p =
      executeWith (run host steps) method receiver arguments p := by
  have hask : ask (fun p => .ok (p.machine.heap.isCompiledMethod method)) p = .ok true p :=
    ask_eq_ok_iff.mpr ⟨congrArg Except.ok hmethod, rfl⟩
  exact run_bind_of_ok hask

/-- A send that finds a compiled method executes it. -/
lemma send_succ_of_compiled
    (hfind : p.machine.find receiver selector = .ok (some (.compiled method))) (steps : ℕ) :
    send host (steps + 1) receiver selector arguments p =
      executeWith (run host steps) method receiver arguments p := by
  show sendWith host (run host steps) (send host steps) receiver selector arguments p = _
  rw [sendWith_eq]
  exact run_bind_of_ok (x := askMachine fun m => m.find receiver selector)
    (run_askMachine_of_ok hfind)

/-- What is demanded of the preparation of a method when the send is to settle: that the run
settles, as long as the preparation does not fail. -/
def Starts (host : Host) (p : Execution) (Q : Demand Value) : Demand Registers
  | .ok r p₀ => Ends host r p₀ fun outcome => Q (leave p outcome)
  | .error e q => Q (.error e ⟨q.machine, q.stack.restore p.stack.sp p.stack.fp⟩)

/-- To execute a compiled method settles as its preparation and its run do. -/
theorem settles_execute (hmethod : p.machine.heap.isCompiledMethod method = true)
    (h : Starts host p Q (prepare method receiver arguments p)) :
    Settles (fun steps => execute host steps method receiver arguments) p Q := by
  have hrun : ∀ steps, execute host steps method receiver arguments p =
      leave p ((do
        let r ← prepare method receiver arguments
        run host steps r) p) := by
    intro steps
    rw [execute_of_isCompiledMethod hmethod, executeWith_eq_leave]
  cases hprepare : prepare method receiver arguments p with
  | error e q =>
    rw [hprepare] at h
    refine Settles.of_forall (fun steps => ?_) h
    rw [hrun, run_bind_of_error hprepare]
    rfl
  | ok r p₀ =>
    rw [hprepare] at h
    refine Settles.of_eq (fun steps => ?_) (fun q => ⟨_, leave_error⟩) h
    rw [hrun, run_bind_of_ok hprepare]

/-- A send for which there is a compiled method settles as the preparation and the run of the method
do. -/
theorem settles_send (hfind : p.machine.find receiver selector = .ok (some (.compiled method)))
    (h : Starts host p Q (prepare method receiver arguments p)) :
    Settles (fun steps => send host steps receiver selector arguments) p Q := by
  have hsucc : ∀ steps, send host (steps + 1) receiver selector arguments p =
      leave p ((do
        let r ← prepare method receiver arguments
        run host steps r) p) := by
    intro steps
    rw [send_succ_of_compiled hfind, executeWith_eq_leave]
  cases hprepare : prepare method receiver arguments p with
  | error e q =>
    rw [hprepare] at h
    refine Settles.of_one rfl (fun steps => ?_) h
    rw [hsucc, run_bind_of_error hprepare]
    rfl
  | ok r p₀ =>
    rw [hprepare] at h
    refine Settles.of_succ rfl (fun steps => ?_) (fun q => ⟨_, leave_error⟩) h
    rw [hsucc, run_bind_of_ok hprepare]

end Interpreter

end TalkMachine
