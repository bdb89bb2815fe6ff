import TalkMachine.CommandLine
import TalkMachine.Proofs.Interpreter.Runs
import TalkMachine.Proofs.Machine.Arising

/-!
# Machines that arise from running code

Single instructions, runs and sends lead from machines that arise to machines that arise, however they
end, if what the host supplies does so as long as the messages that it sends do
(`Interpreter.maintains_run_and_send`). So what is proved of machines that arise holds of the machine of
the demonstration (`CommandLine.arises_of_newDemo`), and of what its messages make of it.
-/

namespace TalkMachine

variable {limit : ℕ}

/-! ### Native methods and the handler -/

namespace Execution

variable {host : Host} {send : Sender}

/-- The native method with a number leads to machines that arise. -/
lemma maintains_callNumbered (hhost : host.LeadsOn limit) (hsend : send.LeadsOn limit)
    (index argumentCount : ℕ) (receiver : Value) (arguments : List Value) :
    Maintains (Arises limit) (callNumbered host send index argumentCount receiver arguments) := by
  refine .guard ((maintains_ask _).bind fun native => ?_)
  cases native with
  | some native => exact maintains_callNative (fun _ _ => ⟨hhost, hsend⟩) receiver arguments
  | none => exact .throw _

/-- So does the answer to a message that was not understood. -/
lemma maintains_doesNotUnderstand (hhost : host.LeadsOn limit) (hsend : send.LeadsOn limit)
    (receiver selector : Value) (arguments : List Value) :
    Maintains (Arises limit) (doesNotUnderstand host send receiver selector arguments) := by
  unfold doesNotUnderstand
  split
  · rename_i handler hhandler
    have hcount : Maintains (Arises limit) countHandlerCall :=
      maintains_onMachine fun _ arises => arises.beside rfl rfl le_rfl
    exact hcount.bind fun _ => hhost.handler handler hhandler send hsend receiver selector arguments
  · exact .throw _

end Execution

namespace Interpreter

open Execution

variable {host : Host} {sender : Sender} {r : Registers}

/-! ### Instructions -/

/-- The frame of a method is built on the stack. -/
lemma maintains_activate (method : Value) (returnPc argumentCount : ℕ) :
    Maintains (Arises limit) (activate method returnPc argumentCount) := by
  have hpush (value : Value) (count : ℕ) : Maintains (Arises limit) (pushTimes value count) := by
    induction count with
    | zero => exact .pure ()
    | succ count ih => exact (maintains_onStack _).bind fun _ => ih
  refine (maintains_ask _).bind fun header => .guard ?_
  refine (maintains_onStack _).bind fun receiver => (maintains_ask _).bind fun nil => ?_
  refine (maintains_onStack _).bind fun _ => (maintains_onStack _).bind fun _ => ?_
  refine (maintains_onStack _).bind fun _ => (maintains_onStack _).bind fun _ => ?_
  refine (maintains_onStack _).bind fun _ => (maintains_onStack _).bind fun _ => ?_
  exact (maintains_onStack _).bind fun _ => (hpush nil header.tempCount).bind fun _ => .pure _

/-- It is taken down on the stack. -/
lemma maintains_returnValue (value : Value) : Maintains (Arises limit) (returnValue value) := by
  refine (maintains_onStack _).bind fun metadata => (maintains_onStack _).bind fun fp => ?_
  refine (maintains_onStack _).bind fun _ => (maintains_onStack _).bind fun previousFp => ?_
  refine (maintains_onStack _).bind fun returnPc => (maintains_onStack _).bind fun _ => ?_
  refine (maintains_onStack _).bind fun _ => (maintains_onStack _).bind fun _ => ?_
  split
  · exact .pure none
  · refine (maintains_onStack _).bind fun method => (maintains_ask _).bind fun header => ?_
    exact .pure _

/-- A variable is only looked at. -/
lemma maintains_load (place : Place) (index : ℕ) : Maintains (Arises limit) (load r place index) := by
  cases place with
  | receiverField => exact (maintains_onStack _).bind fun _ => maintains_ask _
  | literalBinding => exact (maintains_ask _).bind fun _ => maintains_ask _
  | temporary => exact (maintains_onStack _).bind fun _ => maintains_onStack _

/-- A store into a variable leads to machines that arise. -/
lemma maintains_storeInto (place : Place) (index : ℕ) (value : Value) :
    Maintains (Arises limit) (storeInto r place index value) := by
  have hstore (object : Value) (slot : ℕ) :
      Maintains (Arises limit) (onMachine (Machine.change (Heap.store object slot value))) :=
    maintains_onMachine (Machine.maintains_change fun _ lasts => lasts.store ..)
  cases place with
  | receiverField => exact (maintains_onStack _).bind fun receiver => hstore receiver index
  | literalBinding =>
    exact (maintains_ask _).bind fun binding => hstore binding Machine.associationValue
  | temporary => exact (maintains_onStack _).bind fun _ => maintains_onStack _

/-- A special selector without a send works on the stack. -/
lemma maintains_inlineSpecial (index : ℕ) : Maintains (Arises limit) (inlineSpecial index) := by
  unfold inlineSpecial
  split
  · refine (maintains_onStack _).bind fun b => (maintains_onStack _).bind fun a => ?_
    exact (maintains_ask _).bind fun _ => (maintains_onStack _).bind fun _ => .pure true
  split
  · refine (maintains_onStack _).bind fun a => (maintains_ask _).bind fun _ => ?_
    exact (maintains_onStack _).bind fun _ => .pure true
  split
  · refine (maintains_onStack _).bind fun a => (maintains_onStack _).bind fun b => ?_
    split
    · refine (maintains_ask _).bind fun result => ?_
      cases result with
      | some result =>
        exact (maintains_onStack _).bind fun _ => (maintains_onStack _).bind fun _ => .pure true
      | none => exact .pure false
    · exact .pure false
  · exact .pure false

/-- A send leads to machines that arise. -/
lemma maintains_sendMessage (hhost : host.LeadsOn limit) (hsend : sender.LeadsOn limit)
    (selector : Value) (argumentCount : ℕ) :
    Maintains (Arises limit) (sendMessage host sender r selector argumentCount) := by
  have hfinish (result : Value) :
      Maintains (Arises limit) (sendMessage.finish r argumentCount result) :=
    (maintains_onStack _).bind fun _ => (maintains_onStack _).bind fun _ => .pure r
  refine (maintains_onStack _).bind fun receiver => (maintains_ask _).bind fun cls => ?_
  refine (maintains_ask _).bind fun kind => ?_
  split
  · exact maintains_activate ..
  · refine (maintains_onStack _).bind fun arguments => ?_
    exact (maintains_callNumbered hhost hsend ..).bind hfinish
  · refine (maintains_onStack _).bind fun arguments => ?_
    exact (maintains_doesNotUnderstand hhost hsend ..).bind hfinish

/-- So does the send of a special selector. -/
lemma maintains_sendSpecial (hhost : host.LeadsOn limit) (hsend : sender.LeadsOn limit)
    (index : ℕ) : Maintains (Arises limit) (sendSpecial host sender r index) := by
  refine (maintains_inlineSpecial index).bind fun inlined => ?_
  split
  · exact .pure r
  · refine (maintains_ask _).bind fun selector => ?_
    split
    · exact maintains_sendMessage hhost hsend ..
    · exact .throw _

/-- So does every instruction. -/
lemma maintains_perform (hhost : host.LeadsOn limit) (hsend : sender.LeadsOn limit)
    (instruction : Instruction) : Maintains (Arises limit) (perform host sender r instruction) := by
  have hpush {x : ExecutionM Value} (hx : Maintains (Arises limit) x) :
      Maintains (Arises limit) (do
        push (← x)
        return some r) :=
    hx.bind fun value => (maintains_onStack _).bind fun _ => .pure (some r)
  cases instruction with
  | pushVariable place index => exact hpush (maintains_load place index)
  | pushLiteral index => exact hpush (maintains_ask _)
  | pushConstant c =>
    refine hpush ?_
    cases c with
    | receiver | thisContext => exact maintains_onStack _
    | «true» | «false» | nil => exact fun _ => id
  | pushInteger n =>
    simp only [perform]
    split
    · exact (maintains_onStack _).bind fun _ => .pure (some r)
    · exact .throw _
  | pushCharacter code => exact (maintains_onStack _).bind fun _ => .pure (some r)
  | dup => exact hpush (maintains_onStack _)
  | pop => exact (maintains_onStack _).bind fun _ => .pure (some r)
  | nop => exact .pure (some r)
  | «return» value =>
    refine Maintains.bind ?_ maintains_returnValue
    cases value with
    | receiver | top => exact maintains_onStack _
    | «true» | «false» | nil => exact fun _ => id
  | sendSpecial index =>
    exact (maintains_sendSpecial hhost hsend index).bind fun r' => .pure (some r')
  | send index argumentCount =>
    refine (maintains_ask _).bind fun selector => ?_
    exact (maintains_sendMessage hhost hsend selector argumentCount).bind fun r' => .pure (some r')
  | jump kind distance =>
    have hjump (taken : Bool) : Maintains (Arises limit) (do
        if taken then return some { r with pc := ← ask fun _ => jumpTarget r.pc distance }
        else return some r) := by
      split
      · exact (maintains_ask _).bind fun target => .pure _
      · exact .pure (some r)
    cases kind with
    | always => exact hjump true
    | ifTrue => exact (maintains_onStack _).bind fun _ => (maintains_ask _).bind hjump
    | ifFalse => exact (maintains_onStack _).bind fun _ => (maintains_ask _).bind hjump
  | store place index popping =>
    refine (maintains_onStack _).bind fun value => ?_
    refine (maintains_storeInto place index value).bind fun _ => ?_
    split
    · exact (maintains_onStack _).bind fun _ => .pure (some r)
    · exact .pure (some r)

/-- So does every step. -/
theorem maintains_step (r : Registers) (hhost : host.LeadsOn limit) (hsend : sender.LeadsOn limit) :
    Maintains (Arises limit) (step host sender r) := by
  refine (maintains_ask _).bind ?_
  rintro ⟨instruction, next⟩
  exact maintains_perform hhost hsend instruction

/-! ### Runs -/

/-- A method leads to machines that arise if its run does. -/
lemma maintains_executeWith {run : Registers → ExecutionM Unit}
    (hrun : ∀ r, Maintains (Arises limit) (run r)) (method receiver : Value)
    (arguments : List Value) :
    Maintains (Arises limit) (executeWith run method receiver arguments) := by
  have hpush (values : List Value) : Maintains (Arises limit) (values.forM push) := by
    induction values with
    | nil => exact .pure ()
    | cons value rest ih => exact (maintains_onStack _).bind fun _ => ih
  have henter : Maintains (Arises limit) (enter run method receiver arguments) := by
    refine (maintains_onStack _).bind fun _ => (hpush arguments).bind fun _ => ?_
    refine (maintains_activate ..).bind fun r => (hrun r).bind fun _ => ?_
    exact maintains_onStack _
  intro p arises
  have hkept := henter arises
  unfold executeWith restoring
  cases hentered : enter run method receiver arguments p <;> rw [hentered] at hkept <;> exact hkept

/-- A message leads to machines that arise if the methods do that it reaches. -/
lemma maintains_sendWith (hhost : host.LeadsOn limit) (hsend : sender.LeadsOn limit)
    {run : Registers → ExecutionM Unit} (hrun : ∀ r, Maintains (Arises limit) (run r)) :
    (sendWith host run sender).LeadsOn limit := by
  intro receiver selector arguments
  refine (maintains_ask _).bind fun cls => (maintains_ask _).bind fun method => ?_
  cases method with
  | none => exact maintains_doesNotUnderstand hhost hsend receiver selector arguments
  | some method =>
    refine (maintains_ask _).bind fun kind => ?_
    cases kind with
    | compiled method => exact maintains_executeWith hrun method receiver arguments
    | native argumentCount index => exact maintains_callNumbered hhost hsend ..

/-- Runs and sends lead from machines that arise to machines that arise, however they end. -/
theorem maintains_run_and_send (hhost : host.LeadsOn limit) (steps : ℕ) :
    (∀ r, Maintains (Arises limit) (run host steps r)) ∧ (send host steps).LeadsOn limit := by
  induction steps with
  | zero =>
    exact ⟨fun _ => .throw MachineError.outOfSteps, fun _ _ _ => .throw MachineError.outOfSteps⟩
  | succ steps ih =>
    refine ⟨fun r p arises => ?_, maintains_sendWith hhost ih.2 ih.1⟩
    have hstep := maintains_step r hhost ih.2 arises
    rw [Moment.run_succ]
    cases hrun : step host (send host steps) r p with
    | error e q =>
      rw [hrun] at hstep
      exact hstep
    | ok next q =>
      rw [hrun] at hstep
      cases next with
      | none => exact hstep
      | some r' => exact ih.1 r' hstep

/-- So do executions of methods. -/
theorem maintains_execute (hhost : host.LeadsOn limit) (steps : ℕ) (method receiver : Value)
    (arguments : List Value) :
    Maintains (Arises limit) (execute host steps method receiver arguments) :=
  (maintains_ask _).bind fun _ => .guard
    (maintains_executeWith (maintains_run_and_send hhost steps).1 method receiver arguments)

/-- So do messages by name. -/
theorem maintains_sendNamed (hhost : host.LeadsOn limit) (steps : ℕ) (receiver : Value)
    (selector : String) (arguments : List Value) :
    Maintains (Arises limit)
      (sendNamed (send host steps) receiver selector arguments) :=
  (maintains_onMachine (Machine.maintains_intern selector)).bind fun symbol =>
    (maintains_run_and_send hhost steps).2 receiver symbol arguments

end Interpreter

/-! ### The demonstration -/

/-- The machine of the demonstration arises. -/
theorem CommandLine.arises_of_newDemo {m : Machine} {demo : Demo}
    (hnew : newDemo limit = .ok (m, demo)) : m.Arises limit := by
  have hmethod (cls selector : Value) (construction : CodeM Unit) (argumentCount tempCount : ℕ) :
      Maintains (Machine.Arises limit)
        (Demo.defineMethod cls selector construction argumentCount tempCount) :=
    (Machine.maintains_build construction argumentCount tempCount).bind fun method =>
      (Machine.maintains_addMethod cls selector method).bind fun _ => .pure method
  have hdefine : Maintains (Machine.Arises limit) Demo.define := by
    refine (Machine.maintains_ask _).bind fun object => ?_
    refine (Machine.maintains_defineClass "Demo" object ⟨.fixedSize, 0⟩).bind fun cls => ?_
    refine (Machine.maintains_intern _).bind fun selector => ?_
    refine (hmethod cls selector (Demo.factorialCode selector) 1 0).bind fun factorial => ?_
    refine (Machine.maintains_intern _).bind fun selector => ?_
    refine (hmethod cls selector Demo.sumCode 1 2).bind fun sum => ?_
    exact (Machine.maintains_instantiate cls 0).bind fun receiver => .pure _
  obtain ⟨m₀, hm₀, hok⟩ := bind_eq_ok_iff.mp hnew
  have arises := hdefine (Machine.Arises.new hm₀)
  cases hrun : Demo.define m₀ with
  | error e m' =>
    rw [hrun] at hok
    cases hok
  | ok demo' m' =>
    rw [hrun] at hok arises
    cases hok
    exact arises

end TalkMachine
