import TalkMachine.Proofs.Interpreter.CallReturn

/-!
# The target of a message

A message is sent in two ways: by an instruction of running code, with the receiver and the arguments
on the stack, and by a native method or the host, which hand them over as a list. What the message
comes to depends on the machine alone (`Machine.target`): a compiled method, a native method, the
handler of messages that were not understood, or an error. Both ways follow it
(`Interpreter.follows_target`): the same method finds the same receiver and arguments in
its frame, the same native method or handler is called with them, or the same error is met, and until
then the machine is left as it is.
-/

namespace TalkMachine

/-- What a message comes to. -/
inductive Target
  /-- The compiled method with this header is activated. -/
  | compiled (method : Value) (header : MethodHeader)
  /-- The native method is called. -/
  | native (native : Native)
  /-- The message is not understood. -/
  | unknown
deriving DecidableEq

namespace Machine

/-- What a message with so many arguments comes to when this is found for it, or the error that it
meets. -/
def targetOf (m : Machine) (argumentCount : ℕ) : Option MethodKind → Except MachineError Target
  | none => .ok .unknown
  | some (.compiled method) =>
    match m.heap.methodHeader method with
    | .error e => .error (.heap e)
    | .ok header =>
      if header.argumentCount ≠ argumentCount then
        .error (.argumentCountMismatch header.argumentCount argumentCount)
      else .ok (.compiled method header)
  | some (.native expected index) =>
    if argumentCount ≠ expected then .error (.argumentCountMismatch expected argumentCount)
    else
      match m.natives[index]? with
      | some native => .ok (.native native)
      | none => .error (.notAMethod (Value.ofInt index))

/-- What a message with so many arguments comes to, or the error that it meets. -/
def target (m : Machine) (receiver selector : Value) (argumentCount : ℕ) :
    Except MachineError Target := do
  m.targetOf argumentCount (← m.find receiver selector)

end Machine

namespace Interpreter

open Execution

variable {host : Host} {sender : Sender} {r : Registers} {p q : Execution}
  {receiver selector method : Value} {arguments : List Value} {header : MethodHeader}
  {e : MachineError} {argumentCount index steps : ℕ} {α : Type} {a : α}

/-! ### Questions -/

/-- Two questions to the machine are one when nothing is done between them. -/
lemma askMachine_bind_askMachine {β γ : Type} (question : Machine → Except MachineError α)
    (question' : α → Machine → Except MachineError β) (f : β → ExecutionM γ) :
    (do
      let a ← askMachine question
      let b ← askMachine (question' a)
      f b) =
    (do
      let b ← askMachine fun m => do question' (← question m) m
      f b) := by
  funext p
  cases h : question p.machine with
  | error e =>
    rw [run_bind_of_error (run_askMachine_of_error h),
      run_bind_of_error (run_askMachine_of_error (by rw [h]; rfl))]
  | ok a =>
    rw [run_bind_of_ok (run_askMachine_of_ok h)]
    cases h' : question' a p.machine with
    | error e =>
      rw [run_bind_of_error (run_askMachine_of_error h'),
        run_bind_of_error (run_askMachine_of_error (by rw [h]; exact h'))]
    | ok b =>
      rw [run_bind_of_ok (run_askMachine_of_ok h'),
        run_bind_of_ok (run_askMachine_of_ok (by rw [h]; exact h'))]

/-! ### Sends, by what the machine finds -/

/-- What is done with the method that a send in running code has found. -/
def sendFound (host : Host) (sender : Sender) (r : Registers) (receiver selector : Value)
    (argumentCount : ℕ) : Option MethodKind → ExecutionM Registers
  | some (.compiled method) => activate method r.pc argumentCount
  | some (.native expected index) => do
    let arguments ← askStack fun s => s.top argumentCount
    let value ← callNumbered host sender index expected receiver arguments
    sendMessage.finish r argumentCount value
  | none => do
    let arguments ← askStack fun s => s.top argumentCount
    let value ← doesNotUnderstand host sender receiver selector arguments
    sendMessage.finish r argumentCount value

/-- A send in running code does what goes with the method that the machine finds. -/
lemma sendMessage_eq (host : Host) (sender : Sender) (r : Registers) (selector : Value)
    (argumentCount : ℕ) :
    sendMessage host sender r selector argumentCount = (do
      let receiver ← askStack fun s => s.peek argumentCount
      let found ← askMachine fun m => m.find receiver selector
      sendFound host sender r receiver selector argumentCount found) := by
  rw [sendMessage]
  refine bind_congr fun receiver => ?_
  rw [askMachine_bind_askMachine]
  refine bind_congr fun found => ?_
  rcases found with _ | method | ⟨expected, index⟩ <;> rfl

/-- What is done with the method that a send from outside has found. -/
def sendFoundWith (host : Host) (run : Registers → ExecutionM Unit) (sender : Sender)
    (receiver selector : Value) (arguments : List Value) : Option MethodKind → ExecutionM Value
  | some (.compiled method) => executeWith run method receiver arguments
  | some (.native expected index) => callNumbered host sender index expected receiver arguments
  | none => doesNotUnderstand host sender receiver selector arguments

/-- A send from outside does what goes with the method that the machine finds. -/
lemma sendWith_eq (host : Host) (run : Registers → ExecutionM Unit) (sender : Sender)
    (receiver selector : Value) (arguments : List Value) :
    sendWith host run sender receiver selector arguments = (do
      let found ← askMachine fun m => m.find receiver selector
      sendFoundWith host run sender receiver selector arguments found) := by
  funext p
  rw [sendWith]
  cases hcls : p.machine.classOf receiver with
  | error e =>
    rw [run_bind_of_error (run_askMachine_of_error hcls), run_bind_of_error
      (run_askMachine_of_error (by rw [Machine.find, hcls]; rfl))]
  | ok cls =>
  rw [run_bind_of_ok (run_askMachine_of_ok hcls)]
  cases hlookup : p.machine.lookup cls selector with
  | error e =>
    rw [run_bind_of_error (run_askMachine_of_error hlookup), run_bind_of_error
      (run_askMachine_of_error
        (by simp only [Machine.find, hcls, hlookup, bind, Except.bind]; rfl))]
  | ok method? =>
  rw [run_bind_of_ok (run_askMachine_of_ok hlookup)]
  cases method? with
  | none =>
    rw [run_bind_of_ok (run_askMachine_of_ok (a := none)
      (by simp only [Machine.find, hcls, hlookup, bind, Except.bind]; rfl))]
    rfl
  | some method =>
  cases hkind : p.machine.methodKind method with
  | error e =>
    refine (run_bind_of_error (run_askMachine_of_error hkind)).trans ?_
    rw [run_bind_of_error (run_askMachine_of_error
      (by simp only [Machine.find, hcls, hlookup, hkind, bind, Except.bind]; rfl))]
  | ok kind =>
    refine (run_bind_of_ok (run_askMachine_of_ok hkind)).trans ?_
    rw [run_bind_of_ok (run_askMachine_of_ok (a := some kind)
      (by simp only [Machine.find, hcls, hlookup, hkind, bind, Except.bind]; rfl))]
    cases kind <;> rfl

/-! ### Receiver and arguments -/

/-- The frame in use is one of a method that finds itself, its receiver and its arguments where it
looks for them. -/
structure Receives (method : Value) (header : MethodHeader) (receiver : Value)
    (arguments : List Value) (s : Stack) : Prop where
  method : s.frameMethod = .ok method
  receiver : s.frameReceiver = .ok receiver
  argument : ∀ index value, arguments[index]? = some value → ∃ address,
    s.tempAddress header.argumentCount header.tempCount index = .ok address ∧
      s.readValue address = .ok value

section Pushed

variable {s s' : Stack} (hpushed : Stack.PushedAll ((receiver :: arguments).map Value.raw) s s')
  (hlive : s.sp ≤ s.size)
include hpushed hlive

/-- Of pushed values each lies a word above the next one. -/
lemma load_of_pushed {k : ℕ} {value : Value} (hvalue : (receiver :: arguments)[k]? = some value) :
    s'.load 8 (s'.sp + 8 * (arguments.length - k)) = value.raw := by
  have hword : ((receiver :: arguments).map Value.raw)[k]? = some value.raw := by
    rw [List.getElem?_map, hvalue]
    rfl
  have hload := hpushed.load hlive hword
  rwa [List.length_map, List.length_cons, Nat.add_sub_cancel] at hload

/-- The receiver lies above the arguments. -/
lemma peek_of_pushed : s'.peek arguments.length = .ok receiver := by
  have hsp := hpushed.sp
  have hsize := hpushed.same.size
  rw [List.length_map, List.length_cons] at hsp
  exact Stack.peek_eq_ok_iff.mpr ⟨by omega, load_of_pushed hpushed hlive (k := 0) rfl⟩

/-- The arguments lie on top, the last one at the lowest address. -/
lemma top_of_pushed : s'.top arguments.length = .ok arguments := by
  have hsp := hpushed.sp
  have hsize := hpushed.same.size
  rw [List.length_map, List.length_cons] at hsp
  refine (mapM_eq_ok_iff _ _ _).mpr (List.forall₂_iff_get.mpr ⟨by simp, fun k hk hk' => ?_⟩)
  have hload := load_of_pushed hpushed hlive (k := k + 1) (List.getElem?_eq_getElem hk')
  simp only [List.get_eq_getElem, List.getElem_range]
  refine Stack.peek_eq_ok_iff.mpr ⟨by omega, ?_⟩
  rwa [Nat.sub_sub, Nat.add_comm 1 k]

end Pushed

/-- A method that takes as many arguments as were pushed is activated, and its frame has the receiver
and the arguments. -/
theorem exists_receives {p' : Execution} (returnPc : ℕ)
    (hpush : (receiver :: arguments).forM push p = .ok () p')
    (hheader : p.machine.heap.methodHeader method = .ok header)
    (hcount : header.argumentCount = arguments.length) (hlive : p.stack.sp ≤ p.stack.size)
    (hsize : p.stack.size < 2 ^ 64) (hroom : 8 * (arguments.length + 262) ≤ p.stack.sp) :
    ∃ q, activate method returnPc arguments.length p' = .ok ⟨method, header, header.initialPc⟩ q ∧
      q.machine = p.machine ∧ Receives method header receiver arguments q.stack := by
  obtain ⟨hpushed, hmachine⟩ := pushedAll_of_forM_push hpush
  obtain ⟨hargs, htemps⟩ := Heap.counts_lt_of_methodHeader hheader
  have hsp := hpushed.sp
  have hsize' := hpushed.same.size
  rw [List.length_map, List.length_cons] at hsp
  rw [← hcount] at hsp
  obtain ⟨q, hactivate, hself⟩ := exists_activate returnPc (hmachine ▸ hheader)
    (hcount ▸ peek_of_pushed hpushed hlive) (by omega)
  obtain ⟨header', hheader', -, heq, -, hmachine', activated⟩ := activated_of_activate hactivate
  obtain rfl := Except.ok.inj (hheader'.symm.trans (hmachine ▸ hheader))
  have hfp := activated.fp
  have hsp' := activated.sp
  have hsame := activated.same.size
  refine ⟨q, hcount ▸ hactivate, hmachine'.trans hmachine, ⟨?_, ?_, fun index value hvalue => ?_⟩⟩
  · exact (Stack.frameValue_sub_eq_ok_iff 8 (by omega) (by omega)).mpr
      ⟨by omega, by omega, activated.method⟩
  · exact (Stack.frameValue_sub_eq_ok_iff 32 (by omega) (by omega)).mpr
      ⟨by omega, by omega, hself⟩
  · have hindex := (List.getElem?_eq_some_iff.mp hvalue).1
    have hload := load_of_pushed hpushed hlive (k := index + 1) hvalue
    refine ⟨_, Stack.tempAddress_of_lt (by omega) hargs (by omega), ?_⟩
    refine Stack.readValue_eq_ok_iff.mpr ⟨by omega, by omega, ?_⟩
    rw [show q.stack.fp + 16 + 8 * (header'.argumentCount - 1 - index) =
        p'.stack.sp + 8 * (arguments.length - (index + 1)) by omega,
      activated.same.load (by omega) (by omega)]
    exact hload

/-! ### Calls that are refused -/

/-- A method whose header cannot be read is not activated. -/
lemma activate_of_methodHeader_eq_error {e : HeapError} (returnPc : ℕ)
    (hheader : p.machine.heap.methodHeader method = .error e) :
    activate method returnPc argumentCount p = .error (.heap e) p := by
  refine run_bind_of_error ?_
  simp only [askHeap, ask, hheader, Except.ofHeap]

/-- A method is not activated with another number of arguments than it takes. -/
lemma activate_of_argumentCount_ne (returnPc : ℕ)
    (hheader : p.machine.heap.methodHeader method = .ok header)
    (hcount : header.argumentCount ≠ argumentCount) :
    activate method returnPc argumentCount p =
      .error (.argumentCountMismatch header.argumentCount argumentCount) p := by
  refine (run_bind_of_ok (askHeap_eq_ok_iff.mpr ⟨hheader, rfl⟩)).trans ?_
  rw [if_pos hcount]
  rfl

/-- What a native method is called with by its number, if the number of arguments is right and there
is a native method with the number. -/
lemma callNumbered_eq (host : Host) (sender : Sender) (index expected : ℕ) (receiver : Value)
    (arguments : List Value) (p : Execution) :
    callNumbered host sender index expected receiver arguments p =
      if arguments.length ≠ expected then
        .error (.argumentCountMismatch expected arguments.length) p
      else
        match p.machine.natives[index]? with
        | some native => callNative host sender native receiver arguments p
        | none => .error (.notAMethod (Value.ofInt index)) p := by
  rw [callNumbered]
  split
  · rfl
  · refine (run_bind_of_ok (x := askMachine fun m => .ok m.natives[index]?)
      (run_askMachine_of_ok rfl)).trans ?_
    cases p.machine.natives[index]? <;> rfl

/-! ### The two ways -/

/-- The execution with one call of the handler more. -/
def counted (p : Execution) : Execution :=
  { p with machine.handlerCalls := p.machine.handlerCalls + 1 }

/-- What is answered takes the place of receiver and arguments, and the method that sent goes on. -/
def goOn (r : Registers) (argumentCount : ℕ) (x : ExecutionM Value) :
    ExecutionM (Option Registers) := do
  let value ← x
  let r ← sendMessage.finish r argumentCount value
  return some r

/-- What an instruction that sends a message does when it comes to a target, or meets an error. -/
def FollowsInCode (host : Host) (sender : Sender) (r : Registers) (instruction : Instruction)
    (receiver selector : Value) (arguments : List Value) (p : Execution) :
    Except MachineError Target → Prop
  | .error e => perform host sender r instruction p = .error e p
  | .ok (.compiled method header) => ∃ q,
    perform host sender r instruction p = .ok (some ⟨method, header, header.initialPc⟩) q ∧
      q.machine = p.machine ∧ Receives method header receiver arguments q.stack
  | .ok (.native native) =>
    perform host sender r instruction p =
      goOn r arguments.length (callNative host sender native receiver arguments) p
  | .ok .unknown =>
    match host.handler with
    | some handler =>
      perform host sender r instruction p =
        goOn r arguments.length (handler sender receiver selector arguments) (counted p)
    | none => perform host sender r instruction p = .error (.doesNotUnderstand receiver selector) p

/-- What a send from outside of running code does when the message comes to a target, or meets an
error. -/
def FollowsFromOutside (host : Host) (steps : ℕ) (receiver selector : Value)
    (arguments : List Value) (p : Execution) : Except MachineError Target → Prop
  | .error e => ∃ q, send host (steps + 1) receiver selector arguments p = .error e q ∧
    q.machine = p.machine ∧ q.stack.sp = p.stack.sp ∧ q.stack.fp = p.stack.fp ∧
      Stack.SameFrom p.stack.sp p.stack q.stack
  | .ok (.compiled method header) => ∃ q,
    prepare method receiver arguments p = .ok ⟨method, header, header.initialPc⟩ q ∧
      q.machine = p.machine ∧ Receives method header receiver arguments q.stack ∧
      send host (steps + 1) receiver selector arguments p =
        restoring p.stack.sp p.stack.fp (do
          run host steps ⟨method, header, header.initialPc⟩
          pop) q
  | .ok (.native native) =>
    send host (steps + 1) receiver selector arguments p =
      callNative host (send host steps) native receiver arguments p
  | .ok .unknown =>
    match host.handler with
    | some handler =>
      send host (steps + 1) receiver selector arguments p =
        handler (send host steps) receiver selector arguments (counted p)
    | none =>
      send host (steps + 1) receiver selector arguments p =
        .error (.doesNotUnderstand receiver selector) p

/-- Preparing a method pushes receiver and arguments and activates it. -/
lemma prepare_eq_bind (method receiver : Value) (arguments : List Value) :
    prepare method receiver arguments = (do
      (receiver :: arguments).forM push
      activate method 0 arguments.length) := by
  rw [show (receiver :: arguments).forM push = (do
    push receiver
    arguments.forM push : ExecutionM Unit) from rfl, bind_assoc]
  rfl

section Follows

variable {p' : Execution} (hpush : (receiver :: arguments).forM push p = .ok () p')
include hpush

/-- The instruction of a send does what goes with the method that the machine finds. -/
lemma perform_send_eq (host : Host) (sender : Sender) (hlive : p.stack.sp ≤ p.stack.size)
    (hselector : p.machine.heap.methodLiteral r.method index = .ok selector) :
    perform host sender r (.send index arguments.length) p' = (do
      let found ← askMachine fun m => m.find receiver selector
      let r ← sendFound host sender r receiver selector arguments.length found
      return some r) p' := by
  obtain ⟨hpushed, hmachine⟩ := pushedAll_of_forM_push hpush
  have hliteral : literal r index p' = .ok selector p' :=
    askHeap_eq_ok_iff.mpr ⟨hmachine ▸ hselector, rfl⟩
  refine (run_bind_of_ok hliteral).trans ?_
  rw [sendMessage_eq]
  simp only [bind_assoc]
  exact run_bind_of_ok (run_askStack_of_ok (peek_of_pushed hpushed hlive))

/-- A method that is prepared on these values is activated on them. -/
lemma prepare_eq (method : Value) :
    prepare method receiver arguments p = activate method 0 arguments.length p' := by
  rw [prepare_eq_bind]
  exact run_bind_of_ok hpush

/-- A method that cannot be prepared is not executed, and the pointers of the stack are put back. -/
lemma exists_executeWith_of_activate_eq_error {run : Registers → ExecutionM Unit}
    (hactivate : activate method 0 arguments.length p' = .error e p') :
    ∃ q, executeWith run method receiver arguments p = .error e q ∧ q.machine = p.machine ∧
      q.stack.sp = p.stack.sp ∧ q.stack.fp = p.stack.fp ∧
      Stack.SameFrom p.stack.sp p.stack q.stack := by
  obtain ⟨hpushed, hmachine⟩ := pushedAll_of_forM_push hpush
  have henter : enter run method receiver arguments p = .error e p' := by
    rw [enter_eq]
    exact run_bind_of_error ((prepare_eq hpush method).trans hactivate)
  refine ⟨⟨p'.machine, p'.stack.restore p.stack.sp p.stack.fp⟩, ?_, hmachine, rfl, rfl,
    hpushed.same.trans (Stack.sameFrom_restore _ _ _ _)⟩
  simp only [executeWith, restoring, henter]

/-- A method that can be prepared is run from there. -/
lemma executeWith_of_activate {run : Registers → ExecutionM Unit}
    (hactivate : activate method 0 arguments.length p' = .ok r q) :
    executeWith run method receiver arguments p =
      restoring p.stack.sp p.stack.fp (do
        run r
        pop) q := by
  have henter : enter run method receiver arguments p = (do
      run r
      pop : ExecutionM Value) q := by
    rw [enter_eq]
    exact run_bind_of_ok ((prepare_eq hpush method).trans hactivate)
  simp only [executeWith, restoring, henter]

variable (hlive : p.stack.sp ≤ p.stack.size) (hsize : p.stack.size < 2 ^ 64)
  (hroom : 8 * (arguments.length + 262) ≤ p.stack.sp)
include hlive hsize hroom

/-- The instruction of a send follows the target. -/
lemma followsInCode_of_found {instruction : Instruction} {found : Option MethodKind}
    (hcode : perform host sender r instruction p' = (do
      let r ← sendFound host sender r receiver selector arguments.length found
      return some r) p') :
    FollowsInCode host sender r instruction receiver selector arguments p'
      (p.machine.targetOf arguments.length found) := by
  obtain ⟨hpushed, hmachine⟩ := pushedAll_of_forM_push hpush
  have htop : askStack (fun s => s.top arguments.length) p' = .ok arguments p' :=
    run_askStack_of_ok (top_of_pushed hpushed hlive)
  match found with
  | none =>
    simp only [sendFound, bind_assoc] at hcode
    rw [run_bind_of_ok htop] at hcode
    rw [Machine.targetOf, FollowsInCode]
    cases hhandler : host.handler with
    | none =>
      simp only [hhandler, doesNotUnderstand] at hcode ⊢
      exact hcode
    | some handler =>
      simp only [hhandler, doesNotUnderstand] at hcode ⊢
      exact hcode
  | some (.compiled method) =>
    simp only [sendFound] at hcode
    rw [Machine.targetOf]
    cases hheader : p.machine.heap.methodHeader method with
    | error e =>
      exact hcode.trans (run_bind_of_error
        (activate_of_methodHeader_eq_error r.pc (hmachine ▸ hheader)))
    | ok header =>
      dsimp only
      split
      · rename_i hcount
        exact hcode.trans (run_bind_of_error
          (activate_of_argumentCount_ne r.pc (hmachine ▸ hheader) hcount))
      · rename_i hcount
        obtain ⟨q, hactivate, hq, receives⟩ :=
          exists_receives r.pc hpush hheader (not_not.mp hcount) hlive hsize hroom
        exact ⟨q, hcode.trans (run_bind_of_ok hactivate), hq.trans hmachine.symm, receives⟩
  | some (.native expected index) =>
    simp only [sendFound, bind_assoc] at hcode
    rw [run_bind_of_ok htop] at hcode
    have hcall := callNumbered_eq host sender index expected receiver arguments p'
    rw [hmachine] at hcall
    rw [Machine.targetOf]
    split
    · rename_i hcount
      rw [if_pos hcount] at hcall
      exact hcode.trans (run_bind_of_error hcall)
    · rename_i hcount
      rw [if_neg hcount] at hcall
      cases hnative : p.machine.natives[index]? with
      | none =>
        rw [hnative] at hcall
        exact hcode.trans (run_bind_of_error hcall)
      | some native =>
        rw [hnative] at hcall
        exact hcode.trans (run_bind_congr hcall)

/-- A send from outside follows the target. -/
lemma followsFromOutside_of_found {found : Option MethodKind}
    (houtside : send host (steps + 1) receiver selector arguments p =
      sendFoundWith host (run host steps) (send host steps) receiver selector arguments found p) :
    FollowsFromOutside host steps receiver selector arguments p
      (p.machine.targetOf arguments.length found) := by
  obtain ⟨-, hmachine⟩ := pushedAll_of_forM_push hpush
  match found with
  | none =>
    simp only [sendFoundWith] at houtside
    rw [Machine.targetOf, FollowsFromOutside]
    cases hhandler : host.handler with
    | none =>
      simp only [hhandler, doesNotUnderstand] at houtside ⊢
      exact houtside
    | some handler =>
      simp only [hhandler, doesNotUnderstand] at houtside ⊢
      exact houtside
  | some (.compiled method) =>
    simp only [sendFoundWith] at houtside
    rw [Machine.targetOf]
    cases hheader : p.machine.heap.methodHeader method with
    | error e =>
      rw [FollowsFromOutside, houtside]
      exact exists_executeWith_of_activate_eq_error hpush
        (activate_of_methodHeader_eq_error 0 (hmachine ▸ hheader))
    | ok header =>
      dsimp only
      split
      · rename_i hcount
        rw [FollowsFromOutside, houtside]
        exact exists_executeWith_of_activate_eq_error hpush
          (activate_of_argumentCount_ne 0 (hmachine ▸ hheader) hcount)
      · rename_i hcount
        obtain ⟨q, hactivate, hq, receives⟩ :=
          exists_receives 0 hpush hheader (not_not.mp hcount) hlive hsize hroom
        exact ⟨q, (prepare_eq hpush method).trans hactivate, hq, receives,
          houtside.trans (executeWith_of_activate hpush hactivate)⟩
  | some (.native expected index) =>
    simp only [sendFoundWith, callNumbered_eq] at houtside
    rw [Machine.targetOf]
    split
    · rename_i hcount
      rw [if_pos hcount] at houtside
      exact ⟨p, houtside, rfl, rfl, rfl, .refl _ _⟩
    · rename_i hcount
      rw [if_neg hcount] at houtside
      cases hnative : p.machine.natives[index]? with
      | none =>
        rw [hnative] at houtside
        exact ⟨p, houtside, rfl, rfl, rfl, .refl _ _⟩
      | some native =>
        rw [hnative] at houtside
        exact houtside

end Follows

/-- The two ways in which a message is sent follow its target. An instruction finds receiver and
arguments on the stack, a send from outside is given them; a compiled method gets the same of them
in its frame, a native method and the handler get the same of them as a list, and what refuses the
message is the same error. The machine is left as it is until the method, the native method or the
handler goes on from it, and a call of the handler is counted once. -/
theorem follows_target (host : Host) (sender : Sender) (steps : ℕ) (receiver : Value)
    (arguments : List Value)
    (hselector : p.machine.heap.methodLiteral r.method index = .ok selector)
    (hlive : p.stack.sp ≤ p.stack.size) (hsize : p.stack.size < 2 ^ 64)
    (hroom : 8 * (arguments.length + 262) ≤ p.stack.sp) :
    ∃ p', (receiver :: arguments).forM push p = .ok () p' ∧ p'.machine = p.machine ∧
      FollowsInCode host sender r (.send index arguments.length) receiver selector arguments p'
        (p.machine.target receiver selector arguments.length) ∧
      FollowsFromOutside host steps receiver selector arguments p
        (p.machine.target receiver selector arguments.length) := by
  obtain ⟨p', hpush⟩ := exists_forM_push (p := p) (receiver :: arguments)
    (by rw [List.length_cons]; omega)
  obtain ⟨-, hmachine⟩ := pushedAll_of_forM_push hpush
  have hcode := perform_send_eq hpush host sender hlive hselector
  have houtside : send host (steps + 1) receiver selector arguments =
      sendWith host (run host steps) (send host steps) receiver selector arguments := rfl
  rw [sendWith_eq] at houtside
  refine ⟨p', hpush, hmachine, ?_⟩
  rw [Machine.target]
  cases hfind : p.machine.find receiver selector with
  | error e =>
    refine ⟨hcode.trans (run_bind_of_error (run_askMachine_of_error (hmachine ▸ hfind))),
      p, ?_, rfl, rfl, rfl, .refl _ _⟩
    rw [houtside]
    exact run_bind_of_error (run_askMachine_of_error hfind)
  | ok found =>
    rw [run_bind_of_ok (run_askMachine_of_ok (hmachine ▸ hfind))] at hcode
    refine ⟨followsInCode_of_found hpush hlive hsize hroom hcode,
      followsFromOutside_of_found hpush hlive hsize hroom ?_⟩
    rw [houtside]
    exact run_bind_of_ok (run_askMachine_of_ok hfind)

/-- The sample with a stack that has room for the largest frame. -/
def roomySample : Execution :=
  { Moment.sampleExecution with stack := Stack.new 4096 }

/-- In the sample a message with one argument comes to the method that takes one, and both ways
follow it there. -/
theorem follows_target_roomySample :
    roomySample.machine.heap.methodLiteral Moment.sampleMethod 0 = .ok (Value.ofChar 'f') ∧
    roomySample.stack.sp ≤ roomySample.stack.size ∧ roomySample.stack.size < 2 ^ 64 ∧
    8 * ([Value.ofInt 1].length + 262) ≤ roomySample.stack.sp ∧
    roomySample.machine.target (Value.ofInt 7) (Value.ofChar 'f') 1 =
      .ok (.compiled (Value.ofAddress 96) ⟨0, 1, 1⟩) ∧
    ∃ p', [Value.ofInt 7, Value.ofInt 1].forM push roomySample = .ok () p' ∧
      FollowsInCode Host.none (send Host.none 5) ⟨Moment.sampleMethod, ⟨1, 0, 0⟩, 19⟩ (.send 0 1)
        (Value.ofInt 7) (Value.ofChar 'f') [Value.ofInt 1] p'
        (.ok (.compiled (Value.ofAddress 96) ⟨0, 1, 1⟩)) ∧
      FollowsFromOutside Host.none 5 (Value.ofInt 7) (Value.ofChar 'f') [Value.ofInt 1] roomySample
        (.ok (.compiled (Value.ofAddress 96) ⟨0, 1, 1⟩)) := by
  have hselector : roomySample.machine.heap.methodLiteral Moment.sampleMethod 0 =
      .ok (Value.ofChar 'f') := by decide +kernel
  have htarget : roomySample.machine.target (Value.ofInt 7) (Value.ofChar 'f') 1 =
      .ok (.compiled (Value.ofAddress 96) ⟨0, 1, 1⟩) := by decide +kernel
  obtain ⟨p', hpush, -, hcode, houtside⟩ := follows_target (p := roomySample)
    (r := ⟨Moment.sampleMethod, ⟨1, 0, 0⟩, 19⟩) Host.none (send Host.none 5) 5 (Value.ofInt 7)
    [Value.ofInt 1] hselector (by decide) (by decide) (by decide)
  rw [show [Value.ofInt 1].length = 1 from rfl, htarget] at hcode houtside
  exact ⟨hselector, by decide, by decide, by decide, htarget, p', hpush, hcode, houtside⟩

end Interpreter

end TalkMachine
