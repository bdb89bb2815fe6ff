import Mathlib.Tactic.IntervalCases
import TalkMachine.Proofs.Interpreter.Frames

/-!
# Sends

A send that is not answered inline looks up a method for the receiver below the arguments
(`Machine.find`). A compiled method is activated (`Interpreter.Activates`); a native method, or the
handler of messages that were not understood, answers at once (`Interpreter.Answers`), and so does
an inlined special selector. These are all the ways in which a send succeeds
(`Interpreter.sendOutcome_of_perform`).
-/

namespace TalkMachine

/-- What a send of a selector to a receiver finds: nothing if the message is not understood. -/
def Machine.find (m : Machine) (receiver selector : Value) :
    Except MachineError (Option MethodKind) := do
  let cls ← m.classOf receiver
  match ← m.lookup cls selector with
  | some method => return some (← m.methodKind method)
  | none => return none

/-- What a method dictionary has as a compiled method is one. -/
lemma Machine.compiled_of_methodKind {m : Machine} {found method : Value}
    (h : m.methodKind found = .ok (.compiled method)) :
    m.heap.isCompiledMethod method = true := by
  unfold methodKind at h
  split at h
  · rename_i hcompiled
    cases h
    exact hcompiled
  · split at h
    · cases h
    · obtain ⟨index, -, h⟩ := bind_eq_ok_iff.mp h
      obtain ⟨-, h⟩ := guard_eq_ok_iff.mp h
      obtain ⟨argumentCount, -, h⟩ := bind_eq_ok_iff.mp h
      obtain ⟨index', -, h⟩ := bind_eq_ok_iff.mp h
      cases h

/-- What a send finds as a compiled method is one. -/
lemma Machine.compiled_of_find {m : Machine} {receiver selector method : Value}
    (h : m.find receiver selector = .ok (some (.compiled method))) :
    m.heap.isCompiledMethod method = true := by
  unfold find at h
  obtain ⟨cls, -, h⟩ := bind_eq_ok_iff.mp h
  obtain ⟨found, -, h⟩ := bind_eq_ok_iff.mp h
  cases found with
  | none => cases h
  | some found =>
    obtain ⟨kind, hkind, h⟩ := bind_eq_ok_iff.mp h
    cases h
    exact compiled_of_methodKind hkind

namespace Interpreter

open Execution

variable {host : Host} {send : Sender} {r r' : Registers} {p p' q q' : Execution}
  {argumentCount : ℕ} {value : Value} {instruction : Instruction}

/-! ### Results -/

/-- `s'` is `s` with a receiver and its arguments replaced by a value. -/
structure Replaced (value : Value) (argumentCount : ℕ) (s s' : Stack) : Prop where
  fp : s'.fp = s.fp
  sp : s'.sp = s.sp + 8 * argumentCount
  same : Stack.SameFrom (s.sp + 8 * argumentCount + 8) s s'
  top : s'.load 8 s'.sp = value.raw

/-- A value pushed behind the receiver replaces receiver and arguments. -/
lemma replaced_of_pushed {s s' : Stack} {sp : ℕ} (hsp : sp = s.sp + 8 * argumentCount + 8)
    (hsize : sp ≤ s.size) (hpush : Stack.Pushed value.raw (s.restore sp s.fp) s') :
    Replaced value argumentCount s s' := by
  have hpushsp := hpush.sp
  have hsame := hpush.same
  simp only [Stack.sp_restore] at hpushsp hsame
  constructor
  · rw [hpush.fp, Stack.fp_restore]
  · omega
  · rw [← hsp]
    exact (Stack.sameFrom_restore _ s _ _).trans hsame
  · apply hpush.load
    rw [Stack.sp_restore, Stack.size_restore]
    exact hsize

/-- A value that is pushed once receiver and arguments are dropped replaces them. -/
lemma replaced_of_push {α : Type} {a b : α} {sp : ℕ} (argumentCount : ℕ)
    (hsp : sp = p.stack.sp + 8 * argumentCount + 8) (hsize : sp ≤ p.stack.size)
    (h : (do push value; return a) ⟨p.machine, p.stack.restore sp p.stack.fp⟩ = .ok b p') :
    a = b ∧ p'.machine = p.machine ∧ Replaced value argumentCount p.stack p'.stack := by
  obtain ⟨_, s', hpush, h⟩ := onStack_bind_eq_ok_iff.mp h
  obtain ⟨rfl, rfl⟩ := pure_eq_ok_iff.mp h
  exact ⟨rfl, rfl, replaced_of_pushed hsp hsize (Stack.pushed_of_pushWord hpush)⟩

/-- The result of a send that needs no frame takes the place of receiver and arguments. -/
lemma replaced_of_finish (h : sendMessage.finish r argumentCount value p = .ok r' p') :
    r' = r ∧ p'.machine = p.machine ∧ Replaced value argumentCount p.stack p'.stack := by
  unfold sendMessage.finish at h
  obtain ⟨_, s₁, hdrop, h⟩ := onStack_bind_eq_ok_iff.mp h
  obtain ⟨hsize, rfl⟩ := Stack.drop_eq_ok_iff.mp hdrop
  obtain ⟨hr, hmachine, hreplaced⟩ := replaced_of_push argumentCount (by omega) hsize h
  exact ⟨hr.symm, hmachine, hreplaced⟩

/-- There is room for the result where receiver and arguments were. -/
lemma exists_finish (r : Registers) (value : Value)
    (hsize : p.stack.sp + 8 * argumentCount + 8 ≤ p.stack.size) :
    ∃ p', sendMessage.finish r argumentCount value p = .ok r p' := by
  obtain ⟨s', hpush⟩ := Stack.exists_pushWord
    (s := p.stack.restore (p.stack.sp + 8 * (argumentCount + 1)) p.stack.fp)
    (by rw [Stack.sp_restore]; omega) value.raw
  refine ⟨⟨p.machine, s'⟩, ?_⟩
  refine onStack_bind_eq_ok_iff.mpr ⟨(), _, Stack.drop_eq_ok_iff.mpr ⟨by omega, rfl⟩, ?_⟩
  exact onStack_bind_eq_ok_iff.mpr ⟨(), s', hpush, rfl⟩

/-! ### Special selectors without a send -/

/-- The arithmetic selectors take one argument. -/
lemma argumentCount_arithmetic {index : ℕ} (h : index ≤ SpecialSelector.multiply) :
    (SpecialSelector.table[index]?).map (·.argumentCount) = some 1 := by
  simp only [SpecialSelector.multiply] at h
  interval_cases index <;> rfl

/-- An inlined special selector replaces receiver and arguments by its result; otherwise the
execution is as it was. -/
theorem replaced_of_inlineSpecial {index : ℕ} {inlined : Bool}
    (h : inlineSpecial index p = .ok inlined p') :
    inlined = false ∧ p = p' ∨ inlined = true ∧ p'.machine = p.machine ∧
      ∃ argumentCount value,
        (SpecialSelector.table[index]?).map (·.argumentCount) = some argumentCount ∧
        Replaced value argumentCount p.stack p'.stack := by
  unfold inlineSpecial at h
  split at h
  · rename_i hindex
    right
    obtain ⟨b, s₁, hb, h⟩ := onStack_bind_eq_ok_iff.mp h
    obtain ⟨-, -, rfl⟩ := Stack.pop_eq_ok_iff.mp hb
    obtain ⟨a, s₂, ha, h⟩ := onStack_bind_eq_ok_iff.mp h
    obtain ⟨hsize, -, rfl⟩ := Stack.pop_eq_ok_iff.mp ha
    obtain ⟨result, -, h⟩ := askMachine_bind_eq_ok_iff.mp h
    simp only [Stack.sp_restore, Stack.fp_restore, Stack.size_restore, Stack.restore_restore]
      at hsize h
    obtain ⟨rfl, hmachine, hreplaced⟩ := replaced_of_push 1 (by omega) hsize h
    exact ⟨rfl, hmachine, 1, result, by rw [hindex]; rfl, hreplaced⟩
  split at h
  · rename_i hindex
    right
    obtain ⟨a, s₁, ha, h⟩ := onStack_bind_eq_ok_iff.mp h
    obtain ⟨hsize, -, rfl⟩ := Stack.pop_eq_ok_iff.mp ha
    obtain ⟨result, -, h⟩ := askMachine_bind_eq_ok_iff.mp h
    obtain ⟨rfl, hmachine, hreplaced⟩ := replaced_of_push 0 (by omega) hsize h
    exact ⟨rfl, hmachine, 0, result, by rw [hindex]; rfl, hreplaced⟩
  split at h
  · rename_i hindex
    obtain ⟨a, -, h⟩ := askStack_bind_eq_ok_iff.mp h
    obtain ⟨b, -, h⟩ := askStack_bind_eq_ok_iff.mp h
    cases ha : a.toInt? with
    | none =>
      simp only [ha] at h
      obtain ⟨rfl, rfl⟩ := pure_eq_ok_iff.mp h
      exact .inl ⟨rfl, rfl⟩
    | some x =>
      cases hb : b.toInt? with
      | none =>
        simp only [ha, hb] at h
        obtain ⟨rfl, rfl⟩ := pure_eq_ok_iff.mp h
        exact .inl ⟨rfl, rfl⟩
      | some y =>
        simp only [ha, hb] at h
        obtain ⟨answer, -, h⟩ := askMachine_bind_eq_ok_iff.mp h
        cases answer with
        | none =>
          obtain ⟨rfl, rfl⟩ := pure_eq_ok_iff.mp h
          exact .inl ⟨rfl, rfl⟩
        | some result =>
          obtain ⟨_, s₁, hdrop, h⟩ := onStack_bind_eq_ok_iff.mp h
          obtain ⟨hsize, rfl⟩ := Stack.drop_eq_ok_iff.mp hdrop
          obtain ⟨rfl, hmachine, hreplaced⟩ := replaced_of_push 1 (by omega) hsize h
          exact .inr ⟨rfl, hmachine, 1, result, argumentCount_arithmetic hindex, hreplaced⟩
  · obtain ⟨rfl, rfl⟩ := pure_eq_ok_iff.mp h
    exact .inl ⟨rfl, rfl⟩

/-! ### What a send does -/

/-- An instruction is a send. -/
def IsSend : Instruction → Prop
  | .send _ _ => True
  | .sendSpecial _ => True
  | _ => False

/-- The number of arguments of a send. -/
def sentCount? : Instruction → Option ℕ
  | .send _ argumentCount => some argumentCount
  | .sendSpecial index => (SpecialSelector.table[index]?).map (·.argumentCount)
  | _ => none

/-- An instruction sends a selector with so many arguments, and it is not answered inline. -/
inductive Sends (r : Registers) (p : Execution) : Instruction → Value → ℕ → Prop
  /-- The selector is a literal. -/
  | literal {index argumentCount : ℕ} {selector : Value}
      (hselector : p.machine.heap.methodLiteral r.method index = .ok selector) :
      Sends r p (.send index argumentCount) selector argumentCount
  /-- The selector is a special one. -/
  | special {index : ℕ} {selector : Value} {special : SpecialSelector}
      (hinline : inlineSpecial index p = .ok false p)
      (hselector : p.machine.specialSelectors[index]? = some selector)
      (hspecial : SpecialSelector.table[index]? = some special) :
      Sends r p (.sendSpecial index) selector special.argumentCount

/-- An instruction activates a compiled method with so many arguments. -/
def Activates (r : Registers) (p : Execution) (instruction : Instruction) (argumentCount : ℕ)
    (method : Value) : Prop :=
  ∃ selector receiver, Sends r p instruction selector argumentCount ∧
    p.stack.peek argumentCount = .ok receiver ∧
    p.machine.find receiver selector = .ok (some (.compiled method))

/-- An instruction sends a message with so many arguments that is answered without a frame: by a
native method, or by the handler of messages that were not understood. The answer is `value`, and
the native method or the handler leaves the execution `q`. -/
inductive Answers (host : Host) (send : Sender) (r : Registers) (p : Execution)
    (instruction : Instruction) (argumentCount : ℕ) (value : Value) (q : Execution) : Prop
  /-- A native method answers. -/
  | native {selector receiver : Value} {arguments : List Value} {expected index : ℕ}
      (hsends : Sends r p instruction selector argumentCount)
      (hreceiver : p.stack.peek argumentCount = .ok receiver)
      (hfind : p.machine.find receiver selector = .ok (some (.native expected index)))
      (harguments : p.stack.top argumentCount = .ok arguments)
      (hcall : callNumbered host send index expected receiver arguments p = .ok value q)
  /-- The handler answers. -/
  | handler {selector receiver : Value} {arguments : List Value}
      (hsends : Sends r p instruction selector argumentCount)
      (hreceiver : p.stack.peek argumentCount = .ok receiver)
      (hfind : p.machine.find receiver selector = .ok none)
      (harguments : p.stack.top argumentCount = .ok arguments)
      (hcall : doesNotUnderstand host send receiver selector arguments p = .ok value q)

/-- An instruction hands a message with so many arguments to `x`: to a native method, or to the
handler of messages that were not understood. -/
inductive Calls (host : Host) (send : Sender) (r : Registers) (p : Execution)
    (instruction : Instruction) (argumentCount : ℕ) : ExecutionM Value → Prop
  /-- A native method is called. -/
  | native {selector receiver : Value} {arguments : List Value} {expected index : ℕ}
      (hsends : Sends r p instruction selector argumentCount)
      (hreceiver : p.stack.peek argumentCount = .ok receiver)
      (hfind : p.machine.find receiver selector = .ok (some (.native expected index)))
      (harguments : p.stack.top argumentCount = .ok arguments) :
      Calls host send r p instruction argumentCount
        (callNumbered host send index expected receiver arguments)
  /-- The handler is called, or there is none. -/
  | handler {selector receiver : Value} {arguments : List Value}
      (hsends : Sends r p instruction selector argumentCount)
      (hreceiver : p.stack.peek argumentCount = .ok receiver)
      (hfind : p.machine.find receiver selector = .ok none)
      (harguments : p.stack.top argumentCount = .ok arguments) :
      Calls host send r p instruction argumentCount
        (doesNotUnderstand host send receiver selector arguments)

/-- What a call answers is the answer to the message. -/
lemma Calls.answers {x : ExecutionM Value} (h : Calls host send r p instruction argumentCount x)
    (hx : x p = .ok value q) : Answers host send r p instruction argumentCount value q := by
  cases h with
  | native hsends hreceiver hfind harguments =>
    exact .native hsends hreceiver hfind harguments hx
  | handler hsends hreceiver hfind harguments =>
    exact .handler hsends hreceiver hfind harguments hx

/-- The selector and the number of arguments of a send are determined. -/
lemma Sends.unique {selector selector' : Value} {argumentCount argumentCount' : ℕ}
    (h : Sends r p instruction selector argumentCount)
    (h' : Sends r p instruction selector' argumentCount') :
    selector = selector' ∧ argumentCount = argumentCount' := by
  cases h with
  | literal hselector =>
    cases h' with
    | literal hselector' =>
      rw [hselector] at hselector'
      exact ⟨Except.ok.inj hselector', rfl⟩
  | special hinline hselector hspecial =>
    cases h' with
    | special hinline' hselector' hspecial' =>
      rw [hselector] at hselector'
      rw [hspecial] at hspecial'
      cases hselector'
      cases hspecial'
      exact ⟨rfl, rfl⟩

/-- The method that an instruction activates is determined. -/
lemma Activates.unique {argumentCount argumentCount' : ℕ} {method method' : Value}
    (h : Activates r p instruction argumentCount method)
    (h' : Activates r p instruction argumentCount' method') :
    argumentCount = argumentCount' ∧ method = method' := by
  obtain ⟨selector, receiver, hsends, hreceiver, hfind⟩ := h
  obtain ⟨selector', receiver', hsends', hreceiver', hfind'⟩ := h'
  obtain ⟨rfl, rfl⟩ := hsends.unique hsends'
  simp_all

/-- A message that is answered without a frame activates no method. -/
lemma Answers.not_activates {argumentCount' : ℕ} {method : Value}
    (h : Answers host send r p instruction argumentCount value q) :
    ¬Activates r p instruction argumentCount' method := by
  rintro ⟨selector', receiver', hsends', hreceiver', hfind'⟩
  cases h with
  | native hsends hreceiver hfind harguments hcall =>
    obtain ⟨rfl, rfl⟩ := hsends.unique hsends'
    simp_all
  | handler hsends hreceiver hfind harguments hcall =>
    obtain ⟨rfl, rfl⟩ := hsends.unique hsends'
    simp_all

/-- An instruction that sends a selector is a send. -/
lemma Sends.isSend {selector : Value} (h : Sends r p instruction selector argumentCount) :
    IsSend instruction := by
  cases h with
  | literal hselector => trivial
  | special hinline hselector hspecial => trivial

/-- An instruction that sends a selector has its number of arguments. -/
lemma Sends.sentCount? {selector : Value} (h : Sends r p instruction selector argumentCount) :
    sentCount? instruction = some argumentCount := by
  cases h with
  | literal hselector => rfl
  | special hinline hselector hspecial => simp [Interpreter.sentCount?, hspecial]

/-- An instruction that is answered is a send. -/
lemma Answers.isSend (h : Answers host send r p instruction argumentCount value q) :
    IsSend instruction := by
  cases h with
  | native hsends => exact hsends.isSend
  | handler hsends => exact hsends.isSend

/-! ### How a send succeeds -/

/-- The ways in which a send succeeds, by the registers and the execution that it leaves. -/
inductive SendResult (host : Host) (send : Sender) (r : Registers) (p : Execution)
    (instruction : Instruction) : Registers → Execution → Prop
  /-- The selector is answered inline. -/
  | inlined {argumentCount : ℕ} {value : Value} {p' : Execution}
      (hcount : sentCount? instruction = some argumentCount)
      (hsends : ∀ selector argumentCount, ¬Sends r p instruction selector argumentCount)
      (hmachine : p'.machine = p.machine)
      (hreplaced : Replaced value argumentCount p.stack p'.stack) :
      SendResult host send r p instruction r p'
  /-- A method is activated. -/
  | activated {argumentCount : ℕ} {method : Value} {r' : Registers} {p' : Execution}
      (hactivates : Activates r p instruction argumentCount method)
      (hactivate : activate method r.pc argumentCount p = .ok r' p') :
      SendResult host send r p instruction r' p'
  /-- The message is answered without a frame. -/
  | answered {argumentCount : ℕ} {value : Value} {q p' : Execution}
      (hanswers : Answers host send r p instruction argumentCount value q)
      (hmachine : p'.machine = q.machine)
      (hreplaced : Replaced value argumentCount q.stack p'.stack) :
      SendResult host send r p instruction r p'

/-- A message that needs a lookup activates a method, or is answered without a frame. -/
lemma sendResult_of_sendMessage {selector : Value}
    (hsends : Sends r p instruction selector argumentCount)
    (h : sendMessage host send r selector argumentCount p = .ok r' p') :
    SendResult host send r p instruction r' p' := by
  unfold sendMessage at h
  obtain ⟨receiver, hreceiver, h⟩ := askStack_bind_eq_ok_iff.mp h
  obtain ⟨cls, hcls, h⟩ := askMachine_bind_eq_ok_iff.mp h
  obtain ⟨kind, hkind, h⟩ := askMachine_bind_eq_ok_iff.mp h
  have hfind : p.machine.find receiver selector = .ok kind :=
    bind_eq_ok_iff.mpr ⟨cls, hcls, hkind⟩
  match kind, hfind, h with
  | some (.compiled method), hfind, h =>
    exact .activated ⟨selector, receiver, hsends, hreceiver, hfind⟩ h
  | some (.native expected index), hfind, h =>
    obtain ⟨arguments, harguments, h⟩ := askStack_bind_eq_ok_iff.mp h
    obtain ⟨value, q, hcall, h⟩ := run_bind_eq_ok_iff.mp h
    obtain ⟨rfl, hmachine, hreplaced⟩ := replaced_of_finish h
    exact .answered (.native hsends hreceiver hfind harguments hcall) hmachine hreplaced
  | none, hfind, h =>
    obtain ⟨arguments, harguments, h⟩ := askStack_bind_eq_ok_iff.mp h
    obtain ⟨value, q, hcall, h⟩ := run_bind_eq_ok_iff.mp h
    obtain ⟨rfl, hmachine, hreplaced⟩ := replaced_of_finish h
    exact .answered (.handler hsends hreceiver hfind harguments hcall) hmachine hreplaced

/-- How a send of a special selector succeeds. -/
lemma sendResult_of_sendSpecial {index : ℕ}
    (h : sendSpecial host send r index p = .ok r' p') :
    SendResult host send r p (.sendSpecial index) r' p' := by
  unfold sendSpecial at h
  obtain ⟨inlined, t, hinline, h⟩ := run_bind_eq_ok_iff.mp h
  rcases replaced_of_inlineSpecial hinline with
    ⟨rfl, rfl⟩ | ⟨rfl, hmachine, argumentCount, value, hcount, hreplaced⟩
  · rw [if_neg (by decide)] at h
    obtain ⟨selector, hselector, h⟩ := askMachine_bind_eq_ok_iff.mp h
    cases selector with
    | none => exact absurd h (throw_ne_ok _)
    | some selector =>
      cases hspecial : SpecialSelector.table[index]? with
      | none =>
        simp only [hspecial] at h
        exact absurd h (throw_ne_ok _)
      | some special =>
        simp only [hspecial] at h
        exact sendResult_of_sendMessage (.special hinline (Except.ok.inj hselector) hspecial) h
  · rw [if_pos rfl] at h
    obtain ⟨rfl, rfl⟩ := pure_eq_ok_iff.mp h
    refine .inlined hcount ?_ hmachine hreplaced
    rintro selector argumentCount' ⟨⟩
    simp_all

/-- How a send succeeds: what was sent inline, to a native method or to the handler goes on with the
same method, what was sent to a compiled method with that. -/
theorem sendResult_of_perform {o : Option Registers} (hsend : IsSend instruction)
    (h : perform host send r instruction p = .ok o p') :
    ∃ r', o = some r' ∧ SendResult host send r p instruction r' p' := by
  cases instruction <;> try exact absurd hsend id
  case send index argumentCount =>
    unfold perform at h
    obtain ⟨selector, hselector, h⟩ := askHeap_bind_eq_ok_iff.mp h
    obtain ⟨r', t, hmessage, h⟩ := run_bind_eq_ok_iff.mp h
    obtain ⟨rfl, rfl⟩ := pure_eq_ok_iff.mp h
    exact ⟨r', rfl, sendResult_of_sendMessage (.literal hselector) hmessage⟩
  case sendSpecial index =>
    unfold perform at h
    obtain ⟨r', t, hspecial, h⟩ := run_bind_eq_ok_iff.mp h
    obtain ⟨rfl, rfl⟩ := pure_eq_ok_iff.mp h
    exact ⟨r', rfl, sendResult_of_sendSpecial hspecial⟩

/-- A message that is answered without a frame is sent to the native method or the handler, whose
answer then takes the place of receiver and arguments. -/
lemma exists_sendMessage_of_answers
    (h : Answers host send r p instruction argumentCount value q)
    (hfinish : sendMessage.finish r argumentCount value q = .ok r p') :
    ∃ selector, Sends r p instruction selector argumentCount ∧
      sendMessage host send r selector argumentCount p = .ok r p' := by
  cases h with
  | native hsends hreceiver hfind harguments hcall =>
    obtain ⟨cls, hcls, hkind⟩ := bind_eq_ok_iff.mp hfind
    refine ⟨_, hsends, askStack_bind_eq_ok_iff.mpr ⟨_, hreceiver, ?_⟩⟩
    refine askMachine_bind_eq_ok_iff.mpr ⟨cls, hcls, ?_⟩
    refine askMachine_bind_eq_ok_iff.mpr ⟨_, hkind, ?_⟩
    refine askStack_bind_eq_ok_iff.mpr ⟨_, harguments, ?_⟩
    exact run_bind_eq_ok_iff.mpr ⟨value, q, hcall, hfinish⟩
  | handler hsends hreceiver hfind harguments hcall =>
    obtain ⟨cls, hcls, hkind⟩ := bind_eq_ok_iff.mp hfind
    refine ⟨_, hsends, askStack_bind_eq_ok_iff.mpr ⟨_, hreceiver, ?_⟩⟩
    refine askMachine_bind_eq_ok_iff.mpr ⟨cls, hcls, ?_⟩
    refine askMachine_bind_eq_ok_iff.mpr ⟨_, hkind, ?_⟩
    refine askStack_bind_eq_ok_iff.mpr ⟨_, harguments, ?_⟩
    exact run_bind_eq_ok_iff.mpr ⟨value, q, hcall, hfinish⟩

/-- The instruction that sends such a message succeeds, and goes on with the same method. -/
theorem perform_of_answers (h : Answers host send r p instruction argumentCount value q)
    (hfinish : sendMessage.finish r argumentCount value q = .ok r p') :
    perform host send r instruction p = .ok (some r) p' := by
  obtain ⟨selector, hsends, hmessage⟩ := exists_sendMessage_of_answers h hfinish
  cases hsends with
  | literal hselector =>
    refine askHeap_bind_eq_ok_iff.mpr ⟨selector, hselector, ?_⟩
    exact run_bind_eq_ok_iff.mpr ⟨r, p', hmessage, rfl⟩
  | special hinline hselector hspecial =>
    refine run_bind_eq_ok_iff.mpr ⟨r, p', ?_, rfl⟩
    refine run_bind_eq_ok_iff.mpr ⟨false, p, hinline, ?_⟩
    rw [if_neg (by decide)]
    refine askMachine_bind_eq_ok_iff.mpr ⟨_, rfl, ?_⟩
    simp only [hselector, hspecial]
    exact hmessage

end Interpreter

end TalkMachine
