import TalkMachine.Proofs.Interpreter.Instructions
import TalkMachine.Proofs.Interpreter.Runs
import TalkMachine.Proofs.Method

/-!
# Words that a step spares

A step spares the bytes of the stack from an address on if it leaves them as they were, whether it
succeeds or fails (`Interpreter.Spares`). A step that goes on after another one spares what both
spare, so this is known of a sequence of steps without knowing where it fails.

Only a push and a store into a temporary write to the stack. Therefore an instruction spares all
that lies above the words that it takes and above the frame with its arguments, apart from what a
native method or the handler does (`Interpreter.spares_perform`).
-/

namespace TalkMachine

/-! ### Steps of a stack -/

namespace Stack

variable {s s' : Stack} {base address : ℕ}

/-- A step leaves the bytes from an address on as they were, also when it fails. -/
def Spares {α : Type} (base : ℕ) (x : StackM α) (s : Stack) : Prop :=
  SameFrom base s (stateAfter (x s))

/-- Steps that do the same spare the same. -/
lemma Spares.congr {α : Type} {x y : StackM α} (h : Spares base x s) (heq : y s = x s) :
    Spares base y s := by
  unfold Spares at h ⊢
  rwa [heq]

/-- A question changes nothing. -/
lemma spares_ask {α : Type} (question : Stack → Except StackError α) :
    Spares base (ask question) s := by
  unfold Spares ask
  cases question s <;> exact .refl _ _

/-- A push writes below the stack pointer. -/
lemma spares_pushWord {word : UInt64} (hsp : s.sp ≤ base) : Spares base (pushWord word) s := by
  unfold Spares
  cases h : pushWord word s with
  | ok _ s' => exact (pushed_of_pushWord h).same.mono hsp
  | error e s' =>
    unfold pushWord at h
    split at h
    · cases h
      exact .refl _ _
    · cases h

/-- Moving the stack pointer writes nothing. -/
lemma spares_setSp (sp : ℕ) : Spares base (setSp sp) s := by
  unfold Spares setSp
  split
  · exact .refl _ _
  · exact sameFrom_restore base s sp s.fp

/-- Moving the frame pointer writes nothing. -/
lemma spares_setFp (fp : ℕ) : Spares base (setFp fp) s :=
  sameFrom_restore base s s.sp fp

/-- A drop writes nothing. -/
lemma spares_drop (count : ℕ) : Spares base (drop count) s :=
  spares_setSp _

/-- A pop of a value writes nothing. -/
lemma spares_pop : Spares base pop s := by
  unfold Spares
  cases h : pop s with
  | ok value s' =>
    obtain ⟨-, -, rfl⟩ := pop_eq_ok_iff.mp h
    exact sameFrom_restore _ _ _ _
  | error e s' =>
    unfold pop popWord at h
    cases hread : s.read s.sp with
    | ok word => simp [bind, EStateM.bind, hread, pure, EStateM.pure] at h
    | error e =>
      simp only [bind, EStateM.bind, hread, EStateM.Result.error.injEq] at h
      rw [stateAfter, ← h.2]
      exact .refl _ _

/-- A pop of an address writes nothing. -/
lemma spares_popAddress : Spares base popAddress s := by
  unfold Spares
  cases h : popAddress s with
  | ok value s' =>
    obtain ⟨-, -, rfl⟩ := popAddress_eq_ok_iff.mp h
    exact sameFrom_restore _ _ _ _
  | error e s' =>
    unfold popAddress popWord at h
    cases hread : s.read s.sp with
    | ok word => simp [bind, EStateM.bind, hread, pure, EStateM.pure] at h
    | error e =>
      simp only [bind, EStateM.bind, hread, EStateM.Result.error.injEq] at h
      rw [stateAfter, ← h.2]
      exact .refl _ _

/-- A write changes the eight bytes of a word. -/
lemma spares_write {word : UInt64} (hbelow : address + 8 ≤ base) :
    Spares base (write address word) s := by
  unfold Spares write
  split
  · rename_i hlive
    simp only [isLive, wordSize, Bool.and_eq_true, decide_eq_true_eq] at hlive
    refine ⟨size_writeWord s address word, fun b hb hlt => ?_⟩
    rw [stateAfter, byteAt_writeWord s hlive.2 word hlt, if_neg (by omega)]
  · exact .refl _ _

end Stack

namespace Interpreter

open Execution

variable {α β : Type} {host : Host} {send : Sender} {r : Registers} {p q : Execution} {base : ℕ}
  {instruction : Instruction}

/-! ### Steps of an execution -/

/-- A step leaves the bytes of the stack from an address on as they were, also when it fails. -/
def Spares (base : ℕ) (x : ExecutionM α) (p : Execution) : Prop :=
  Stack.SameFrom base p.stack (stateAfter (x p)).stack

namespace Spares

/-- What a successful step leaves. -/
lemma of_ok {x : ExecutionM α} {a : α} (h : Spares base x p) (hok : x p = .ok a q) :
    Stack.SameFrom base p.stack q.stack := by
  unfold Spares at h
  rwa [hok] at h

/-- What a failed step leaves. -/
lemma of_error {x : ExecutionM α} {e : MachineError} (h : Spares base x p)
    (herror : x p = .error e q) : Stack.SameFrom base p.stack q.stack := by
  unfold Spares at h
  rwa [herror] at h

/-- A result changes nothing. -/
lemma pure (a : α) : Spares base (pure a) p :=
  .refl _ _

/-- A failure changes nothing. -/
lemma throw (e : MachineError) : Spares base (throw e : ExecutionM α) p :=
  .refl _ _

/-- A step and what follows spare what both spare. -/
lemma bind {x : ExecutionM α} {f : α → ExecutionM β} (hx : Spares base x p)
    (hf : ∀ a q, x p = .ok a q → Spares base (f a) q) : Spares base (x >>= f) p := by
  cases hxp : x p with
  | ok a q =>
    have hrun : (x >>= f) p = f a q := by
      show EStateM.bind x f p = f a q
      rw [EStateM.bind, hxp]
    unfold Spares
    rw [hrun]
    exact (hx.of_ok hxp).trans (hf a q hxp)
  | error e q =>
    have hrun : (x >>= f) p = .error e q := by
      show EStateM.bind x f p = .error e q
      rw [EStateM.bind, hxp]
    unfold Spares
    rw [hrun]
    exact hx.of_error hxp

/-- A check and what follows. -/
lemma guard {c : Prop} [Decidable c] {e : MachineError} {f : β → ExecutionM α} {x : ExecutionM α}
    (hx : ¬c → Spares base x p) :
    Spares base (if c then MonadExcept.throw e >>= f else x) p := by
  split
  · exact bind (.throw e) fun a q h => absurd h (throw_ne_ok e)
  · exact hx ‹_›

/-- A change of the machine leaves the stack as it was. -/
lemma onMachine (x : MachineM α) : Spares base (onMachine x) p := by
  obtain ⟨machine, stack⟩ := p
  unfold Spares Execution.onMachine
  dsimp only
  cases x machine <;> exact .refl _ _

/-- A change of the stack spares what it spares there. -/
lemma onStack {x : StackM α} (h : Stack.Spares base x p.stack) : Spares base (onStack x) p := by
  obtain ⟨machine, stack⟩ := p
  unfold Stack.Spares at h
  unfold Spares Execution.onStack
  dsimp only at h ⊢
  cases hx : x stack with
  | ok a s =>
    rw [hx] at h
    exact h
  | error e s =>
    rw [hx] at h
    exact h

/-- A question changes nothing. -/
lemma ask (question : Execution → Except MachineError α) : Spares base (ask question) p := by
  unfold Spares Execution.ask
  cases question p <;> exact .refl _ _

/-- A question to the machine changes nothing. -/
lemma askMachine (question : Machine → Except MachineError α) :
    Spares base (askMachine question) p :=
  ask _

/-- A question to the heap changes nothing. -/
lemma askHeap (question : Heap → Except HeapError α) : Spares base (askHeap question) p :=
  ask _

/-- A question to the stack changes nothing. -/
lemma askStack (question : Stack → Except StackError α) : Spares base (askStack question) p :=
  onStack (Stack.spares_ask question)

/-! ### With what follows -/

/-- A question and what follows. -/
lemma ask_bind {question : Execution → Except MachineError α} {f : α → ExecutionM β}
    (hf : ∀ a, question p = .ok a → Spares base (f a) p) :
    Spares base (Execution.ask question >>= f) p := by
  refine bind (ask question) fun a q h => ?_
  obtain ⟨hquestion, rfl⟩ := ask_eq_ok_iff.mp h
  exact hf a hquestion

/-- A question to the machine and what follows. -/
lemma askMachine_bind {question : Machine → Except MachineError α} {f : α → ExecutionM β}
    (hf : ∀ a, question p.machine = .ok a → Spares base (f a) p) :
    Spares base (Execution.askMachine question >>= f) p :=
  ask_bind hf

/-- A question to the heap and what follows. -/
lemma askHeap_bind {question : Heap → Except HeapError α} {f : α → ExecutionM β}
    (hf : ∀ a, question p.machine.heap = .ok a → Spares base (f a) p) :
    Spares base (Execution.askHeap question >>= f) p := by
  refine bind (askHeap question) fun a q h => ?_
  obtain ⟨hquestion, rfl⟩ := askHeap_eq_ok_iff.mp h
  exact hf a hquestion

/-- A question to the stack and what follows. -/
lemma askStack_bind {question : Stack → Except StackError α} {f : α → ExecutionM β}
    (hf : ∀ a, question p.stack = .ok a → Spares base (f a) p) :
    Spares base (Execution.askStack question >>= f) p := by
  refine bind (askStack question) fun a q h => ?_
  obtain ⟨hquestion, rfl⟩ := askStack_eq_ok_iff.mp h
  exact hf a hquestion

/-- A change of the stack and what follows. -/
lemma onStack_bind {x : StackM α} {f : α → ExecutionM β} (hx : Stack.Spares base x p.stack)
    (hf : ∀ a s, x p.stack = .ok a s → Spares base (f a) ⟨p.machine, s⟩) :
    Spares base (Execution.onStack x >>= f) p := by
  refine bind (onStack hx) fun a q h => ?_
  obtain ⟨hx, hmachine⟩ := onStack_eq_ok_iff.mp h
  have hs := hf a q.stack hx
  rw [← hmachine] at hs
  exact hs

/-- A push and what follows. -/
lemma pushWord_bind {word : UInt64} {f : Unit → ExecutionM β} (hsp : p.stack.sp ≤ base)
    (hf : ∀ s, s.sp ≤ base → Spares base (f ()) ⟨p.machine, s⟩) :
    Spares base (Execution.onStack (Stack.pushWord word) >>= f) p := by
  refine onStack_bind (Stack.spares_pushWord hsp) fun _ s h => hf s ?_
  have := (Stack.pushed_of_pushWord h).sp
  omega

/-- A push of an address that the stack itself tells, and what follows. -/
lemma pushAddress_bind {address : Stack → ℕ} {f : Unit → ExecutionM β} (hsp : p.stack.sp ≤ base)
    (hf : ∀ s, s.sp ≤ base → Spares base (f ()) ⟨p.machine, s⟩) :
    Spares base (Execution.onStack (do Stack.pushAddress (address (← get))) >>= f) p := by
  have hpush : (do Stack.pushAddress (address (← get)) : StackM Unit) p.stack =
      Stack.pushWord (UInt64.ofNat (address p.stack)) p.stack := rfl
  have hspares : Stack.Spares base (Stack.pushWord (UInt64.ofNat (address p.stack))) p.stack :=
    Stack.spares_pushWord hsp
  refine onStack_bind (hspares.congr hpush) fun _ s h => hf s ?_
  rw [hpush] at h
  have := (Stack.pushed_of_pushWord h).sp
  omega

/-- Moving the frame pointer to an address that the stack itself tells, and what follows. -/
lemma setFp_bind {address : Stack → ℕ} {f : Unit → ExecutionM β}
    (hf : Spares base (f ()) ⟨p.machine, p.stack.restore p.stack.sp (address p.stack)⟩) :
    Spares base (Execution.onStack (do Stack.setFp (address (← get))) >>= f) p := by
  have hset : (do Stack.setFp (address (← get)) : StackM Unit) p.stack =
      Stack.setFp (address p.stack) p.stack := rfl
  have hspares : Stack.Spares base (Stack.setFp (address p.stack)) p.stack :=
    Stack.spares_setFp _
  refine onStack_bind (hspares.congr hset) fun _ s h => ?_
  rw [hset] at h
  obtain rfl := Stack.setFp_eq_ok_iff.mp h
  exact hf

end Spares

/-! ### Frames -/

/-- A push of a value and what follows. -/
lemma spares_push_bind {value : Value} {f : Unit → ExecutionM β} (hsp : p.stack.sp ≤ base)
    (hf : ∀ s, s.sp ≤ base → Spares base (f ()) ⟨p.machine, s⟩) :
    Spares base (push value >>= f) p :=
  .pushWord_bind hsp hf

/-- A push of a value and a result. -/
lemma spares_push_pure {value : Value} {a : α} (hsp : p.stack.sp ≤ base) :
    Spares base (do push value; return a) p :=
  spares_push_bind hsp fun _ _ => .pure a

/-- Pushing a value several times writes below the stack pointer. -/
lemma spares_pushTimes {value : Value} {count : ℕ} (hsp : p.stack.sp ≤ base) :
    Spares base (pushTimes value count) p := by
  induction count generalizing p with
  | zero => exact .pure ()
  | succ count ih => exact spares_push_bind hsp fun s hs => ih hs

/-- An activation writes below the stack pointer. -/
theorem spares_activate {method : Value} {returnPc argumentCount : ℕ} (hsp : p.stack.sp ≤ base) :
    Spares base (activate method returnPc argumentCount) p := by
  unfold activate
  refine .askHeap_bind fun header _ => .guard fun _ => ?_
  refine .askStack_bind fun receiver _ => .askMachine_bind fun nil _ => ?_
  refine .pushWord_bind hsp fun s₁ h₁ => .pushAddress_bind h₁ fun s₂ h₂ => .setFp_bind ?_
  refine spares_push_bind h₂ fun s₃ h₃ => .pushWord_bind h₃ fun s₄ h₄ => ?_
  refine spares_push_bind h₄ fun s₅ h₅ => spares_push_bind h₅ fun s₆ h₆ => ?_
  exact .bind (spares_pushTimes h₆) fun _ _ _ => .pure _

/-- A return writes below the end of the frame, which goes by the number of arguments that the
frame notes. -/
theorem spares_returnValue {value : Value}
    (hframe : ∀ metadata, p.stack.frameMetadata = .ok metadata →
      p.stack.fp + 24 + 8 * metadata.argumentCount ≤ base) :
    Spares base (returnValue value) p := by
  unfold returnValue
  refine .askStack_bind fun metadata hmetadata => .askStack_bind fun fp hfp => ?_
  have hbase := hframe metadata hmetadata
  obtain rfl := Except.ok.inj hfp
  refine .onStack_bind (Stack.spares_setSp _) fun _ s₁ h₁ => ?_
  obtain ⟨-, rfl⟩ := Stack.setSp_eq_ok_iff.mp h₁
  refine .onStack_bind Stack.spares_popAddress fun previousFp s₂ h₂ => ?_
  obtain ⟨-, -, rfl⟩ := Stack.popAddress_eq_ok_iff.mp h₂
  refine .onStack_bind Stack.spares_popAddress fun returnPc s₃ h₃ => ?_
  obtain ⟨-, -, rfl⟩ := Stack.popAddress_eq_ok_iff.mp h₃
  refine .onStack_bind (Stack.spares_drop _) fun _ s₄ h₄ => ?_
  obtain ⟨-, rfl⟩ := Stack.drop_eq_ok_iff.mp h₄
  refine .onStack_bind (Stack.spares_setFp _) fun _ s₅ h₅ => ?_
  obtain rfl := Stack.setFp_eq_ok_iff.mp h₅
  refine spares_push_bind ?_ fun s₆ _ => ?_
  · simp only [Stack.sp_restore]
    omega
  split
  · exact .pure none
  · exact .askStack_bind fun method _ => .ask_bind fun header _ => .pure _

/-! ### Parts of an instruction -/

/-- Loading the value of a variable changes nothing. -/
lemma spares_load {place : Place} {index : ℕ} : Spares base (load r place index) p := by
  cases place with
  | receiverField => exact .askStack_bind fun receiver _ => .askHeap _
  | literalBinding => exact .askHeap_bind fun association _ => .askHeap _
  | temporary => exact .askStack_bind fun address _ => .askStack _

/-- The value of a constant is known without a change. -/
lemma spares_constant {c : Constant} : Spares base (constant c) p := by
  unfold constant
  cases c with
  | receiver => exact .askStack _
  | true => exact .askMachine _
  | false => exact .askMachine _
  | nil => exact .askMachine _
  | thisContext => exact .askStack _

/-- The returned value is known without a change, or popped. -/
lemma spares_returned {value : ReturnValue} : Spares base (returned value) p := by
  unfold returned
  cases value with
  | receiver => exact .askStack _
  | true => exact .askMachine _
  | false => exact .askMachine _
  | nil => exact .askMachine _
  | top => exact .onStack Stack.spares_pop

/-- A store into a variable writes into the frame or its arguments. -/
lemma spares_storeInto {place : Place} {index : ℕ} {value : Value}
    (hargs : r.header.argumentCount < 256) (htemps : r.header.tempCount < 256)
    (hframe : p.stack.fp + 24 + 8 * r.header.argumentCount ≤ base) :
    Spares base (storeInto r place index value) p := by
  cases place with
  | receiverField => exact .askStack_bind fun receiver _ => .onMachine _
  | literalBinding => exact .askHeap_bind fun association _ => .onMachine _
  | temporary =>
    refine .askStack_bind fun address haddress => .onStack (Stack.spares_write ?_)
    have := Stack.tempAddress_cases hargs htemps haddress
    omega

/-- A jump changes nothing. -/
lemma spares_jump {distance : ℤ} {taken : Bool} :
    Spares base (if taken then do
        return some { r with pc := ← ask fun _ => jumpTarget r.pc distance }
      else return some r : ExecutionM (Option Registers)) p := by
  cases taken with
  | true => exact .ask_bind fun target _ => .pure _
  | false => exact .pure _

/-- A value that is found without a change to the stack and pushed. -/
lemma spares_push_of {x : ExecutionM Value} {a : α} (hsp : p.stack.sp ≤ base)
    (hx : Spares base x p) (heq : ∀ value q, x p = .ok value q → p = q) :
    Spares base (do push (← x); return a) p := by
  refine .bind hx fun value q h => ?_
  obtain rfl := heq value q h
  exact spares_push_pure hsp

/-! ### Sends -/

/-- The special selector of an index takes receiver and arguments. -/
lemma demand_sendSpecial {index argumentCount : ℕ}
    (h : (SpecialSelector.table[index]?).map (·.argumentCount) = some argumentCount) :
    demand (.sendSpecial index) = argumentCount + 1 :=
  demand_of_sentCount? h

/-- An inlined special selector writes below receiver and arguments. -/
lemma spares_inlineSpecial {index : ℕ} (hsp : p.stack.sp + 8 * demand (.sendSpecial index) ≤ base) :
    Spares base (inlineSpecial index) p := by
  unfold inlineSpecial
  split
  · rename_i hindex
    have hdemand : demand (.sendSpecial index) = 1 + 1 :=
      demand_sendSpecial (by rw [hindex]; rfl)
    rw [hdemand] at hsp
    refine .onStack_bind Stack.spares_pop fun b s₁ hb => ?_
    obtain ⟨-, -, rfl⟩ := Stack.pop_eq_ok_iff.mp hb
    refine .onStack_bind Stack.spares_pop fun a s₂ ha => ?_
    obtain ⟨-, -, rfl⟩ := Stack.pop_eq_ok_iff.mp ha
    refine .askMachine_bind fun result _ => spares_push_pure ?_
    simp only [Stack.sp_restore]
    omega
  split
  · rename_i hindex
    have hdemand : demand (.sendSpecial index) = 0 + 1 :=
      demand_sendSpecial (by rw [hindex]; rfl)
    rw [hdemand] at hsp
    refine .onStack_bind Stack.spares_pop fun a s₁ ha => ?_
    obtain ⟨-, -, rfl⟩ := Stack.pop_eq_ok_iff.mp ha
    refine .askMachine_bind fun result _ => spares_push_pure ?_
    simp only [Stack.sp_restore]
    omega
  split
  · rename_i hindex
    rw [demand_sendSpecial (argumentCount_arithmetic hindex)] at hsp
    refine .askStack_bind fun a _ => .askStack_bind fun b _ => ?_
    split
    · refine .askMachine_bind fun answer _ => ?_
      split
      · refine .onStack_bind (Stack.spares_drop 2) fun _ s₁ hdrop => spares_push_pure ?_
        obtain ⟨-, rfl⟩ := Stack.drop_eq_ok_iff.mp hdrop
        simp only [Stack.sp_restore]
        omega
      · exact .pure false
    · exact .pure false
  · exact .pure false

/-- A call changes no byte of the stack from `base` on, and leaves no fewer words than it found when
it answers. -/
structure CallSpares (base : ℕ) (x : ExecutionM Value) (p : Execution) : Prop where
  spares : Spares base x p
  sp : ∀ value q, x p = .ok value q → q.stack.sp ≤ p.stack.sp

namespace CallSpares

/-- A call that fails at once. -/
lemma throw (e : MachineError) : CallSpares base (throw e) p :=
  ⟨.throw e, fun _ _ h => absurd h (throw_ne_ok e)⟩

/-- A call that changes the machine at most. -/
lemma onMachine (x : MachineM Value) : CallSpares base (onMachine x) p :=
  ⟨.onMachine x, fun _ _ h => by rw [(onMachine_eq_ok_iff.mp h).2]⟩

/-- A call that only asks the machine. -/
lemma askMachine (question : Machine → Except MachineError Value) :
    CallSpares base (askMachine question) p :=
  ⟨.askMachine question, fun _ _ h => by rw [(askMachine_eq_ok_iff.mp h).2]⟩

/-- The native methods of the kernel do not touch the stack. -/
lemma callNative_none (native : Native) (receiver : Value) (arguments : List Value) :
    CallSpares base (callNative Host.none send native receiver arguments) p := by
  unfold callNative
  cases native with
  | object n => exact .onMachine _
  | behavior n => exact .onMachine _
  | string n => exact .onMachine _
  | array n => exact .onMachine _
  | characterValue => exact .askMachine _
  | boolean n => exact .askMachine _
  | integer n => exact .askMachine _
  | integerText => exact .onMachine _
  | float n => exact .askMachine _
  | floatText => exact .onMachine _
  | foreign number => exact .throw _

/-- Without a host no call touches the stack. -/
theorem of_none {argumentCount : ℕ} {x : ExecutionM Value}
    (h : Calls Host.none send r p instruction argumentCount x) : CallSpares base x p := by
  cases h with
  | @native _ receiver arguments expected index _ _ _ _ =>
    have hcall : ∀ native, CallSpares base (callNative Host.none send native receiver arguments) p :=
      fun native => callNative_none native receiver arguments
    unfold callNumbered
    constructor
    · refine .guard fun _ => .askMachine_bind fun native _ => ?_
      cases native with
      | none => exact .throw _
      | some native => exact (hcall native).spares
    · intro value q h
      obtain ⟨-, h⟩ := run_guard_eq_ok_iff.mp h
      obtain ⟨native, -, h⟩ := askMachine_bind_eq_ok_iff.mp h
      cases native with
      | none => exact absurd h (throw_ne_ok _)
      | some native => exact (hcall native).sp value q h
  | handler => exact .throw _

end CallSpares

/-- A result in the place of receiver and arguments is written below their end. -/
lemma spares_finish {argumentCount : ℕ} {value : Value}
    (hsp : p.stack.sp + 8 * (argumentCount + 1) ≤ base) :
    Spares base (sendMessage.finish r argumentCount value) p := by
  unfold sendMessage.finish
  refine .onStack_bind (Stack.spares_drop _) fun _ s₁ hdrop => spares_push_pure ?_
  obtain ⟨-, rfl⟩ := Stack.drop_eq_ok_iff.mp hdrop
  exact hsp

/-- A call and its result in the place of receiver and arguments. -/
lemma spares_call_finish {x : ExecutionM Value} {argumentCount : ℕ}
    (hsp : p.stack.sp + 8 * (argumentCount + 1) ≤ base) (hx : CallSpares base x p) :
    Spares base (do sendMessage.finish r argumentCount (← x)) p := by
  refine .bind hx.spares fun value q h => spares_finish ?_
  have := hx.sp value q h
  omega

/-- A message that needs a lookup spares what is above receiver and arguments, if the native method
or the handler that it calls does. -/
lemma spares_sendMessage {selector : Value} {argumentCount : ℕ}
    (hsends : Sends r p instruction selector argumentCount)
    (hsp : p.stack.sp + 8 * (argumentCount + 1) ≤ base)
    (hcalls : ∀ x, Calls host send r p instruction argumentCount x → CallSpares base x p) :
    Spares base (sendMessage host send r selector argumentCount) p := by
  unfold sendMessage
  refine .askStack_bind fun receiver hreceiver => .askMachine_bind fun cls hcls => ?_
  refine .askMachine_bind fun kind hkind => ?_
  have hfind : p.machine.find receiver selector = .ok kind :=
    bind_eq_ok_iff.mpr ⟨cls, hcls, hkind⟩
  match kind, hfind with
  | some (.compiled method), hfind => exact spares_activate (by omega)
  | some (.native expected index), hfind =>
    refine .askStack_bind fun arguments harguments => spares_call_finish hsp ?_
    exact hcalls _ (.native hsends hreceiver hfind harguments)
  | none, hfind =>
    refine .askStack_bind fun arguments harguments => spares_call_finish hsp ?_
    exact hcalls _ (.handler hsends hreceiver hfind harguments)

/-- A special selector spares what is above receiver and arguments, likewise. -/
lemma spares_sendSpecial {index : ℕ} (hsp : p.stack.sp + 8 * demand (.sendSpecial index) ≤ base)
    (hcalls : ∀ argumentCount x, Calls host send r p (.sendSpecial index) argumentCount x →
      CallSpares base x p) : Spares base (sendSpecial host send r index) p := by
  unfold sendSpecial
  refine .bind (spares_inlineSpecial hsp) fun inlined q hinline => ?_
  rcases replaced_of_inlineSpecial hinline with ⟨rfl, rfl⟩ | ⟨rfl, -⟩
  · rw [if_neg (by decide)]
    refine .askMachine_bind fun selector hselector => ?_
    cases selector with
    | none => exact .throw _
    | some selector =>
      cases hspecial : SpecialSelector.table[index]? with
      | none => exact .throw _
      | some special =>
        rw [demand_sendSpecial (by rw [hspecial]; rfl)] at hsp
        exact spares_sendMessage (.special hinline (Except.ok.inj hselector) hspecial) hsp
          fun x hx => hcalls _ x hx
  · rw [if_pos rfl]
    exact .pure r

/-! ### Instructions -/

/-- The metadata of a frame that can be read with words popped could be read before. -/
lemma frameMetadata_of_restore {s : Stack} {sp : ℕ} {metadata : FrameMetadata} (hsp : s.sp ≤ sp)
    (h : (s.restore sp s.fp).frameMetadata = .ok metadata) : s.frameMetadata = .ok metadata := by
  obtain ⟨word, hword, h⟩ := bind_eq_ok_iff.mp h
  obtain ⟨address, haddress, hread⟩ := bind_eq_ok_iff.mp hword
  obtain ⟨hlive, hsize, hload⟩ := Stack.read_eq_ok_iff.mp hread
  refine bind_eq_ok_iff.mpr ⟨word, bind_eq_ok_iff.mpr ⟨address, haddress, ?_⟩, h⟩
  exact Stack.read_eq_ok_iff.mpr ⟨hsp.trans hlive, hsize, hload⟩

/-- An instruction spares what is above the words that it takes and above the frame with its
arguments, if the native method or the handler that it calls does. -/
theorem spares_perform (hargs : r.header.argumentCount < 256) (htemps : r.header.tempCount < 256)
    (hoperands : p.stack.sp + 8 * demand instruction ≤ base)
    (hframe : p.stack.fp + 24 + 8 * r.header.argumentCount ≤ base)
    (hmetadata : ∀ metadata, p.stack.frameMetadata = .ok metadata →
      p.stack.fp + 24 + 8 * metadata.argumentCount ≤ base)
    (hcalls : ∀ argumentCount x, Calls host send r p instruction argumentCount x →
      CallSpares base x p) : Spares base (perform host send r instruction) p := by
  have hsp : p.stack.sp ≤ base := by omega
  cases instruction with
  | pushVariable place index => exact spares_push_of hsp spares_load fun _ _ => eq_of_load
  | pushLiteral index =>
    exact spares_push_of hsp (.askHeap _) fun _ _ h => (askHeap_eq_ok_iff.mp h).2
  | pushConstant c => exact spares_push_of hsp spares_constant fun _ _ => eq_of_constant
  | pushInteger n =>
    unfold perform
    dsimp only
    split
    · exact spares_push_pure hsp
    · exact .throw _
  | pushCharacter code => exact spares_push_pure hsp
  | dup => exact spares_push_of hsp (.askStack _) fun _ _ h => (askStack_eq_ok_iff.mp h).2
  | pop => exact .onStack_bind (Stack.spares_drop 1) fun _ _ _ => .pure _
  | nop => exact .pure _
  | «return» value =>
    refine .bind spares_returned fun value q h => spares_returnValue fun metadata hread => ?_
    obtain ⟨-, hstack⟩ := of_returned h
    rw [hstack] at hread ⊢
    exact hmetadata metadata (frameMetadata_of_restore (by omega) hread)
  | sendSpecial index =>
    exact .bind (spares_sendSpecial hoperands hcalls) fun _ _ _ => .pure _
  | send index argumentCount =>
    refine .askHeap_bind fun selector hselector => ?_
    refine .bind ?_ fun _ _ _ => .pure _
    exact spares_sendMessage (.literal hselector) hoperands fun x hx => hcalls _ x hx
  | jump kind distance =>
    unfold perform
    cases kind with
    | always => exact .bind (.pure true) fun taken _ _ => spares_jump
    | ifTrue =>
      refine .onStack_bind Stack.spares_pop fun value _ _ => ?_
      exact .askMachine_bind fun taken _ => spares_jump
    | ifFalse =>
      refine .onStack_bind Stack.spares_pop fun value _ _ => ?_
      exact .askMachine_bind fun taken _ => spares_jump
  | store place index popping =>
    refine .askStack_bind fun value _ => ?_
    refine .bind (spares_storeInto hargs htemps hframe) fun _ q _ => ?_
    cases popping with
    | false => exact .pure _
    | true => exact .onStack_bind (Stack.spares_drop 1) fun _ _ _ => .pure _

end Interpreter

end TalkMachine
