import TalkMachine.Proofs.Interpreter.Sends

/-!
# What an instruction does to its frame

Every instruction has a demand, the number of operands that it takes from the stack
(`Interpreter.demand`). An instruction that neither sends nor returns goes on in the same method; it
pushes a word, drops at most its demand, or stores into a variable (`Interpreter.Effect`).

Such an instruction keeps the frame, as long as its demand is met by the operands of the frame
(`Interpreter.Effect.keepsFrame`): it changes operands, temporaries and arguments only. Unless it
stores into an object it also leaves the machine as it was (`Interpreter.Effect.machine`).
-/

namespace TalkMachine

namespace Interpreter

open Execution

variable {host : Host} {send : Sender} {r r' : Registers} {p p' q : Execution}
  {instruction : Instruction} {s s' s'' : Stack}

/-! ### Operands -/

/-- The number of words that an instruction pops or peeks from the operands of its frame. -/
def demand : Instruction → ℕ
  | .dup => 1
  | .pop => 1
  | .return .top => 1
  | .store _ _ _ => 1
  | .jump .ifTrue _ => 1
  | .jump .ifFalse _ => 1
  | .send _ argumentCount => argumentCount + 1
  | .sendSpecial index =>
    match SpecialSelector.table[index]? with
    | some special => special.argumentCount + 1
    | none => 0
  | _ => 0

/-- The number of words that a frame has on its own operand stack, below its temporaries. -/
def operandCount (r : Registers) (s : Stack) : ℕ :=
  (s.fp - (32 + 8 * r.header.tempCount) - s.sp) / 8

/-- A send takes the receiver and the arguments. -/
lemma demand_of_sentCount? {argumentCount : ℕ} (h : sentCount? instruction = some argumentCount) :
    demand instruction = argumentCount + 1 := by
  cases instruction <;> try cases h
  case sendSpecial index =>
    simp only [sentCount?, Option.map_eq_some_iff] at h
    obtain ⟨special, hspecial, rfl⟩ := h
    simp [demand, hspecial]
  case send => rfl

/-! ### Changes in a frame -/

/-- The frame is the same, and the stack pointer is not above the temporaries. -/
structure KeepsFrame (header : MethodHeader) (s s' : Stack) : Prop where
  same : Stack.SameFrame header.argumentCount s s'
  room : s'.sp + 32 + 8 * header.tempCount ≤ s.fp

namespace KeepsFrame

variable {header : MethodHeader}

/-- Nothing changes. -/
lemma refl (hroom : s.sp + 32 + 8 * header.tempCount ≤ s.fp) : KeepsFrame header s s :=
  ⟨.refl _ _, hroom⟩

/-- Two changes that keep the frame keep it together. -/
lemma trans (h : KeepsFrame header s s') (h' : KeepsFrame header s' s'') :
    KeepsFrame header s s'' :=
  ⟨h.same.trans h'.same, by rw [← h.same.fp]; exact h'.room⟩

/-- A push keeps the frame. -/
lemma push {word : UInt64} (h : Stack.pushWord word s = .ok () s')
    (hroom : s.sp + 32 + 8 * header.tempCount ≤ s.fp) : KeepsFrame header s s' := by
  have hpush := Stack.pushed_of_pushWord h
  have hsp := hpush.sp
  exact ⟨.push hpush (by omega), by omega⟩

/-- Operands that are there can be dropped. -/
lemma restore {sp : ℕ} (hroom : sp + 32 + 8 * header.tempCount ≤ s.fp) :
    KeepsFrame header s (s.restore sp s.fp) :=
  ⟨.restore _ s sp, hroom⟩

end KeepsFrame

/-! ### Parts of an instruction -/

/-- Loading the value of a variable changes nothing. -/
lemma eq_of_load {place : Place} {index : ℕ} {value : Value}
    (h : load r place index p = .ok value p') : p = p' := by
  cases place with
  | receiverField =>
    obtain ⟨receiver, -, h⟩ := askStack_bind_eq_ok_iff.mp h
    exact (askHeap_eq_ok_iff.mp h).2
  | literalBinding =>
    obtain ⟨association, -, h⟩ := askHeap_bind_eq_ok_iff.mp h
    exact (askHeap_eq_ok_iff.mp h).2
  | temporary =>
    obtain ⟨address, -, h⟩ := askStack_bind_eq_ok_iff.mp h
    exact (askStack_eq_ok_iff.mp h).2

/-- The value of a constant is known without a change. -/
lemma eq_of_constant {c : Constant} {value : Value} (h : constant c p = .ok value p') : p = p' := by
  unfold constant at h
  cases c with
  | receiver => exact (askStack_eq_ok_iff.mp h).2
  | true => exact (askMachine_eq_ok_iff.mp h).2
  | false => exact (askMachine_eq_ok_iff.mp h).2
  | nil => exact (askMachine_eq_ok_iff.mp h).2
  | thisContext => exact (askStack_eq_ok_iff.mp h).2

/-- The returned value is known without a change, or popped. -/
lemma of_returned {returnValue : ReturnValue} {value : Value}
    (h : returned returnValue p = .ok value p') :
    p'.machine = p.machine ∧
      p'.stack = p.stack.restore (p.stack.sp + 8 * demand (.return returnValue)) p.stack.fp := by
  unfold returned at h
  cases returnValue with
  | receiver =>
    obtain rfl := (askStack_eq_ok_iff.mp h).2
    exact ⟨rfl, rfl⟩
  | true =>
    obtain rfl := (askMachine_eq_ok_iff.mp h).2
    exact ⟨rfl, rfl⟩
  | false =>
    obtain rfl := (askMachine_eq_ok_iff.mp h).2
    exact ⟨rfl, rfl⟩
  | nil =>
    obtain rfl := (askMachine_eq_ok_iff.mp h).2
    exact ⟨rfl, rfl⟩
  | top =>
    obtain ⟨hpop, hmachine⟩ := onStack_eq_ok_iff.mp h
    exact ⟨hmachine, (Stack.pop_eq_ok_iff.mp hpop).2.2⟩

/-- Storing into a variable keeps the frame. -/
lemma keepsFrame_of_storeInto {place : Place} {index : ℕ} {value : Value}
    (hargs : r.header.argumentCount < 256) (htemps : r.header.tempCount < 256)
    (hroom : p.stack.sp + 32 + 8 * r.header.tempCount ≤ p.stack.fp)
    (h : storeInto r place index value p = .ok () p') :
    KeepsFrame r.header p.stack p'.stack ∧ p'.stack.sp = p.stack.sp := by
  cases place with
  | receiverField =>
    obtain ⟨receiver, -, h⟩ := askStack_bind_eq_ok_iff.mp h
    rw [(onMachine_eq_ok_iff.mp h).2]
    exact ⟨.refl hroom, rfl⟩
  | literalBinding =>
    obtain ⟨association, -, h⟩ := askHeap_bind_eq_ok_iff.mp h
    rw [(onMachine_eq_ok_iff.mp h).2]
    exact ⟨.refl hroom, rfl⟩
  | temporary =>
    obtain ⟨address, haddress, h⟩ := askStack_bind_eq_ok_iff.mp h
    obtain ⟨-, hfits, hwrite⟩ := Stack.write_eq_ok_iff.mp (onStack_eq_ok_iff.mp h).1
    have hsp := Stack.sp_writeWord p.stack address value.raw
    have hsame := Stack.SameFrame.writeWord hargs htemps haddress hfits value.raw
    rw [← hwrite] at hsp hsame
    exact ⟨⟨hsame, by omega⟩, hsp⟩

/-! ### One instruction -/

/-- What an instruction that neither sends nor returns does. -/
inductive Effect (r : Registers) (p : Execution) : Instruction → Execution → Prop
  /-- It pushes a word. -/
  | push {instruction : Instruction} {word : UInt64} {s' : Stack}
      (hpush : Stack.pushWord word p.stack = .ok () s') : Effect r p instruction ⟨p.machine, s'⟩
  /-- It drops at most its demand. -/
  | drop {instruction : Instruction} (count : ℕ) (hcount : count ≤ demand instruction) :
      Effect r p instruction
        ⟨p.machine, p.stack.restore (p.stack.sp + 8 * count) p.stack.fp⟩
  /-- It stores into a variable, and drops at most one word. -/
  | store {place : Place} {index : ℕ} {popping : Bool} {value : Value} {q : Execution} (count : ℕ)
      (hstore : storeInto r place index value p = .ok () q) (hcount : count ≤ 1) :
      Effect r p (.store place index popping)
        ⟨q.machine, q.stack.restore (q.stack.sp + 8 * count) q.stack.fp⟩

/-- A value that is found without a change and pushed. -/
lemma effect_of_push {x : ExecutionM Value} {o : Option Registers}
    (hx : ∀ value q, x p = .ok value q → p = q)
    (h : (do push (← x); return some r) p = .ok o p') :
    o = some r ∧ Effect r p instruction p' := by
  obtain ⟨value, q, hvalue, h⟩ := run_bind_eq_ok_iff.mp h
  obtain rfl := hx value q hvalue
  obtain ⟨_, s₁, hpush, h⟩ := onStack_bind_eq_ok_iff.mp h
  obtain ⟨rfl, rfl⟩ := pure_eq_ok_iff.mp h
  exact ⟨rfl, .push hpush⟩

/-- Going on at the end of a jump, or behind it, changes nothing. -/
lemma of_jump {distance : ℤ} {taken : Bool} {o : Option Registers}
    (h : (if taken then do
        return some { r with pc := ← ask fun _ => jumpTarget r.pc distance }
      else return some r : ExecutionM (Option Registers)) p = .ok o p') :
    p = p' ∧ ∃ pc, o = some { r with pc := pc } := by
  cases taken with
  | true =>
    obtain ⟨target, -, h⟩ := ask_bind_eq_ok_iff.mp h
    obtain ⟨rfl, rfl⟩ := pure_eq_ok_iff.mp h
    exact ⟨rfl, target, rfl⟩
  | false =>
    obtain ⟨rfl, rfl⟩ := pure_eq_ok_iff.mp h
    exact ⟨rfl, r.pc, rfl⟩

/-- An instruction that neither sends nor returns goes on in its method. -/
theorem effect_of_perform {o : Option Registers} (hreturn : ∀ value, instruction ≠ .return value)
    (hsend : ¬IsSend instruction) (h : perform host send r instruction p = .ok o p') :
    ∃ pc, o = some { r with pc := pc } ∧ Effect r p instruction p' := by
  cases instruction with
  | pushVariable place index => exact ⟨r.pc, effect_of_push (fun _ _ => eq_of_load) h⟩
  | pushLiteral index =>
    exact ⟨r.pc, effect_of_push (fun _ _ hl => (askHeap_eq_ok_iff.mp hl).2) h⟩
  | pushConstant c => exact ⟨r.pc, effect_of_push (fun _ _ => eq_of_constant) h⟩
  | pushInteger n =>
    unfold perform at h
    cases hvalue : Value.ofInt? n with
    | none =>
      simp only [hvalue] at h
      exact absurd h (throw_ne_ok _)
    | some value =>
      simp only [hvalue] at h
      obtain ⟨_, s₁, hpush, h⟩ := onStack_bind_eq_ok_iff.mp h
      obtain ⟨rfl, rfl⟩ := pure_eq_ok_iff.mp h
      exact ⟨r.pc, rfl, .push hpush⟩
  | pushCharacter code =>
    unfold perform at h
    obtain ⟨_, s₁, hpush, h⟩ := onStack_bind_eq_ok_iff.mp h
    obtain ⟨rfl, rfl⟩ := pure_eq_ok_iff.mp h
    exact ⟨r.pc, rfl, .push hpush⟩
  | dup => exact ⟨r.pc, effect_of_push (fun _ _ hpeek => (askStack_eq_ok_iff.mp hpeek).2) h⟩
  | pop =>
    unfold perform at h
    obtain ⟨_, s₁, hdrop, h⟩ := onStack_bind_eq_ok_iff.mp h
    obtain ⟨rfl, rfl⟩ := pure_eq_ok_iff.mp h
    obtain ⟨-, rfl⟩ := Stack.drop_eq_ok_iff.mp hdrop
    exact ⟨r.pc, rfl, .drop 1 le_rfl⟩
  | nop =>
    unfold perform at h
    obtain ⟨rfl, rfl⟩ := pure_eq_ok_iff.mp h
    exact ⟨r.pc, rfl, .drop 0 le_rfl⟩
  | «return» value => exact absurd rfl (hreturn value)
  | sendSpecial index => exact absurd trivial hsend
  | send index argumentCount => exact absurd trivial hsend
  | jump kind distance =>
    unfold perform at h
    cases kind with
    | always =>
      obtain ⟨taken, _, htaken, h⟩ := run_bind_eq_ok_iff.mp h
      obtain ⟨-, rfl⟩ := pure_eq_ok_iff.mp htaken
      obtain ⟨rfl, pc, rfl⟩ := of_jump h
      exact ⟨pc, rfl, .drop 0 le_rfl⟩
    | ifTrue =>
      obtain ⟨value, s₁, hpop, h⟩ := onStack_bind_eq_ok_iff.mp h
      obtain ⟨taken, -, h⟩ := askMachine_bind_eq_ok_iff.mp h
      obtain ⟨rfl, pc, rfl⟩ := of_jump h
      obtain ⟨-, -, rfl⟩ := Stack.pop_eq_ok_iff.mp hpop
      exact ⟨pc, rfl, .drop 1 le_rfl⟩
    | ifFalse =>
      obtain ⟨value, s₁, hpop, h⟩ := onStack_bind_eq_ok_iff.mp h
      obtain ⟨taken, -, h⟩ := askMachine_bind_eq_ok_iff.mp h
      obtain ⟨rfl, pc, rfl⟩ := of_jump h
      obtain ⟨-, -, rfl⟩ := Stack.pop_eq_ok_iff.mp hpop
      exact ⟨pc, rfl, .drop 1 le_rfl⟩
  | store place index popping =>
    unfold perform at h
    obtain ⟨value, -, h⟩ := askStack_bind_eq_ok_iff.mp h
    obtain ⟨_, q, hstore, h⟩ := run_bind_eq_ok_iff.mp h
    cases popping with
    | false =>
      obtain ⟨rfl, rfl⟩ := pure_eq_ok_iff.mp h
      exact ⟨r.pc, rfl, .store 0 hstore (by omega)⟩
    | true =>
      obtain ⟨_, s₁, hdrop, h⟩ := onStack_bind_eq_ok_iff.mp h
      obtain ⟨rfl, rfl⟩ := pure_eq_ok_iff.mp h
      obtain ⟨-, rfl⟩ := Stack.drop_eq_ok_iff.mp hdrop
      exact ⟨r.pc, rfl, .store 1 hstore le_rfl⟩

namespace Effect

/-- An instruction keeps its frame if the frame has the operands that it demands. -/
theorem keepsFrame (effect : Effect r p instruction p') (hargs : r.header.argumentCount < 256)
    (htemps : r.header.tempCount < 256)
    (hroom : p.stack.sp + 8 * demand instruction + 32 + 8 * r.header.tempCount ≤ p.stack.fp) :
    KeepsFrame r.header p.stack p'.stack := by
  cases effect with
  | push hpush => exact .push hpush (by omega)
  | drop count hcount => exact .restore (by omega)
  | store count hstore hcount =>
    obtain ⟨hkeeps, hsp⟩ := keepsFrame_of_storeInto hargs htemps (by omega) hstore
    refine hkeeps.trans (.restore ?_)
    rw [hsp, hkeeps.same.fp]
    simp only [demand] at hroom
    omega

/-- An instruction leaves the machine as it was if it stores into temporaries at most. -/
theorem machine (effect : Effect r p instruction p')
    (hstore : ∀ place index popping, instruction = .store place index popping →
      place = .temporary) : p'.machine = p.machine := by
  cases effect with
  | push hpush => rfl
  | drop count hcount => rfl
  | store count hinto hcount =>
    obtain rfl := hstore _ _ _ rfl
    obtain ⟨address, -, hwrite⟩ := askStack_bind_eq_ok_iff.mp hinto
    exact (onStack_eq_ok_iff.mp hwrite).2

end Effect

end Interpreter

end TalkMachine
