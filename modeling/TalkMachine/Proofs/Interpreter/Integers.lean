import TalkMachine.Proofs.Code.Pushes
import TalkMachine.Proofs.Demo.Outcomes

/-!
# Integers that are pushed

Whatever form an integer is pushed in, what lies on top of the stack behind the push is that
integer (`Interpreter.Generated.goes_integer`). A method whose code consists of pushes, of which the
last one is the push of an integer, and of a return is followed from its first node on
(`Interpreter.Generated.goes_pushes`). It answers the integer, unless the stack has no room for all
the operands, or a variable that is pushed before is not there (`Interpreter.answersInteger`).
-/

namespace TalkMachine

namespace Interpreter

open Execution Code Demo

variable {host : Host} {p : Execution} {m : Machine} {code : Code}
  {method receiver value : Value} {header : MethodHeader} {arguments operands : List Value}
  {a : Activation} {base s : Stack} {P : Demand Unit} {Q : Demand Value} {n : ℤ} {k room : ℕ}
  {instruction : Instruction} {before : List Action}

/-! ### One push -/

/-- Each constant is found when the activation lies on its stack. -/
lemma exists_constant (on : a.On base operands s) (m : Machine) (c : Constant) :
    ∃ value, constant c ⟨m, s⟩ = .ok value ⟨m, s⟩ := by
  cases c with
  | receiver => exact ⟨_, run_askStack_of_ok on.frameReceiver⟩
  | true => exact ⟨m.trueObject, rfl⟩
  | false => exact ⟨m.falseObject, rfl⟩
  | nil => exact ⟨m.nil, rfl⟩
  | thisContext => exact ⟨_, run_askStack_of_ok on.frameContext⟩

namespace Generated

variable (g : Generated m code method header)

/-- A literal is found in the method. -/
lemma literal_eq_ok (hvalue : code.literals[k]? = some value) (s : Stack) (j : ℕ) :
    Interpreter.literal (g.registers j) k ⟨m, s⟩ = .ok value ⟨m, s⟩ :=
  askHeap_eq_ok_iff.mpr ⟨g.literal k value hvalue, rfl⟩

section Push

variable (hnode : code.nodes[k]? = some (.instruction instruction))
  (hfull : base.sp < 8 * (operands.length + header.tempCount + header.argumentCount + 8) →
    ∀ q, P (.error (.stack .overflow) q))
include hnode hfull

/-- Behind an instruction that supplies a value, this value is the operand on top. -/
lemma goes_supply (supplies : instruction.Supplies code.literals value)
    (h : g.Goes host (k + 1) a base (value :: operands) P) : g.Goes host k a base operands P := by
  cases instruction with
  | pushInteger n => exact g.goes_push hnode supplies hfull h
  | pushLiteral index =>
    have hfound : ∀ s, Interpreter.literal (g.registers (k + 1)) index ⟨m, s⟩ =
        .ok value ⟨m, s⟩ := fun s => g.literal_eq_ok supplies s (k + 1)
    refine g.goes_push_of hnode _ (fun _ _ _ _ => rfl)
      (fun s _ _ hq => (askHeap_eq_ok_iff.mp hq).2) (.inl fun s _ => ⟨value, _, hfound s⟩) hfull ?_
    intro s other hother
    obtain ⟨rfl, -⟩ := EStateM.Result.ok.inj ((hfound s).symm.trans hother)
    exact h
  | _ => exact supplies.elim

/-- Behind an instruction that pushes there is one operand more. That the instruction fails is
possible if it is not steady. -/
lemma goes_of_isPush (hpush : instruction.isPush = true)
    (hfails : instruction.IsSteady code.literals.size ∨ ∀ e q, P (.error e q))
    (h : ∀ value, g.Goes host (k + 1) a base (value :: operands) P) :
    g.Goes host k a base operands P := by
  cases instruction with
  | pushVariable place index =>
    exact g.goes_push_of hnode (load (g.registers (k + 1)) place index) (fun _ _ _ _ => rfl)
      (fun _ _ _ => eq_of_load) (.inr (hfails.resolve_left id)) hfull fun _ value _ => h value
  | pushLiteral index =>
    refine g.goes_push_of hnode (Interpreter.literal (g.registers (k + 1)) index)
      (fun _ _ _ _ => rfl) (fun _ _ _ hq => (askHeap_eq_ok_iff.mp hq).2)
      (hfails.imp_left fun hlt s _ => ?_) hfull fun _ value _ => h value
    exact ⟨_, _, g.literal_eq_ok (Array.getElem?_eq_getElem hlt) s (k + 1)⟩
  | pushConstant c =>
    refine g.goes_push_of hnode (constant c) (fun _ _ _ _ => rfl) (fun _ _ _ => eq_of_constant)
      (.inl fun s on => ?_) hfull fun _ value _ => h value
    obtain ⟨value, hvalue⟩ := exists_constant on m c
    exact ⟨value, _, hvalue⟩
  | pushInteger n =>
    cases hvalue : Value.ofInt? n with
    | some value => exact g.goes_push hnode hvalue hfull (h value)
    | none =>
      have hfits := Value.ofInt?_eq_none_iff.mp hvalue
      refine g.goes_push_of hnode (throw (.unrepresentable "SmallInteger")) (fun sender s _ _ => ?_)
        (fun _ _ _ hq => absurd hq (throw_ne_ok _)) (.inr (hfails.resolve_left hfits)) hfull
        fun _ value _ => h value
      simp only [perform, hvalue]
      rfl
  | pushCharacter codePoint =>
    exact g.goes_push_of hnode (pure (Value.ofCodePoint (UInt32.ofNat codePoint)))
      (fun _ _ _ _ => rfl) (fun _ _ _ hq => (pure_eq_ok_iff.mp hq).2)
      (.inl fun _ _ => ⟨_, _, rfl⟩) hfull fun _ value _ => h value
  | dup =>
    refine g.goes_push_of hnode (askStack fun s => s.peek 0) (fun _ _ _ _ => rfl)
      (fun _ _ _ hq => (askStack_eq_ok_iff.mp hq).2) (.inl fun s on => ?_) hfull
      fun _ value _ => h value
    obtain ⟨value, hvalue⟩ := on.exists_peek
    exact ⟨value, _, run_askStack_of_ok hvalue⟩
  | _ => cases hpush

end Push

/-! ### Pushes up to the integer -/

/-- The push of the integer, and the return behind it, where there is room for one operand more. -/
theorem goes_integer (hcode : integerCode before n empty = .ok () code)
    (hfull : base.sp < 8 * (operands.length + header.tempCount + header.argumentCount + 8) →
      ∀ q, P (.error (.stack .overflow) q))
    (hreturns : 8 * (operands.length + header.tempCount + header.argumentCount + 8) ≤ base.sp →
      Returns host m a base P (Value.ofInt n)) :
    g.Goes host (built before).nodes.size a base operands P := by
  obtain ⟨i, supplies, hpush, hreturn⟩ := getElem?_nodes_integerCode hcode
  refine g.goes_supply hpush hfull supplies ?_
  rcases Nat.lt_or_ge base.sp
    (8 * (operands.length + header.tempCount + header.argumentCount + 8)) with hlt | hge
  · refine g.goes_of_lt ?_
    rw [List.length_cons]
    omega
  · exact g.goes_return hreturn (hreturns hge)

/-- Pushes lead to what is behind them, with one operand for each. -/
lemma goes_pushes (count : ℕ)
    (hpushes : ∀ j < count, ∃ i, code.nodes[j]? = some (.instruction i) ∧
      i.isPush = true ∧ (i.IsSteady code.literals.size ∨ ∀ e q, P (.error e q)))
    (hfull : base.sp < room → ∀ q, P (.error (.stack .overflow) q))
    (hroom : 8 * (count + header.tempCount + header.argumentCount + 7) ≤ room)
    (h : ∀ operands : List Value, operands.length = count → g.Goes host count a base operands P) :
    g.Goes host 0 a base [] P := by
  suffices hfrom : ∀ k ≤ count, ∀ operands : List Value, operands.length = k →
      g.Goes host k a base operands P from hfrom 0 (Nat.zero_le _) [] rfl
  intro k hle
  -- The induction goes back from the last push; there are as many operands as pushes have gone by.
  induction hle using Nat.decreasingInduction with
  | self => exact h
  | of_succ k hlt ih =>
    rintro operands rfl
    obtain ⟨i, hnode, hpush, hfails⟩ := hpushes _ hlt
    exact g.goes_of_isPush hnode (overflow_of_room hfull (by omega)) hpush hfails
      fun value => ih (value :: operands) rfl

end Generated

/-! ### The method as a whole -/

/-- What comes of a method that pushes values, and behind them an integer that it returns. -/
structure IntegerOutcome (x : ℕ → ExecutionM Value) (p : Execution) (n : ℤ) (room : ℕ)
    (steady : Prop) : Prop where
  settles : Settles x p fun outcome =>
    Answered p (Value.ofInt n) outcome ∨ Failed p (fun _ => True) outcome
  answered : steady → room ≤ p.stack.sp → Settles x p (Answered p (Value.ofInt n))
  overflow : steady → p.stack.sp < room → Settles x p (Failed p Overflowed)

/-- The bytes that the operands of such a method take on the stack, with its frame and with what the
caller pushes. -/
def integerRoom (before : List Action) (argumentCount tempCount : ℕ) : ℕ :=
  8 * ((built before).nodes.size + tempCount + argumentCount + 8)

/-- Such a method settles as its return does, as long as there is room and no push fails. -/
lemma settles_integer (g : Generated p.machine code method header)
    (hcode : integerCode before n empty = .ok () code)
    (hpush : ∀ action ∈ before, action.isPush = true)
    (hcount : header.argumentCount = arguments.length) (hlive : p.stack.sp ≤ p.stack.size)
    (hsize : p.stack.size < 2 ^ 64)
    (hfull : p.stack.sp < integerRoom before header.argumentCount header.tempCount →
      ∀ q, Q (leave p (.error (.stack .overflow) q : EStateM.Result MachineError Execution Unit)))
    (hfails : (∀ action ∈ before, action.isSteady = true) ∨
      ∀ e q, Q (leave p (.error e q : EStateM.Result MachineError Execution Unit)))
    (hreturns : integerRoom before header.argumentCount header.tempCount ≤ p.stack.sp →
      Returns host p.machine (.entered p.machine method header receiver arguments p.stack.fp 0)
        p.stack (fun outcome => Q (leave p outcome)) (Value.ofInt n)) :
    Settles (fun steps => execute host steps method receiver arguments) p Q := by
  rw [integerRoom] at hfull hreturns
  refine g.settles_execute hcount hlive hsize (fun hlt => hfull (by omega)) ?_
  refine g.goes_pushes (built before).nodes.size (fun j hj => ?_) hfull (by omega) ?_
  · obtain ⟨i, hnode, hisPush, hsteady⟩ := exists_push_of_integerCode hcode hpush hj
    exact ⟨i, hnode, hisPush, hfails.imp_left hsteady⟩
  · rintro operands hlength
    refine g.goes_integer hcode (fun hlt => hfull (by omega)) fun hroom => hreturns (by omega)

/-- These are all outcomes of such a method. -/
lemma integerOutcome (g : Generated p.machine code method header)
    (hcode : integerCode before n empty = .ok () code)
    (hpush : ∀ action ∈ before, action.isPush = true)
    (hcount : header.argumentCount = arguments.length) (hlive : p.stack.sp ≤ p.stack.size)
    (hsize : p.stack.size < 2 ^ 64) (hfp : p.stack.fp < 2 ^ 64) :
    IntegerOutcome (fun steps => execute host steps method receiver arguments) p n
      (integerRoom before header.argumentCount header.tempCount)
      (∀ action ∈ before, action.isSteady = true) := by
  constructor
  · refine settles_integer g hcode hpush hcount hlive hsize
      (fun _ q => .inr (failed_leave trivial q)) (.inr fun e q => .inr (failed_leave trivial q)) ?_
    exact fun _ => returns_outside (Q := fun outcome =>
        Answered p (Value.ofInt n) outcome ∨ Failed p (fun _ => True) outcome) hfp
      fun s htopped hfp' => .inl ⟨s, rfl, htopped.sp, hfp', htopped.same⟩
  · intro hsteady hroom
    exact settles_integer g hcode hpush hcount hlive hsize (fun hlt => by omega) (.inl hsteady)
      fun _ => returns_answered hfp _
  · intro hsteady hlt
    exact settles_integer g hcode hpush hcount hlive hsize
      (fun _ q => failed_leave overflowed_stack q) (.inl hsteady) fun hroom => by omega

/-- What is known of a method that was built by a construction that ends with an integer that is
pushed and returned. Whatever steps came before, a run that comes to the push returns the integer,
if there is room for it. If the steps before push or look for literals only, every execution of the
method comes to the push, unless it fails. -/
structure AnswersInteger (m : Machine) (before : List Action) (n : ℤ) (argumentCount tempCount : ℕ)
    (method : Value) : Prop where
  reached : ∃ code, integerCode before n empty = .ok () code ∧
    ∃ g : Generated m code method ⟨code.literals.size, tempCount, argumentCount⟩,
      ∀ host a base operands P,
        (base.sp < 8 * (operands.length + tempCount + argumentCount + 8) →
          ∀ q, P (.error (.stack .overflow) q)) →
        (8 * (operands.length + tempCount + argumentCount + 8) ≤ base.sp →
          Returns host m a base P (Value.ofInt n)) →
        g.Goes host (built before).nodes.size a base operands P
  executed : (∀ action ∈ before, action.isPush = true) → ∀ host s receiver arguments,
    arguments.length = argumentCount → s.sp ≤ s.size → s.size < 2 ^ 64 → s.fp < 2 ^ 64 →
      IntegerOutcome (fun steps => execute host steps method receiver arguments) ⟨m, s⟩ n
        (integerRoom before argumentCount tempCount) (∀ action ∈ before, action.isSteady = true)

/-- To push an integer that is no small integer is refused with the integer as the operand, and
leaves the code as it was. To push a small integer is refused only where it does not fit the
extensions and there is no room for it among the literals. When it is pushed behind other pushes and
returned, the code can be assembled if each of these can be written and they are not too long; and
whatever steps came before, a method that is built answers the integer. -/
theorem answersInteger (n : ℤ) :
    (¬Value.fitsSmallInteger n = true →
      ∀ code, pushInteger n code = .error (.operandOutOfRange n) code) ∧
    (Value.fitsSmallInteger n = true → ∀ before,
      ((∃ code, integerCode before n empty = .ok () code) ∨
        ¬(-2 ^ 31 ≤ n ∧ n < 2 ^ 31) ∧ (built before).IsFullFor (Value.ofInt n)) ∧
      (∀ code sizes, integerCode before n empty = .ok () code →
        (∀ action ∈ before, action.isPush = true) →
        (built before).nodes.mapM Node.maxSize = .ok sizes → sizes.sum + 9 < 2 ^ 31 →
          ∃ bytes, code.assemble = .ok bytes) ∧
      ∀ argumentCount tempCount method m,
        IsBuilt (integerCode before n) argumentCount tempCount method m →
          AnswersInteger m before n argumentCount tempCount method) := by
  constructor
  · intro hn code
    rcases pushInteger_cases n code with ⟨-, herror⟩ | ⟨hfits, -⟩ | ⟨hfits, -⟩
    · exact herror
    · exact absurd hfits hn
    · exact absurd hfits hn
  · intro hn before
    refine ⟨?_, fun code sizes hcode hpush hsizes hsum =>
      exists_assemble_integerCode hpush hcode hsizes hsum, ?_⟩
    · rcases pushInteger_cases n (built before) with ⟨hnot, -⟩ | ⟨-, hlong, hfull, -⟩ |
        ⟨-, _, _, hok, -⟩
      · exact absurd hn hnot
      · exact .inr ⟨hlong, hfull⟩
      · exact .inl ⟨_, (integerCode_empty before n).trans ((run_bind_of_ok hok).trans rfl)⟩
    · intro argumentCount tempCount method m hbuilt
      obtain ⟨m₀, m₁, -, hbuild, -⟩ := id hbuilt
      obtain ⟨code, hcode, -⟩ := IsBuilt.exists_generate hbuild
      obtain ⟨g⟩ := hbuilt.exists_generated hcode
      refine ⟨⟨code, hcode, g, fun host a base operands P => g.goes_integer hcode⟩, ?_⟩
      rintro hpush host s receiver arguments rfl hlive hsize hfp
      exact integerOutcome (p := ⟨m, s⟩) g hcode hpush rfl hlive hsize hfp

/-- Two pushes: of a literal, and of what is on top. -/
def sampleBefore : List Action :=
  [.pushLiteral (Value.ofInt 7), .emit .dup]

/-- The sample of the demonstration with a method behind all else that returns 2 ^ 40. -/
def integerSample : Execution where
  machine := stateAfter (Machine.build (integerCode sampleBefore (2 ^ 40)) 0 0 bareSample)
  stack := Stack.new 1024

/-- The number 2 ^ 62 is refused. The number 2 ^ 40, which is the second literal of its method, is
answered. -/
theorem answersInteger_sample :
    pushInteger (2 ^ 62) empty = .error (.operandOutOfRange (2 ^ 62)) empty ∧
    (∃ code bytes, integerCode sampleBefore (2 ^ 40) empty = .ok () code ∧
      code.assemble = .ok bytes) ∧
    IsBuilt (integerCode sampleBefore (2 ^ 40)) 0 0 (Value.ofAddress 280) integerSample.machine ∧
    Settles (fun steps =>
      execute Host.none steps (Value.ofAddress 280) (Value.ofInt 3) []) integerSample
      (Answered integerSample (Value.ofInt (2 ^ 40))) := by
  have hn : Value.fitsSmallInteger (2 ^ 40) = true := by decide
  have hpush : ∀ action ∈ sampleBefore, action.isPush = true := by
    simp [sampleBefore, Action.isPush, Instruction.isPush]
  have hsteady : ∀ action ∈ sampleBefore, action.isSteady = true := by
    simp [sampleBefore, Action.isSteady]
  have built : IsBuilt (integerCode sampleBefore (2 ^ 40)) 0 0 (Value.ofAddress 280)
      integerSample.machine :=
    ⟨bareSample, _, ⟨by decide, by decide, by decide⟩, eq_ok_of_answer? (by decide +kernel),
      .refl _ _⟩
  obtain ⟨-, hanswers⟩ := answersInteger (2 ^ 40)
  obtain ⟨-, hassembles, hexecutes⟩ := hanswers hn sampleBefore
  obtain ⟨⟨code, hcode, -⟩, hexecuted⟩ := hexecutes 0 0 _ _ built
  have houtcome := hexecuted hpush Host.none integerSample.stack (Value.ofInt 3) [] rfl
    (by decide +kernel) (by decide +kernel) (by decide +kernel)
  refine ⟨(answersInteger (2 ^ 62)).1 (by decide) empty, ?_, built, ?_⟩
  · obtain ⟨bytes, hbytes⟩ := hassembles code #[1, 1] hcode hpush (by decide +kernel) (by decide)
    exact ⟨code, bytes, hcode, hbytes⟩
  · exact houtcome.answered hsteady (by decide +kernel)

end Interpreter

end TalkMachine
