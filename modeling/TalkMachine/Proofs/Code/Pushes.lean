import TalkMachine.Proofs.Code.EmptyJump
import TalkMachine.Proofs.Code.MethodObject
import TalkMachine.Proofs.Code.Shortest

/-!
# Code that pushes

An integer is pushed in one of three forms: as a byte of its own, as an operand with extensions, or
as a literal (`Code.pushInteger_cases`). Which one it is depends on the integer and on the literals
that are there; what is put at the end is in each case an instruction that supplies the integer
(`Instruction.Supplies`), as long as it is a small integer.

Steps of construction that push or look for literals only leave code that consists of pushes
(`Code.pushes_built`). It can be assembled when each instruction has an encoding, and so it can with
an integer pushed and returned behind it (`Code.exists_assemble_integerCode`).
-/

namespace TalkMachine

/-! ### Instructions that push -/

namespace Instruction

/-- Whether an instruction does nothing but push a value. -/
def isPush : Instruction → Bool
  | pushVariable _ _ | pushLiteral _ | pushConstant _ => true
  | pushInteger _ | pushCharacter _ | dup => true
  | _ => false

/-- Whether an instruction has a value to push whatever is in the variables. -/
def IsSteady (literalCount : ℕ) : Instruction → Prop
  | pushLiteral index => index < literalCount
  | pushInteger n => Value.fitsSmallInteger n = true
  | pushConstant _ | pushCharacter _ | dup => True
  | _ => False

/-- Whether an instruction pushes this value, from its operand or from the literals. -/
def Supplies (literals : Array Value) (value : Value) : Instruction → Prop
  | pushInteger n => Value.ofInt? n = some value
  | pushLiteral index => literals[index]? = some value
  | _ => False

variable {literals : Array Value} {value : Value} {i : Instruction}

/-- What supplies a value pushes it. -/
lemma Supplies.isPush (h : i.Supplies literals value) : i.isPush = true := by
  cases i <;> first | rfl | exact h.elim

/-- What supplies a value does so whatever is in the variables. -/
lemma Supplies.isSteady (h : i.Supplies literals value) : i.IsSteady literals.size := by
  cases i with
  | pushLiteral index => exact (Array.getElem?_eq_some_iff.mp h).1
  | pushInteger n => exact (Value.toInt?_eq_some_iff.mp (Value.ofInt?_eq_some_iff.mp h)).1
  | _ => exact h.elim

/-- What is pushed from a literal can be written, as there are few enough of them. -/
lemma encodesWithin_pushLiteral {index : ℕ} (h : index < Code.maxLiterals) :
    (pushLiteral index).EncodesWithin 8 := by
  refine Op.exists_indexed (some .pushLiteralConstant) .longPushLiteralConstant (a := maxExtensions)
    ?_ (Nat.le_refl _)
  rw [Code.maxLiterals] at h
  rw [unsignedWidth_le_iff, maxExtensions]
  omega

/-- More literals make no difference. -/
lemma IsSteady.mono {count count' : ℕ} (h : i.IsSteady count) (hle : count ≤ count') :
    i.IsSteady count' := by
  cases i with
  | pushLiteral index => exact Nat.lt_of_lt_of_le h hle
  | _ => exact h

end Instruction

namespace Code

variable {code : Code} {value : Value} {n : ℤ} {before : List Action}

/-! ### Literals and integers -/

/-- Whether there is no room among the literals for a value that is not there. -/
def IsFullFor (value : Value) (code : Code) : Prop :=
  value ∉ code.literals ∧ maxLiterals ≤ code.literals.size

/-- An instruction with a literal is put at the end, unless there is no room for the literal. -/
lemma emit_literal_cases (value : Value) (f : ℕ → Instruction) (code : Code) :
    (∃ index code', (do emit (f (← literal value))) code = .ok () code' ∧
      code'.nodes = code.nodes.push (.instruction (f index)) ∧
      code'.literals[index]? = some value) ∨
    (code.IsFullFor value ∧ (do emit (f (← literal value))) code =
      .error (.tooManyLiterals (code.literals.size + 1)) code) := by
  cases hliteral : literal value code with
  | ok index code' =>
    have hfound := (literals_of_literal hliteral).1
    rcases literal_keeps value code with ⟨_, _, hok, -, hnodes⟩ | ⟨e, herror⟩
    · obtain ⟨rfl, rfl⟩ := EStateM.Result.ok.inj (hok.symm.trans hliteral)
      refine .inl ⟨_, _, run_bind_of_ok hliteral, ?_, hfound⟩
      exact congrArg (Array.push · _) hnodes
    · rw [hliteral] at herror
      cases herror
  | error e code' =>
    refine .inr ?_
    rw [run_bind_of_error hliteral]
    unfold literal at hliteral
    split at hliteral
    · cases hliteral
    · next hnone =>
      split at hliteral
      · next hfull =>
        obtain ⟨rfl, rfl⟩ := EStateM.Result.error.inj hliteral
        refine ⟨⟨fun hmem => ?_, hfull⟩, rfl⟩
        exact absurd (Array.findIdx?_eq_none_iff.mp hnone value hmem) (by simp)
      · cases hliteral

/-- Such an instruction is the only node that comes of it, if any does. -/
lemma nodes_emit_literal (value : Value) (f : ℕ → Instruction) (code : Code) :
    (stateAfter ((do emit (f (← literal value))) code)).nodes = code.nodes ∨
      ∃ index < (stateAfter ((do emit (f (← literal value))) code)).literals.size,
        (stateAfter ((do emit (f (← literal value))) code)).nodes =
          code.nodes.push (.instruction (f index)) := by
  rcases emit_literal_cases value f code with ⟨index, code', hok, hnodes, hfound⟩ | ⟨-, herror⟩
  · rw [hok]
    exact .inr ⟨index, (Array.getElem?_eq_some_iff.mp hfound).1, hnodes⟩
  · rw [herror]
    exact .inl rfl

/-- Three extensions carry the integers of 32 bits. -/
lemma signedWidth_div_le_maxExtensions_iff :
    signedWidth (n / 256) ≤ maxExtensions ↔ -2 ^ 31 ≤ n ∧ n < 2 ^ 31 := by
  rw [signedWidth_le_iff, maxExtensions]
  omega

/-- To push an integer is refused if it is no small integer, or if it does not fit the extensions
and there is no room for it among the literals. Else an instruction is put at the end that supplies
it and that can be written. -/
theorem pushInteger_cases (n : ℤ) (code : Code) :
    (¬Value.fitsSmallInteger n = true ∧
      pushInteger n code = .error (.operandOutOfRange n) code) ∨
    (Value.fitsSmallInteger n = true ∧ ¬(-2 ^ 31 ≤ n ∧ n < 2 ^ 31) ∧
      code.IsFullFor (Value.ofInt n) ∧
      pushInteger n code = .error (.tooManyLiterals (code.literals.size + 1)) code) ∨
    (Value.fitsSmallInteger n = true ∧ ∃ i code', pushInteger n code = .ok () code' ∧
      code'.nodes = code.nodes.push (.instruction i) ∧
      i.Supplies code'.literals (Value.ofInt n) ∧
      (code'.literals.size ≤ maxLiterals → i.EncodesWithin 8)) := by
  have hrange := signedWidth_div_le_maxExtensions_iff (n := n)
  unfold pushInteger
  split
  · next hinline =>
    have hn : Value.fitsSmallInteger n = true := by
      have hbounds := hrange.mp hinline
      rw [Value.fitsSmallInteger_iff]
      omega
    refine .inr (.inr ⟨hn, .pushInteger n, _, rfl, rfl, ?_, fun _ => ?_⟩)
    · exact Value.ofInt?_eq_some_iff.mpr (Value.toInt?_ofInt hn)
    · exact Instruction.encodesWithin_pushInteger hinline (Nat.le_refl _)
  · next hlong =>
    by_cases hn : Value.fitsSmallInteger n = true
    · have hvalue : Value.ofInt? n = some (Value.ofInt n) :=
        Value.ofInt?_eq_some_iff.mpr (Value.toInt?_ofInt hn)
      simp only [hvalue]
      rcases emit_literal_cases (Value.ofInt n) .pushLiteral code with
        ⟨index, code', hok, hnodes, hfound⟩ | ⟨hfull, herror⟩
      · refine .inr (.inr ⟨hn, .pushLiteral index, code', hok, hnodes, hfound, fun hle => ?_⟩)
        exact Instruction.encodesWithin_pushLiteral
          ((Array.getElem?_eq_some_iff.mp hfound).1.trans_le hle)
      · exact .inr (.inl ⟨hn, fun h => hlong (hrange.mpr h), hfull, herror⟩)
    · simp only [Value.ofInt?_eq_none_iff.mpr hn]
      exact .inl ⟨hn, rfl⟩

/-! ### Steps that push -/

/-- Whether a step of construction pushes a value, or looks for a literal only. -/
def Action.isPush : Action → Bool
  | .emit i => i.isPush
  | .literal _ | .pushLiteral _ | .pushBinding _ | .pushInteger _ => true
  | _ => false

/-- Whether a step of construction pushes a value that is there whatever is in the variables, or
looks for a literal only. -/
def Action.isSteady : Action → Bool
  | .emit (.pushConstant _) | .emit (.pushCharacter _) | .emit .dup => true
  | .literal _ | .pushLiteral _ | .pushInteger _ => true
  | _ => false

/-- Whether code consists of pushes, which if it is steady have their values whatever is in the
variables. -/
def Pushes (code : Code) (steady : Prop) : Prop :=
  ∀ node ∈ code.nodes, ∃ i, node = .instruction i ∧ i.isPush = true ∧
    (steady → i.IsSteady code.literals.size)

/-- Code of pushes stays such code when at most one push is put behind it, and literals. -/
lemma Pushes.of_nodes {code' : Code} {steady : Prop} (h : code.Pushes steady)
    (hle : code.literals.size ≤ code'.literals.size)
    (hnodes : code'.nodes = code.nodes ∨ ∃ i, code'.nodes = code.nodes.push (.instruction i) ∧
      i.isPush = true ∧ (steady → i.IsSteady code'.literals.size)) : code'.Pushes steady := by
  have hkeep : ∀ node ∈ code.nodes, ∃ i, node = .instruction i ∧ i.isPush = true ∧
      (steady → i.IsSteady code'.literals.size) := by
    intro node hmem
    obtain ⟨i, rfl, hpush, hsteady⟩ := h node hmem
    exact ⟨i, rfl, hpush, fun hs => (hsteady hs).mono hle⟩
  intro node hmem
  rcases hnodes with hnodes | ⟨i, hnodes, hpush, hsteady⟩
  · exact hkeep node (hnodes ▸ hmem)
  · rw [hnodes, Array.mem_push] at hmem
    rcases hmem with hmem | rfl
    · exact hkeep node hmem
    · exact ⟨i, rfl, hpush, hsteady⟩

/-- A step that pushes or looks for a literal puts at most one push at the end. -/
lemma Action.nodes_apply_of_isPush {action : Action} (hpush : action.isPush = true) (code : Code) :
    (action.apply code).nodes = code.nodes ∨
      ∃ i, (action.apply code).nodes = code.nodes.push (.instruction i) ∧ i.isPush = true ∧
        (action.isSteady = true → i.IsSteady (action.apply code).literals.size) := by
  cases action with
  | emit i =>
    refine .inr ⟨i, rfl, hpush, fun hsteady => ?_⟩
    cases i with
    | pushConstant _ | pushCharacter _ | dup => trivial
    | _ => cases hsteady
  | literal value =>
    rcases literal_keeps value code with ⟨index, code', hok, -, hnodes⟩ | ⟨e, herror⟩
    · exact .inl (by rw [Action.apply, hok]; exact hnodes)
    · exact .inl (by rw [Action.apply, herror]; rfl)
  | pushLiteral value =>
    rcases nodes_emit_literal value .pushLiteral code with hsame | ⟨index, hlt, hnodes⟩
    · exact .inl hsame
    · exact .inr ⟨.pushLiteral index, hnodes, rfl, fun _ => hlt⟩
  | pushBinding association =>
    rcases nodes_emit_literal association (.pushVariable .literalBinding) code with
      hsame | ⟨index, -, hnodes⟩
    · exact .inl hsame
    · exact .inr ⟨.pushVariable .literalBinding index, hnodes, rfl,
        fun hsteady => absurd hsteady Bool.false_ne_true⟩
  | pushInteger n =>
    rw [Action.apply]
    rcases pushInteger_cases n code with ⟨-, herror⟩ | ⟨-, -, -, herror⟩ |
      ⟨-, i, code', hok, hnodes, supplies, -⟩
    · exact .inl (by rw [herror]; rfl)
    · exact .inl (by rw [herror]; rfl)
    · rw [hok]
      exact .inr ⟨i, hnodes, supplies.isPush, fun _ => supplies.isSteady⟩
  | _ => cases hpush

/-- No step takes literals away. -/
lemma size_literals_le_apply (action : Action) (code : Code) :
    code.literals.size ≤ (action.apply code).literals.size := by
  simpa using (prefix_literals_apply action code).length_le

/-- Steps that push or look for literals build code of pushes. -/
theorem pushes_built {actions : List Action} (hpush : ∀ action ∈ actions, action.isPush = true) :
    (built actions).Pushes (∀ action ∈ actions, action.isSteady = true) := by
  induction actions using List.reverseRecOn with
  | nil => exact fun node hmem => by simp [built, empty] at hmem
  | append_singleton actions action ih =>
    simp only [List.forall_mem_append, List.forall_mem_singleton] at hpush ⊢
    rw [built_append_singleton]
    refine Pushes.of_nodes (fun node hmem => ?_) (size_literals_le_apply _ _) ?_
    · obtain ⟨i, hi, hisPush, hsteady⟩ := ih hpush.1 node hmem
      exact ⟨i, hi, hisPush, fun h => hsteady h.1⟩
    · rcases Action.nodes_apply_of_isPush hpush.2 (built actions) with
        hsame | ⟨i, hnodes, hisPush, hsteady⟩
      · exact .inl hsame
      · exact .inr ⟨i, hnodes, hisPush, fun h => hsteady h.2⟩

/-! ### An integer that is returned -/

/-- A sequence of steps, of which those that are refused change nothing. -/
def perform (actions : List Action) : CodeM Unit := fun code =>
  .ok () (actions.foldl Action.apply code)

/-- A construction that ends with an integer that is pushed and returned. -/
def integerCode (before : List Action) (n : ℤ) : CodeM Unit := do
  perform before
  pushInteger n
  emit (.return .top)

/-- Before the integer is pushed there is what the steps before have built. -/
lemma integerCode_empty (before : List Action) (n : ℤ) :
    integerCode before n empty = (do
      pushInteger n
      emit (.return .top)) (built before) :=
  rfl

/-- Behind the nodes of the steps before there are the push of the integer and the return. -/
lemma nodes_of_integerCode (hcode : integerCode before n empty = .ok () code) :
    Value.fitsSmallInteger n = true ∧ ∃ i, i.Supplies code.literals (Value.ofInt n) ∧
      (code.literals.size ≤ maxLiterals → i.EncodesWithin 8) ∧
      (built before).literals.size ≤ code.literals.size ∧
      code.nodes = ((built before).nodes.push (.instruction i)).push
        (.instruction (.return .top)) := by
  rw [integerCode_empty] at hcode
  obtain ⟨_, code', hpush, hemit⟩ := run_bind_eq_ok_iff.mp hcode
  obtain ⟨-, rfl⟩ := EStateM.Result.ok.inj hemit
  have hle := size_literals_le_apply (.pushInteger n) (built before)
  rw [Action.apply, hpush] at hle
  rcases pushInteger_cases n (built before) with ⟨-, herror⟩ | ⟨-, -, -, herror⟩ |
    ⟨hn, i, code'', hok, hnodes, supplies, hencodes⟩
  · rw [herror] at hpush
    cases hpush
  · rw [herror] at hpush
    cases hpush
  · obtain ⟨-, rfl⟩ := EStateM.Result.ok.inj (hok.symm.trans hpush)
    exact ⟨hn, i, supplies, hencodes, hle, congrArg (Array.push · _) hnodes⟩

/-- The node that pushes the integer, and the one behind it. -/
lemma getElem?_nodes_integerCode (hcode : integerCode before n empty = .ok () code) :
    ∃ i, i.Supplies code.literals (Value.ofInt n) ∧
      code.nodes[(built before).nodes.size]? = some (.instruction i) ∧
      code.nodes[(built before).nodes.size + 1]? = some (.instruction (.return .top)) := by
  obtain ⟨-, i, supplies, -, -, hnodes⟩ := nodes_of_integerCode hcode
  refine ⟨i, supplies, ?_, ?_⟩
  · rw [hnodes, Array.getElem?_push, if_neg (by simp), Array.getElem?_push_size]
  · rw [hnodes, ← Array.size_push (.instruction i), Array.getElem?_push_size]

/-- The nodes before the integer are pushes if the steps before push or look for literals only. -/
lemma exists_push_of_integerCode (hcode : integerCode before n empty = .ok () code)
    (hpush : ∀ action ∈ before, action.isPush = true) {j : ℕ} (hj : j < (built before).nodes.size) :
    ∃ i, code.nodes[j]? = some (.instruction i) ∧ i.isPush = true ∧
      ((∀ action ∈ before, action.isSteady = true) → i.IsSteady code.literals.size) := by
  obtain ⟨-, _, -, -, hle, hnodes⟩ := nodes_of_integerCode hcode
  obtain ⟨i, hi, hisPush, hsteady⟩ := pushes_built hpush _ (Array.getElem_mem hj)
  refine ⟨i, ?_, hisPush, fun h => (hsteady h).mono hle⟩
  rw [← hi, hnodes, Array.getElem?_push, if_neg (by rw [Array.size_push]; omega),
    Array.getElem?_push, if_neg (by omega), Array.getElem?_eq_getElem hj]

/-- The code is what a sequence of steps builds. -/
lemma eq_built_of_integerCode (hcode : integerCode before n empty = .ok () code) :
    code = built (before ++ [.pushInteger n, .emit (.return .top)]) := by
  rw [integerCode_empty] at hcode
  obtain ⟨_, code', hpush, hemit⟩ := run_bind_eq_ok_iff.mp hcode
  obtain ⟨-, rfl⟩ := EStateM.Result.ok.inj hemit
  rw [built, List.foldl_append, ← built, List.foldl_cons, Action.apply, hpush]
  rfl

/-- Code that is built has no more literals than a method can have. -/
lemma size_literals_built (actions : List Action) :
    (built actions).literals.size ≤ maxLiterals := by
  induction actions using List.reverseRecOn with
  | nil => exact Nat.zero_le _
  | append_singleton actions action ih =>
    rw [built_append_singleton, literals_apply]
    split
    · next value _ =>
      unfold literal
      split
      · exact ih
      · split
        · exact ih
        · next hroom =>
          show ((built actions).literals.push value).size ≤ maxLiterals
          rw [Array.size_push]
          omega
    · exact ih

/-- Pushes that can be written can be assembled, with an integer that is pushed and returned behind
them, if the whole is small enough. -/
theorem exists_assemble_integerCode (hpush : ∀ action ∈ before, action.isPush = true)
    (hcode : integerCode before n empty = .ok () code) {sizes : Array ℕ}
    (hsizes : (built before).nodes.mapM Node.maxSize = .ok sizes) (hsum : sizes.sum + 9 < 2 ^ 31) :
    ∃ bytes, code.assemble = .ok bytes := by
  obtain ⟨-, i, supplies, hencodes, -, hnodes⟩ := nodes_of_integerCode hcode
  have hbuilt := eq_built_of_integerCode hcode
  obtain ⟨bytes, hbytes, hlength⟩ := hencodes (hbuilt ▸ size_literals_built _)
  have hinstruction : ∀ node ∈ code.nodes, ∃ i, node = .instruction i := by
    intro node hmem
    rw [hnodes] at hmem
    simp only [Array.mem_push] at hmem
    rcases hmem with (hmem | rfl) | rfl
    · obtain ⟨i, hi, -⟩ := pushes_built hpush node hmem
      exact ⟨i, hi⟩
    · exact ⟨i, rfl⟩
    · exact ⟨_, rfl⟩
  have hmax : code.nodes.mapM Node.maxSize = .ok ((sizes.push bytes.length).push 1) := by
    rw [array_mapM_eq_ok_iff_forall₂] at hsizes ⊢
    have hsize : (Node.instruction i).maxSize = .ok bytes.length := by
      rw [Node.maxSize, Node.instructionSize, hbytes]
      rfl
    rw [hnodes]
    simp only [Array.toList_push]
    exact List.rel_append (List.rel_append hsizes (.cons hsize .nil)) (.cons rfl .nil)
  rw [hbuilt] at hinstruction hmax ⊢
  refine (exists_assemble_iff_not_hasEmptyJump _ _ (fun kind label hmem => ?_) hmax ?_).1.mpr ?_
  · obtain ⟨i, hi⟩ := hinstruction _ hmem
    cases hi
  · simp only [Array.sum_push]
    omega
  · rintro ⟨j, kind, label, k, hj, -⟩
    obtain ⟨i, hi⟩ := hinstruction _ (Array.mem_toList_iff.mp (List.mem_of_getElem? hj))
    cases hi

end Code

end TalkMachine
