import TalkMachine.Proofs.Interpreter.Symbolic

/-!
# Calling generated methods

To activate a method fails only where there is no room for its frame
(`Interpreter.Generated.activate_cases`). So a send that finds a generated method leads to the first
node of that method (`Interpreter.Generated.goes_send`), where an activation of its own lies on the
stack of the sender, and a return leads back behind the send
(`Interpreter.Generated.returns_of_goes`). The same holds of a send from outside
(`Interpreter.Generated.settles_send`), after whose return the run is at its end
(`Interpreter.returns_outside`).
-/

namespace TalkMachine

/-- The activation that a method begins with. -/
def Activation.entered (m : Machine) (method : Value) (header : MethodHeader) (receiver : Value)
    (arguments : List Value) (callerFp returnPc : ℕ) : Activation :=
  ⟨method, receiver, m.nil, callerFp, returnPc, arguments,
    List.replicate header.tempCount m.nil⟩

/-- A method begins with as many arguments and temporaries as its header says. -/
lemma Activation.of_entered {m : Machine} {method receiver : Value} {header : MethodHeader}
    {arguments : List Value} (hcount : header.argumentCount = arguments.length)
    (callerFp returnPc : ℕ) :
    (entered m method header receiver arguments callerFp returnPc).Of method header :=
  ⟨rfl, hcount.symm, List.length_replicate⟩

namespace Interpreter

open Execution

variable {host : Host} {p : Execution} {m : Machine} {code code' : Code}
  {method method' receiver selector value : Value} {header header' : MethodHeader}
  {arguments operands : List Value} {a : Activation} {base s : Stack} {P : Demand Unit}
  {Q : Demand Value} {k index : ℕ} {α β : Type}

/-! ### Stacks without room -/

/-- What succeeds overflows with what follows it. -/
lemma exists_overflow_of_ok {x : ExecutionM α} {f : α → ExecutionM β} {a : α} {p' : Execution}
    (hx : x p = .ok a p') (h : ∃ q, f a p' = .error (.stack .overflow) q) :
    ∃ q, (x >>= f) p = .error (.stack .overflow) q := by
  obtain ⟨q, hq⟩ := h
  exact ⟨q, (run_bind_of_ok hx).trans hq⟩

/-- A push followed by something else overflows if what follows does so behind the push. -/
lemma exists_overflow_bind {x : StackM Unit} {f : Unit → ExecutionM α} (word : UInt64)
    (hpush : x p.stack = Stack.pushWord word p.stack)
    (h : ∀ s, Stack.Pushed word p.stack s →
      ∃ q, f () ⟨p.machine, s⟩ = .error (.stack .overflow) q) :
    ∃ q, (onStack x >>= f) p = .error (.stack .overflow) q := by
  rcases Nat.lt_or_ge p.stack.sp 8 with hlt | hge
  · refine ⟨p, run_bind_of_error ?_⟩
    simp only [onStack, hpush, Stack.pushWord_of_lt hlt]
  · obtain ⟨s, hs⟩ := Stack.exists_pushWord hge word
    exact exists_overflow_of_ok (run_onStack_of_ok (hpush.trans hs))
      (h s (Stack.pushed_of_pushWord hs))

/-- A value is not pushed more often than there is room for. -/
lemma exists_overflow_pushTimes (value : Value) (count : ℕ) (hroom : p.stack.sp < 8 * count) :
    ∃ q, pushTimes value count p = .error (.stack .overflow) q := by
  induction count generalizing p with
  | zero => omega
  | succ count ih =>
    refine exists_overflow_bind value.raw rfl fun s pushed => ih ?_
    have hsp := pushed.sp
    dsimp only
    omega

/-- No more values are pushed than there is room for. -/
lemma exists_overflow_forM_push (values : List Value) (hroom : p.stack.sp < 8 * values.length) :
    ∃ q, values.forM push p = .error (.stack .overflow) q := by
  induction values generalizing p with
  | nil => cases hroom
  | cons value rest ih =>
    refine exists_overflow_bind value.raw rfl fun s pushed => ih ?_
    have hsp := pushed.sp
    rw [List.length_cons] at hroom
    dsimp only
    omega

/-- A method is not activated without room for its frame. -/
lemma exists_overflow_activate (returnPc : ℕ)
    (hheader : p.machine.heap.methodHeader method = .ok header)
    (hreceiver : p.stack.peek header.argumentCount = .ok receiver)
    (hroom : p.stack.sp < 8 * (6 + header.tempCount)) :
    ∃ q, activate method returnPc header.argumentCount p = .error (.stack .overflow) q := by
  refine exists_overflow_of_ok (askHeap_eq_ok_iff.mpr ⟨hheader, rfl⟩) ?_
  rw [if_neg (not_not.mpr rfl)]
  refine exists_overflow_of_ok (run_askStack_of_ok hreceiver) ?_
  refine exists_overflow_of_ok (x := askMachine fun m => .ok m.nil) (run_askMachine_of_ok rfl) ?_
  refine exists_overflow_bind _ rfl fun s₁ hreturn => ?_
  refine exists_overflow_bind _ rfl fun s₂ hcaller => ?_
  refine exists_overflow_of_ok (run_onStack_of_ok (Stack.setFp_eq_ok_iff.mpr rfl)) ?_
  refine exists_overflow_bind method.raw rfl fun s₃ hmethod => ?_
  refine exists_overflow_bind _ rfl fun s₄ hmetadata => ?_
  refine exists_overflow_bind p.machine.nil.raw rfl fun s₅ hcontext => ?_
  refine exists_overflow_bind receiver.raw rfl fun s₆ hself => ?_
  have hsp₁ := hreturn.sp
  have hsp₂ := hcaller.sp
  have hsp₃ := hmethod.sp
  have hsp₄ := hmetadata.sp
  have hsp₅ := hcontext.sp
  have hsp₆ := hself.sp
  dsimp only at hsp₂ hsp₃ hsp₄ hsp₅ hsp₆
  rw [Stack.sp_restore] at hsp₃
  obtain ⟨q, htemps⟩ := exists_overflow_pushTimes (p := ⟨p.machine, s₆⟩) p.machine.nil
    header.tempCount (by dsimp only; omega)
  exact ⟨q, run_bind_of_error htemps⟩

/-! ### Sends in running code -/

/-- A send for which there is a compiled method activates it. -/
lemma perform_send_of_compiled (host : Host) (sender : Sender) {r : Registers} {argumentCount : ℕ}
    (hselector : p.machine.heap.methodLiteral r.method index = .ok selector)
    (hreceiver : p.stack.peek argumentCount = .ok receiver)
    (hfind : p.machine.find receiver selector = .ok (some (.compiled method))) :
    perform host sender r (.send index argumentCount) p = (do
      let r ← activate method r.pc argumentCount
      return some r) p := by
  have hliteral : literal r index p = .ok selector p :=
    askHeap_eq_ok_iff.mpr ⟨hselector, rfl⟩
  refine (run_bind_of_ok hliteral).trans ?_
  rw [sendMessage_eq]
  simp only [bind_assoc]
  refine (run_bind_of_ok (run_askStack_of_ok hreceiver)).trans ?_
  exact run_bind_of_ok (x := askMachine fun m => m.find receiver selector)
    (run_askMachine_of_ok hfind)

namespace Generated

variable (g : Generated m code method header) (g' : Generated m code' method' header')

/-- A generated method is activated on its receiver and arguments, unless there is no room for its
frame. -/
theorem activate_cases (returnPc : ℕ) (hcount : header.argumentCount = arguments.length)
    (htopped : Stack.Topped (arguments.reverse.map Value.raw ++ [receiver.raw]) base s)
    (hsize : base.size < 2 ^ 64) :
    (s.sp < 8 * (6 + header.tempCount) ∧
      ∃ q, activate method returnPc arguments.length ⟨m, s⟩ = .error (.stack .overflow) q) ∨
    ∃ s', activate method returnPc arguments.length ⟨m, s⟩ = .ok (g.registers 0) ⟨m, s'⟩ ∧
      (Activation.entered m method header receiver arguments s.fp returnPc).On base [] s' := by
  have hreceiver : s.peek header.argumentCount = .ok receiver := by
    apply htopped.peek
    rw [hcount, List.getElem?_append_right (by simp)]
    simp
  rcases Nat.lt_or_ge s.sp (8 * (6 + header.tempCount)) with hlt | hge
  · exact .inl ⟨hlt, hcount ▸ exists_overflow_activate (p := ⟨m, s⟩) returnPc g.hasCode.reads
      hreceiver hlt⟩
  · obtain ⟨⟨m', s'⟩, hactivate, -⟩ := exists_activate (p := ⟨m, s⟩) returnPc g.hasCode.reads
      hreceiver hge
    rw [hcount] at hactivate
    obtain ⟨header', hheader, -, -, hmachine, on⟩ := exists_on_of_activate htopped hsize hactivate
    obtain rfl : m' = m := hmachine
    obtain rfl := Except.ok.inj (hheader.symm.trans g.hasCode.reads)
    refine .inr ⟨s', hactivate.trans ?_, on⟩
    rw [registers, registersAt, g.laidOut.start_zero]
    rfl

/-- A send that finds a generated method goes on at the first node of that method, unless there is
no room for its frame. -/
theorem goes_send (arguments : List Value)
    (hnode : code.nodes[k]? = some (.instruction (.send index arguments.length)))
    (hselector : code.literals[index]? = some selector)
    (hfind : m.find receiver selector = .ok (some (.compiled method')))
    (hcount : header'.argumentCount = arguments.length)
    (hfull : base.sp < 8 * (arguments.length + operands.length + header.tempCount +
        header.argumentCount + header'.tempCount + 14) → ∀ q, P (.error (.stack .overflow) q))
    (h : ∀ base', a.Of method header → a.On base operands base' →
      g'.Goes host 0
        (.entered m method' header' receiver arguments base'.fp (g.registers (k + 1)).pc) base' [] P) :
    g.Goes host k a base (arguments.reverse ++ receiver :: operands) P := by
  refine g.goes_of_perform hnode fun s of on => ?_
  have hfront : a.On base ((arguments.reverse ++ [receiver]) ++ operands) s := by
    rwa [List.append_assoc]
  have htopped := hfront.topped
  rw [List.map_append, List.append_assoc] at htopped
  have habove := htopped.above
  rw [List.map_append] at habove
  have hreceiver : s.peek arguments.length = .ok receiver := by
    apply habove.peek
    rw [List.getElem?_append_right (by simp)]
    simp
  have hperform := fun sender => perform_send_of_compiled (p := ⟨m, s⟩) host sender
    (r := g.registers (k + 1)) (g.literal index selector hselector) hreceiver hfind
  have hsize : s.size < 2 ^ 64 := by
    rw [on.topped.same.size]
    exact on.size_lt
  rcases g'.activate_cases (g.registers (k + 1)).pc hcount habove hsize with
    ⟨hlt, q, herror⟩ | ⟨s', hactivate, on'⟩
  · have hsp := htopped.sp
    have hwords := of.length_words
    simp only [List.length_append, List.length_map, List.length_reverse,
      List.length_singleton] at hsp
    exact ⟨_, fun sender => (hperform sender).trans (run_bind_of_error herror),
      hfull (by omega) _⟩
  · refine ⟨_, fun sender => (hperform sender).trans ((run_bind_of_ok hactivate).trans rfl), ?_⟩
    have hdropped := (hfront.dropped m).2
    rw [← List.length_map Value.raw, List.map_append] at hdropped
    exact h _ of hdropped s' (Activation.of_entered hcount _ _) on'

/-- A return leads back behind the send. -/
theorem returns_of_goes {base' : Stack} (of : a.Of method header) (on : a.On base operands base')
    (h : g.Goes host (k + 1) a base (value :: operands) P) :
    Returns host m (.entered m method' header' receiver arguments base'.fp (g.registers (k + 1)).pc)
      base' P value := by
  intro s htopped hfp
  have hpc : (g.registers (k + 1)).pc < 2 ^ 64 :=
    Nat.lt_of_le_of_lt (Nat.add_le_add_left (g.laidOut.start_le (k + 1)) _) g.size_lt
  have hpc' : (UInt64.ofNat (g.registers (k + 1)).pc).toNat = (g.registers (k + 1)).pc :=
    UInt64.toNat_ofNat_of_lt' hpc
  have hne : (g.registers (k + 1)).pc ≠ 0 := by
    simp only [registers, registersAt, MethodHeader.initialPc, wordSize]
    omega
  have hfp' : s.fp = base'.fp := hfp.trans (UInt64.toNat_ofNat_of_lt' on.fp_lt_word)
  have on' := on.answered htopped hfp'
  have hresume := resume_eq_ok (p := ⟨m, s⟩) hne (of.method ▸ on'.frameMethod) g.hasCode.compiled
    g.hasCode.reads
  dsimp only [Activation.entered]
  rw [hpc', hresume]
  exact h s of on'

/-! ### Sends from outside -/

/-- A method is prepared on its receiver and arguments, unless there is no room for these and for
its frame. -/
lemma starts_prepare (g : Generated p.machine code method header)
    (hcount : header.argumentCount = arguments.length) (hlive : p.stack.sp ≤ p.stack.size)
    (hsize : p.stack.size < 2 ^ 64)
    (hfull : p.stack.sp < 8 * (arguments.length + header.tempCount + 7) →
      ∀ q, Q (leave p (.error (.stack .overflow) q : EStateM.Result MachineError Execution Unit)))
    (h : g.Goes host 0 (.entered p.machine method header receiver arguments p.stack.fp 0) p.stack []
      fun outcome => Q (leave p outcome)) :
    Starts host p Q (prepare method receiver arguments p) := by
  rw [prepare_eq_bind]
  rcases Nat.lt_or_ge p.stack.sp (8 * (receiver :: arguments).length) with hlt | hge
  · obtain ⟨q, hpush⟩ := exists_overflow_forM_push (receiver :: arguments) hlt
    rw [run_bind_of_error hpush]
    rw [List.length_cons] at hlt
    exact hfull (by omega) q
  obtain ⟨⟨m', s⟩, hpush⟩ := exists_forM_push (receiver :: arguments) hge
  obtain ⟨hpushed, hmachine⟩ := pushedAll_of_forM_push hpush
  obtain rfl : m' = p.machine := hmachine
  dsimp only at hpushed
  have hsp := hpushed.sp
  have htopped := (Stack.Topped.refl hlive).pushAll hpushed
  rw [List.map_cons, List.reverse_cons, List.append_nil, ← List.map_reverse] at htopped
  rw [List.length_map, List.length_cons] at hsp
  rw [run_bind_of_ok hpush]
  rcases g.activate_cases 0 hcount htopped hsize with ⟨hlt, q, herror⟩ | ⟨s', hactivate, on⟩
  · rw [herror]
    exact hfull (by omega) q
  · rw [hactivate]
    have hfp : s.fp = p.stack.fp := hpushed.fp
    rw [hfp] at on
    exact h s' (Activation.of_entered hcount _ _) on

/-- A send from outside that finds a generated method settles as its run from the first node does. -/
theorem settles_send (g : Generated p.machine code method header)
    (hcount : header.argumentCount = arguments.length) (hlive : p.stack.sp ≤ p.stack.size)
    (hsize : p.stack.size < 2 ^ 64)
    (hfind : p.machine.find receiver selector = .ok (some (.compiled method)))
    (hfull : p.stack.sp < 8 * (arguments.length + header.tempCount + 7) →
      ∀ q, Q (leave p (.error (.stack .overflow) q : EStateM.Result MachineError Execution Unit)))
    (h : g.Goes host 0 (.entered p.machine method header receiver arguments p.stack.fp 0) p.stack []
      fun outcome => Q (leave p outcome)) :
    Settles (fun steps => send host steps receiver selector arguments) p Q :=
  Interpreter.settles_send hfind (g.starts_prepare hcount hlive hsize hfull h)

/-- So does the execution of a generated method. -/
theorem settles_execute (g : Generated p.machine code method header)
    (hcount : header.argumentCount = arguments.length) (hlive : p.stack.sp ≤ p.stack.size)
    (hsize : p.stack.size < 2 ^ 64)
    (hfull : p.stack.sp < 8 * (arguments.length + header.tempCount + 7) →
      ∀ q, Q (leave p (.error (.stack .overflow) q : EStateM.Result MachineError Execution Unit)))
    (h : g.Goes host 0 (.entered p.machine method header receiver arguments p.stack.fp 0) p.stack []
      fun outcome => Q (leave p outcome)) :
    Settles (fun steps => execute host steps method receiver arguments) p Q :=
  Interpreter.settles_execute g.hasCode.compiled (g.starts_prepare hcount hlive hsize hfull h)

end Generated

/-- When the method returns that a send from outside has activated, its value is answered. -/
lemma returns_outside (hfp : p.stack.fp < 2 ^ 64)
    (h : ∀ s, Stack.Topped [] p.stack s → s.fp = p.stack.fp → Q (.ok value ⟨p.machine, s⟩)) :
    Returns host p.machine (.entered p.machine method header receiver arguments p.stack.fp 0)
      p.stack (fun outcome => Q (leave p outcome)) value := by
  intro s htopped hfp'
  have hpopped := htopped.popWord.2
  have hpop := pop_of_peek (p := ⟨p.machine, s⟩) (htopped.peek (k := 0) rfl)
  dsimp only [Activation.entered] at hfp' ⊢
  rw [UInt64.toNat_ofNat_of_lt' hfp] at hfp'
  show Q (leave p (.ok () ⟨p.machine, s⟩))
  rw [leave_ok hpop]
  exact h _ hpopped hfp'

/-! ### Methods that are built -/

/-- A method was built by a construction, and nothing was stored into it since. -/
def IsBuilt (construction : CodeM Unit) (argumentCount tempCount : ℕ) (method : Value)
    (m : Machine) : Prop :=
  ∃ m₀ m₁ : Machine, m₀.heap.Bounded ∧
    Machine.build construction argumentCount tempCount m₀ = .ok method m₁ ∧
    Heap.Keeps method m₁.heap m.heap

namespace IsBuilt

variable {construction construction' : CodeM Unit}
  {argumentCount argumentCount' tempCount tempCount' : ℕ} {m₀ m₁ m₂ : Machine}

/-- What is built is generated from the code that the construction leads to. -/
lemma exists_generate
    (hbuild : Machine.build construction argumentCount tempCount m₀ = .ok method m₁) :
    ∃ code, construction Code.empty = .ok () code ∧ code.generate ClassIndex.compiledMethod
      argumentCount tempCount m₀.heap = .ok method m₁.heap ∧ m₁ = m₀.withHeap m₁.heap := by
  cases hcode : construction Code.empty with
  | error e code =>
    rw [Machine.build, hcode] at hbuild
    cases hbuild
  | ok _ code =>
    rw [Machine.build, hcode] at hbuild
    obtain ⟨h', hadapt, rfl⟩ := Machine.onHeap_eq_ok_iff.mp hbuild
    exact ⟨code, rfl, adaptExcept_eq_ok_iff.mp hadapt, rfl⟩

/-- A built method is a generated one. -/
theorem exists_generated (built : IsBuilt construction argumentCount tempCount method m)
    (hcode : construction Code.empty = .ok () code) :
    Nonempty (Generated m code method ⟨code.literals.size, tempCount, argumentCount⟩) := by
  obtain ⟨m₀, m₁, hbounded, hbuild, keeps⟩ := built
  obtain ⟨code', hcode', hok, -⟩ := exists_generate hbuild
  obtain ⟨-, rfl⟩ := EStateM.Result.ok.inj (hcode.symm.trans hcode')
  obtain ⟨bytes, hassemble, hhas, hlt⟩ :=
    Code.hasCode_of_generate hbounded.represents_unpopulated hok
  obtain ⟨header', bytes', -, -, hmethod⟩ := Code.isMethodOf_of_generate hbounded hok
  obtain ⟨layout, laid⟩ := Code.exists_laidOut hassemble
  refine ⟨⟨layout, bytes, hhas.keeps keeps, laid, laid.length ▸ hlt, fun index value hvalue => ?_⟩⟩
  refine (keeps.methodLiteral index).trans ((hmethod.methodLiteral index).trans ?_)
  rw [hvalue]

/-- A heap in which a method was generated holds the object of the method. -/
lemma exists_holds (hbounded : m₀.heap.Bounded)
    (hbuild : Machine.build construction argumentCount tempCount m₀ = .ok method m₁) :
    m₁.heap.Bounded ∧ ∃ o, m₁.heap.Holds method.raw.toNat o := by
  obtain ⟨code, -, hok, -⟩ := exists_generate hbuild
  obtain ⟨_, _, o, used, -, -, rep', -⟩ :=
    Code.exists_of_generate hbounded.represents_unpopulated hok
  exact ⟨.of_represents rep', o, rep'.holds (ObjectMap.objects_put_self _ method o)⟩

/-- A method that is built is there when another one was built after it. -/
lemma of_build_build (hbounded : m₀.heap.Bounded)
    (hbuild : Machine.build construction argumentCount tempCount m₀ = .ok method m₁)
    (hbuild' : Machine.build construction' argumentCount' tempCount' m₁ = .ok method' m₂) :
    IsBuilt construction argumentCount tempCount method m₂ ∧
      IsBuilt construction' argumentCount' tempCount' method' m₂ := by
  obtain ⟨hbounded₁, o, hold⟩ := exists_holds hbounded hbuild
  obtain ⟨hbounded₂, -⟩ := exists_holds hbounded₁ hbuild'
  obtain ⟨code, -, hok, -⟩ := exists_generate hbuild'
  have hold' := Code.holds_of_generate hbounded₁ hok hold
  exact ⟨⟨m₀, m₁, hbounded, hbuild, Heap.Keeps.of_holds hbounded₁ hbounded₂ hold hold'⟩,
    m₁, m₂, hbounded₁, hbuild', .refl _ _⟩

/-- A built method that is kept is a built one. -/
lemma keep (built : IsBuilt construction argumentCount tempCount method m₁)
    (keeps : Heap.Keeps method m₁.heap m₂.heap) :
    IsBuilt construction argumentCount tempCount method m₂ := by
  obtain ⟨m₀, m, hbounded, hbuild, keeps₁⟩ := built
  exact ⟨m₀, m, hbounded, hbuild, keeps₁.trans keeps⟩

/-- It is a compiled method. -/
lemma isCompiledMethod (built : IsBuilt construction argumentCount tempCount method m) :
    m.heap.isCompiledMethod method = true := by
  obtain ⟨m₀, m₁, hbounded, hbuild, keeps⟩ := built
  obtain ⟨code, -, hok, -⟩ := exists_generate hbuild
  obtain ⟨_, _, -, -, hmethod⟩ := Code.isMethodOf_of_generate hbounded hok
  exact keeps.isCompiledMethod.trans hmethod.isCompiledMethod

end IsBuilt

end Interpreter

end TalkMachine
