import TalkMachine.Proofs.Code.MethodObject
import TalkMachine.Proofs.Interpreter.Activation
import TalkMachine.Proofs.Interpreter.Inlining
import TalkMachine.Proofs.Interpreter.Nodes
import TalkMachine.Proofs.Interpreter.Settled

/-!
# Following an activation through generated code

A method that was generated from code is followed node by node, with its activation in place of the
stack: `Interpreter.Generated.Goes` says that the run settles to what is demanded from a node on,
whenever the activation lies on its stack with the given operands. There is one rule for each kind
of node, which leads from what is said of the node behind it, or of the node that a jump leads to,
to what is said of the node itself. A push may find the stack full; the rules ask what is demanded
then only if there is no room for another word.

A send that finds another generated method leads to the first node of that method, with an
activation of its own (`Interpreter.Generated.goes_send`), and a return leads back behind the send
(`Interpreter.Generated.continues_resume`).
-/

namespace TalkMachine

namespace Activation

open Interpreter Execution

variable {a : Activation} {base s s' : Stack} {operands : List Value} {value : Value}

/-! ### The stack of an activation -/

/-- An activation of a method has as many arguments and temporaries as its header says. -/
structure Of (a : Activation) (method : Value) (header : MethodHeader) : Prop where
  method : a.method = method
  arguments : a.arguments.length = header.argumentCount
  temporaries : a.temporaries.length = header.tempCount

/-- The number of words by the counts. -/
lemma Of.length_words {method : Value} {header : MethodHeader} (of : a.Of method header) :
    a.words.length = header.tempCount + 7 + header.argumentCount := by
  rw [Activation.length_words, of.temporaries, of.arguments]

/-- Assigning to a variable leaves the method. -/
@[simp] lemma method_assign {index : ℕ} : (a.assign index value).method = a.method := by
  unfold assign
  split <;> rfl

/-- Assigning to a variable leaves the counts. -/
lemma Of.assign {method : Value} {header : MethodHeader} (of : a.Of method header) (index : ℕ)
    (value : Value) : (a.assign index value).Of method header :=
  ⟨method_assign.trans of.method, length_arguments_assign.trans of.arguments,
    length_temporaries_assign.trans of.temporaries⟩

namespace On

/-- The addresses of the buffer can be counted in a word. -/
lemma fp_lt_word (h : a.On base operands s) : s.fp < 2 ^ 64 := by
  have hfp := h.fp_lt
  have hsize := h.topped.same.size
  have hlt := h.size_lt
  omega

/-- The receiver is found in the frame. -/
lemma frameReceiver (h : a.On base operands s) : s.frameReceiver = .ok a.receiver := by
  have hsp := h.sp_add
  have hfp := h.fp_lt
  refine (Stack.frameValue_sub_eq_ok_iff 32 (by omega) h.fp_lt_word).mpr ⟨by omega, by omega, ?_⟩
  exact h.load_control (k := 0) rfl

/-- The context is found in the frame. -/
lemma frameContext (h : a.On base operands s) :
    s.frameValue Frame.thisContext = .ok a.context := by
  have hsp := h.sp_add
  have hfp := h.fp_lt
  refine (Stack.frameValue_sub_eq_ok_iff 24 (by omega) h.fp_lt_word).mpr ⟨by omega, by omega, ?_⟩
  rw [show s.fp - 24 = s.fp - 32 + 8 * 1 by omega]
  exact h.load_control rfl

/-- The method is found in the frame. -/
lemma frameMethod (h : a.On base operands s) : s.frameMethod = .ok a.method := by
  have hsp := h.sp_add
  have hfp := h.fp_lt
  refine (Stack.frameValue_sub_eq_ok_iff 8 (by omega) h.fp_lt_word).mpr ⟨by omega, by omega, ?_⟩
  rw [show s.fp - 8 = s.fp - 32 + 8 * 3 by omega]
  exact h.load_control rfl

/-- There is always a word on top, be it one of the frame. -/
lemma exists_peek (h : a.On base operands s) : ∃ value, s.peek 0 = .ok value := by
  have hlt : 0 < (operands.map Value.raw ++ a.words).length := by
    rw [List.length_append, Activation.length_words]
    omega
  exact ⟨⟨_⟩, h.topped.peek (List.getElem?_eq_getElem hlt)⟩

/-- A value that is on top of the stack of an activation is an operand of it, if its frame is in use
again. -/
lemma answered (h : a.On base operands s) (htopped : Stack.Topped [value.raw] s s')
    (hfp : s'.fp = s.fp) : a.On base (value :: operands) s' :=
  ⟨h.topped.trans htopped, by rw [hfp]; exact h.fp, h.arguments_lt, h.temporaries_lt, h.size_lt⟩

/-- Operands can be dropped. -/
lemma dropped {front : List Value} (h : a.On base (front ++ operands) s) (m : Machine) :
    onStack (Stack.drop front.length) ⟨m, s⟩ =
        .ok () ⟨m, s.restore (s.sp + 8 * front.length) s.fp⟩ ∧
      a.On base operands (s.restore (s.sp + 8 * front.length) s.fp) := by
  have hsp := h.topped.sp
  have hsize := h.topped.same.size
  have hfits := h.topped.fits
  simp only [List.length_append, List.length_map] at hsp
  exact ⟨run_onStack_of_ok (Stack.drop_eq_ok_iff.mpr ⟨by omega, rfl⟩), h.drop⟩

/-- The operand on top can be popped. -/
lemma popped (h : a.On base (value :: operands) s) (m : Machine) :
    pop ⟨m, s⟩ = .ok value ⟨m, s.restore (s.sp + 8) s.fp⟩ ∧
      a.On base operands (s.restore (s.sp + 8) s.fp) := by
  have hfront : a.On base ([value] ++ operands) s := h
  exact ⟨pop_of_peek (h.topped.peek (k := 0) rfl), hfront.drop⟩

/-- An operand is pushed, unless there is no room for it. -/
lemma push_cases (h : a.On base operands s) (m : Machine) (value : Value) :
    (base.sp < 8 * (operands.length + a.words.length + 1) ∧
      Execution.push value ⟨m, s⟩ = .error (.stack .overflow) ⟨m, s⟩) ∨
    ∃ s', Execution.push value ⟨m, s⟩ = .ok () ⟨m, s'⟩ ∧ a.On base (value :: operands) s' := by
  have hsp := h.topped.sp
  rw [List.length_append, List.length_map] at hsp
  rcases Nat.lt_or_ge s.sp 8 with hlt | hge
  · refine .inl ⟨by omega, ?_⟩
    simp only [Execution.push, onStack, Stack.push, Stack.pushWord_of_lt hlt]
  · obtain ⟨s', hpush⟩ := Stack.exists_pushWord hge value.raw
    exact .inr ⟨s', run_onStack_of_ok hpush, h.push (Stack.pushed_of_pushWord hpush)⟩

end On

end Activation

namespace Interpreter

open Execution

variable {host : Host} {m : Machine} {code : Code} {method : Value} {header : MethodHeader}
  {a : Activation} {base s : Stack} {operands : List Value} {value : Value} {P : Demand Unit}
  {k index : ℕ} {instruction : Instruction} {label : Label} {kind : JumpKind}

/-! ### Generated methods -/

/-- A method of a machine that was generated from code, with where the nodes of the code lie. -/
structure Generated (m : Machine) (code : Code) (method : Value) (header : MethodHeader) where
  layout : Layout
  bytes : List UInt8
  hasCode : m.heap.HasCode method header bytes
  laidOut : code.LaidOut layout bytes
  size_lt : header.initialPc + layout.total < 2 ^ 64
  literal : ∀ index value, code.literals[index]? = some value →
    m.heap.methodLiteral method index = .ok value

namespace Generated

variable (g : Generated m code method header)

/-- The registers of a frame that is about to fetch a node. -/
def registers (k : ℕ) : Registers :=
  registersAt method header g.layout k

/-- Whether the run settles to what is demanded from a node on, whenever the activation lies on its
stack with these operands. -/
def Goes (host : Host) (k : ℕ) (a : Activation) (base : Stack) (operands : List Value)
    (P : Demand Unit) : Prop :=
  ∀ s, a.Of method header → a.On base operands s → Ends host (g.registers k) ⟨m, s⟩ P

/-- A node that is no label is the next one. -/
lemma isNext_self {node : Node} (hnode : code.nodes[k]? = some node) (hbind : node.isBind = false) :
    code.IsNext k k := by
  refine ⟨le_rfl, (Array.getElem?_eq_some_iff.mp hnode).1.le, fun i hle hlt => by omega, ?_⟩
  intro label hlabel
  obtain rfl := Option.some.inj (hlabel.symm.trans hnode)
  cases hbind

/-- The instruction of a node is fetched. -/
lemma fetch_instruction (hnode : code.nodes[k]? = some (.instruction instruction)) :
    fetch m.heap (g.registers k) = .ok (instruction, (g.registers (k + 1)).pc) := by
  have fetches := fetchesNode g.hasCode g.laidOut (isNext_self hnode rfl)
  rw [FetchesNode, hnode] at fetches
  exact fetches

/-- A jump to a label is fetched, and it leads to the place of the label. -/
lemma exists_fetch_jump (hnode : code.nodes[k]? = some (.jump kind label)) :
    ∃ distance t, code.nodes[t]? = some (.bind label) ∧
      fetch m.heap (g.registers k) = .ok (.jump kind distance, (g.registers (k + 1)).pc) ∧
      jumpTarget (g.registers (k + 1)).pc distance = .ok (g.registers t).pc := by
  have fetches := fetchesNode g.hasCode g.laidOut (isNext_self hnode rfl)
  rw [FetchesNode, hnode] at fetches
  obtain ⟨distance, t, ht, hdistance, hfetch⟩ := fetches
  exact ⟨distance, t, ht, hfetch, jumpTarget_start g.laidOut g.size_lt hdistance⟩

/-- A run at a node settles as the instruction that is fetched there demands. -/
lemma goes_of_perform (hnode : code.nodes[k]? = some (.instruction instruction))
    (h : ∀ s, a.Of method header → a.On base operands s → ∃ o,
      (∀ sender, perform host sender (g.registers (k + 1)) instruction ⟨m, s⟩ = o) ∧
        Continues host P o) : g.Goes host k a base operands P := by
  intro s of on
  obtain ⟨o, hperform, hcontinues⟩ := h s of on
  exact Ends.of_perform (g.fetch_instruction hnode) hperform hcontinues

/-- Nothing is said of an activation with more operands than there is room for. -/
lemma goes_of_lt
    (hlt : base.sp < 8 * (operands.length + header.tempCount + header.argumentCount + 7)) :
    g.Goes host k a base operands P := by
  intro s of on
  have hsp := on.topped.sp
  have hwords := of.length_words
  rw [List.length_append, List.length_map] at hsp
  omega

/-! ### Labels and jumps -/

/-- Nothing is done at the place of a label. -/
lemma goes_bind (hnode : code.nodes[k]? = some (.bind label))
    (h : g.Goes host (k + 1) a base operands P) : g.Goes host k a base operands P := by
  obtain ⟨chunk, -, hstart, hchunk⟩ := g.laidOut.node k _ hnode
  obtain rfl : chunk = [] := hchunk
  have hsame : g.registers k = g.registers (k + 1) := by
    rw [registers, registersAt, registers, registersAt, hstart]
    rfl
  rw [Goes, hsame]
  exact h

/-- A jump to a label goes on at the place of the label. -/
lemma goes_jump (hnode : code.nodes[k]? = some (.jump .always label))
    (h : ∀ t, code.nodes[t]? = some (.bind label) → g.Goes host t a base operands P) :
    g.Goes host k a base operands P := by
  intro s of on
  obtain ⟨distance, t, ht, hfetch, htarget⟩ := g.exists_fetch_jump hnode
  have hdecides : Decides .always ⟨m, s⟩ true := rfl
  refine Ends.of_perform hfetch (fun sender => perform_jump (r := g.registers (k + 1)) host sender
    hdecides htarget) ?_
  exact h t ht s of on

/-- Truth values that differ are told apart. -/
lemma condition_boolean (hdistinct : m.trueObject ≠ m.falseObject) (holds : Bool) :
    condition m (m.boolean holds) = .ok holds := by
  cases holds with
  | true => exact if_pos rfl
  | false => exact (if_neg hdistinct.symm).trans (if_pos rfl)

/-- A conditional jump asks the operand on top. -/
lemma goes_jumpIfFalse (hnode : code.nodes[k]? = some (.jump .ifFalse label)) {holds : Bool}
    (hcondition : condition m value = .ok holds)
    (htrue : holds = true → g.Goes host (k + 1) a base operands P)
    (hfalse : holds = false → ∀ t, code.nodes[t]? = some (.bind label) →
      g.Goes host t a base operands P) : g.Goes host k a base (value :: operands) P := by
  intro s of on
  obtain ⟨distance, t, ht, hfetch, htarget⟩ := g.exists_fetch_jump hnode
  have hdecides : Decides .ifFalse ⟨m, s⟩ (!holds) := by
    refine ⟨value, on.topped.peek (k := 0) rfl, ?_⟩
    rw [Bool.not_not]
    exact hcondition
  have hdropped := (on.popped m).2
  refine Ends.of_perform hfetch (fun sender => perform_jump (r := g.registers (k + 1)) host sender
    hdecides htarget) ?_
  cases holds with
  | true => exact htrue rfl _ of hdropped
  | false => exact hfalse rfl t ht _ of hdropped

/-! ### Operands -/

/-- The value that an instruction pushes, if the activation or the machine have it. -/
def pushed? (a : Activation) (m : Machine) : Instruction → Option Value
  | .pushVariable .temporary index => a.locals[index]?
  | .pushConstant .receiver => some a.receiver
  | .pushConstant .true => some m.trueObject
  | .pushConstant .false => some m.falseObject
  | .pushConstant .nil => some m.nil
  | .pushInteger n => Value.ofInt? n
  | _ => none

/-- The value is found and pushed. -/
lemma perform_of_pushed? (of : a.Of method header) (on : a.On base operands s)
    (hpushed : pushed? a m instruction = some value) (sender : Sender) (k : ℕ) :
    perform host sender (g.registers k) instruction ⟨m, s⟩ =
      (do
        push value
        return some (g.registers k)) ⟨m, s⟩ := by
  unfold pushed? at hpushed
  split at hpushed
  · next index =>
    have hindex := (List.getElem?_eq_some_iff.mp hpushed).1
    have haddress := on.tempAddress_eq hindex
    rw [of.arguments, of.temporaries] at haddress
    refine run_bind_of_ok (x := load (g.registers k) .temporary index) ?_
    refine (run_bind_of_ok (run_askStack_of_ok haddress)).trans ?_
    exact run_askStack_of_ok (on.readValue hpushed)
  · obtain rfl := Option.some.inj hpushed
    exact run_bind_of_ok (x := constant .receiver) (run_askStack_of_ok on.frameReceiver)
  · obtain rfl := Option.some.inj hpushed
    rfl
  · obtain rfl := Option.some.inj hpushed
    rfl
  · obtain rfl := Option.some.inj hpushed
    rfl
  · simp only [perform, hpushed]
  · cases hpushed

/-- There is room for another operand, or else the stack may overflow. -/
lemma overflow_of_room {room : ℕ} (hfull : base.sp < room → ∀ q, P (.error (.stack .overflow) q))
    (hroom : 8 * (operands.length + header.tempCount + header.argumentCount + 8) ≤ room)
    (hlt : base.sp < 8 * (operands.length + header.tempCount + header.argumentCount + 8))
    (q : Execution) : P (.error (.stack .overflow) q) :=
  hfull (hlt.trans_le hroom) q

/-- An instruction that finds a value without a change and pushes it goes on with one operand more.
It may find none, and there may be no room for it. -/
theorem goes_push_of (hnode : code.nodes[k]? = some (.instruction instruction))
    (x : ExecutionM Value)
    (hperform : ∀ sender s, a.Of method header → a.On base operands s →
      perform host sender (g.registers (k + 1)) instruction ⟨m, s⟩ = (do
        push (← x)
        return some (g.registers (k + 1))) ⟨m, s⟩)
    (hkeeps : ∀ s value q, x ⟨m, s⟩ = .ok value q → ⟨m, s⟩ = q)
    (hfinds : (∀ s, a.On base operands s → ∃ value q, x ⟨m, s⟩ = .ok value q) ∨
      ∀ e q, P (.error e q))
    (hfull : base.sp < 8 * (operands.length + header.tempCount + header.argumentCount + 8) →
      ∀ q, P (.error (.stack .overflow) q))
    (h : ∀ s value, x ⟨m, s⟩ = .ok value ⟨m, s⟩ →
      g.Goes host (k + 1) a base (value :: operands) P) : g.Goes host k a base operands P := by
  refine g.goes_of_perform hnode fun s of on => ?_
  have hwords := of.length_words
  cases hx : x ⟨m, s⟩ with
  | error e q =>
    refine ⟨_, fun sender => (hperform sender s of on).trans (run_bind_of_error hx), ?_⟩
    rcases hfinds with hfinds | herror
    · obtain ⟨value, q, hok⟩ := hfinds s on
      rw [hx] at hok
      cases hok
    · exact herror e q
  | ok value q =>
    obtain rfl := hkeeps s value q hx
    have hfound := fun sender => (hperform sender s of on).trans (run_bind_of_ok hx)
    rcases on.push_cases m value with ⟨hlt, hpush⟩ | ⟨s', hpush, on'⟩
    · exact ⟨_, fun sender => (hfound sender).trans (run_bind_of_error hpush), hfull (by omega) _⟩
    · exact ⟨_, fun sender => (hfound sender).trans (run_bind_of_ok hpush),
        h s value hx s' of on'⟩

/-- An instruction that pushes a value goes on with one operand more, if there is room for it. -/
lemma goes_push (hnode : code.nodes[k]? = some (.instruction instruction))
    (hpushed : pushed? a m instruction = some value)
    (hfull : base.sp < 8 * (operands.length + header.tempCount + header.argumentCount + 8) →
      ∀ q, P (.error (.stack .overflow) q))
    (h : g.Goes host (k + 1) a base (value :: operands) P) : g.Goes host k a base operands P := by
  refine g.goes_push_of hnode (pure value)
    (fun sender s of on => g.perform_of_pushed? of on hpushed sender _)
    (fun s _ q hq => (pure_eq_ok_iff.mp hq).2) (.inl fun s _ => ⟨value, _, rfl⟩) hfull ?_
  intro s value' hvalue
  obtain ⟨rfl, -⟩ := pure_eq_ok_iff.mp hvalue
  exact h

/-- The operand on top is assigned to a variable and popped. -/
lemma goes_store (hnode : code.nodes[k]? = some (.instruction (.store .temporary index true)))
    (hindex : index < a.locals.length)
    (h : g.Goes host (k + 1) (a.assign index value) base operands P) :
    g.Goes host k a base (value :: operands) P := by
  refine g.goes_of_perform hnode fun s of on => ?_
  have haddress := on.tempAddress_eq hindex
  rw [of.arguments, of.temporaries] at haddress
  obtain ⟨hwrite, on'⟩ := on.assign hindex value
  have hfront : (a.assign index value).On base ([value] ++ operands) _ := on'
  obtain ⟨hdrop, hdropped⟩ := hfront.dropped m
  have hstore : storeInto (g.registers (k + 1)) .temporary index value ⟨m, s⟩ = _ :=
    (run_bind_of_ok (run_askStack_of_ok haddress)).trans (run_onStack_of_ok hwrite)
  refine ⟨_, fun sender => ?_, continues_some.mpr (h _ (of.assign index value) hdropped)⟩
  refine (run_bind_of_ok (run_askStack_of_ok (on.topped.peek (k := 0) rfl))).trans ?_
  refine (run_bind_of_ok hstore).trans ?_
  exact (run_bind_of_ok hdrop).trans rfl

/-! ### Arithmetic -/

section Arithmetic

variable {x y : Value} {i j : ℤ}
  (hnode : code.nodes[k]? = some (.instruction (.sendSpecial index)))
  (hindex : index ≤ SpecialSelector.multiply) (hx : x.toInt? = some i) (hy : y.toInt? = some j)
include hnode hindex hx hy

/-- The result takes the place of the two operands. -/
lemma goes_arithmetic (hresult : arithmetic m index i j = some value)
    (h : g.Goes host (k + 1) a base (value :: operands) P) :
    g.Goes host k a base (y :: x :: operands) P := by
  refine g.goes_of_perform hnode fun s of on => ?_
  have hinline := inlineSpecial_arithmetic (p := ⟨m, s⟩) hindex (on.topped.peek (k := 1) rfl)
    (on.topped.peek (k := 0) rfl)
  rw [hx, hy] at hinline
  simp only [Option.bind_eq_bind, Option.bind_some, hresult] at hinline
  have hfront : a.On base ([y, x] ++ operands) s := on
  obtain ⟨hdrop, hdropped⟩ := hfront.dropped m
  rcases hdropped.push_cases m value with ⟨hlt, -⟩ | ⟨s', hpush, on'⟩
  · have hsp := on.topped.sp
    simp only [List.length_append, List.length_map, List.length_cons] at hsp
    omega
  have hanswered : inlineSpecial index ⟨m, s⟩ = .ok true ⟨m, s'⟩ :=
    hinline.trans ((run_bind_of_ok hdrop).trans ((run_bind_of_ok hpush).trans rfl))
  have hsend : ∀ sender, sendSpecial host sender (g.registers (k + 1)) index ⟨m, s⟩ =
      .ok (g.registers (k + 1)) ⟨m, s'⟩ :=
    fun sender => (run_bind_of_ok hanswered).trans rfl
  exact ⟨_, fun sender => (run_bind_of_ok (hsend sender)).trans rfl, h s' of on'⟩

/-- Where there is no result the native method of the kernel is called, and it fails. -/
lemma goes_arithmetic_fails {special : SpecialSelector} {selector : Value} {entry : NativeEntry}
    (hspecial : SpecialSelector.table[index]? = some special)
    (hselector : m.specialSelectors[index]? = some selector)
    (finds : FindsKernel m x selector special.name entry)
    (hresult : arithmetic m index i j = none)
    (h : ∀ q, P (.error (.nativeFailed special.name x) q)) :
    g.Goes host k a base (y :: x :: operands) P := by
  refine g.goes_of_perform hnode fun s of on => ?_
  have hcount := argumentCount_arithmetic hindex
  rw [hspecial, Option.map_some, Option.some.injEq] at hcount
  have hreceiver : s.peek special.argumentCount = .ok x := by
    rw [hcount]
    exact on.topped.peek (k := 1) rfl
  have harguments : s.top special.argumentCount = .ok [y] := by
    rw [hcount]
    exact (mapM_eq_ok_iff (fun k => s.peek (1 - 1 - k)) [0] [y]).mpr
      (.cons (on.topped.peek (k := 0) rfl) .nil)
  have hnone : inlineAnswer? m index x m.nil [y] = none := by
    rw [inlineAnswer?, if_neg (by rintro rfl; exact absurd hindex (by decide)), if_pos hindex, hx,
      hy]
    exact hresult
  have hsend : ∀ sender, sendSpecial host sender (g.registers (k + 1)) index ⟨m, s⟩ =
      .error (.nativeFailed special.name x) ⟨m, s⟩ := by
    intro sender
    have agrees := agreesWithSend_of_eq_none (p := ⟨m, s⟩) finds hreceiver harguments hspecial host
      sender (g.registers (k + 1)) hselector hnone
    rw [agrees.unnoticed, sendMessage_arithmetic finds hreceiver harguments hspecial host sender
      (g.registers (k + 1)) hindex rfl hx hy, hresult]
  exact ⟨_, fun sender => run_bind_of_error (hsend sender), h _⟩

end Arithmetic

end Generated

/-! ### Returns -/

/-- Whether a run settles to what is demanded, if an activation on this stack returns the value. -/
def Returns (host : Host) (m : Machine) (a : Activation) (base : Stack) (P : Demand Unit)
    (value : Value) : Prop :=
  ∀ s, Stack.Topped [value.raw] base s → s.fp = (UInt64.ofNat a.callerFp).toNat →
    Continues host P (resume (UInt64.ofNat a.returnPc).toNat ⟨m, s⟩)

/-- Where a return leads does not depend on the variables. -/
@[simp] lemma returns_assign {other : Value} :
    Returns host m (a.assign index other) base P value ↔ Returns host m a base P value := by
  simp only [Returns, Activation.callerFp_assign, Activation.returnPc_assign]

namespace Generated

variable (g : Generated m code method header)

/-- The operand on top is returned. -/
lemma goes_return (hnode : code.nodes[k]? = some (.instruction (.return .top)))
    (h : Returns host m a base P value) : g.Goes host k a base (value :: operands) P := by
  refine g.goes_of_perform hnode fun s of on => ?_
  obtain ⟨hpop, hpopped⟩ := on.popped m
  obtain ⟨s', htopped, hfp, heq⟩ := hpopped.returnValue m value
  exact ⟨_, fun sender => (run_bind_of_ok (x := returned .top) hpop).trans heq, h s' htopped hfp⟩

end Generated

end Interpreter

end TalkMachine
