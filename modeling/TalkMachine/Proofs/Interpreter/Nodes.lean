import TalkMachine.Proofs.Code.Generation
import TalkMachine.Proofs.Code.Nodes
import TalkMachine.Proofs.Interpreter.CallReturn

/-!
# Running generated code

A method that was generated from code without jumps of its own, only jumps to labels, is run node by
node (`Interpreter.Moment.followsNodes_of_disciplined`). Whenever its frame is about to fetch, the
program counter is at the beginning of a node or at the end of the code, and the instruction that is
fetched is the one that the next node stands for. A jump that is taken goes on where its label
stands, and everything else goes on at the following node, also a send whose method returns after
any number of steps.

What is carried along the run is that the program counter of every frame of the method, of those
that wait as well, is at the beginning of a node (`Interpreter.Moment.Sound`).
-/

namespace TalkMachine

/-- The jumps of the code lead to labels. -/
def Code.JumpsToLabels (code : Code) : Prop :=
  ∀ kind distance, Node.instruction (.jump kind distance) ∉ code.nodes

namespace Interpreter

open Execution

variable {host : Host} {sender : Sender} {r : Registers} {p q : Execution} {h : Heap}
  {method : Value} {header : MethodHeader} {code : Code} {layout : Layout} {bytes : List UInt8}
  {instruction : Instruction} {kind : JumpKind} {distance : ℤ} {o : Option Registers} {k j next : ℕ}

/-! ### Fetching -/

/-- The registers of a frame that is about to fetch at the beginning of a node. -/
def registersAt (method : Value) (header : MethodHeader) (layout : Layout) (k : ℕ) : Registers :=
  ⟨method, header, header.initialPc + layout.start k⟩

/-- What is fetched at the beginning of node `k`, where `j` is the next node: its instruction, or a
jump to where its label stands, with the program counter at the node behind it; at the end of the
code nothing. -/
def FetchesNode (code : Code) (layout : Layout) (method : Value) (header : MethodHeader) (h : Heap)
    (k j : ℕ) : Prop :=
  match code.nodes[j]? with
  | none => layout.start k = layout.total ∧ fetch h (registersAt method header layout k) =
      .error (.malformedCode (.truncated (header.initialPc + layout.start k)))
  | some (.instruction i) => fetch h (registersAt method header layout k) =
      .ok (i, header.initialPc + layout.start (j + 1))
  | some (.jump kind label) => ∃ distance t, code.nodes[t]? = some (.bind label) ∧
      (layout.start (j + 1) : ℤ) + distance = layout.start t ∧
      fetch h (registersAt method header layout k) =
        .ok (.jump kind distance, header.initialPc + layout.start (j + 1))
  | some (.bind _) => False

/-- Where there are no bytes left nothing is fetched. -/
lemma fetch_of_bytesFrom_eq_nil (hbytes : h.bytesFrom r.method r.pc maxInstructionLength = .ok []) :
    fetch h r = .error (.malformedCode (.truncated r.pc)) := by
  rw [fetch, hbytes]
  rfl

/-- The instruction that the bytes at the program counter are read as is fetched. -/
lemma fetch_of_read {window : List UInt8} {length : ℕ}
    (hbytes : h.bytesFrom r.method r.pc maxInstructionLength = .ok window)
    (hread : Instruction.read r.pc window = ⟨.ok instruction, length⟩) :
    fetch h r = .ok (instruction, r.pc + length) := by
  cases window with
  | nil => cases hread
  | cons byte rest =>
    refine bind_eq_ok_iff.mpr ⟨byte :: rest, Except.ofHeap_eq_ok_iff.mpr hbytes, ?_⟩
    dsimp only
    rw [hread]
    rfl

/-- Bytes that are read as an instruction are fetched as it. -/
lemma fetch_of_reads {chunk rest : List UInt8} (hcode : h.HasCode method header bytes)
    (hdrop : bytes.drop (layout.start j) = chunk ++ rest)
    (hreads : Instruction.Reads chunk instruction) :
    fetch h (registersAt method header layout j) =
      .ok (instruction, header.initialPc + layout.start j + chunk.length) := by
  have hwindow := hcode.bytesFrom (layout.start j) maxInstructionLength
  have hlength : chunk.length ≤ maxInstructionLength := Instruction.length_le_of_reads hreads
  rw [hdrop, List.take_append, List.take_of_length_le hlength] at hwindow
  exact fetch_of_read hwindow (hreads _ _)

/-- At the beginning of a node the next node is fetched. -/
theorem fetchesNode (hcode : h.HasCode method header bytes) (laid : code.LaidOut layout bytes)
    (hnext : code.IsNext k j) : FetchesNode code layout method header h k j := by
  have hstart := laid.start_eq_of_isNext hnext
  have hregisters : registersAt method header layout k = registersAt method header layout j := by
    rw [registersAt, registersAt, hstart]
  rw [FetchesNode]
  cases hnode : code.nodes[j]? with
  | none =>
    obtain rfl : j = code.nodes.size :=
      le_antisymm hnext.le_size (Array.getElem?_eq_none_iff.mp hnode)
    have hwindow := hcode.bytesFrom (layout.start code.nodes.size) maxInstructionLength
    rw [laid.drop_end, List.take_nil] at hwindow
    refine ⟨hstart.trans laid.start_end, ?_⟩
    rw [hregisters, hstart]
    exact fetch_of_bytesFrom_eq_nil (r := registersAt method header layout _) hwindow
  | some node =>
    cases node with
    | bind label => exact hnext.not_bind label hnode
    | instruction i =>
      obtain ⟨chunk, i', hdrop, hbehind, hreads, -, -, rfl⟩ := laid.exists_reads hnode rfl
      rw [hregisters, hbehind, ← Nat.add_assoc]
      exact fetch_of_reads hcode hdrop hreads
    | jump kind label =>
      obtain ⟨chunk, i, hdrop, hbehind, hreads, -, -, distance, target, rfl, hfind, htarget⟩ :=
        laid.exists_reads hnode rfl
      obtain ⟨t, ht, rfl⟩ := laid.label _ _ hfind
      refine ⟨distance, t, ht, ?_, ?_⟩
      · rw [hbehind]
        exact_mod_cast htarget
      · rw [hregisters, hbehind, ← Nat.add_assoc]
        exact fetch_of_reads hcode hdrop hreads

/-! ### Instructions that go on -/

/-- A jump of this kind is taken, or it is not, as the value on top decides. -/
def Decides (kind : JumpKind) (p : Execution) (taken : Bool) : Prop :=
  match kind with
  | .always => taken = true
  | .ifTrue => ∃ value, p.stack.peek 0 = .ok value ∧ condition p.machine value = .ok taken
  | .ifFalse => ∃ value, p.stack.peek 0 = .ok value ∧ condition p.machine value = .ok !taken

/-- What a jump of this kind leaves, which has popped the value that it asks. -/
def afterJump (kind : JumpKind) (p : Execution) : Execution :=
  match kind with
  | .always => p
  | .ifTrue | .ifFalse => ⟨p.machine, p.stack.restore (p.stack.sp + 8) p.stack.fp⟩

/-- A jump that is decided goes on where it leads to, or behind itself. -/
lemma perform_jump (host : Host) (sender : Sender) {taken : Bool} {target : ℕ}
    (hdecides : Decides kind p taken) (htarget : jumpTarget r.pc distance = .ok target) :
    perform host sender r (.jump kind distance) p =
      .ok (some { r with pc := if taken then target else r.pc }) (afterJump kind p) := by
  have hgo : ∀ q, (if taken then do
        return some { r with pc := ← ask fun _ => jumpTarget r.pc distance }
      else return some r : ExecutionM (Option Registers)) q =
      .ok (some { r with pc := if taken then target else r.pc }) q := by
    intro q
    cases taken with
    | true => exact run_bind_of_ok (ask_eq_ok_iff.mpr ⟨htarget, rfl⟩)
    | false => rfl
  cases kind with
  | always =>
    obtain rfl : taken = true := hdecides
    exact hgo p
  | ifTrue =>
    obtain ⟨value, hpeek, hcondition⟩ := hdecides
    refine (run_bind_of_ok (pop_of_peek hpeek)).trans ?_
    exact (run_bind_of_ok (run_askMachine_of_ok hcondition)).trans (hgo _)
  | ifFalse =>
    obtain ⟨value, hpeek, hcondition⟩ := hdecides
    have hnot : (do return !(← condition p.machine value) : Except MachineError Bool) =
        .ok taken := bind_eq_ok_iff.mpr ⟨!taken, hcondition, by simp [pure, Except.pure]⟩
    refine (run_bind_of_ok (pop_of_peek hpeek)).trans ?_
    exact (run_bind_of_ok (run_askMachine_of_ok hnot)).trans (hgo _)

/-- A jump from the end of a node over the distance to the beginning of another leads there. -/
lemma jumpTarget_start (laid : code.LaidOut layout bytes)
    (hsize : header.initialPc + layout.total < 2 ^ 64) {t : ℕ}
    (hdistance : (layout.start k : ℤ) + distance = layout.start t) :
    jumpTarget (header.initialPc + layout.start k) distance =
      .ok (header.initialPc + layout.start t) := by
  have hle := laid.start_le t
  have hsum : ((header.initialPc + layout.start k : ℕ) : ℤ) + distance =
      (header.initialPc + layout.start t : ℕ) := by
    push_cast
    omega
  rw [jumpTarget, hsum, if_pos ⟨by omega, by omega⟩, Int.toNat_natCast]

/-- A jump that succeeds is decided. -/
lemma exists_decides (h : perform host sender r (.jump kind distance) p = .ok o q) :
    ∃ taken, Decides kind p taken := by
  cases kind with
  | always => exact ⟨true, rfl⟩
  | ifTrue =>
    obtain ⟨value, s, hpop, h⟩ := onStack_bind_eq_ok_iff.mp h
    obtain ⟨hlive, hload, -⟩ := Stack.pop_eq_ok_iff.mp hpop
    obtain ⟨taken, hcondition, -⟩ := askMachine_bind_eq_ok_iff.mp h
    exact ⟨taken, value, Stack.peek_eq_ok_iff.mpr ⟨by omega, hload⟩, hcondition⟩
  | ifFalse =>
    obtain ⟨value, s, hpop, h⟩ := onStack_bind_eq_ok_iff.mp h
    obtain ⟨hlive, hload, -⟩ := Stack.pop_eq_ok_iff.mp hpop
    obtain ⟨taken, hnot, -⟩ := askMachine_bind_eq_ok_iff.mp h
    obtain ⟨holds, hcondition, hnot⟩ := bind_eq_ok_iff.mp hnot
    obtain rfl : (!holds) = taken := Except.ok.inj hnot
    exact ⟨!holds, value, Stack.peek_eq_ok_iff.mpr ⟨by omega, hload⟩, by simpa using hcondition⟩

/-- An instruction that neither jumps nor returns goes on behind itself, unless it activates a
method. -/
lemma eq_some_of_perform (hreturn : ∀ value, instruction ≠ .return value)
    (hjump : ∀ kind distance, instruction ≠ .jump kind distance)
    (hactivates : ∀ argumentCount method, ¬Activates r p instruction argumentCount method)
    (h : perform host sender r instruction p = .ok o q) : o = some r := by
  by_cases hsend : IsSend instruction
  · obtain ⟨r', rfl, result⟩ := sendResult_of_perform hsend h
    cases result with
    | inlined => rfl
    | answered => rfl
    | activated hactivates' => exact absurd hactivates' (hactivates _ _)
  cases instruction with
  | pushVariable | pushLiteral | pushConstant | dup =>
    obtain ⟨_, _, -, h⟩ := run_bind_eq_ok_iff.mp h
    obtain ⟨_, _, -, h⟩ := run_bind_eq_ok_iff.mp h
    exact (pure_eq_ok_iff.mp h).1.symm
  | pushCharacter | pop =>
    obtain ⟨_, _, -, h⟩ := run_bind_eq_ok_iff.mp h
    exact (pure_eq_ok_iff.mp h).1.symm
  | pushInteger n =>
    unfold perform at h
    cases hvalue : Value.ofInt? n with
    | none =>
      simp only [hvalue] at h
      exact absurd h (throw_ne_ok _)
    | some value =>
      simp only [hvalue] at h
      obtain ⟨_, _, -, h⟩ := run_bind_eq_ok_iff.mp h
      exact (pure_eq_ok_iff.mp h).1.symm
  | nop => exact (pure_eq_ok_iff.mp h).1.symm
  | store place index popping =>
    obtain ⟨_, _, -, h⟩ := run_bind_eq_ok_iff.mp h
    obtain ⟨_, _, -, h⟩ := run_bind_eq_ok_iff.mp h
    cases popping with
    | false => exact (pure_eq_ok_iff.mp h).1.symm
    | true =>
      obtain ⟨_, _, -, h⟩ := run_bind_eq_ok_iff.mp h
      exact (pure_eq_ok_iff.mp h).1.symm
  | «return» value => exact absurd rfl (hreturn value)
  | jump kind distance => exact absurd rfl (hjump kind distance)
  | sendSpecial | send => exact absurd trivial hsend

namespace Moment

variable {m m' : Moment}

/-! ### One instruction at a node -/

section Node

variable (laid : code.LaidOut layout bytes) (hcode : m.heap.HasCode method header bytes)
  (hregisters : m.registers = registersAt method header layout k) (hnext : code.IsNext k j)

include laid hcode hregisters hnext in
/-- Whatever is carried out at a node, it lies at the next node, and the program counter behind it is
at the node that follows. -/
lemma behind_eq (hfetch : fetch m.heap m.registers = .ok (instruction, next)) :
    j < code.nodes.size ∧ m.behind next = registersAt method header layout (j + 1) := by
  have fetches := fetchesNode hcode laid hnext
  rw [FetchesNode, ← hregisters, hfetch] at fetches
  have hbehind : next = header.initialPc + layout.start (j + 1) →
      m.behind next = registersAt method header layout (j + 1) := by
    rintro rfl
    rw [behind, hregisters, registersAt, registersAt]
  cases hnode : code.nodes[j]? with
  | none =>
    rw [hnode] at fetches
    cases fetches.2
  | some node =>
    refine ⟨(Array.getElem?_eq_some_iff.mp hnode).1, hbehind ?_⟩
    rw [hnode] at fetches
    cases node with
    | bind label => exact fetches.elim
    | instruction i => exact (Prod.mk.inj (Except.ok.inj fetches)).2
    | jump kind label =>
      obtain ⟨distance, t, -, -, hjump⟩ := fetches
      exact (Prod.mk.inj (Except.ok.inj hjump)).2

include laid hcode hregisters hnext in
/-- At the node of an instruction this is what is fetched. -/
lemma eq_of_fetch_instruction {i : Instruction} (hnode : code.nodes[j]? = some (.instruction i))
    (hfetch : fetch m.heap m.registers = .ok (instruction, next)) : instruction = i := by
  have fetches := fetchesNode hcode laid hnext
  rw [FetchesNode, hnode, ← hregisters, hfetch] at fetches
  exact (Prod.mk.inj (Except.ok.inj fetches)).1

variable (host) in
include laid hcode hregisters hnext in
/-- A jump to a label that is decided goes on where the label stands, or at the node that follows. -/
lemma exists_performs_jump (hsize : header.initialPc + layout.total < 2 ^ 64) {label : Label}
    (hnode : code.nodes[j]? = some (.jump kind label)) :
    ∃ distance t, code.nodes[t]? = some (.bind label) ∧
      fetch m.heap m.registers =
        .ok (.jump kind distance, header.initialPc + layout.start (j + 1)) ∧
      ∀ taken, m.steps ≠ 0 → Decides kind m.execution taken →
        ∃ q, m.Performs host (.jump kind distance) (header.initialPc + layout.start (j + 1))
          (some (registersAt method header layout (if taken then t else j + 1))) q := by
  have fetches := fetchesNode hcode laid hnext
  rw [FetchesNode, hnode, ← hregisters] at fetches
  obtain ⟨distance, t, ht, hdistance, hfetch⟩ := fetches
  refine ⟨distance, t, ht, hfetch, fun taken hsteps hdecides => ?_⟩
  have htarget := jumpTarget_start laid hsize hdistance
  have hbehind := (behind_eq laid hcode hregisters hnext hfetch).2
  have hperform := perform_jump (r := registersAt method header layout (j + 1)) host
    (m.sender host) hdecides htarget
  refine ⟨afterJump kind m.execution, hsteps, hfetch, ?_⟩
  rw [hbehind, hperform]
  cases taken <;> rfl

end Node

/-! ### Frames at nodes -/

/-- The registers of the frames of a run, of the running one first. -/
def frames (m : Moment) : List Registers :=
  m.registers :: m.callers.map Caller.registers

/-- The method has its code, and each of its frames is at the beginning of a node. -/
structure Sound (code : Code) (layout : Layout) (bytes : List UInt8) (method : Value)
    (header : MethodHeader) (m : Moment) : Prop where
  hasCode : m.heap.HasCode method header bytes
  frames : ∀ r ∈ m.frames, r.method = method →
    ∃ k ≤ code.nodes.size, r = registersAt method header layout k

namespace Sound

variable (sound : m.Sound code layout bytes method header) (laid : code.LaidOut layout bytes)

include sound in
/-- The running frame is at the beginning of a node, if it is one of the method. -/
lemma exists_eq (hmethod : m.registers.method = method) :
    ∃ k ≤ code.nodes.size, m.registers = registersAt method header layout k :=
  sound.frames _ List.mem_cons_self hmethod

include sound laid in
/-- Behind an instruction of the method is the beginning of a node. -/
lemma exists_behind_eq (hmethod : m.registers.method = method)
    (hfetch : fetch m.heap m.registers = .ok (instruction, next)) :
    ∃ k ≤ code.nodes.size, m.behind next = registersAt method header layout k := by
  obtain ⟨k, hk, hregisters⟩ := sound.exists_eq hmethod
  obtain ⟨j, hnext⟩ := code.exists_isNext hk
  obtain ⟨hj, hbehind⟩ := behind_eq laid sound.hasCode hregisters hnext hfetch
  exact ⟨j + 1, hj, hbehind⟩

end Sound

/-- A successful instruction that neither returns nor activates a method goes on behind itself, or
it is a jump to a label and goes on where it leads to. -/
lemma exists_registersAt_of_performs (laid : code.LaidOut layout bytes)
    (hcode : m.heap.HasCode method header bytes) (hlabels : code.JumpsToLabels)
    (hsize : header.initialPc + layout.total < 2 ^ 64)
    (hregisters : m.registers = registersAt method header layout k) (hnext : code.IsNext k j)
    (step : m.Performs host instruction next (some r) q)
    (hreturn : ∀ value, instruction ≠ .return value)
    (hactivates : ∀ argumentCount method,
      ¬Activates (m.behind next) m.execution instruction argumentCount method) :
    (∃ i, code.nodes[j]? = some (.instruction i) ∧
      r = registersAt method header layout (j + 1)) ∨
    ∃ kind label t taken, code.nodes[j]? = some (.jump kind label) ∧
      code.nodes[t]? = some (.bind label) ∧ Decides kind m.execution taken ∧
      r = registersAt method header layout (if taken then t else j + 1) := by
  obtain ⟨hj, hbehind⟩ := behind_eq laid hcode hregisters hnext step.fetch
  cases hnode : code.nodes[j]? with
  | none => exact absurd (Array.getElem?_eq_none_iff.mp hnode) (by omega)
  | some node =>
    cases node with
    | bind label => exact absurd hnode (hnext.not_bind label)
    | instruction i =>
      obtain rfl := eq_of_fetch_instruction laid hcode hregisters hnext hnode step.fetch
      have hjump : ∀ kind distance, instruction ≠ .jump kind distance := by
        rintro kind distance rfl
        exact hlabels kind distance (Array.mem_of_getElem? hnode)
      have hsome := eq_some_of_perform hreturn hjump hactivates step.perform
      exact .inl ⟨instruction, rfl, (Option.some.inj hsome).trans hbehind⟩
    | jump kind label =>
      obtain ⟨distance, t, ht, hfetch, hgo⟩ :=
        exists_performs_jump host laid hcode hregisters hnext hsize hnode
      obtain ⟨rfl, rfl⟩ := Prod.mk.inj (Except.ok.inj (step.fetch.symm.trans hfetch))
      obtain ⟨taken, hdecides⟩ := exists_decides step.perform
      obtain ⟨q', performs⟩ := hgo taken step.steps hdecides
      obtain ⟨-, -, hsome, -⟩ := step.unique performs
      exact .inr ⟨kind, label, t, taken, rfl, ht, hdecides, Option.some.inj hsome⟩

/-- A return goes back to the nearest caller. -/
lemma exists_caller_of_return (disciplined : m.Disciplined host) (chain : m.Chain)
    {value : ReturnValue} (step : m.Performs host (.return value) next (some r) q) :
    ∃ caller rest, m.callers = caller :: rest ∧ r = caller.registers := by
  obtain ⟨_, _, q', -, -, hresumes⟩ :=
    exists_resumes_of_return disciplined chain step.steps step.fetch
  cases hcallers : m.callers with
  | nil =>
    rw [hcallers] at hresumes
    cases (step.unique hresumes).2.2.1
  | cons caller rest =>
    rw [hcallers] at hresumes
    exact ⟨caller, rest, rfl, Option.some.inj (step.unique hresumes.1).2.2.1⟩

/-- The frames of the method are at the beginning of a node at the next moment too. -/
theorem sound_of_next (laid : code.LaidOut layout bytes) (hlabels : code.JumpsToLabels)
    (hsize : header.initialPc + layout.total < 2 ^ 64) (disciplined : m.Disciplined host)
    (chain : m.Chain) (sound : m.Sound code layout bytes method header)
    (keeps : ∀ instruction next o q, m.Performs host instruction next o q →
      Heap.Keeps method m.heap q.machine.heap) (hnext : Next host m m') :
    m'.Sound code layout bytes method header := by
  have hcallers : ∀ r ∈ m.callers.map Caller.registers, r.method = method →
      ∃ k ≤ code.nodes.size, r = registersAt method header layout k :=
    fun r hr => sound.frames r (List.mem_cons_of_mem _ hr)
  cases hnext with
  | @inside instruction next r q step hreturn hactivates =>
    refine ⟨sound.hasCode.keeps (keeps _ _ _ _ step), List.forall_mem_cons.mpr ⟨?_, hcallers⟩⟩
    intro hmethod
    obtain ⟨pc, rfl, -⟩ := exists_keepsFrame disciplined chain step hreturn hactivates
    obtain ⟨k, hk, hregisters⟩ := sound.exists_eq hmethod
    obtain ⟨j, hisNext⟩ := code.exists_isNext hk
    have hj := (behind_eq laid sound.hasCode hregisters hisNext step.fetch).1
    rcases exists_registersAt_of_performs laid sound.hasCode hlabels hsize hregisters hisNext step
      hreturn hactivates with ⟨i, -, hr⟩ | ⟨kind, label, t, taken, -, ht, -, hr⟩
    · exact ⟨j + 1, hj, hr⟩
    · refine ⟨if taken then t else j + 1, ?_, hr⟩
      have ht := (Array.getElem?_eq_some_iff.mp ht).1
      cases taken
      · exact hj
      · exact ht.le
  | @call instruction next r q argumentCount activated step hactivates =>
    refine ⟨sound.hasCode.keeps (keeps _ _ _ _ step),
      List.forall_mem_cons.mpr ⟨?_, List.forall_mem_cons.mpr ⟨?_, hcallers⟩⟩⟩
    · -- The activated method begins at its first node.
      intro hmethod
      obtain ⟨header', hr, -, -, hheader, -⟩ := exists_activated step hactivates
      obtain rfl := Option.some.inj hr
      obtain rfl : activated = method := hmethod
      obtain rfl : header' = header :=
        Except.ok.inj (hheader.symm.trans sound.hasCode.reads)
      refine ⟨0, Nat.zero_le _, ?_⟩
      rw [registersAt, laid.start_zero, Nat.add_zero]
    · exact fun hmethod => sound.exists_behind_eq laid hmethod step.fetch
  | @«return» value next r q step =>
    obtain ⟨caller, rest, hcons, rfl⟩ := exists_caller_of_return disciplined chain step
    refine ⟨sound.hasCode.keeps (keeps _ _ _ _ step), ?_⟩
    rw [hcons] at hcallers
    simpa [frames, hcons] using hcallers

/-- The only failure to fetch in a frame of the method is at the end of the code. -/
lemma truncated_of_fetch (laid : code.LaidOut layout bytes)
    (hcode : m.heap.HasCode method header bytes)
    (hregisters : m.registers = registersAt method header layout k) (hnext : code.IsNext k j)
    {e : MachineError} (hfetch : fetch m.heap m.registers = .error e) :
    m.registers.pc = header.initialPc + layout.total ∧
      e = .malformedCode (.truncated m.registers.pc) := by
  have fetches := fetchesNode hcode laid hnext
  rw [FetchesNode, ← hregisters, hfetch] at fetches
  cases hnode : code.nodes[j]? with
  | none =>
    rw [hnode] at fetches
    obtain ⟨htotal, herror⟩ := fetches
    have hpc : m.registers.pc = header.initialPc + layout.total := by
      rw [hregisters, registersAt, htotal]
    rw [hpc, ← htotal]
    exact ⟨rfl, Except.error.inj herror⟩
  | some node =>
    rw [hnode] at fetches
    cases node with
    | bind label => exact fetches.elim
    | instruction i => cases fetches
    | jump kind label =>
      obtain ⟨_, _, -, -, hjump⟩ := fetches
      cases hjump

/-- After a return the caller that was nearest goes on and is no longer among the callers. -/
lemma exists_caller_of_next_return (disciplined : m.Disciplined host) (chain : m.Chain)
    {value : ReturnValue} (hfetch : fetch m.heap m.registers = .ok (.return value, next))
    (hnext : Next host m m') :
    ∃ caller, m.callers = caller :: m'.callers ∧ m'.registers = caller.registers := by
  cases hnext with
  | inside step hreturn hactivates =>
    cases step.fetch.symm.trans hfetch
    exact absurd rfl (hreturn value)
  | call step hactivates =>
    obtain ⟨_, _, hsends, -, -⟩ := hactivates
    cases step.fetch.symm.trans hfetch
    exact hsends.isSend.elim
  | «return» step =>
    obtain ⟨caller, rest, hcons, hr⟩ := exists_caller_of_return disciplined chain step
    refine ⟨caller, ?_, hr⟩
    simp only [hcons, List.tail_cons]

/-- The frame that begins a run is at its first node, if it is one of the method. -/
lemma sound_of_prepare (laid : code.LaidOut layout bytes)
    (hcode : p.machine.heap.HasCode method header bytes) {entry receiver : Value}
    {arguments : List Value} {p₀ : Execution}
    (hstart : prepare entry receiver arguments p = .ok r p₀) (steps : ℕ) :
    Sound code layout bytes method header ⟨steps, r, p₀, []⟩ := by
  obtain ⟨_, s, hpush, h⟩ := onStack_bind_eq_ok_iff.mp hstart
  obtain ⟨_, p₁, harguments, h⟩ := run_bind_eq_ok_iff.mp h
  obtain ⟨header', hheader, -, rfl, -, hmachine, -⟩ := activated_of_activate h
  obtain ⟨-, hmachine₁⟩ := pushedAll_of_forM_push harguments
  rw [hmachine₁] at hheader
  have hcode₀ : p₀.machine.heap.HasCode method header bytes := by
    rw [hmachine, hmachine₁]
    exact hcode
  refine ⟨hcode₀, List.forall_mem_singleton.mpr ?_⟩
  rintro rfl
  obtain rfl : header' = header := Except.ok.inj (hheader.symm.trans hcode.reads)
  refine ⟨0, Nat.zero_le _, ?_⟩
  rw [registersAt, laid.start_zero, Nat.add_zero]

/-! ### Runs -/

/-- A run that begins at a moment carries out the code of a method node by node. -/
structure FollowsNodes (host : Host) (start : Moment) (code : Code) (layout : Layout)
    (method : Value) (header : MethodHeader) : Prop where
  /-- A frame of the method that is about to fetch is at the beginning of a node or at the end of
  the code. -/
  at_node : ∀ m, Reaches host start m → m.registers.method = method →
    ∃ k ≤ code.nodes.size, m.registers = registersAt method header layout k
  /-- There it fetches the next node that is not the place of a label. -/
  fetches : ∀ m, Reaches host start m → ∀ k j,
    m.registers = registersAt method header layout k → code.IsNext k j →
    FetchesNode code layout method header m.heap k j
  /-- It fails to fetch only at the end of the code, since the code is cut off there. -/
  truncated : ∀ m, Reaches host start m → m.registers.method = method → ∀ e,
    fetch m.heap m.registers = .error e →
    m.registers.pc = header.initialPc + layout.total ∧
      e = .malformedCode (.truncated m.registers.pc)
  /-- A jump to a label goes on where the label stands if it is taken, else at the following node. -/
  jumps : ∀ m, Reaches host start m → ∀ k j kind label,
    m.registers = registersAt method header layout k → code.IsNext k j →
    code.nodes[j]? = some (.jump kind label) → ∀ m', Next host m m' →
    ∃ t taken, code.nodes[t]? = some (.bind label) ∧ Decides kind m.execution taken ∧
      m'.registers = registersAt method header layout (if taken then t else j + 1) ∧
      m'.callers = m.callers
  /-- Where its condition is decided a jump does not fail. -/
  decided : ∀ m, Reaches host start m → m.steps ≠ 0 → ∀ k j kind label taken,
    m.registers = registersAt method header layout k → code.IsNext k j →
    code.nodes[j]? = some (.jump kind label) → Decides kind m.execution taken →
    ∃ m', Next host m m'
  /-- Any other instruction but a return goes on at the following node. If it activates a method, it
  is the caller that waits there. -/
  continues : ∀ m, Reaches host start m → ∀ k j i,
    m.registers = registersAt method header layout k → code.IsNext k j →
    code.nodes[j]? = some (.instruction i) → (∀ value, i ≠ .return value) →
    ∀ m', Next host m m' →
    (m'.registers = registersAt method header layout (j + 1) ∧ m'.callers = m.callers) ∨
      ∃ caller, caller.registers = registersAt method header layout (j + 1) ∧
        m'.callers = caller :: m.callers
  /-- A return, of this or of any other method, goes on where the nearest caller waits. -/
  returns : ∀ m, Reaches host start m → ∀ value next,
    fetch m.heap m.registers = .ok (.return value, next) → ∀ m', Next host m m' →
    ∃ caller, m.callers = caller :: m'.callers ∧ m'.registers = caller.registers

/-- At the node of a jump, the moment that follows is where the label stands or at the following
node. -/
lemma exists_of_next_jump (laid : code.LaidOut layout bytes) (hlabels : code.JumpsToLabels)
    (hsize : header.initialPc + layout.total < 2 ^ 64)
    (sound : m.Sound code layout bytes method header)
    (hregisters : m.registers = registersAt method header layout k) (hisNext : code.IsNext k j)
    {label : Label} (hnode : code.nodes[j]? = some (.jump kind label)) (hnext : Next host m m') :
    ∃ t taken, code.nodes[t]? = some (.bind label) ∧ Decides kind m.execution taken ∧
      m'.registers = registersAt method header layout (if taken then t else j + 1) ∧
      m'.callers = m.callers := by
  obtain ⟨distance, _, -, hfetch, -⟩ :=
    exists_performs_jump host laid sound.hasCode hregisters hisNext hsize hnode
  cases hnext with
  | @inside instruction next r q step hreturn hactivates =>
    rcases exists_registersAt_of_performs laid sound.hasCode hlabels hsize hregisters hisNext step
      hreturn hactivates with ⟨i, hi, -⟩ | ⟨kind', label', t, taken, hjump, ht, hdecides, hr⟩
    · cases hnode.symm.trans hi
    · cases hnode.symm.trans hjump
      exact ⟨t, taken, ht, hdecides, hr, rfl⟩
  | call step hactivates =>
    obtain ⟨_, _, hsends, -, -⟩ := hactivates
    cases step.fetch.symm.trans hfetch
    exact hsends.isSend.elim
  | «return» step => cases step.fetch.symm.trans hfetch

/-- At the node of an instruction that does not return, the moment that follows is at the following
node, or the caller waits there. -/
lemma registers_or_exists_caller_of_next (laid : code.LaidOut layout bytes)
    (hlabels : code.JumpsToLabels) (hsize : header.initialPc + layout.total < 2 ^ 64)
    (sound : m.Sound code layout bytes method header)
    (hregisters : m.registers = registersAt method header layout k) (hisNext : code.IsNext k j)
    {i : Instruction} (hnode : code.nodes[j]? = some (.instruction i))
    (hreturn : ∀ value, i ≠ .return value) (hnext : Next host m m') :
    (m'.registers = registersAt method header layout (j + 1) ∧ m'.callers = m.callers) ∨
      ∃ caller, caller.registers = registersAt method header layout (j + 1) ∧
        m'.callers = caller :: m.callers := by
  cases hnext with
  | @inside instruction next r q step hreturn hactivates =>
    rcases exists_registersAt_of_performs laid sound.hasCode hlabels hsize hregisters hisNext step
      hreturn hactivates with ⟨_, -, hr⟩ | ⟨kind, label, t, taken, hjump, -, -, -⟩
    · exact .inl ⟨hr, rfl⟩
    · cases hnode.symm.trans hjump
  | call step hactivates =>
    exact .inr ⟨_, (behind_eq laid sound.hasCode hregisters hisNext step.fetch).2, rfl⟩
  | @«return» value next r q step =>
    exact absurd (eq_of_fetch_instruction laid sound.hasCode hregisters hisNext hnode step.fetch).symm
      (hreturn value)

/-- A method that was generated from code whose jumps lead to labels is carried out node by node, in
every disciplined run that does not store into the method, however deep the sends are nested. -/
theorem followsNodes_of_disciplined {s : ObjectMap} {h₁ : Heap} {entry receiver : Value}
    {arguments : List Value} {p₀ : Execution} {classIndex argumentCount tempCount : ℕ}
    (rep : h.Represents s)
    (hgenerate : code.generate classIndex argumentCount tempCount h = .ok method h₁)
    (hlabels : code.JumpsToLabels) (steps : ℕ)
    (hgenerated : Heap.Keeps method h₁ p.machine.heap) (hstack : p.stack.size < 2 ^ 64)
    (hentry : p.machine.heap.isCompiledMethod entry = true)
    (hstart : prepare entry receiver arguments p = .ok r p₀)
    (disciplined : ∀ m, Reaches host ⟨steps, r, p₀, []⟩ m → m.Disciplined host)
    (unstored : ∀ m, Reaches host ⟨steps, r, p₀, []⟩ m → ∀ instruction next o q,
      m.Performs host instruction next o q → Heap.Keeps method m.heap q.machine.heap) :
    ∃ layout, code.layout = .ok layout ∧
      FollowsNodes host ⟨steps, r, p₀, []⟩ code layout method
        ⟨code.literals.size, tempCount, argumentCount⟩ := by
  obtain ⟨bytes, hassemble, hcode, hsize⟩ := Code.hasCode_of_generate rep hgenerate
  obtain ⟨layout, laid⟩ := Code.exists_laidOut hassemble
  rw [laid.length] at hsize
  have chain : ∀ m, Reaches host ⟨steps, r, p₀, []⟩ m → m.Chain := fun m hreaches =>
    chain_of_reaches disciplined (chain_of_prepare hstack hentry hstart steps) hreaches
  have sound : ∀ m, Reaches host ⟨steps, r, p₀, []⟩ m →
      m.Sound code layout bytes method ⟨code.literals.size, tempCount, argumentCount⟩ := by
    intro m hreaches
    induction hreaches with
    | refl => exact sound_of_prepare laid (hcode.keeps hgenerated) hstart steps
    | tail hreaches hnext ih =>
      exact sound_of_next laid hlabels hsize (disciplined _ hreaches) (chain _ hreaches) ih
        (unstored _ hreaches) hnext
  refine ⟨layout, laid.layout_eq, ?_⟩
  constructor
  case at_node => exact fun m hreaches hmethod => (sound m hreaches).exists_eq hmethod
  case fetches =>
    exact fun m hreaches k j _ hisNext => fetchesNode (sound m hreaches).hasCode laid hisNext
  case truncated =>
    intro m hreaches hmethod e hfetch
    obtain ⟨k, hk, hregisters⟩ := (sound m hreaches).exists_eq hmethod
    obtain ⟨j, hisNext⟩ := code.exists_isNext hk
    exact truncated_of_fetch laid (sound m hreaches).hasCode hregisters hisNext hfetch
  case jumps =>
    intro m hreaches k j kind label hregisters hisNext hnode m' hnext
    exact exists_of_next_jump laid hlabels hsize (sound m hreaches) hregisters hisNext hnode hnext
  case decided =>
    intro m hreaches hsteps k j kind label taken hregisters hisNext hnode hdecides
    obtain ⟨distance, t, -, -, hgo⟩ := exists_performs_jump host laid
      (sound m hreaches).hasCode hregisters hisNext hsize hnode
    obtain ⟨q, performs⟩ := hgo taken hsteps hdecides
    obtain ⟨callers, hnext⟩ := exists_next performs
    exact ⟨_, hnext⟩
  case continues =>
    intro m hreaches k j i hregisters hisNext hnode hreturn m' hnext
    exact registers_or_exists_caller_of_next laid hlabels hsize (sound m hreaches) hregisters
      hisNext hnode hreturn hnext
  case returns =>
    intro m hreaches value next hfetch m' hnext
    exact exists_caller_of_next_return (disciplined m hreaches) (chain m hreaches) hfetch hnext

/-- Code that puts false into its argument until that is false: a jump forward that leaves the loop,
and a jump back. -/
def fallingLoop : Code :=
  ⟨#[.bind ⟨0⟩, .instruction (.pushVariable .temporary 0), .jump .ifFalse ⟨1⟩,
    .instruction (.pushConstant .false), .instruction (.store .temporary 0 true),
    .jump .always ⟨0⟩, .bind ⟨1⟩, .instruction (.return .nil)], #[], #[true, true]⟩

/-- An execution with the method that is generated from the loop as its only object. The numbers 1
and 0 are the truth values. -/
def fallingExecution : Execution :=
  { sampleExecution with
    machine := { sampleExecution.machine with
      heap.words := #[0, 0x030000011f000000, 0x2000001, 0xf8edffe1d04ec540, 0x5b]
      heap.limit := 1024
      heap.nil := Value.zero
      heap.objectCount := 1
      trueObject := Value.ofInt 1
      falseObject := Value.ofInt 0 } }

/-- The loop is carried out node by node: from its argument 1 it jumps back once and then leaves. -/
theorem followsNodes_fallingLoop : ∃ r p₀ layout,
    (Heap.new 1024).Represents (ObjectMap.new 1024) ∧
    fallingLoop.generate 0 1 0 (Heap.new 1024) =
      .ok (Value.ofAddress 8) fallingExecution.machine.heap ∧
    fallingLoop.JumpsToLabels ∧ fallingExecution.stack.size < 2 ^ 64 ∧
    fallingExecution.machine.heap.isCompiledMethod (Value.ofAddress 8) = true ∧
    prepare (Value.ofAddress 8) (Value.ofInt 7) [Value.ofInt 1] fallingExecution = .ok r p₀ ∧
    (∀ m, Reaches Host.none ⟨20, r, p₀, []⟩ m → m.Disciplined Host.none) ∧
    (∀ m, Reaches Host.none ⟨20, r, p₀, []⟩ m → ∀ instruction next o q,
      m.Performs Host.none instruction next o q →
      Heap.Keeps (Value.ofAddress 8) m.heap q.machine.heap) ∧
    fallingLoop.layout = .ok layout ∧
    FollowsNodes Host.none ⟨20, r, p₀, []⟩ fallingLoop layout (Value.ofAddress 8) ⟨0, 0, 1⟩ := by
  have rep : (Heap.new 1024).Represents (ObjectMap.new 1024) := .new (by decide)
  have hassemble : fallingLoop.assemble = .ok [64, 197, 78, 208, 225, 255, 237, 248, 91] := by
    decide +kernel
  have hgenerate : fallingLoop.generate 0 1 0 (Heap.new 1024) =
      .ok (Value.ofAddress 8) fallingExecution.machine.heap := by
    rw [Code.generate, hassemble]
    rfl
  have hlabels : fallingLoop.JumpsToLabels := by
    intro kind distance hmem
    simp [fallingLoop] at hmem
  have hstack : fallingExecution.stack.size < 2 ^ 64 := by decide +kernel
  have hentry : fallingExecution.machine.heap.isCompiledMethod (Value.ofAddress 8) = true := by
    decide +kernel
  have hcalm : isCalmFrom Host.none 20
      (prepare (Value.ofAddress 8) (Value.ofInt 7) [Value.ofInt 1] fallingExecution) = true := by
    decide +kernel
  cases hstart : prepare (Value.ofAddress 8) (Value.ofInt 7) [Value.ofInt 1] fallingExecution with
  | error e p => simp [hstart, isCalmFrom] at hcalm
  | ok r p₀ =>
    rw [hstart, isCalmFrom] at hcalm
    have disciplined : ∀ m, Reaches Host.none ⟨20, r, p₀, []⟩ m → m.Disciplined Host.none :=
      fun m hreaches => disciplined_of_isCalm hcalm hreaches
    have unstored : ∀ m, Reaches Host.none ⟨20, r, p₀, []⟩ m → ∀ instruction next o q,
        m.Performs Host.none instruction next o q →
        Heap.Keeps (Value.ofAddress 8) m.heap q.machine.heap :=
      fun m hreaches instruction next o q step => keeps_of_isCalm hcalm hreaches step _
    obtain ⟨layout, hlayout, follows⟩ := followsNodes_of_disciplined rep hgenerate hlabels 20
      ⟨rfl, fun _ => rfl⟩ hstack hentry hstart disciplined unstored
    exact ⟨r, p₀, layout, rep, hgenerate, hlabels, hstack, hentry, rfl, disciplined, unstored,
      hlayout, follows⟩

end Moment

end Interpreter

end TalkMachine
