import TalkMachine.Proofs.Interpreter.Frames
import TalkMachine.Proofs.Method
import TalkMachine.Proofs.Stack.Topped

/-!
# What a frame holds

An `Activation` is what a frame holds: the arguments and temporaries of a running method beside the
words that the frame needs for itself. `Activation.On` says that it lies on a stack, with the operands
of the method on top. Building a frame puts an activation there (`Interpreter.exists_on_of_activate`),
the method reads and replaces its variables one by one (`Activation.On.tempAddress_eq`,
`Activation.On.assign`), and a return takes the whole away again (`Activation.On.returnValue`).
-/

namespace TalkMachine

/-! ### Activations -/

/-- What the frame of a running method holds. -/
structure Activation where
  method : Value
  receiver : Value
  context : Value
  callerFp : ℕ
  returnPc : ℕ
  arguments : List Value
  temporaries : List Value

namespace Activation

/-- The values that a method has by index: the arguments, and behind them the temporaries. -/
def locals (a : Activation) : List Value :=
  a.arguments ++ a.temporaries

/-- The words that the frame needs for itself, from the lowest one on. -/
def control (a : Activation) : List UInt64 :=
  [a.receiver.raw, a.context.raw, (FrameMetadata.ofArgumentCount a.arguments.length).pack,
    a.method.raw, UInt64.ofNat a.callerFp, UInt64.ofNat a.returnPc]

/-- All words of an activation from the lowest one on, the receiver that the caller has pushed at the
end. -/
def words (a : Activation) : List UInt64 :=
  a.temporaries.reverse.map Value.raw ++ (a.control ++
    (a.arguments.reverse.map Value.raw ++ [a.receiver.raw]))

/-- The place of a variable among the words. -/
def place (a : Activation) (index : ℕ) : ℕ :=
  if index < a.arguments.length then
    a.temporaries.length + 6 + (a.arguments.length - 1 - index)
  else a.temporaries.length - 1 - (index - a.arguments.length)

/-- The activation with another value in a variable. -/
def assign (a : Activation) (index : ℕ) (value : Value) : Activation :=
  if index < a.arguments.length then { a with arguments := a.arguments.set index value }
  else { a with temporaries := a.temporaries.set (index - a.arguments.length) value }

variable {a : Activation} {index : ℕ} {value : Value}

/-- The number of variables. -/
lemma length_locals : a.locals.length = a.arguments.length + a.temporaries.length :=
  List.length_append

/-- The number of words. -/
lemma length_words : a.words.length = a.temporaries.length + 7 + a.arguments.length := by
  simp only [words, control, List.length_append, List.length_map, List.length_reverse,
    List.length_cons, List.length_nil]
  omega

/-- A value of a reversed list is counted from its end. -/
lemma getElem?_reverse_of_lt {values : List Value} (h : index < values.length) :
    (values.reverse.map Value.raw)[values.length - 1 - index]? = some values[index].raw := by
  rw [List.getElem?_map, List.getElem?_reverse (by omega),
    show values.length - 1 - (values.length - 1 - index) = index by omega,
    List.getElem?_eq_getElem h]
  rfl

/-- A value that is replaced in a list is replaced in the reversed list, counted from its end. -/
lemma reverse_set {values : List Value} (h : index < values.length) (value : Value) :
    (values.set index value).reverse.map Value.raw =
      (values.reverse.map Value.raw).set (values.length - 1 - index) value.raw := by
  apply List.ext_getElem
  · simp
  · intro k hk hk'
    simp only [List.length_map, List.length_reverse, List.length_set] at hk
    simp only [List.getElem_map, List.getElem_reverse, List.getElem_set, List.length_set]
    by_cases hplace : values.length - 1 - index = k
    · rw [if_pos (by omega), if_pos hplace]
    · rw [if_neg (by omega), if_neg hplace]

/-- A variable is in its place. -/
lemma getElem?_words (h : a.locals[index]? = some value) :
    a.words[a.place index]? = some value.raw := by
  obtain ⟨hlt, rfl⟩ := List.getElem?_eq_some_iff.mp h
  rw [length_locals] at hlt
  unfold place words
  split
  · rename_i hargument
    have hvalue : a.locals[index] = a.arguments[index] := List.getElem_append_left hargument
    rw [List.getElem?_append_right (by simp; omega), List.getElem?_append_right (by
      simp [control]
      omega), List.getElem?_append_left (by simp [control]; omega), hvalue,
      ← getElem?_reverse_of_lt hargument]
    congr 1
    simp [control]
    omega
  · rename_i htemporary
    have hvalue : a.locals[index] = a.temporaries[index - a.arguments.length] :=
      List.getElem_append_right (by omega)
    rw [List.getElem?_append_left (by simp; omega), hvalue, getElem?_reverse_of_lt]

/-- Assigning leaves the number of arguments. -/
@[simp] lemma length_arguments_assign :
    (a.assign index value).arguments.length = a.arguments.length := by
  unfold assign
  split <;> simp

/-- Assigning leaves the number of temporaries. -/
@[simp] lemma length_temporaries_assign :
    (a.assign index value).temporaries.length = a.temporaries.length := by
  unfold assign
  split <;> simp

/-- Assigning leaves the words that the frame needs for itself. -/
@[simp] lemma control_assign : (a.assign index value).control = a.control := by
  unfold assign control
  split <;> simp

/-- Assigning leaves the receiver. -/
@[simp] lemma receiver_assign : (a.assign index value).receiver = a.receiver := by
  unfold assign
  split <;> rfl

/-- Assigning replaces one variable. -/
lemma locals_assign : (a.assign index value).locals = a.locals.set index value := by
  unfold assign locals
  split
  · rename_i h
    exact (List.set_append_left _ _ h).symm
  · rename_i h
    exact (List.set_append_right _ _ (Nat.not_lt.mp h)).symm

/-- Assigning replaces one word. -/
lemma words_assign (h : index < a.locals.length) :
    (a.assign index value).words = a.words.set (a.place index) value.raw := by
  rw [length_locals] at h
  unfold assign place words
  split
  · rename_i hargument
    rw [reverse_set hargument, List.set_append_right _ _ (by simp; omega), List.set_append_right _ _
      (by simp [control]; omega), List.set_append_left _ _ (by simp [control]; omega)]
    have hcontrol : ({ a with arguments := a.arguments.set index value } : Activation).control =
        a.control := by simp [control]
    have hplace : a.temporaries.length + 6 + (a.arguments.length - 1 - index) -
        (a.temporaries.reverse.map Value.raw).length - a.control.length =
          a.arguments.length - 1 - index := by
      simp [control]
      omega
    rw [hcontrol, hplace]
  · rename_i htemporary
    rw [reverse_set (by omega), List.set_append_left _ _ (by simp; omega)]
    rfl

/-- Assigning leaves the frame pointer of the caller. -/
@[simp] lemma callerFp_assign : (a.assign index value).callerFp = a.callerFp := by
  unfold assign
  split <;> rfl

/-- Assigning leaves the program counter to return to. -/
@[simp] lemma returnPc_assign : (a.assign index value).returnPc = a.returnPc := by
  unfold assign
  split <;> rfl

/-! ### Activations on a stack -/

/-- Whether an activation lies on the stack `base` in the frame in use, with operands on top of it,
the topmost one first. `base` is the stack of the caller without receiver and arguments. -/
structure On (a : Activation) (base : Stack) (operands : List Value) (s : Stack) : Prop where
  topped : Stack.Topped (operands.map Value.raw ++ a.words) base s
  fp : s.fp + 24 + 8 * a.arguments.length = base.sp
  arguments_lt : a.arguments.length < 256
  temporaries_lt : a.temporaries.length < 256
  size_lt : base.size < 2 ^ 64

namespace On

variable {base s s' : Stack} {operands : List Value}

/-- Below the words of the frame lie the temporaries, and below them the operands. -/
lemma sp_add (h : a.On base operands s) :
    s.sp + 8 * (operands.length + a.temporaries.length + 4) = s.fp := by
  have hsp := h.topped.sp
  have hfp := h.fp
  rw [List.length_append, List.length_map, length_words] at hsp
  omega

/-- The frame lies in the buffer. -/
lemma fp_lt (h : a.On base operands s) : s.fp + 24 + 8 * a.arguments.length ≤ s.size := by
  have hfp := h.fp
  have hsize := h.topped.same.size
  have hfits := h.topped.fits
  omega

/-- An index names the variable in its place. -/
lemma tempAddress_eq (h : a.On base operands s) (hindex : index < a.locals.length) :
    s.tempAddress a.arguments.length a.temporaries.length index =
      .ok (s.sp + 8 * (operands.length + a.place index)) := by
  have hsp := h.sp_add
  have hfp := h.fp_lt
  have hsize := h.topped.same.size
  have hlt := h.size_lt
  have htemps := h.temporaries_lt
  rw [length_locals] at hindex
  unfold place
  split
  · rename_i hargument
    rw [Stack.tempAddress_of_lt hargument h.arguments_lt (by omega)]
    congr 1
    omega
  · rename_i htemporary
    rw [Stack.tempAddress_of_ge (by omega) (by omega) htemps (by omega) (by omega)]
    congr 1
    omega

/-- The words of an activation lie behind the operands. -/
lemma getElem?_append_words (operands : List Value) (a : Activation) (k : ℕ) :
    (operands.map Value.raw ++ a.words)[operands.length + k]? = a.words[k]? := by
  rw [List.getElem?_append_right (by simp), List.length_map, Nat.add_sub_cancel_left]

/-- A variable is read at its address. -/
lemma readValue (h : a.On base operands s) (hvalue : a.locals[index]? = some value) :
    s.readValue (s.sp + 8 * (operands.length + a.place index)) = .ok value := by
  apply h.topped.readValue
  rw [getElem?_append_words, getElem?_words hvalue]

/-- The place of a variable is one of the words. -/
lemma place_lt (hindex : index < a.locals.length) : a.place index < a.words.length := by
  have hvalue := getElem?_words (List.getElem?_eq_getElem hindex)
  exact (List.getElem?_eq_some_iff.mp hvalue).1

/-- A variable is assigned by a write to its address. -/
lemma assign (h : a.On base operands s) (hindex : index < a.locals.length) (value : Value) :
    Stack.write (s.sp + 8 * (operands.length + a.place index)) value.raw s =
        .ok () (s.writeWord (s.sp + 8 * (operands.length + a.place index)) value.raw) ∧
      (a.assign index value).On base operands
        (s.writeWord (s.sp + 8 * (operands.length + a.place index)) value.raw) := by
  have hplace : operands.length + a.place index < (operands.map Value.raw ++ a.words).length := by
    have hlt := place_lt hindex
    rw [List.length_append, List.length_map]
    omega
  have hwritten := h.topped.writeWord hplace value.raw
  rw [List.set_append_right _ _ (by simp), List.length_map, Nat.add_sub_cancel_left,
    ← words_assign hindex] at hwritten
  refine ⟨Stack.write_eq_ok_iff.mpr ⟨by omega, h.topped.live hplace, rfl⟩, hwritten, ?_, ?_, ?_,
    h.size_lt⟩
  · rw [Stack.fp_writeWord, length_arguments_assign]
    exact h.fp
  · rw [length_arguments_assign]
    exact h.arguments_lt
  · rw [length_temporaries_assign]
    exact h.temporaries_lt

/-- An operand is pushed. -/
lemma push (h : a.On base operands s) (hpush : Stack.Pushed value.raw s s') :
    a.On base (value :: operands) s' := by
  refine ⟨h.topped.push hpush, ?_, h.arguments_lt, h.temporaries_lt, h.size_lt⟩
  rw [hpush.fp]
  exact h.fp

/-- Operands are dropped. -/
lemma drop {front : List Value} (h : a.On base (front ++ operands) s) :
    a.On base operands (s.restore (s.sp + 8 * front.length) s.fp) := by
  have htopped := h.topped
  rw [List.map_append, List.append_assoc] at htopped
  have hdropped := htopped.drop
  rw [List.length_map] at hdropped
  exact ⟨hdropped, h.fp, h.arguments_lt, h.temporaries_lt, h.size_lt⟩

/-- The words that the frame needs for itself lie around the frame pointer. -/
lemma load_control (h : a.On base operands s) {k : ℕ} {word : UInt64}
    (hword : a.control[k]? = some word) : s.load 8 (s.fp - 32 + 8 * k) = word := by
  have hsp := h.sp_add
  have hlt := (List.getElem?_eq_some_iff.mp hword).1
  have hplace : a.words[a.temporaries.length + k]? = some word := by
    rw [words, List.getElem?_append_right (by simp), List.length_map, List.length_reverse,
      Nat.add_sub_cancel_left, List.getElem?_append_left hlt, hword]
  rw [← h.topped.load _ _ ((getElem?_append_words operands a _).trans hplace)]
  congr 1
  omega

/-! ### Returns -/

/-- A return takes an activation off its stack, with all operands, and puts the value there. -/
theorem returnValue (h : a.On base operands s) (m : Machine) (value : Value) :
    ∃ s', Stack.Topped [value.raw] base s' ∧ s'.fp = (UInt64.ofNat a.callerFp).toNat ∧
      Interpreter.returnValue value ⟨m, s⟩ =
        Interpreter.resume (UInt64.ofNat a.returnPc).toNat ⟨m, s'⟩ := by
  have hsp := h.sp_add
  have hfp := h.fp_lt
  have hbase := h.fp
  have hsize := h.topped.same.size
  have hlt := h.size_lt
  have hmetadata : s.load 8 (s.fp - 16) =
      (FrameMetadata.ofArgumentCount a.arguments.length).pack := by
    rw [show s.fp - 16 = s.fp - 32 + 8 * 2 by omega]
    exact h.load_control rfl
  have hcaller : s.load 8 s.fp = UInt64.ofNat a.callerFp := by
    rw [show s.fp = s.fp - 32 + 8 * 4 by omega]
    exact h.load_control rfl
  have hreturn : s.load 8 (s.fp + 8) = UInt64.ofNat a.returnPc := by
    rw [show s.fp + 8 = s.fp - 32 + 8 * 5 by omega]
    exact h.load_control rfl
  obtain ⟨s', down, heq⟩ := Interpreter.exists_takenDown (p := ⟨m, s⟩) value
    (by rw [hmetadata, FrameMetadata.argumentCount_unpack h.arguments_lt]) (by dsimp only; omega)
    (by dsimp only; omega) hfp
  have hsame := down.same
  have hsp' := down.sp
  dsimp only at hsame hsp'
  rw [hbase] at hsame
  refine ⟨s', ⟨?_, h.topped.same.trans hsame, fun k word hword => ?_, h.topped.fits⟩, ?_, ?_⟩
  · rw [List.length_singleton]
    omega
  · obtain ⟨rfl, rfl⟩ : k = 0 ∧ value.raw = word := by
      simpa [List.getElem?_singleton] using hword
    exact down.top
  · rw [down.fp]
    exact congrArg UInt64.toNat hcaller
  · rw [heq]
    dsimp only
    rw [hreturn]

end On

end Activation

/-! ### Building a frame -/

/-- To activate a method on top of its receiver and arguments puts an activation there, in which the
temporaries are nil. -/
theorem Interpreter.exists_on_of_activate {p p' : Execution} {r : Registers} {base : Stack}
    {method receiver : Value} {arguments : List Value} {returnPc : ℕ}
    (htopped : Stack.Topped (arguments.reverse.map Value.raw ++ [receiver.raw]) base p.stack)
    (hsize : base.size < 2 ^ 64) (h : activate method returnPc arguments.length p = .ok r p') :
    ∃ header, p.machine.heap.methodHeader method = .ok header ∧
      header.argumentCount = arguments.length ∧ r = ⟨method, header, header.initialPc⟩ ∧
      p'.machine = p.machine ∧
      Activation.On ⟨method, receiver, p.machine.nil, p.stack.fp, returnPc, arguments,
        List.replicate header.tempCount p.machine.nil⟩ base [] p'.stack := by
  obtain ⟨header, receiver', s₁, s₂, hheader, hcount, hr, hreceiver, hmachine, hreturn, hcaller,
    hrest⟩ := pushes_of_activate h
  have hpeek : p.stack.peek arguments.length = .ok receiver := by
    apply htopped.peek
    rw [List.getElem?_append_right (by simp)]
    simp
  obtain rfl : receiver = receiver' := Except.ok.inj (hpeek.symm.trans hreceiver)
  obtain ⟨hargs, htemps⟩ := Heap.counts_lt_of_methodHeader hheader
  refine ⟨header, hheader, hcount, hr, hmachine, ?_, ?_, ?_, ?_, hsize⟩
  · have hframe := (((htopped.push hreturn).push hcaller).setFp s₂.sp).pushAll hrest
    simpa [Activation.words, Activation.control, hcount] using hframe
  · have hsp := htopped.sp
    have hsp₁ := hreturn.sp
    have hsp₂ := hcaller.sp
    rw [hrest.fp, Stack.fp_restore]
    simp only [List.length_append, List.length_map, List.length_reverse,
      List.length_singleton] at hsp
    dsimp only
    omega
  · dsimp only
    omega
  · simpa using htemps

end TalkMachine
