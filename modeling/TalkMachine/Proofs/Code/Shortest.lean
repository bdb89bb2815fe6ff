import TalkMachine.Proofs.Code.EmptyJump

/-!
# The shortest encoding

Every instruction that can be read can be written, and no bytes that are read as it are fewer than
those written. What the extensions hold is carried by as many bytes as have been read for them
(`Extensions.CarriedBy`); extensions of the other kind, and extensions in front of an operation that
ignores them, only add to these numbers. So when the operation is reached, the widths that writing
computes are no greater than the numbers of extensions read (`Instruction.encodesWithin_of_long?`).
-/

namespace TalkMachine

/-! ### Extensions -/

namespace Extensions

variable {e : Extensions} {a b : ℕ}

/-- Extensions whose unsigned part has been read from at most `a` bytes and whose signed part from
at most `b`. -/
structure CarriedBy (e : Extensions) (a b : ℕ) : Prop where
  unsigned : unsignedWidth e.unsigned ≤ a
  signed : signedWidth e.signed ≤ b
  /-- The sign is known just when a byte has been read. -/
  seen : e.signedSeen = decide (0 < b)

/-- Before the first extension nothing has been read. -/
lemma carriedBy_none : none.CarriedBy 0 0 :=
  ⟨by decide, by decide, rfl⟩

/-- A byte behind the unsigned extension makes it one byte wider. -/
lemma CarriedBy.extendUnsigned (h : e.CarriedBy a b) (byte : UInt8) :
    (e.extendUnsigned byte).CarriedBy (a + 1) b := by
  have hbyte := byte.toNat_lt
  refine ⟨?_, h.signed, h.seen⟩
  have hunsigned := (unsignedWidth_le_iff e.unsigned a).mp h.unsigned
  show unsignedWidth (e.unsigned * 256 + byte.toNat) ≤ a + 1
  rw [unsignedWidth_le_iff, pow_succ]
  omega

/-- A byte behind the signed extension makes it one byte wider. -/
lemma CarriedBy.extendSigned (h : e.CarriedBy a b) (byte : UInt8) :
    (e.extendSigned byte).CarriedBy a (b + 1) := by
  have hbyte := byte.toNat_lt
  obtain ⟨hlow, hhigh⟩ := (signedWidth_le_iff e.signed b).mp h.signed
  unfold Extensions.extendSigned
  cases b with
  | zero =>
    have hseen : e.signedSeen = false := h.seen
    simp only [hseen, Bool.false_eq_true, if_false]
    refine ⟨h.unsigned, ?_, rfl⟩
    show signedWidth (signedByte byte) ≤ 1
    rw [signedWidth_le_iff]
    unfold signedByte
    split <;> omega
  | succ b =>
    have hseen : e.signedSeen = true := h.seen
    simp only [hseen, if_true]
    refine ⟨h.unsigned, ?_, by simp⟩
    show signedWidth (e.signed * 256 + byte.toNat) ≤ b + 1 + 1
    -- The power is even, so the double of the extension stays two below it.
    rw [pow_256_succ] at hlow hhigh
    rw [signedWidth_le_iff, pow_succ, pow_256_succ]
    omega

/-- An extension of either kind counts for one byte more. -/
lemma CarriedBy.extend {op : Op} {extend : Extensions → UInt8 → Extensions}
    (h : e.CarriedBy a b) (hextend : op.extend? = some extend) (byte : UInt8) :
    ∃ a' b', a' + b' = a + b + 1 ∧ (extend e byte).CarriedBy a' b' := by
  cases op <;> simp only [Op.extend?, reduceCtorEq, Option.some.injEq] at hextend
  · subst hextend
    exact ⟨a + 1, b, by omega, h.extendUnsigned byte⟩
  · subst hextend
    exact ⟨a, b + 1, by omega, h.extendSigned byte⟩

/-- What stands in front of the operand byte is the unsigned extension. -/
lemma unsignedOperand_div (e : Extensions) (byte : UInt8) :
    e.unsignedOperand byte / 256 = e.unsigned := by
  have hbyte := byte.toNat_lt
  unfold unsignedOperand
  omega

/-- What stands in front of the operand byte is the signed extension. -/
lemma signedOperand_div (e : Extensions) (byte : UInt8) :
    e.signedOperand byte / 256 = e.signed := by
  have hbyte := byte.toNat_lt
  unfold signedOperand
  omega

end Extensions

/-! ### Operations -/

/-- A byte of a short form is the byte that keeps its operand. -/
lemma Opcode.byte?_ofByte_of_short? {byte : UInt8} {i : Instruction}
    (hshort : (Opcode.ofByte byte).op.short? (Opcode.ofByte byte).embedded = some i) :
    (Opcode.ofByte byte).op.byte? (Opcode.ofByte byte).embedded = some byte := by
  have hassigned : (Opcode.ofByte byte).op ≠ .unassigned := by
    intro hop
    rw [hop] at hshort
    cases hshort
  have hall : ∀ n < 256, (Opcode.find n).op ≠ .unassigned →
      (Opcode.find n).op.byte? (Opcode.find n).embedded = some (UInt8.ofNat n) := by
    decide +kernel
  rw [Opcode.ofByte_eq_find] at hassigned ⊢
  simpa using hall byte.toNat byte.toNat_lt hassigned

/-- An operand that an operation keeps in its byte lies in its run. -/
lemma Op.lt_shortCount {op : Op} {k : ℕ} {byte : UInt8} (h : op.byte? k = some byte) :
    k < op.shortCount := by
  unfold Op.byte? at h
  unfold Op.shortCount
  split at h
  · split at h
    · assumption
    · cases h
  · cases h

/-- The long form with an unsigned operand takes as many extensions as the operand needs. -/
lemma Op.exists_longUnsigned (op : Op) {n a : ℕ} (hn : unsignedWidth (n / 256) ≤ a)
    (ha : a ≤ maxExtensions) :
    ∃ bytes, op.longUnsigned n = .ok bytes ∧ bytes.length ≤ 2 * a + 2 := by
  refine ⟨_, if_neg (by omega), ?_⟩
  simp only [List.length_append, Instruction.length_extensionBytes, List.length_cons,
    List.length_nil]
  omega

/-- The form that an index selects is no longer than the long form. -/
lemma Op.exists_indexed (short : Option Op) (long : Op) {n a : ℕ}
    (hn : unsignedWidth (n / 256) ≤ a) (ha : a ≤ maxExtensions) :
    ∃ bytes, Op.indexed short long n = .ok bytes ∧ bytes.length ≤ 2 * a + 2 := by
  unfold Op.indexed
  split
  · exact ⟨_, rfl, by simp⟩
  · exact long.exists_longUnsigned hn ha

/-! ### Jumps -/

/-- A jump that fits a size is written in no more bytes. -/
lemma Jump.exists_encodeShortest (kind : JumpKind) {distance : ℤ} {size : ℕ}
    (hsize : size ∈ Jump.sizes) (hfits : Jump.fits distance size = true) :
    ∃ bytes, Jump.encodeShortest kind distance = .ok bytes ∧ bytes.length ≤ size := by
  have hsome : (Jump.sizes.find? (Jump.fits distance)).isSome = true :=
    List.find?_isSome.mpr ⟨size, hsize, hfits⟩
  obtain ⟨least, hleast⟩ := Option.isSome_iff_exists.mp hsome
  obtain ⟨hfits', before, behind, hsplit, hbefore⟩ := List.find?_eq_some_iff_append.mp hleast
  have hsorted : Jump.sizes.Pairwise (· < ·) := by decide
  have hle : least ≤ size := by
    rw [hsplit] at hsize hsorted
    rcases List.mem_append.mp hsize with hmem | hmem
    · have := hbefore size hmem
      simp [hfits] at this
    · rcases List.mem_cons.mp hmem with rfl | hmem
      · exact le_rfl
      · have hbehind := (List.pairwise_append.mp hsorted).2.1
        exact (List.rel_of_pairwise_cons hbehind hmem).le
  obtain ⟨bytes, hbytes⟩ := Jump.exists_encode kind hfits'
  refine ⟨bytes, ?_, (Instruction.reads_jump hfits' hbytes).2.trans_le hle⟩
  unfold Jump.encodeShortest
  rw [hleast]
  exact hbytes

namespace Instruction

variable {e : Extensions} {a b : ℕ} {i : Instruction}

/-! ### Forms -/

/-- Whether an instruction can be written in at most `n` bytes. -/
def EncodesWithin (i : Instruction) (n : ℕ) : Prop :=
  ∃ bytes, i.encode = .ok bytes ∧ bytes.length ≤ n

/-- What can be written in few bytes can be written in more. -/
lemma EncodesWithin.mono {m n : ℕ} (h : i.EncodesWithin m) (hmn : m ≤ n) : i.EncodesWithin n :=
  have ⟨bytes, hbytes, hlength⟩ := h
  ⟨bytes, hbytes, hlength.trans hmn⟩

/-- A short form that keeps its operand is one byte. -/
lemma encodesWithin_one {op : Op} {k : ℕ} {byte : UInt8} (hbyte : op.byte? k = some byte)
    (h : i.encode = op.short k) : i.EncodesWithin 1 :=
  ⟨[byte], by rw [h, Op.short, hbyte], le_rfl⟩

/-- An index that a short form keeps is written in one byte. -/
lemma encodesWithin_one_of_indexed {op long : Op} {k : ℕ} {byte : UInt8}
    (hbyte : op.byte? k = some byte) (h : i.encode = Op.indexed (some op) long k) :
    i.EncodesWithin 1 :=
  ⟨[byte], by simp [h, Op.indexed, hbyte], le_rfl⟩

/-- What an operation without operand byte says is written in one byte. -/
lemma encodesWithin_of_short? {op : Op} {k : ℕ} {byte : UInt8} (hbyte : op.byte? k = some byte)
    (hshort : op.short? k = some i) : i.EncodesWithin 1 := by
  have hk := Op.lt_shortCount hbyte
  have hjump : ∀ kind, k < 8 → (Instruction.jump kind (k + 1)).EncodesWithin 1 := by
    intro kind hlt
    refine Jump.exists_encodeShortest kind (by decide) ?_
    rw [Jump.fits_one]
    omega
  cases op <;> simp only [Op.short?, reduceCtorEq, Option.some.injEq] at hshort <;> subst hshort
  case pushReceiverVariable => exact encodesWithin_one_of_indexed hbyte rfl
  case pushLiteralVariable => exact encodesWithin_one_of_indexed hbyte rfl
  case pushLiteralConstant => exact encodesWithin_one_of_indexed hbyte rfl
  case pushTemp => exact encodesWithin_one_of_indexed hbyte rfl
  case popStoreReceiverVariable => exact encodesWithin_one_of_indexed hbyte rfl
  case popStoreTemp => exact encodesWithin_one_of_indexed hbyte rfl
  case sendArithmetic => exact encodesWithin_one hbyte (if_pos hk)
  case sendSpecial =>
    refine encodesWithin_one hbyte ((if_neg (by omega)).trans ?_)
    rw [Nat.add_sub_cancel_left]
  case send0 => exact ⟨[byte], by simp [encode, Op.send?, hbyte], le_rfl⟩
  case send1 => exact ⟨[byte], by simp [encode, Op.send?, hbyte], le_rfl⟩
  case send2 => exact ⟨[byte], by simp [encode, Op.send?, hbyte], le_rfl⟩
  case shortJump => exact hjump .always hk
  case shortJumpIfTrue => exact hjump .ifTrue hk
  case shortJumpIfFalse => exact hjump .ifFalse hk
  all_goals exact ⟨_, rfl, le_rfl⟩

/-- An integer whose digits before the operand byte are carried by `b` bytes is written with no more
extensions. -/
lemma encodesWithin_pushInteger {n : ℤ} (hn : signedWidth (n / 256) ≤ b)
    (hb : b ≤ maxExtensions) : (pushInteger n).EncodesWithin (2 * b + 2) := by
  simp only [EncodesWithin, encode]
  split
  · exact ⟨_, rfl, by simp⟩
  · split
    · exact ⟨_, rfl, by simp⟩
    · refine ⟨_, if_neg (by omega), ?_⟩
      simp only [Op.longSigned, List.length_append, length_extensionBytes, List.length_cons,
        List.length_nil]
      omega

/-- A jump whose distance is carried by `b` bytes and the operand byte is written with no more
extensions. -/
lemma encodesWithin_jump (kind : JumpKind) {distance : ℤ} (h : signedWidth (distance / 256) ≤ b)
    (hb : b ≤ maxExtensions) : (jump kind distance).EncodesWithin (2 * b + 2) := by
  have hmax : b ≤ 3 := hb
  have hextensions : Jump.extensions (2 * b + 2) = b := by
    unfold Jump.extensions
    omega
  refine Jump.exists_encodeShortest kind ?_ ?_
  · simp only [Jump.sizes, List.mem_cons, List.not_mem_nil, or_false]
    omega
  · rw [Jump.fits_long (by omega), hextensions]
    exact ⟨by omega, by omega, hb, h⟩

/-- The extensions of a send are shared between the literal and the number of arguments. -/
lemma encodesWithin_send {literal argumentCount : ℕ} (hliteral : unsignedWidth (literal / 32) ≤ a)
    (hcount : signedWidth ((argumentCount : ℤ) / 8) ≤ b) (hab : a + b ≤ maxExtensions) :
    (send literal argumentCount).EncodesWithin (2 * (a + b) + 2) := by
  simp only [EncodesWithin, encode]
  split
  · exact ⟨_, rfl, by simp⟩
  · refine ⟨_, if_neg (by omega), ?_⟩
    simp only [List.length_append, length_extensionBytes, List.length_cons, List.length_nil]
    omega

/-- What an operation with operand byte says is written with no more extensions than were read. -/
lemma encodesWithin_of_long? {op : Op} {byte : UInt8} (he : e.CarriedBy a b)
    (hab : a + b ≤ maxExtensions) (hlong : op.long? e byte = some i) :
    i.EncodesWithin (2 * (a + b) + 2) := by
  have hindexed : ∀ (i : Instruction) (short : Option Op) (long : Op),
      i.encode = Op.indexed short long (e.unsignedOperand byte) →
        i.EncodesWithin (2 * (a + b) + 2) := by
    intro i short long hi
    have hwidth := (e.unsignedOperand_div byte).symm ▸ he.unsigned
    obtain ⟨bytes, hbytes, hlength⟩ := Op.exists_indexed short long hwidth (by omega)
    exact ⟨bytes, hi.trans hbytes, by omega⟩
  have hpush := fun place => hindexed (.pushVariable place _) _ _ rfl
  have hstore := fun place popping => hindexed (.store place _ popping) _ _ rfl
  have hsigned : signedWidth (e.signedOperand byte / 256) ≤ a + b := by
    rw [e.signedOperand_div]
    exact he.signed.trans (Nat.le_add_left b a)
  cases op <;> simp only [Op.long?, reduceCtorEq, Option.some.injEq] at hlong <;> try subst hlong
  case longPushReceiverVariable => exact hpush .receiverField
  case longPushLiteralVariable => exact hpush .literalBinding
  case longPushTemp => exact hpush .temporary
  case longPopStoreReceiverVariable => exact hstore .receiverField true
  case longPopStoreLiteralVariable => exact hstore .literalBinding true
  case longPopStoreTemp => exact hstore .temporary true
  case longStoreReceiverVariable => exact hstore .receiverField false
  case longStoreLiteralVariable => exact hstore .literalBinding false
  case longStoreTemp => exact hstore .temporary false
  case longPushLiteralConstant => exact hindexed (.pushLiteral _) _ _ rfl
  case pushCharacter => exact hindexed (.pushCharacter _) none .pushCharacter rfl
  case pushInteger => exact encodesWithin_pushInteger hsigned hab
  case longJump => exact encodesWithin_jump .always hsigned hab
  case longJumpIfTrue => exact encodesWithin_jump .ifTrue hsigned hab
  case longJumpIfFalse => exact encodesWithin_jump .ifFalse hsigned hab
  case longSend =>
    split at hlong
    · cases hlong
    · rename_i hcount
      obtain rfl := Option.some.inj hlong
      have hbyte := byte.toNat_lt
      refine encodesWithin_send ?_ ?_ hab
      · rw [show (e.unsigned * 32 + byte.toNat / 8) / 32 = e.unsigned by omega]
        exact he.unsigned
      · rw [Int.toNat_of_nonneg (by omega),
          show (e.signed * 8 + (byte.toNat % 8 : ℕ)) / 8 = e.signed by omega]
        exact he.signed

/-! ### Reading -/

/-- An instruction read behind extensions is written in no more bytes than were taken. -/
lemma encodesWithin_of_readAfter {start budget taken n : ℕ} {bytes : List UInt8}
    (hread : readAfter start budget e taken bytes = ⟨.ok i, n⟩) (he : e.CarriedBy a b)
    (hbudget : a + b + budget = maxExtensions) (htaken : taken = 2 * (a + b)) :
    i.EncodesWithin n := by
  fun_induction readAfter start budget e taken bytes generalizing a b
  case case4 hextend budget ih =>
    obtain ⟨a', b', hsum, he'⟩ := he.extend hextend _
    exact ih hread he' (by omega) (by omega)
  case case5 hlong =>
    simp only [Reading.mk.injEq, Except.ok.injEq] at hread
    obtain ⟨rfl, rfl⟩ := hread
    rw [htaken]
    exact encodesWithin_of_long? he (by omega) hlong
  case case7 hshort =>
    simp only [Reading.mk.injEq, Except.ok.injEq] at hread
    obtain ⟨rfl, rfl⟩ := hread
    exact (encodesWithin_of_short? (Opcode.byte?_ofByte_of_short? hshort) hshort).mono (by omega)
  all_goals cases hread

end Instruction

/-! ### One instruction as code -/

/-- Code of one instruction is assembled as the instruction is written. -/
lemma Code.assemble_singleton {i : Instruction} {bytes : List UInt8} (h : i.encode = .ok bytes) :
    (⟨#[.instruction i], #[], #[]⟩ : Code).assemble = .ok bytes := by
  have hsize : Node.instructionSize i = .ok bytes.length := by
    rw [Node.instructionSize, h]
    rfl
  have hshrink : Layout.shrink ⟨#[0], #[bytes.length], #[], bytes.length⟩ #[.instruction i] =
      .ok #[bytes.length] := by
    rw [Layout.shrink, array_mapM_eq_ok_iff_forall₂]
    simp [Node.betterSize, hsize, Bind.bind, Except.bind, pure, Except.pure]
  have hsizes : Layout.ofSizes 0 #[.instruction i] #[bytes.length] =
      ⟨#[0], #[bytes.length], #[], bytes.length⟩ := by
    simp [Layout.ofSizes, Layout.extend, Layout.empty]
  have hlayout : Code.layout ⟨#[.instruction i], #[], #[]⟩ =
      .ok ⟨#[0], #[bytes.length], #[], bytes.length⟩ := by
    have hgreatest : #[Node.instruction i].mapM Node.maxSize = .ok #[bytes.length] := by
      rw [array_mapM_eq_ok_iff_forall₂]
      simp [Node.maxSize, hsize]
    rw [layout, Layout.ofNodes, hgreatest]
    show Layout.settle 0 _ (Layout.ofSizes 0 _ _) = _
    rw [hsizes, Layout.settle, hshrink]
    simp [hsizes]
  have hemit : Layout.emit ⟨#[0], #[bytes.length], #[], bytes.length⟩
      [(.instruction i, 0, bytes.length)] #[] =
        Layout.emit ⟨#[0], #[bytes.length], #[], bytes.length⟩ [] (#[] ++ bytes.toArray) :=
    Layout.emit_cons h rfl (by simp)
  rw [assemble_eq_map hlayout]
  simp [hemit, Layout.emit, Except.map]

/-- When bytes are read from their front to their end as one instruction, that instruction can be
put into empty code and assembled. The result is read as the instruction, whatever bytes follow it,
just to its end, and no bytes that are read as the instruction are fewer. -/
theorem Code.assemble_isShortest (b : List UInt8) (i : Instruction)
    (hread : Instruction.read 0 b = ⟨.ok i, b.length⟩) :
    ∃ code bytes, Code.emit i Code.empty = .ok () code ∧ code.assemble = .ok bytes ∧
      (∀ rest, Instruction.read 0 (bytes ++ rest) = ⟨.ok i, bytes.length⟩) ∧
      bytes.length ≤ b.length ∧
      ∀ b', Instruction.read 0 b' = ⟨.ok i, b'.length⟩ → bytes.length ≤ b'.length := by
  have hshort : ∀ b', Instruction.read 0 b' = ⟨.ok i, b'.length⟩ → i.EncodesWithin b'.length :=
    fun b' hread' =>
      Instruction.encodesWithin_of_readAfter hread' Extensions.carriedBy_none rfl rfl
  obtain ⟨bytes, hbytes, hlength⟩ := hshort b hread
  refine ⟨_, bytes, rfl, assemble_singleton hbytes, Instruction.read_encode hbytes 0, hlength, ?_⟩
  intro b' hread'
  obtain ⟨bytes', hbytes', hlength'⟩ := hshort b' hread'
  obtain rfl : bytes = bytes' := Except.ok.inj (hbytes.symm.trans hbytes')
  exact hlength'

/-- A send of the literal 3 with one argument, behind an unsigned and a signed extension that say
nothing. -/
def redundantSend : List UInt8 := [224, 0, 225, 0, 234, 25]

/-- The send with the needless extensions is read, and can be written in its shortest form. -/
theorem Code.assemble_redundantSend :
    Instruction.read 0 redundantSend = ⟨.ok (.send 3 1), redundantSend.length⟩ ∧
      ∃ code bytes, Code.emit (.send 3 1) Code.empty = .ok () code ∧ code.assemble = .ok bytes ∧
        (∀ rest, Instruction.read 0 (bytes ++ rest) = ⟨.ok (.send 3 1), bytes.length⟩) ∧
        bytes.length ≤ redundantSend.length ∧
        ∀ b', Instruction.read 0 b' = ⟨.ok (.send 3 1), b'.length⟩ →
          bytes.length ≤ b'.length := by
  have hread : Instruction.read 0 redundantSend = ⟨.ok (.send 3 1), redundantSend.length⟩ := by
    show Instruction.readAfter 0 3 .none 0 (Op.extA.firstByte :: 0 :: Op.extB.firstByte :: 0 ::
      Op.longSend.firstByte :: 25 :: []) = _
    rw [Instruction.readAfter_extension rfl, Instruction.readAfter_extension rfl]
    exact Instruction.readAfter_long rfl
  exact ⟨hread, Code.assemble_isShortest redundantSend (.send 3 1) hread⟩

end TalkMachine
