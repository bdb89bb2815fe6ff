import TalkMachine.Code.Encode
import TalkMachine.Proofs.Code.Width

/-!
# Reading back what was written

Reading undoes writing. Extensions are read one byte at a time, and after each byte the extension
holds the digits of the operand that have been read so far; `readAfter_unsigned` and
`readAfter_signed` follow that from the first byte to the last. `Instruction.read_encode` puts the
forms together: whatever bytes follow an encoded instruction, reading answers the instruction and
takes its bytes.
-/

namespace TalkMachine

/-! ### Bytes of operations -/

/-- Each byte of a run stands for the operation of the run. -/
lemma Opcode.find_run :
    ∀ run ∈ opRanges, run.first + run.count ≤ 256 ∧
      ∀ k < run.count, Opcode.find (run.first + k) = ⟨run.op, k⟩ := by
  decide +kernel

/-- The byte that keeps an operand of an operation is read as that operation and operand. -/
theorem Opcode.ofByte_of_byte? {op : Op} {k : ℕ} {byte : UInt8} (h : op.byte? k = some byte) :
    Opcode.ofByte byte = ⟨op, k⟩ := by
  unfold Op.byte? Op.range? at h
  split at h
  · rename_i run hrun
    split at h
    · rename_i hk
      obtain ⟨hbound, hfind⟩ := Opcode.find_run run (List.mem_of_find?_eq_some hrun)
      have hop : run.op = op := by simpa using List.find?_some hrun
      obtain rfl := Option.some.inj h
      rw [Opcode.ofByte_eq_find, UInt8.toNat_ofNat_of_lt' (by simp [UInt8.size]; omega), hfind k hk,
        hop]
    · cases h
  · cases h

/-- Each operation that is assigned has a first byte, which is read as the operation. -/
lemma Opcode.ofByte_firstByte {op : Op} (h : op ≠ .unassigned) :
    Opcode.ofByte op.firstByte = ⟨op, 0⟩ := by
  apply Opcode.ofByte_of_byte?
  cases op <;> first | rfl | exact absurd rfl h

/-! ### Lowest bytes -/

/-- The lowest byte of a number is its remainder. -/
lemma toNat_lowByte (n : ℤ) : ((lowByte n).toNat : ℤ) = n % 256 := by
  have hlow : 0 ≤ n % 256 := Int.emod_nonneg n (by decide)
  have hhigh : n % 256 < 256 := Int.emod_lt_of_pos n (by decide)
  unfold lowByte
  rw [UInt8.toNat_ofNat_of_lt' (by simp [UInt8.size]; omega), Int.toNat_of_nonneg hlow]

/-- The lowest byte of a natural number. -/
lemma toNat_lowByte_natCast (n : ℕ) : (lowByte n).toNat = n % 256 := by
  have := toNat_lowByte n
  omega

/-- The lowest byte of a number that fits a signed byte is read as the number. -/
lemma signedByte_lowByte {n : ℤ} (hlow : -128 ≤ n) (hhigh : n < 128) :
    Extensions.signedByte (lowByte n) = n := by
  have hbyte := toNat_lowByte n
  unfold Extensions.signedByte
  split <;> omega

/-- The digits of a number up to one place are the digits up to the place before and that digit. -/
lemma ediv_pow_succ (n : ℤ) (k : ℕ) :
    n / 256 ^ (k + 1) * 256 + (lowByte (n / 256 ^ k)).toNat = n / 256 ^ k := by
  rw [toNat_lowByte, pow_succ, ← Int.ediv_ediv_of_nonneg (by positivity)]
  omega

/-- The digits of a natural number up to one place. -/
lemma div_pow_succ (n k : ℕ) :
    n / 256 ^ (k + 1) * 256 + (lowByte ((n : ℤ) / 256 ^ k)).toNat = n / 256 ^ k := by
  have hcast : ((n : ℤ) / 256 ^ k) = ((n / 256 ^ k : ℕ) : ℤ) := by push_cast; rfl
  rw [hcast, toNat_lowByte_natCast, pow_succ, ← Nat.div_div_eq_div_mul]
  omega

namespace Instruction

variable {start budget taken : ℕ} {e : Extensions} {tail : List UInt8}

/-! ### Extensions -/

/-- An extension and its byte are taken in. -/
lemma readAfter_extension {op : Op} {extend : Extensions → UInt8 → Extensions}
    (hop : op.extend? = some extend) (byte : UInt8) :
    readAfter start (budget + 1) e taken (op.firstByte :: byte :: tail) =
      readAfter start budget (extend e byte) (taken + 2) tail := by
  have hassigned : op ≠ .unassigned := by
    rintro rfl
    cases hop
  have hoperand : op.hasOperandByte = true := by
    cases op <;> first | rfl | cases hop
  rw [readAfter.eq_def]
  simp only [Opcode.ofByte_firstByte hassigned, hoperand, hop, if_true]

/-- One byte more is the next higher byte of the number, in front. -/
lemma extensionBytes_succ (lead : UInt8) (n : ℤ) (width : ℕ) :
    extensionBytes lead n (width + 1) =
      lead :: lowByte (n / 256 ^ width) :: extensionBytes lead n width := by
  rfl

/-- Before each byte the unsigned extension holds the digits in front of it, so behind the last one
it holds the number. -/
lemma readAfter_unsigned (n width : ℕ) (he : e.unsigned = n / 256 ^ width) :
    readAfter start (budget + width) e taken
        (extensionBytes Op.extA.firstByte n width ++ tail) =
      readAfter start budget { e with unsigned := n } (taken + 2 * width) tail := by
  induction width generalizing e taken with
  | zero =>
    rw [pow_zero, Nat.div_one] at he
    simp [extensionBytes, ← he]
  | succ width ih =>
    have hnext : (e.extendUnsigned (lowByte ((n : ℤ) / 256 ^ width))).unsigned =
        n / 256 ^ width := by
      rw [← div_pow_succ, ← he]
      rfl
    rw [extensionBytes_succ, List.cons_append, List.cons_append, ← Nat.add_assoc,
      readAfter_extension rfl, ih hnext]
    congr 1
    omega

/-- Behind its first byte the signed extension goes on in the same way. -/
lemma readAfter_signed_seen (n : ℤ) (width : ℕ) (hseen : e.signedSeen = true)
    (he : e.signed = n / 256 ^ width) :
    readAfter start (budget + width) e taken
        (extensionBytes Op.extB.firstByte n width ++ tail) =
      readAfter start budget ⟨e.unsigned, n, true⟩ (taken + 2 * width) tail := by
  induction width generalizing e taken with
  | zero =>
    rw [pow_zero, Int.ediv_one] at he
    simp [extensionBytes, ← he, ← hseen]
  | succ width ih =>
    have hextend : e.extendSigned (lowByte (n / 256 ^ width)) =
        ⟨e.unsigned, n / 256 ^ width, true⟩ := by
      simp [Extensions.extendSigned, hseen, he, ediv_pow_succ]
    rw [extensionBytes_succ, List.cons_append, List.cons_append, ← Nat.add_assoc,
      readAfter_extension rfl, hextend, ih rfl rfl]
    congr 1
    omega

/-- The first byte of the signed extension carries the sign, so any width that is enough for a
number brings it back. -/
lemma readAfter_signed (n : ℤ) {width : ℕ} (hwidth : signedWidth n ≤ width)
    (he : e.signed = 0) (hseen : e.signedSeen = false) :
    readAfter start (budget + width) e taken
        (extensionBytes Op.extB.firstByte n width ++ tail) =
      readAfter start budget ⟨e.unsigned, n, decide (0 < width)⟩ (taken + 2 * width) tail := by
  cases width with
  | zero =>
    obtain rfl := eq_zero_of_signedWidth_le_zero hwidth
    simp [extensionBytes, ← he, ← hseen]
  | succ width =>
    obtain ⟨hlow, hhigh⟩ := ediv_pow_of_signedWidth_le hwidth
    have hextend : e.extendSigned (lowByte (n / 256 ^ width)) =
        ⟨e.unsigned, n / 256 ^ width, true⟩ := by
      simp [Extensions.extendSigned, hseen, signedByte_lowByte hlow hhigh]
    rw [extensionBytes_succ, List.cons_append, List.cons_append, ← Nat.add_assoc,
      readAfter_extension rfl, hextend, readAfter_signed_seen n width rfl rfl]
    simp only [Nat.zero_lt_succ, decide_true]
    congr 1
    omega

/-- The number of bytes of an extension. -/
@[simp] lemma length_extensionBytes (lead : UInt8) (n : ℤ) (width : ℕ) :
    (extensionBytes lead n width).length = 2 * width := by
  induction width with
  | zero => rfl
  | succ width ih =>
    simp [extensionBytes, ih]
    omega

/-! ### Operations -/

/-- The byte of a short form ends the instruction. -/
lemma readAfter_short {op : Op} {k : ℕ} {byte : UInt8} {i : Instruction}
    (hbyte : op.byte? k = some byte) (hshort : op.short? k = some i) :
    readAfter start budget e taken (byte :: tail) = ⟨.ok i, taken + 1⟩ := by
  have hoperand : op.hasOperandByte = false := by
    cases op <;> first | rfl | cases hshort
  rw [readAfter.eq_def]
  simp [Opcode.ofByte_of_byte? hbyte, hoperand, hshort]

/-- A long form ends with its operand byte. -/
lemma readAfter_long {op : Op} {byte : UInt8} {i : Instruction}
    (hlong : op.long? e byte = some i) :
    readAfter start budget e taken (op.firstByte :: byte :: tail) = ⟨.ok i, taken + 2⟩ := by
  have hassigned : op ≠ .unassigned := by
    rintro rfl
    cases hlong
  have hoperand : op.hasOperandByte = true := by
    cases op <;> first | rfl | cases hlong
  have hextend : op.extend? = none := by
    cases op <;> first | rfl | cases hlong
  rw [readAfter.eq_def]
  simp only [Opcode.ofByte_firstByte hassigned, hoperand, hextend, hlong, if_true]

/-! ### Written forms -/

/-- Whether bytes are read as an instruction, whatever follows them. -/
def Reads (bytes : List UInt8) (i : Instruction) : Prop :=
  ∀ start tail, read start (bytes ++ tail) = ⟨.ok i, bytes.length⟩

/-- A short form is read as its instruction. -/
lemma reads_byte {op : Op} {k : ℕ} {byte : UInt8} {i : Instruction}
    (hbyte : op.byte? k = some byte) (hshort : op.short? k = some i) : Reads [byte] i :=
  fun _ _ => readAfter_short hbyte hshort

/-- A short form that was written is read as its instruction. -/
lemma reads_short {op : Op} {k : ℕ} {bytes : List UInt8} {i : Instruction}
    (h : op.short k = .ok bytes) (hshort : op.short? k = some i) : Reads bytes i := by
  unfold Op.short at h
  split at h
  · rename_i byte hbyte
    obtain rfl := Except.ok.inj h
    exact reads_byte hbyte hshort
  · cases h

/-- A long form with an unsigned operand is read as the instruction that the operand makes. -/
lemma reads_longUnsigned {op : Op} {n : ℕ} {bytes : List UInt8} {i : Instruction}
    (h : op.longUnsigned n = .ok bytes)
    (hlong : ∀ e byte, Extensions.unsignedOperand e byte = n → op.long? e byte = some i) :
    Reads bytes i := by
  unfold Op.longUnsigned at h
  simp only at h
  split at h
  · cases h
  · rename_i hwidth
    obtain rfl := Except.ok.inj h
    intro start tail
    obtain ⟨budget, hbudget⟩ := Nat.exists_eq_add_of_le' (Nat.not_lt.mp hwidth)
    have hoperand : Extensions.unsignedOperand ⟨n / 256, 0, false⟩ (lowByte n) = n := by
      show n / 256 * 256 + (lowByte n).toNat = n
      rw [toNat_lowByte_natCast]
      omega
    rw [read, hbudget, List.append_assoc,
      readAfter_unsigned _ _ (div_pow_unsignedWidth (n / 256)).symm, List.cons_append,
      List.singleton_append]
    exact (readAfter_long (hlong _ _ hoperand)).trans (by simp)

/-- A long form with a signed operand is read as the instruction that the operand makes. -/
lemma reads_longSigned {op : Op} {n : ℤ} {width : ℕ} {i : Instruction}
    (hmax : width ≤ maxExtensions) (hwidth : signedWidth (n / 256) ≤ width)
    (hlong : ∀ e byte, Extensions.signedOperand e byte = n → op.long? e byte = some i) :
    Reads (op.longSigned n width) i := by
  intro start tail
  obtain ⟨budget, hbudget⟩ := Nat.exists_eq_add_of_le' hmax
  have hoperand : ∀ seen, Extensions.signedOperand ⟨0, n / 256, seen⟩ (lowByte n) = n := by
    intro seen
    show n / 256 * 256 + ((lowByte n).toNat : ℤ) = n
    rw [toNat_lowByte]
    omega
  rw [read, hbudget, Op.longSigned, List.append_assoc, readAfter_signed _ hwidth rfl rfl,
    List.cons_append, List.singleton_append]
  exact (readAfter_long (hlong _ _ (hoperand _))).trans (by simp)

/-- The form that an index selects is read as the instruction of the index. -/
lemma reads_indexed {short : Option Op} {long : Op} {n : ℕ} {bytes : List UInt8} {i : Instruction}
    (h : Op.indexed short long n = .ok bytes) (hshort : ∀ op ∈ short, op.short? n = some i)
    (hlong : ∀ e byte, Extensions.unsignedOperand e byte = n → long.long? e byte = some i) :
    Reads bytes i := by
  unfold Op.indexed at h
  split at h
  · rename_i byte hbyte
    obtain rfl := Except.ok.inj h
    obtain ⟨op, hop, hbyte⟩ := Option.bind_eq_some_iff.mp hbyte
    exact reads_byte hbyte (hshort op hop)
  · exact reads_longUnsigned h hlong

/-- The operand byte of a long send is read as the lowest digits of literal and argument count. -/
lemma longSend_operand (literal argumentCount : ℕ) (seen : Bool) :
    Op.longSend.long? ⟨literal / 32, (argumentCount : ℤ) / 8, seen⟩
        (UInt8.ofNat (literal % 32 * 8 + argumentCount % 8)) =
      some (.send literal argumentCount) := by
  have hbyte : (UInt8.ofNat (literal % 32 * 8 + argumentCount % 8)).toNat =
      literal % 32 * 8 + argumentCount % 8 :=
    UInt8.toNat_ofNat_of_lt' (by simp [UInt8.size]; omega)
  have hcount : (argumentCount : ℤ) / 8 * 8 +
      ((literal % 32 * 8 + argumentCount % 8) % 8 : ℕ) = argumentCount := by omega
  have hliteral : literal / 32 * 32 + (literal % 32 * 8 + argumentCount % 8) / 8 = literal := by
    omega
  simp only [Op.long?, hbyte, hcount, hliteral]
  rw [if_neg (by omega), Int.toNat_natCast]

/-- A long send is read as the send. Its extensions share the budget of one instruction. -/
lemma reads_longSend {literal argumentCount : ℕ} {bytes : List UInt8}
    (h : encodeLongSend literal argumentCount = .ok bytes) :
    Reads bytes (.send literal argumentCount) := by
  unfold encodeLongSend at h
  simp only at h
  split at h
  · cases h
  · rename_i hwidth
    obtain rfl := Except.ok.inj h
    intro start tail
    obtain ⟨budget, hbudget⟩ := Nat.exists_eq_add_of_le' (Nat.not_lt.mp hwidth)
    rw [read, hbudget, Nat.add_comm (unsignedWidth _), ← Nat.add_assoc, List.append_assoc,
      List.append_assoc, readAfter_unsigned _ _ (div_pow_unsignedWidth (literal / 32)).symm,
      readAfter_signed _ le_rfl rfl rfl, List.cons_append, List.singleton_append]
    refine (readAfter_long (longSend_operand literal argumentCount _)).trans ?_
    simp [Nat.add_assoc]

/-! ### Jumps -/

/-- A jump that fits a size has that size when it is written, and is read as the jump. -/
theorem reads_jump {kind : JumpKind} {distance : ℤ} {size : ℕ} {bytes : List UInt8}
    (hfits : Jump.fits distance size = true) (h : Jump.encode kind distance size = .ok bytes) :
    Reads bytes (.jump kind distance) ∧ bytes.length = size := by
  unfold Jump.fits at hfits
  unfold Jump.encode at h
  split at h
  · rename_i hsize
    rw [if_pos hsize] at hfits
    have hrange : 1 ≤ distance ∧ distance ≤ 8 := by simpa using hfits
    have hshort : kind.shortOp.short? (distance - 1).toNat = some (.jump kind distance) := by
      have hdistance : ((distance - 1).toNat : ℤ) + 1 = distance := by omega
      cases kind <;> simp only [JumpKind.shortOp, Op.short?, hdistance]
    refine ⟨reads_short h hshort, ?_⟩
    unfold Op.short at h
    split at h
    · obtain rfl := Except.ok.inj h
      exact hsize.symm
    · cases h
  · rename_i hsize
    rw [if_neg hsize] at hfits
    have hlong : ((2 ≤ size ∧ size % 2 = 0) ∧ Jump.extensions size ≤ maxExtensions) ∧
        signedWidth (distance / 256) ≤ Jump.extensions size := by
      simpa [Bool.and_eq_true] using hfits
    obtain ⟨⟨⟨htwo, heven⟩, hmax⟩, hwidth⟩ := hlong
    obtain rfl := Except.ok.inj h
    constructor
    · refine reads_longSigned hmax hwidth fun e byte hoperand => ?_
      cases kind <;> simp [JumpKind.longOp, Op.long?, hoperand]
    · simp only [Op.longSigned, List.length_append, length_extensionBytes, List.length_cons,
        List.length_nil, Jump.extensions]
      omega

/-! ### Instructions -/

/-- Reading gives back the instruction that was written and takes just its bytes, whatever follows
them. -/
theorem read_encode {i : Instruction} {bytes : List UInt8} (h : i.encode = .ok bytes) :
    Reads bytes i := by
  cases i with
  | pushVariable place index =>
    apply reads_indexed h
    · rintro op ⟨⟩
      cases place <;> rfl
    · rintro e byte hoperand
      cases place <;> simp [Place.pushOps, Op.long?, hoperand]
  | pushLiteral index =>
    apply reads_indexed h
    · rintro op ⟨⟩
      rfl
    · rintro e byte hoperand
      simp [Op.long?, hoperand]
  | pushConstant constant =>
    rw [encode] at h
    exact reads_short h (by cases constant <;> rfl)
  | pushInteger n =>
    rw [encode] at h
    split at h
    · rename_i hzero
      subst hzero
      exact reads_short h rfl
    · split at h
      · rename_i hone
        subst hone
        exact reads_short h rfl
      · simp only at h
        split at h
        · cases h
        · rename_i hwidth
          obtain rfl := Except.ok.inj h
          refine reads_longSigned (Nat.not_lt.mp hwidth) le_rfl fun e byte hoperand => ?_
          simp [Op.long?, hoperand]
  | pushCharacter code =>
    refine reads_longUnsigned h fun e byte hoperand => ?_
    simp [Op.long?, hoperand]
  | dup =>
    rw [encode] at h
    exact reads_short h rfl
  | pop =>
    rw [encode] at h
    exact reads_short h rfl
  | nop =>
    rw [encode] at h
    exact reads_short h rfl
  | «return» value =>
    rw [encode] at h
    exact reads_short h (by cases value <;> rfl)
  | sendSpecial index =>
    rw [encode] at h
    split at h
    · exact reads_short h rfl
    · refine reads_short h ?_
      simp only [Op.short?, Option.some.injEq, sendSpecial.injEq]
      omega
  | send literal argumentCount =>
    rw [encode] at h
    split at h
    · rename_i byte hbyte
      obtain rfl := Except.ok.inj h
      obtain ⟨op, hop, hbyte⟩ := Option.bind_eq_some_iff.mp hbyte
      refine reads_byte hbyte ?_
      unfold Op.send? at hop
      split at hop <;> first | cases hop; rfl | cases hop
    · exact reads_longSend h
  | jump kind distance =>
    rw [encode, Jump.encodeShortest] at h
    split at h
    · rename_i size hsize
      exact (reads_jump (by simpa using List.find?_some hsize) h).1
    · cases h
  | store place index popping =>
    apply reads_indexed h
    · intro op hop
      cases place <;> cases popping <;> cases hop <;> rfl
    · rintro e byte hoperand
      cases place <;> cases popping <;> simp [Place.storeOps, Op.long?, hoperand]

/-- A written instruction has at least one byte. -/
lemma length_pos_of_reads {bytes : List UInt8} {i : Instruction} (h : Reads bytes i) :
    0 < bytes.length := by
  cases bytes with
  | nil =>
    have := congrArg Reading.outcome (h 0 [])
    cases this
  | cons byte rest => exact Nat.succ_pos _

/-- Reading takes two bytes for each extension, and at most two more. -/
lemma length_readAfter_le (start budget : ℕ) (e : Extensions) (taken : ℕ) (bytes : List UInt8) :
    (readAfter start budget e taken bytes).length ≤ taken + 2 * budget + 2 := by
  fun_induction readAfter start budget e taken bytes <;> (try simp only []) <;> omega

/-- A written instruction has at most eight bytes. -/
lemma length_le_of_reads {bytes : List UInt8} {i : Instruction} (h : Reads bytes i) :
    bytes.length ≤ 8 := by
  have hlength := length_readAfter_le 0 maxExtensions .none 0 (bytes ++ [])
  have hread := h 0 []
  rw [read] at hread
  rw [hread] at hlength
  exact hlength

end Instruction

end TalkMachine
