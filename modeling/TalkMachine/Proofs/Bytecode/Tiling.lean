import TalkMachine.Proofs.Code.Listing

/-!
# Listings tile their bytes

Reading an instruction is decided by the bytes it takes, wherever they lie and whatever follows them,
unless the bytes end too early (`Instruction.decided_read`); and where they lie is seen in errors only
(`Instruction.read_add`). So a listing consists of items that lie one behind the other
(`Listing.covers_ofBytes`), and a listing of bytes at another offset is the same listing shifted
(`Listing.ofBytes_add`).
-/

namespace TalkMachine

/-! ### Offsets -/

/-- The error with its offset moved. -/
def DecodeError.shift (distance : ℕ) : DecodeError → DecodeError
  | .unknownOpcode offset byte => .unknownOpcode (offset + distance) byte
  | .truncated offset => .truncated (offset + distance)
  | .tooManyExtensions offset => .tooManyExtensions (offset + distance)
  | .invalidOperand offset => .invalidOperand (offset + distance)

/-- The reading with its offset moved. -/
def Reading.shift (distance : ℕ) (reading : Reading) : Reading :=
  ⟨reading.outcome.mapError (DecodeError.shift distance), reading.length⟩

/-- What was read as an instruction is the same at another offset. -/
lemma Reading.shift_eq_ok_iff {distance length : ℕ} {reading : Reading} {i : Instruction} :
    reading.shift distance = ⟨.ok i, length⟩ ↔ reading = ⟨.ok i, length⟩ := by
  obtain ⟨outcome, length'⟩ := reading
  cases outcome <;> simp [shift, Except.mapError]

namespace Listing

/-- The item with its offset moved. -/
def Item.shift (distance : ℕ) (item : Item) : Item :=
  { item with offset := item.offset + distance }

/-- The listing with all its offsets moved. -/
def shift (distance : ℕ) (listing : Listing) : Listing where
  items := listing.items.map (Item.shift distance)
  error := listing.error.map (DecodeError.shift distance)
  stop := listing.stop + distance

end Listing

/-! ### One instruction -/

namespace Instruction

variable {start budget taken : ℕ} {e : Extensions} {bytes : List UInt8}

section Cases

variable {byte operand : UInt8} {rest : List UInt8}

/-- No byte at all. -/
lemma readAfter_nil : readAfter start budget e taken [] = ⟨.error (.truncated start), taken⟩ := by
  rw [readAfter.eq_def]

/-- An operation whose operand byte is missing. -/
lemma readAfter_of_cut (hoperand : (Opcode.ofByte byte).op.hasOperandByte = true) :
    readAfter start budget e taken [byte] = ⟨.error (.truncated start), taken + 1⟩ := by
  rw [readAfter.eq_def]
  exact if_pos hoperand

/-- An extension too many. -/
lemma readAfter_of_no_budget {extend : Extensions → UInt8 → Extensions}
    (hoperand : (Opcode.ofByte byte).op.hasOperandByte = true)
    (hextend : (Opcode.ofByte byte).op.extend? = some extend) :
    readAfter start 0 e taken (byte :: operand :: rest) =
      ⟨.error (.tooManyExtensions start), taken + 2⟩ := by
  rw [readAfter.eq_def]
  simp only [hoperand, hextend, if_true]

/-- An extension, and what follows it. -/
lemma readAfter_of_extension {extend : Extensions → UInt8 → Extensions}
    (hoperand : (Opcode.ofByte byte).op.hasOperandByte = true)
    (hextend : (Opcode.ofByte byte).op.extend? = some extend) :
    readAfter start (budget + 1) e taken (byte :: operand :: rest) =
      readAfter start budget (extend e operand) (taken + 2) rest := by
  rw [readAfter.eq_def]
  simp only [hoperand, hextend, if_true]

/-- An operation with its operand byte. -/
lemma readAfter_of_operand (hoperand : (Opcode.ofByte byte).op.hasOperandByte = true)
    (hextend : (Opcode.ofByte byte).op.extend? = none) :
    readAfter start budget e taken (byte :: operand :: rest) =
      ⟨((Opcode.ofByte byte).op.long? e operand).elim (.error (.invalidOperand start)) .ok,
        taken + 2⟩ := by
  rw [readAfter.eq_def]
  simp only [hoperand, hextend, if_true]
  cases (Opcode.ofByte byte).op.long? e operand <;> rfl

/-- An operation without operand byte. -/
lemma readAfter_of_no_operand (hoperand : ¬(Opcode.ofByte byte).op.hasOperandByte = true) :
    readAfter start budget e taken (byte :: rest) =
      ⟨((Opcode.ofByte byte).op.short? (Opcode.ofByte byte).embedded).elim
        (.error (.unknownOpcode (start + taken) byte)) .ok, taken + 1⟩ := by
  rw [readAfter.eq_def]
  simp only [hoperand]
  cases (Opcode.ofByte byte).op.short? (Opcode.ofByte byte).embedded <;> rfl

end Cases

/-- Where bytes lie is seen in errors only, also in the middle of an instruction. -/
lemma readAfter_add (distance : ℕ) : readAfter (start + distance) budget e taken bytes =
    (readAfter start budget e taken bytes).shift distance := by
  fun_induction readAfter start budget e taken bytes with
  | case1 budget e taken => exact readAfter_nil
  | case2 budget e taken byte opcode hoperand => exact readAfter_of_cut hoperand
  | case3 e taken byte opcode hoperand operand rest extend hextend =>
    exact readAfter_of_no_budget hoperand hextend
  | case4 e taken byte opcode hoperand operand rest extend hextend budget ih =>
    exact (readAfter_of_extension hoperand hextend).trans ih
  | case5 budget e taken byte opcode hoperand operand rest hextend instruction hlong =>
    rw [readAfter_of_operand hoperand hextend, hlong]
    rfl
  | case6 budget e taken byte opcode hoperand operand rest hextend hlong =>
    rw [readAfter_of_operand hoperand hextend, hlong]
    rfl
  | case7 budget e taken byte rest opcode hoperand instruction hshort =>
    rw [readAfter_of_no_operand hoperand, hshort]
    rfl
  | case8 budget e taken byte rest opcode hoperand hshort =>
    rw [readAfter_of_no_operand hoperand, hshort, Nat.add_right_comm]
    rfl

/-- Where bytes lie is seen in errors only. -/
theorem read_add (start distance : ℕ) (bytes : List UInt8) :
    read (start + distance) bytes = (read start bytes).shift distance :=
  readAfter_add distance

/-- Whether reading is decided by bytes at the front alone, after `taken` others, or has come to the
end of the bytes. -/
def DecidedAfter (start budget : ℕ) (e : Extensions) (taken : ℕ) (bytes : List UInt8) : Prop :=
  ∃ own rest, bytes = own ++ rest ∧
    (readAfter start budget e taken bytes).length = taken + own.length ∧
    ((rest = [] ∧ (readAfter start budget e taken bytes).outcome = .error (.truncated start)) ∨
      ∀ tail, readAfter start budget e taken (own ++ tail) = readAfter start budget e taken bytes)

/-- Reading is decided by the bytes it takes, also in the middle of an instruction. -/
lemma decidedAfter_readAfter : DecidedAfter start budget e taken bytes := by
  unfold DecidedAfter
  fun_induction readAfter start budget e taken bytes with
  | case1 budget e taken => exact ⟨[], [], rfl, rfl, Or.inl ⟨rfl, rfl⟩⟩
  | case2 budget e taken byte opcode hoperand => exact ⟨[byte], [], rfl, rfl, Or.inl ⟨rfl, rfl⟩⟩
  | case3 e taken byte opcode hoperand operand rest extend hextend =>
    exact ⟨[byte, operand], rest, rfl, rfl,
      Or.inr fun tail => readAfter_of_no_budget hoperand hextend⟩
  | case4 e taken byte opcode hoperand operand rest extend hextend budget ih =>
    obtain ⟨own, rest', rfl, hlength, hdecided⟩ := ih
    refine ⟨byte :: operand :: own, rest', rfl, ?_, hdecided.imp_right fun hdecided tail => ?_⟩
    · rw [hlength, List.length_cons, List.length_cons]
      omega
    · exact (readAfter_of_extension hoperand hextend).trans (hdecided tail)
  | case5 budget e taken byte opcode hoperand operand rest hextend instruction hlong =>
    refine ⟨[byte, operand], rest, rfl, rfl, Or.inr fun tail => ?_⟩
    rw [List.cons_append, List.cons_append, readAfter_of_operand hoperand hextend, hlong]
    rfl
  | case6 budget e taken byte opcode hoperand operand rest hextend hlong =>
    refine ⟨[byte, operand], rest, rfl, rfl, Or.inr fun tail => ?_⟩
    rw [List.cons_append, List.cons_append, readAfter_of_operand hoperand hextend, hlong]
    rfl
  | case7 budget e taken byte rest opcode hoperand instruction hshort =>
    refine ⟨[byte], rest, rfl, rfl, Or.inr fun tail => ?_⟩
    rw [List.cons_append, readAfter_of_no_operand hoperand, hshort]
    rfl
  | case8 budget e taken byte rest opcode hoperand hshort =>
    refine ⟨[byte], rest, rfl, rfl, Or.inr fun tail => ?_⟩
    rw [List.cons_append, readAfter_of_no_operand hoperand, hshort]
    rfl

/-- Whether reading is decided by the bytes that it takes, or has come to the end of the bytes. -/
def Decided (start : ℕ) (bytes : List UInt8) : Prop :=
  ∃ own rest, bytes = own ++ rest ∧ (read start bytes).length = own.length ∧
    ((rest = [] ∧ (read start bytes).outcome = .error (.truncated start)) ∨
      ∀ tail, read start (own ++ tail) = read start bytes)

/-- Reading is decided by the bytes it takes, unless there are too few. -/
theorem decided_read (start : ℕ) (bytes : List UInt8) : Decided start bytes := by
  obtain ⟨own, rest, hbytes, hlength, hdecided⟩ :=
    @decidedAfter_readAfter start maxExtensions 0 .none bytes
  rw [Nat.zero_add] at hlength
  exact ⟨own, rest, hbytes, hlength, hdecided⟩

/-- Bytes that were read as an instruction are read as it wherever they lie and whatever follows. -/
lemma reads_take {i : Instruction} {start length : ℕ} {bytes : List UInt8}
    (h : read start bytes = ⟨.ok i, length⟩) :
    (bytes.take length).length = length ∧ Reads (bytes.take length) i := by
  obtain ⟨own, rest, rfl, hlength, hdecided⟩ := decided_read start bytes
  rw [h] at hlength hdecided
  obtain rfl : length = own.length := hlength
  rw [List.take_left]
  refine ⟨rfl, fun start' tail => ?_⟩
  rcases hdecided with ⟨-, htruncated⟩ | hdecided
  · cases htruncated
  · have hzero : read 0 (own ++ tail) = ⟨.ok i, own.length⟩ := by
      have hstart := read_add 0 start (own ++ tail)
      rw [Nat.zero_add, hdecided tail] at hstart
      exact Reading.shift_eq_ok_iff.mp hstart.symm
    have hstart := read_add 0 start' (own ++ tail)
    rw [Nat.zero_add, hzero] at hstart
    exact hstart

end Instruction

namespace Listing

/-! ### Listings -/

/-- The bytes of all items. -/
def decoded (listing : Listing) : List UInt8 :=
  listing.items.flatMap Item.bytes

/-- Whether items lie one behind the other from an offset on. Each has 1 to 8 bytes, which are read as
its instruction wherever they lie and whatever follows them. -/
def Tile : ℕ → List Item → Prop
  | _, [] => True
  | offset, item :: rest => item.offset = offset ∧ 1 ≤ item.bytes.length ∧ item.bytes.length ≤ 8 ∧
      Instruction.Reads item.bytes item.instruction ∧ Tile item.next rest

/-- What a listing says of the bytes that lie at an offset: its items tile a front of them, and either
that is all of them or what follows cannot be read as an instruction. -/
structure Covers (offset : ℕ) (bytes : List UInt8) (listing : Listing) : Prop where
  tile : Tile offset listing.items
  ends : ∃ rest, bytes = listing.decoded ++ rest ∧
    match listing.error with
    | none => rest = [] ∧ listing.stop = offset + bytes.length
    | some e => rest ≠ [] ∧ ∃ length, 1 ≤ length ∧ length ≤ rest.length ∧
        Instruction.read (offset + listing.decoded.length) rest = ⟨.error e, length⟩ ∧
        listing.stop = offset + listing.decoded.length + length

/-- The first item of a listing, and the others. -/
lemma ofBytes_of_read {offset length : ℕ} {bytes : List UInt8} {i : Instruction}
    (h : Instruction.read offset bytes = ⟨.ok i, length⟩) : ofBytes offset bytes =
      { ofBytes (offset + length) (bytes.drop length) with
        items := ⟨offset, bytes.take length, i⟩ ::
          (ofBytes (offset + length) (bytes.drop length)).items } := by
  obtain ⟨hlength, hreads⟩ := Instruction.reads_take h
  have happend : ofBytes offset (bytes.take length ++ bytes.drop length) = _ := ofBytes_append hreads
  rwa [List.take_append_drop, hlength] at happend

/-- A listing of bytes that cannot be read as an instruction. -/
lemma ofBytes_of_error {offset length : ℕ} {byte : UInt8} {rest : List UInt8} {e : DecodeError}
    (h : Instruction.read offset (byte :: rest) = ⟨.error e, length⟩) :
    ofBytes offset (byte :: rest) = ⟨[], some e, offset + length⟩ := by
  rw [ofBytes]
  simp only [h]

/-- A listing covers its bytes. -/
theorem covers_ofBytes (offset : ℕ) (bytes : List UInt8) :
    (ofBytes offset bytes).Covers offset bytes := by
  fun_induction ofBytes offset bytes with
  | case1 offset => exact ⟨trivial, [], rfl, rfl, rfl⟩
  | case2 offset byte rest reading next e houtcome =>
    obtain ⟨own, rest', hbytes, hlength, -⟩ := Instruction.decided_read offset (byte :: rest)
    have hpos := Instruction.length_read_pos offset byte rest
    refine ⟨trivial, byte :: rest, rfl, List.cons_ne_nil _ _, reading.length, hpos, ?_, ?_, rfl⟩
    · rw [hlength, hbytes, List.length_append]
      omega
    · exact congrArg (Reading.mk · reading.length) houtcome
  | case3 offset byte rest reading next instruction houtcome listing own ih =>
    have hread : Instruction.read offset (byte :: rest) = ⟨.ok instruction, reading.length⟩ :=
      congrArg (Reading.mk · reading.length) houtcome
    obtain ⟨hlength, hreads⟩ := Instruction.reads_take hread
    have hpos := Instruction.length_read_pos offset byte rest
    obtain ⟨tile, rest', hrest, hends⟩ := ih
    have hlength' : own.length = reading.length := hlength
    have hsplit : byte :: rest = own ++ (listing.decoded ++ rest') := by
      rw [← hrest, List.take_append_drop]
    refine ⟨⟨rfl, ?_, Instruction.length_le_of_reads hreads, hreads, ?_⟩, rest', ?_, ?_⟩
    · rw [hlength]
      exact hpos
    · show Tile (offset + own.length) listing.items
      rw [hlength']
      exact tile
    · rw [hsplit, ← List.append_assoc]
      rfl
    · have hdecoded : (⟨⟨offset, own, instruction⟩ :: listing.items, listing.error,
          listing.stop⟩ : Listing).decoded.length = own.length + listing.decoded.length :=
        List.length_append
      have hbytes : (byte :: rest).length = own.length + listing.decoded.length + rest'.length := by
        rw [hsplit, List.length_append, List.length_append]
        omega
      have hdrop : ((byte :: rest).drop reading.length).length =
          listing.decoded.length + rest'.length := by
        rw [hrest, List.length_append]
      rw [hdecoded, hbytes, ← Nat.add_assoc, ← Nat.add_assoc, hlength']
      rw [hdrop, ← Nat.add_assoc] at hends
      exact hends

/-- Where an item of a listing lies among the bytes of all items, and what it is. -/
lemma Tile.exists_split {offset : ℕ} {items : List Item} {item : Item} (tile : Tile offset items)
    (hitem : item ∈ items) : ∃ before after,
      items.flatMap Item.bytes = before ++ (item.bytes ++ after) ∧
      item.offset = offset + before.length ∧ 1 ≤ item.bytes.length ∧
      Instruction.Reads item.bytes item.instruction := by
  induction items generalizing offset with
  | nil => cases hitem
  | cons first items ih =>
    obtain ⟨hoffset, hpos, -, hreads, tile⟩ := tile
    rcases List.mem_cons.mp hitem with rfl | hitem
    · exact ⟨[], items.flatMap Item.bytes, rfl, hoffset, hpos, hreads⟩
    · obtain ⟨before, after, hsplit, hoffset', hpos', hreads'⟩ := ih tile hitem
      refine ⟨first.bytes ++ before, after, ?_, ?_, hpos', hreads'⟩
      · rw [List.flatMap_cons, hsplit, List.append_assoc]
      · rw [hoffset', Item.next, hoffset, List.length_append, Nat.add_assoc]

/-- Bytes at another offset have the same listing, with its offsets moved. -/
theorem ofBytes_add (offset distance : ℕ) (bytes : List UInt8) :
    ofBytes (offset + distance) bytes = (ofBytes offset bytes).shift distance := by
  fun_induction ofBytes offset bytes with
  | case1 offset => rw [ofBytes]; rfl
  | case2 offset byte rest reading next e houtcome =>
    have hread : Instruction.read (offset + distance) (byte :: rest) =
        ⟨.error (e.shift distance), reading.length⟩ := by
      rw [Instruction.read_add]
      exact congrArg (Reading.mk · reading.length) (congrArg (Except.mapError _) houtcome)
    rw [ofBytes_of_error hread, Nat.add_right_comm]
    rfl
  | case3 offset byte rest reading next instruction houtcome listing own ih =>
    have hread : Instruction.read (offset + distance) (byte :: rest) =
        ⟨.ok instruction, reading.length⟩ := by
      rw [Instruction.read_add]
      exact congrArg (Reading.mk · reading.length) (congrArg (Except.mapError _) houtcome)
    rw [ofBytes_of_read hread, Nat.add_right_comm, ih]
    rfl

end Listing

end TalkMachine
