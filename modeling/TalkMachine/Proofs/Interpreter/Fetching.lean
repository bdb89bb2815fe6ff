import TalkMachine.Proofs.Bytecode.Disassembly
import TalkMachine.Proofs.Interpreter.Nodes

/-!
# What is listed is what is fetched

A listing reads the code of a method from its beginning, with offsets that count from there. An
interpreter reads one instruction from at most eight bytes at a program counter. Both come to the
same instructions, as an instruction is decided by its own bytes
(`Interpreter.listing_covers_and_is_fetched`).
-/

namespace TalkMachine

namespace Heap

variable {h : Heap} {method : Value} {header : MethodHeader} {code : List UInt8}

/-- The bytes at a program counter are a part of the code. -/
lemma bytesFrom_of_methodCode (hheader : h.methodHeader method = .ok header)
    (hcode : h.methodCode method = .ok code) (k count : ℕ) :
    h.bytesFrom method (header.initialPc + k) count = .ok ((code.drop k).take count) := by
  obtain ⟨header', hheader', hcode⟩ := bind_eq_ok_iff.mp hcode
  cases hheader.symm.trans hheader'
  obtain ⟨size, hsize, hcode⟩ := bind_eq_ok_iff.mp hcode
  obtain ⟨-, hcode⟩ := guard_eq_ok_iff.mp hcode
  obtain ⟨size', address, hsize', haddress, rfl⟩ := bytesFrom_eq_ok_iff.mp hcode
  cases hsize.symm.trans hsize'
  refine bytesFrom_eq_ok_iff.mpr ⟨size, address, hsize, haddress, ?_⟩
  apply List.ext_getElem
  · simp only [List.length_map, List.length_range, List.length_take, List.length_drop]
    omega
  · intro j hj hj'
    simp [Nat.add_assoc]

end Heap

namespace Interpreter

variable {h : Heap} {method : Value} {header : MethodHeader} {code : List UInt8}

/-- An item that a listing of the code shows is fetched at its program counter. -/
lemma fetch_of_mem_items (hheader : h.methodHeader method = .ok header)
    (hcode : h.methodCode method = .ok code) {item : Listing.Item}
    (hitem : item ∈ (Listing.ofBytes 0 code).items) :
    fetch h ⟨method, header, header.initialPc + item.offset⟩ =
      .ok (item.instruction, header.initialPc + item.next) := by
  have covers := Listing.covers_ofBytes 0 code
  obtain ⟨before, after, hsplit, hoffset, -, hreads⟩ := covers.tile.exists_split hitem
  obtain ⟨rest, hrest, -⟩ := covers.ends
  have hdrop : code.drop item.offset = item.bytes ++ (after ++ rest) := by
    rw [hrest, Listing.decoded, hsplit, hoffset, Nat.zero_add, List.append_assoc, List.drop_left,
      List.append_assoc]
  have hwindow := Heap.bytesFrom_of_methodCode hheader hcode item.offset maxInstructionLength
  have hlength : item.bytes.length ≤ maxInstructionLength := Instruction.length_le_of_reads hreads
  rw [hdrop, List.take_append, List.take_of_length_le hlength] at hwindow
  rw [Listing.Item.next, ← Nat.add_assoc]
  exact fetch_of_read (r := ⟨method, header, header.initialPc + item.offset⟩) hwindow (hreads _ _)

/-- Reading from any offset of some bytes comes to items of 1 to 8 bytes, one behind the other, up to
the end of the bytes or to one error. Each attempt to read an instruction is decided by the bytes that
it takes, and where they lie is seen in offsets only. The text of a disassembly shows the bytes that
were decoded. If the bytes are the code of a method, each instruction that is listed is fetched at its
program counter, with the program counter of the next one. -/
theorem listing_covers_and_is_fetched (bytes : List UInt8) :
    (∀ offset, (Listing.ofBytes offset (bytes.drop offset)).Covers offset (bytes.drop offset) ∧
      Instruction.Decided offset (bytes.drop offset) ∧
      Listing.ofBytes offset (bytes.drop offset) =
        (Listing.ofBytes 0 (bytes.drop offset)).shift offset) ∧
    (∀ base, Disassembly.columns (disassemble bytes base).toList =
        (Listing.ofBytes 0 bytes).items.map (fun item => (base + item.offset, item.bytes)) ∧
      (Disassembly.columns (disassemble bytes base).toList).flatMap Prod.snd =
        (Listing.ofBytes 0 bytes).decoded) ∧
    ∀ h method header, h.methodHeader method = .ok header → h.methodCode method = .ok bytes →
      ∀ item ∈ (Listing.ofBytes 0 bytes).items,
        fetch h ⟨method, header, header.initialPc + item.offset⟩ =
          .ok (item.instruction, header.initialPc + item.next) := by
  refine ⟨fun offset => ⟨?_, ?_, ?_⟩, fun base => ⟨?_, ?_⟩, ?_⟩
  · exact Listing.covers_ofBytes offset (bytes.drop offset)
  · exact Instruction.decided_read offset (bytes.drop offset)
  · have hshift := Listing.ofBytes_add 0 offset (bytes.drop offset)
    rwa [Nat.zero_add] at hshift
  · exact Disassembly.columns_disassemble bytes base
  · rw [Disassembly.columns_disassemble, List.flatMap_map]
    rfl
  · exact fun h method header hheader hcode item hitem => fetch_of_mem_items hheader hcode hitem

/-- A method that pushes the receiver and 1, sends with one argument and returns what was answered:
its third instruction, 18 bytes behind the beginning of the object, is the send. -/
theorem listing_covers_and_is_fetched_sample : fetch Moment.sampleExecution.machine.heap
      ⟨Value.ofAddress 120, ⟨1, 0, 0⟩, 18⟩ = .ok (.send 0 1, 19) := by
  have hheader : Moment.sampleExecution.machine.heap.methodHeader (Value.ofAddress 120) =
      .ok ⟨1, 0, 0⟩ := by
    decide +kernel
  have hcode : Moment.sampleExecution.machine.heap.methodCode (Value.ofAddress 120) =
      .ok [0x4c, 0x51, 0x90, 0x5c] := by
    decide +kernel
  have hreceiver : Instruction.Reads [0x4c] (.pushConstant .receiver) :=
    Instruction.reads_byte (show Op.pushReceiver.byte? 0 = some 0x4c from rfl) rfl
  have hone : Instruction.Reads [0x51] (.pushInteger 1) :=
    Instruction.reads_byte (show Op.pushOne.byte? 0 = some 0x51 from rfl) rfl
  have hsend : Instruction.Reads [0x90] (.send 0 1) :=
    Instruction.reads_byte (show Op.send1.byte? 0 = some 0x90 from rfl) rfl
  obtain ⟨-, -, hfetch⟩ := listing_covers_and_is_fetched [0x4c, 0x51, 0x90, 0x5c]
  refine hfetch _ _ _ hheader hcode ⟨2, [0x90], .send 0 1⟩ ?_
  rw [show ([0x4c, 0x51, 0x90, 0x5c] : List UInt8) = [0x4c] ++ ([0x51] ++ ([0x90] ++ [0x5c])) from
    rfl, Listing.ofBytes_append hreceiver, Listing.ofBytes_append hone,
    Listing.ofBytes_append hsend]
  simp

end Interpreter

end TalkMachine
