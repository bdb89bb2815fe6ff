import TalkMachine.Bytecode.Listing
import TalkMachine.Code
import TalkMachine.Proofs.Code.Placement
import TalkMachine.Proofs.Code.RoundTrip

/-!
# The listing of assembled code

Assembled code lists as the nodes it was assembled from. Emission goes node by node, and so does the
listing of what was emitted: `Listing.ofBytes_append` splits off the first item, and
`Layout.listing_emit` walks along both. The main statement is `Code.listing_assemble`: the listing
has one item for each node that is not the place of a label, where the layout has that node.
-/

namespace TalkMachine

/-! ### Listings of written bytes -/

/-- Bytes that are read as an instruction are the first item of a listing. -/
lemma Listing.ofBytes_append {offset : ℕ} {bytes rest : List UInt8} {i : Instruction}
    (h : Instruction.Reads bytes i) :
    Listing.ofBytes offset (bytes ++ rest) =
      { Listing.ofBytes (offset + bytes.length) rest with
        items := ⟨offset, bytes, i⟩ :: (Listing.ofBytes (offset + bytes.length) rest).items } := by
  have hread := h offset rest
  have hpos := Instruction.length_pos_of_reads h
  cases hbytes : bytes with
  | nil => simp [hbytes] at hpos
  | cons byte others =>
    rw [hbytes] at hread
    rw [List.cons_append] at hread ⊢
    rw [Listing.ofBytes]
    simp only [hread]
    rw [← List.cons_append, List.drop_left, List.take_left]

/-! ### Emission -/

namespace Layout

variable {layout : Layout} {out out' : Array UInt8}

/-- Bytes that were put behind others follow them. -/
lemma eq_append_of_foldlM_emitByte {limit : ℕ} {bytes : List UInt8}
    (h : bytes.foldlM (emitByte limit) out = .ok out') : out' = out ++ bytes.toArray := by
  induction bytes generalizing out with
  | nil =>
    obtain rfl := Except.ok.inj h
    simp
  | cons byte bytes ih =>
    rw [List.foldlM_cons, emitByte] at h
    split at h
    · cases h
    · rw [ih h]
      simp

/-- Bytes for which there is room are put behind the others. -/
lemma foldlM_emitByte_of_le {limit : ℕ} {bytes : List UInt8}
    (h : out.size + bytes.length ≤ limit) :
    bytes.foldlM (emitByte limit) out = .ok (out ++ bytes.toArray) := by
  induction bytes generalizing out with
  | nil => simp [pure, Except.pure]
  | cons byte bytes ih =>
    rw [List.length_cons] at h
    have hstep : emitByte limit out byte = .ok (out.push byte) := if_neg (by omega)
    rw [List.foldlM_cons, hstep]
    refine (ih (by rw [Array.size_push]; omega)).trans ?_
    simp

/-- A node that was emitted began at its position and has the bytes of its size. -/
lemma emit_cons_eq_ok {node : Node} {position size : ℕ} {rest : List (Node × ℕ × ℕ)}
    (h : layout.emit ((node, position, size) :: rest) out = .ok out') :
    out.size = position ∧ ∃ bytes, node.encode position size layout.labels = .ok bytes ∧
      bytes.length = size ∧ layout.emit rest (out ++ bytes.toArray) = .ok out' := by
  rw [emit] at h
  obtain ⟨hposition, hwrite⟩ := guard_eq_ok_iff.mp h
  obtain ⟨bytes, hbytes, hput⟩ := bind_eq_ok_iff.mp hwrite
  obtain ⟨next, hnext, hchecked⟩ := bind_eq_ok_iff.mp hput
  obtain ⟨hsize, hrest⟩ := guard_eq_ok_iff.mp hchecked
  obtain rfl := eq_append_of_foldlM_emitByte hnext
  obtain rfl := not_not.mp hposition
  exact ⟨rfl, bytes, hbytes, by simpa using hsize, hrest⟩

end Layout

/-! ### Nodes and their items -/

namespace Node

/-- Whether a node is the place of a label, which takes no bytes. -/
def isBind : Node → Bool
  | bind _ => true
  | _ => false

/-- Whether an item of a listing is what a node at `position` with `size` bytes comes to. A jump
goes from its end to where its label stands. -/
def IsListedAs (labels : LabelPositions) (item : Listing.Item) :
    Node → (position size : ℕ) → Prop
  | instruction i, position, size =>
    item.offset = position ∧ item.next = position + size ∧ item.instruction = i
  | jump kind label, position, size =>
    item.offset = position ∧ item.next = position + size ∧ ∃ (distance : ℤ) (target : ℕ),
      item.instruction = .jump kind distance ∧ labels.find label = .ok target ∧
        (position + size : ℕ) + distance = target
  | bind _, _, _ => False

/-- The bytes of a node are read as one instruction, the one it is listed as, unless the node is the
place of a label, which has no bytes. -/
lemma reads_encode {labels : LabelPositions} {node : Node} {position size : ℕ}
    {bytes : List UInt8} (h : node.encode position size labels = .ok bytes)
    (hsize : bytes.length = size) :
    if node.isBind then bytes = []
    else ∃ i, Instruction.Reads bytes i ∧ node.IsListedAs labels ⟨position, bytes, i⟩ position size
    := by
  subst hsize
  cases node with
  | instruction i => exact ⟨i, Instruction.read_encode h, rfl, rfl, rfl⟩
  | jump kind label =>
    rw [encode] at h
    obtain ⟨target, htarget, h⟩ := bind_eq_ok_iff.mp h
    simp only at h
    split at h
    · rename_i hfits
      refine ⟨_, (Instruction.reads_jump hfits h).1, rfl, rfl, _, target, rfl, htarget, ?_⟩
      rw [distance]
      omega
    · cases h
  | bind label =>
    obtain rfl := Except.ok.inj h
    rfl

end Node

namespace Layout

/-- What was emitted behind `out` lists as the nodes it was emitted from. -/
lemma listing_emit {layout : Layout} {placed : List (Node × ℕ × ℕ)} {out out' : Array UInt8}
    (h : layout.emit placed out = .ok out') :
    ∃ bytes, out' = out ++ bytes.toArray ∧
      bytes.length = (placed.map (fun entry => entry.2.2)).sum ∧
      (Listing.ofBytes out.size bytes).error = none ∧
      List.Forall₂ (fun entry item => entry.1.IsListedAs layout.labels item entry.2.1 entry.2.2)
        (placed.filter (fun entry => !entry.1.isBind)) (Listing.ofBytes out.size bytes).items := by
  induction placed generalizing out with
  | nil =>
    obtain rfl := Except.ok.inj h
    exact ⟨[], by simp, rfl, by simp [Listing.ofBytes], by simp [Listing.ofBytes]⟩
  | cons entry rest ih =>
    obtain ⟨node, position, size⟩ := entry
    obtain ⟨rfl, chunk, hchunk, hsize, hrest⟩ := emit_cons_eq_ok h
    obtain ⟨bytes, hout, hlength, herror, hitems⟩ := ih hrest
    have hreads := Node.reads_encode hchunk hsize
    rw [Array.size_append, List.size_toArray] at herror hitems
    refine ⟨chunk ++ bytes, by simp [hout], by simp [hsize, hlength], ?_⟩
    split at hreads
    · rename_i hbind
      subst hreads
      rw [List.filter_cons_of_neg (by simp [hbind])]
      exact ⟨herror, hitems⟩
    · rename_i hbind
      obtain ⟨i, hread, hlisted⟩ := hreads
      rw [List.filter_cons_of_pos (by simp [hbind]), Listing.ofBytes_append hread]
      exact ⟨herror, .cons hlisted hitems⟩

/-- The final layout is made from one size for each node. -/
lemma exists_isMadeFrom_ofNodes {labelCount : ℕ} {nodes : Array Node} {layout : Layout}
    (h : ofNodes labelCount nodes = .ok layout) :
    ∃ sizes, layout.IsMadeFrom labelCount nodes.toList sizes := by
  obtain ⟨sizes, hsizes, hsettle⟩ := bind_eq_ok_iff.mp h
  have hsize := ((array_mapM_eq_ok_iff _ _ _).mp hsizes).1
  refine (settle_induction (P := fun layout =>
    ∃ sizes, layout.IsMadeFrom labelCount nodes.toList sizes) ?_ ?_ hsettle).1
  · rintro layout sizes' ⟨sizes, hmade⟩ hshrink
    exact ⟨_, isMadeFrom_ofSizes ((hmade.shrink_eq_ok_iff _).mp hshrink).1⟩
  · exact ⟨_, isMadeFrom_ofSizes hsize⟩

end Layout

namespace Code

/-- Assembled code lists without an error, has as many bytes as its layout says, and lists one item
for each node that is not the place of a label, in order: the instruction itself, or the jump from
its end to where its label stands. A label stands where the layout has one of its places. This holds
of all code, however it was put together. -/
theorem listing_assemble (code : Code) (bytes : List UInt8) (h : code.assemble = .ok bytes) :
    ∃ layout, code.layout = .ok layout ∧ bytes.length = layout.total ∧
      layout.positions.size = code.nodes.size ∧ layout.sizes.size = code.nodes.size ∧
      (∀ (label : Label) (target : ℕ), layout.labels.find label = .ok target →
        ∃ k : ℕ, code.nodes[k]? = some (.bind label) ∧ layout.positions[k]? = some target) ∧
      (Listing.ofBytes 0 bytes).error = none ∧
      List.Forall₂ (fun entry item => entry.1.IsListedAs layout.labels item entry.2.1 entry.2.2)
        ((code.nodes.zip (layout.positions.zip layout.sizes)).toList.filter
          (fun entry => !entry.1.isBind))
        (Listing.ofBytes 0 bytes).items := by
  obtain ⟨layout, hlayout, h⟩ := bind_eq_ok_iff.mp h
  obtain ⟨out, hemit, h⟩ := bind_eq_ok_iff.mp h
  obtain ⟨sizes, hmade⟩ := Layout.exists_isMadeFrom_ofNodes hlayout
  obtain ⟨bytes', hout, hlength, herror, hitems⟩ := Layout.listing_emit hemit
  obtain rfl : bytes' = bytes := by simpa [hout, pure, Except.pure] using h
  have hpositions : layout.positions.size = code.nodes.size := by
    simpa using congrArg List.length hmade.positions_eq
  have hsizes : layout.sizes.size = code.nodes.size := by
    simpa [hmade.1] using congrArg List.length hmade.sizes_eq
  refine ⟨layout, hlayout, ?_, hpositions, hsizes, ?_, herror, hitems⟩
  · rw [hlength, hmade.map_size, hmade.total_eq]
  · intro label target hfind
    obtain ⟨k, hk, rfl⟩ := hmade.exists_place hfind
    refine ⟨k, by simpa using hk, ?_⟩
    have hlt : k < code.nodes.size := by simpa using (List.getElem?_eq_some_iff.mp hk).1
    rw [← Array.getElem?_toList, hmade.positions_eq]
    simp [hlt]

/-- A loop: a jump forward over its body, and a jump back to its start. -/
def sampleLoop : Code :=
  ⟨#[.bind ⟨0⟩, .instruction (.pushConstant .true), .jump .ifFalse ⟨1⟩,
    .instruction (.pushInteger 1000), .instruction .pop, .jump .always ⟨0⟩, .bind ⟨1⟩,
    .instruction (.return .nil)], #[], #[true, true]⟩

/-- The loop is assembled, with jumps of two and of four bytes, and lists without an error. -/
theorem listing_assemble_sampleLoop :
    sampleLoop.assemble = .ok [77, 239, 9, 225, 3, 232, 232, 216, 225, 255, 237, 244, 91] ∧
      ∃ layout, sampleLoop.layout = .ok layout ∧ layout.total = 13 ∧
        (Listing.ofBytes 0
          [77, 239, 9, 225, 3, 232, 232, 216, 225, 255, 237, 244, 91]).error = none := by
  have hbytes : sampleLoop.assemble =
      .ok [77, 239, 9, 225, 3, 232, 232, 216, 225, 255, 237, 244, 91] := by decide +kernel
  obtain ⟨layout, hlayout, hlength, -, -, -, herror, -⟩ := listing_assemble sampleLoop _ hbytes
  exact ⟨hbytes, layout, hlayout, hlength.symm, herror⟩

end Code

end TalkMachine
