import TalkMachine.Proofs.Code.Listing

/-!
# Nodes in assembled code

Assembled code is its nodes one behind the other (`Code.exists_laidOut`): each begins where the one
before it ends, its bytes are read as the instruction that it stands for, and the place of a label,
which has no bytes, begins where the next node does (`Code.LaidOut.start_eq_of_isNext`). So the
bytes from the beginning of any node on are read as the next node that has bytes, or there are none
left (`Code.LaidOut.exists_reads`).
-/

namespace TalkMachine

/-- Where a node begins. Behind the last one, it is where the code ends. -/
def Layout.start (layout : Layout) (k : ℕ) : ℕ :=
  layout.positions.getD k layout.total

namespace Layout

variable {layout : Layout} {labelCount : ℕ} {nodes : Array Node} {sizes : List ℕ}

/-- Nodes begin at the partial sums of the sizes. -/
lemma IsMadeFrom.start_eq (h : layout.IsMadeFrom labelCount nodes.toList sizes) (k : ℕ) :
    layout.start k = offset sizes k := by
  rw [start, Array.getD_eq_getD_getElem?, ← Array.getElem?_toList, h.positions_eq]
  rcases Nat.lt_or_ge k nodes.size with hlt | hge
  · simp [hlt]
  · rw [List.getElem?_eq_none (by simpa using hge), Option.getD_none, h.total_eq,
      offset_of_length_le (by rw [h.1]; simpa using hge)]

/-- The bytes that were emitted for a node lie where it begins. -/
lemma exists_chunk_of_emit {placed : List (Node × ℕ × ℕ)} {out out' : Array UInt8}
    (h : layout.emit placed out = .ok out') {k : ℕ} {node : Node} {position size : ℕ}
    (hk : placed[k]? = some (node, position, size)) :
    ∃ chunk, node.encode position size layout.labels = .ok chunk ∧ chunk.length = size ∧
      out'.toList.drop position = chunk ++ out'.toList.drop (position + size) := by
  induction placed generalizing out k with
  | nil => cases hk
  | cons entry rest ih =>
    obtain ⟨first, position', size'⟩ := entry
    obtain ⟨rfl, chunk, hchunk, hsize, hrest⟩ := emit_cons_eq_ok h
    cases k with
    | zero =>
      obtain ⟨rfl, rfl, rfl⟩ : first = node ∧ out.size = position ∧ size' = size := by
        simpa using hk
      obtain ⟨bytes, rfl, -⟩ := listing_emit hrest
      refine ⟨chunk, hchunk, hsize, ?_⟩
      have hbehind : (out ++ chunk.toArray ++ bytes.toArray).toList.drop (out.size + size') =
          bytes := by
        simp only [Array.toList_append, ← hsize]
        exact List.drop_left' (by simp)
      rw [hbehind]
      simp
    | succ k => exact ih hrest hk

end Layout

/-! ### Next nodes -/

namespace Code

variable {code : Code} {layout : Layout} {bytes : List UInt8} {k j : ℕ}

/-- A node is the first from another one on that is not the place of a label, or there is none, and
it is the end of the code. -/
structure IsNext (code : Code) (k j : ℕ) : Prop where
  le : k ≤ j
  le_size : j ≤ code.nodes.size
  binds : ∀ i, k ≤ i → i < j → ∃ label, code.nodes[i]? = some (.bind label)
  not_bind : ∀ label, code.nodes[j]? ≠ some (.bind label)

/-- There is a next node from each node on. -/
lemma exists_isNext (code : Code) {k : ℕ} (hk : k ≤ code.nodes.size) : ∃ j, code.IsNext k j := by
  induction hn : code.nodes.size - k generalizing k with
  | zero =>
    refine ⟨k, le_rfl, hk, fun i hle hlt => by omega, fun label heq => ?_⟩
    have := (Array.getElem?_eq_some_iff.mp heq).1
    omega
  | succ n ih =>
    by_cases hbind : ∃ label, code.nodes[k]? = some (.bind label)
    · obtain ⟨j, hle, hsize, hbinds, hnot⟩ := ih (k := k + 1) (by omega) (by omega)
      refine ⟨j, by omega, hsize, fun i hi hlt => ?_, hnot⟩
      rcases Nat.eq_or_lt_of_le hi with rfl | hi
      · exact hbind
      · exact hbinds i hi hlt
    · exact ⟨k, le_rfl, hk, fun i hle hlt => by omega, fun label heq => hbind ⟨label, heq⟩⟩

/-! ### Code that is laid out -/

/-- Bytes are the nodes of code, one behind the other. -/
structure LaidOut (code : Code) (layout : Layout) (bytes : List UInt8) : Prop where
  layout_eq : code.layout = .ok layout
  length : bytes.length = layout.total
  start_zero : layout.start 0 = 0
  start_le : ∀ k, layout.start k ≤ layout.total
  start_end : layout.start code.nodes.size = layout.total
  label : ∀ label target, layout.labels.find label = .ok target →
    ∃ k, code.nodes[k]? = some (.bind label) ∧ layout.start k = target
  node : ∀ k node, code.nodes[k]? = some node → ∃ chunk,
    bytes.drop (layout.start k) = chunk ++ bytes.drop (layout.start (k + 1)) ∧
      layout.start (k + 1) = layout.start k + chunk.length ∧
      if node.isBind then chunk = []
      else ∃ i, Instruction.Reads chunk i ∧
        node.IsListedAs layout.labels ⟨layout.start k, chunk, i⟩ (layout.start k) chunk.length

/-- Assembled code is laid out. -/
theorem exists_laidOut (hassemble : code.assemble = .ok bytes) :
    ∃ layout, code.LaidOut layout bytes := by
  obtain ⟨layout, hlayout, hencode⟩ := bind_eq_ok_iff.mp hassemble
  obtain ⟨out, hemit, hbytes⟩ := bind_eq_ok_iff.mp hencode
  obtain rfl : out.toList = bytes := Except.ok.inj hbytes
  obtain ⟨layout', hlayout', hlength, -⟩ := listing_assemble code _ hassemble
  obtain rfl := Except.ok.inj (hlayout.symm.trans hlayout')
  obtain ⟨sizes, hmade⟩ := Layout.exists_isMadeFrom_ofNodes hlayout
  refine ⟨layout, hlayout, hlength, ?_, fun k => ?_, ?_, fun label target hfind => ?_,
    fun k node hk => ?_⟩
  · rw [hmade.start_eq, offset_zero]
  · rw [hmade.start_eq, hmade.total_eq]
    exact offset_le_sum sizes k
  · rw [hmade.start_eq, hmade.total_eq, offset_of_length_le (by rw [hmade.1]; simp)]
  · obtain ⟨k, hk, rfl⟩ := hmade.exists_place hfind
    rw [Array.getElem?_toList] at hk
    exact ⟨k, hk, hmade.start_eq k⟩
  · have hlt := (Array.getElem?_eq_some_iff.mp hk).1
    have hlength : sizes.length = code.nodes.size := by simpa using hmade.1
    obtain ⟨size, hsize⟩ : ∃ size, sizes[k]? = some size :=
      ⟨_, List.getElem?_eq_getElem (hlength ▸ hlt)⟩
    have hplaced := (hmade.getElem?_zip k node _ size).mpr ⟨hk, hsize, rfl⟩
    rw [← Array.getElem?_toList] at hplaced
    obtain ⟨chunk, hchunk, rfl, hdrop⟩ := Layout.exists_chunk_of_emit hemit hplaced
    rw [hmade.start_eq, hmade.start_eq, offset_succ hsize]
    exact ⟨chunk, hdrop, rfl, Node.reads_encode hchunk rfl⟩

namespace LaidOut

variable (laid : code.LaidOut layout bytes)
include laid

/-- The place of a label begins where the next node does. -/
lemma start_eq_of_isNext (hnext : code.IsNext k j) : layout.start k = layout.start j := by
  obtain ⟨hle, hsize, hbinds, -⟩ := hnext
  induction j, hle using Nat.le_induction with
  | base => rfl
  | succ j hkj ih =>
    obtain ⟨label, hlabel⟩ := hbinds j hkj (Nat.lt_succ_self j)
    obtain ⟨chunk, -, hstart, hchunk⟩ := laid.node j _ hlabel
    obtain rfl : chunk = [] := hchunk
    rw [hstart, ih (by omega) fun i hi hlt => hbinds i hi (by omega)]
    rfl

/-- The code ends at the end of its bytes. -/
lemma drop_end : bytes.drop (layout.start code.nodes.size) = [] := by
  rw [laid.start_end, ← laid.length, List.drop_length]

/-- A node that is not the place of a label lies at its beginning and is read as its instruction. -/
lemma exists_reads {node : Node} (hnode : code.nodes[j]? = some node) (hbind : node.isBind = false) :
    ∃ chunk i, bytes.drop (layout.start j) = chunk ++ bytes.drop (layout.start (j + 1)) ∧
      layout.start (j + 1) = layout.start j + chunk.length ∧ Instruction.Reads chunk i ∧
      node.IsListedAs layout.labels ⟨layout.start j, chunk, i⟩ (layout.start j) chunk.length := by
  obtain ⟨chunk, hdrop, hstart, hreads⟩ := laid.node j node hnode
  rw [hbind] at hreads
  obtain ⟨i, hreads, hlisted⟩ := hreads
  exact ⟨chunk, i, hdrop, hstart, hreads, hlisted⟩

end LaidOut

end Code

end TalkMachine
