import TalkMachine.Proofs.Code.Construction
import TalkMachine.Proofs.Code.Settling

/-!
# Jumps over nothing

Code in which every jump's label is placed and every instruction has an encoding is assembled,
unless some jump goes over nothing: a jump whose label stands right behind it, with only other
labels in between. Such a jump is laid out as one byte, and then no jump of one byte goes over zero
bytes. The main statement is `Code.exists_assemble_iff_not_hasEmptyJump`.
-/

namespace TalkMachine

namespace Layout

variable {layout : Layout}

/-! ### Emission of what fits -/

/-- Whether a node with its position and size is written in just that many bytes. -/
def Writes (layout : Layout) (entry : Node × ℕ × ℕ) : Prop :=
  ∃ bytes, entry.1.encode entry.2.1 entry.2.2 layout.labels = .ok bytes ∧
    bytes.length = entry.2.2

/-- Whether a node with its position and size does not fit. -/
def Overruns (layout : Layout) (entry : Node × ℕ × ℕ) : Prop :=
  ∃ position, entry.1.encode entry.2.1 entry.2.2 layout.labels =
    .error (.encodingOverrun position)

/-- A node that is written where it should lie is followed by the others. -/
lemma emit_cons {node : Node} {size : ℕ} {rest : List (Node × ℕ × ℕ)} {out : Array UInt8}
    {bytes : List UInt8} (hbytes : node.encode out.size size layout.labels = .ok bytes)
    (hlength : bytes.length = size) (hroom : out.size + size ≤ layout.total) :
    layout.emit ((node, out.size, size) :: rest) out =
      layout.emit rest (out ++ bytes.toArray) := by
  have hwrite : bytes.foldlM (emitByte layout.total) out = .ok (out ++ bytes.toArray) :=
    foldlM_emitByte_of_le (hlength.symm ▸ hroom)
  rw [emit]
  simp only [ne_eq, not_true_eq_false, if_false, hbytes, hwrite, Except.bind, Bind.bind]
  exact if_neg (by simp [hlength])

/-- When each node is written or does not fit, the bytes are put out or the first node that does not
fit is reported. -/
lemma emit_of_writes_or_overruns {placed : List (Node × ℕ × ℕ)} {out : Array UInt8}
    (hplaced : ∀ (k : ℕ) (node : Node) (position size : ℕ),
      placed[k]? = some (node, position, size) →
        position = out.size + offset (placed.map fun entry => entry.2.2) k)
    (hroom : out.size + (placed.map fun entry => entry.2.2).sum ≤ layout.total)
    (hentries : ∀ entry ∈ placed, layout.Writes entry ∨ layout.Overruns entry) :
    ((∃ out', layout.emit placed out = .ok out') ∧ ∀ entry ∈ placed, layout.Writes entry) ∨
      ((∃ position, layout.emit placed out = .error (.encodingOverrun position)) ∧
        ∃ entry ∈ placed, layout.Overruns entry) := by
  induction placed generalizing out with
  | nil => exact Or.inl ⟨⟨out, rfl⟩, by simp⟩
  | cons entry rest ih =>
    obtain ⟨node, position, size⟩ := entry
    obtain rfl : position = out.size := by simpa using hplaced 0 node position size rfl
    simp only [List.map_cons, List.sum_cons] at hroom
    rcases hentries _ List.mem_cons_self with ⟨bytes, hbytes, hlength⟩ | ⟨position, hover⟩
    · simp only at hbytes hlength
      have hrest : ∀ (k : ℕ) (node : Node) (position size : ℕ),
          rest[k]? = some (node, position, size) → position =
            (out ++ bytes.toArray).size + offset (rest.map fun entry => entry.2.2) k := by
        intro k node position size hk
        simpa [offset_cons_succ, Nat.add_assoc, hlength] using hplaced (k + 1) node position size hk
      have hroom' : (out ++ bytes.toArray).size + (rest.map fun entry => entry.2.2).sum ≤
          layout.total := by
        simp only [Array.size_append, List.size_toArray]
        omega
      rw [emit_cons hbytes hlength (by omega)]
      rcases ih hrest hroom' fun entry hentry => hentries entry (List.mem_cons_of_mem _ hentry) with
        ⟨hok, hall⟩ | ⟨herror, entry, hentry, hover⟩
      · exact Or.inl ⟨hok, List.forall_mem_cons.mpr ⟨⟨bytes, hbytes, hlength⟩, hall⟩⟩
      · exact Or.inr ⟨herror, entry, List.mem_cons_of_mem _ hentry, hover⟩
    · refine Or.inr ⟨⟨position, ?_⟩, _, List.mem_cons_self, position, hover⟩
      rw [emit]
      simp only at hover
      simp [hover, bind, Except.bind]

/-- No node both is written and does not fit. -/
lemma not_overruns_of_writes {entry : Node × ℕ × ℕ} (h : layout.Writes entry) :
    ¬layout.Overruns entry := by
  rintro ⟨position, hover⟩
  obtain ⟨bytes, hbytes, -⟩ := h
  rw [hbytes] at hover
  cases hover

/-! ### What fits -/

variable {labelCount : ℕ} {nodes : List Node} {greatest sizes : List ℕ}

/-- A node that is no jump over nothing is written. -/
lemma writes_of_not_isEmptyJump (hcode : HasLayout labelCount nodes greatest)
    (hmade : layout.IsMadeFrom labelCount nodes sizes) (h : Settling nodes greatest sizes)
    {j size : ℕ} {node : Node} (hj : nodes[j]? = some node) (hsize : sizes[j]? = some size)
    (hjump : ¬IsEmptyJump nodes j) : layout.Writes (node, offset sizes j, size) := by
  have hsuits := h.suits hj hsize
  cases node with
  | instruction i => exact hsuits
  | jump kind label =>
    obtain ⟨k, hk, hfind⟩ := Settling.exists_target hcode hmade hj
    have hnext := offset_succ hsize
    rcases hsuits.2.1 k hk with hfits | ⟨rfl, hzero⟩
    · obtain ⟨bytes, hbytes⟩ := Jump.exists_encode kind hfits
      refine ⟨bytes, ?_, (Instruction.reads_jump hfits hbytes).2⟩
      rw [Node.encode, hfind]
      exact (if_pos hfits).trans hbytes
    · have hplace : offset sizes k = offset sizes (j + 1) := by
        unfold Node.distance at hzero
        omega
      have hjk : j < k := by
        by_contra hkj
        have hbefore := offset_mono sizes (Nat.not_lt.mp hkj)
        omega
      have hplaces := (h.offset_eq_iff hmade.1 hjk (List.getElem?_eq_some_iff.mp hk).1).mp hplace
      exact absurd ⟨kind, label, k, hj, hk, hplaces⟩ hjump
  | bind label => exact ⟨[], rfl, hsuits.symm⟩

/-- A jump over nothing that has the short form does not fit. -/
lemma overruns_of_isEmptyJump (hcode : HasLayout labelCount nodes greatest)
    (hmade : layout.IsMadeFrom labelCount nodes sizes) (h : Settling nodes greatest sizes) {j : ℕ}
    {node : Node} (hj : nodes[j]? = some node) (hsize : sizes[j]? = some 1)
    (hjump : IsEmptyJump nodes j) : layout.Overruns (node, offset sizes j, 1) := by
  obtain ⟨kind, label, k, hjump, hk, hplaces⟩ := hjump
  obtain rfl : node = .jump kind label := Option.some.inj (hj.symm.trans hjump)
  obtain ⟨k', hk', hfind⟩ := Settling.exists_target hcode hmade hj
  obtain rfl := hcode.once hk hk'
  have hgap := (h.offset_eq_iff hmade.1 hplaces.1 (List.getElem?_eq_some_iff.mp hk).1).mpr hplaces
  have hnext := offset_succ hsize
  refine ⟨offset sizes j, ?_⟩
  have hfits : ¬Jump.fits (Node.distance (offset sizes j) 1 (offset sizes k)) 1 = true := by
    rw [Jump.fits_one, Node.distance, hgap, hnext]
    omega
  rw [Node.encode, hfind]
  exact if_neg hfits

/-- What comes of emission, when sizes have settled: the bytes if no jump goes over nothing, else an
error. -/
lemma emit_of_settling {nodes : Array Node} (hcode : HasLayout labelCount nodes.toList greatest)
    (hmade : layout.IsMadeFrom labelCount nodes.toList sizes)
    (h : Settling nodes.toList greatest sizes)
    (hshort : ∀ j, IsEmptyJump nodes.toList j → sizes[j]? = some 1) :
    ((∃ out, layout.emit (nodes.zip (layout.positions.zip layout.sizes)).toList #[] = .ok out) ∧
        ∀ j, ¬IsEmptyJump nodes.toList j) ∨
      ((∃ position, layout.emit (nodes.zip (layout.positions.zip layout.sizes)).toList #[] =
          .error (.encodingOverrun position)) ∧
        ∃ j, IsEmptyJump nodes.toList j) := by
  set placed := (nodes.zip (layout.positions.zip layout.sizes)).toList with hplaced
  have hmem : ∀ {k : ℕ} {node : Node} {position size : ℕ},
      placed[k]? = some (node, position, size) ↔
        nodes.toList[k]? = some node ∧ sizes[k]? = some size ∧ position = offset sizes k := by
    intro k node position size
    rw [hplaced, Array.getElem?_toList, hmade.getElem?_zip]
    simp
  have hwrites : ∀ {k : ℕ} {node : Node} {position size : ℕ},
      placed[k]? = some (node, position, size) → ¬IsEmptyJump nodes.toList k →
        layout.Writes (node, position, size) := by
    intro k node position size hk hjump
    obtain ⟨hnode, hsize, rfl⟩ := hmem.mp hk
    exact writes_of_not_isEmptyJump hcode hmade h hnode hsize hjump
  have hoverruns : ∀ {k : ℕ} {node : Node} {position size : ℕ},
      placed[k]? = some (node, position, size) → IsEmptyJump nodes.toList k →
        layout.Overruns (node, position, size) := by
    intro k node position size hk hjump
    obtain ⟨hnode, hsize, rfl⟩ := hmem.mp hk
    obtain rfl : size = 1 := Option.some.inj (hsize.symm.trans (hshort k hjump))
    exact overruns_of_isEmptyJump hcode hmade h hnode hsize hjump
  have hsizes : placed.map (fun entry => entry.2.2) = sizes := hmade.map_size
  have hpositions : ∀ (k : ℕ) (node : Node) (position size : ℕ),
      placed[k]? = some (node, position, size) →
        position = (#[] : Array UInt8).size + offset (placed.map fun entry => entry.2.2) k := by
    intro k node position size hk
    simpa [hsizes] using (hmem.mp hk).2.2
  have hroom : (#[] : Array UInt8).size + (placed.map fun entry => entry.2.2).sum ≤
      layout.total := by
    simp [hsizes, hmade.total_eq]
  have hentries : ∀ entry ∈ placed, layout.Writes entry ∨ layout.Overruns entry := by
    intro entry hentry
    obtain ⟨k, hk⟩ := List.mem_iff_getElem?.mp hentry
    exact (em (IsEmptyJump nodes.toList k)).symm.imp (hwrites hk) (hoverruns hk)
  rcases emit_of_writes_or_overruns hpositions hroom hentries with
    ⟨hok, hall⟩ | ⟨herror, entry, hentry, hover⟩
  · refine Or.inl ⟨hok, fun j hjump => ?_⟩
    obtain ⟨kind, label, -, hnode, -⟩ := id hjump
    have hj : placed[j]? = some (.jump kind label, offset sizes j, 1) :=
      hmem.mpr ⟨hnode, hshort j hjump, rfl⟩
    exact not_overruns_of_writes (hall _ (List.mem_of_getElem? hj)) (hoverruns hj hjump)
  · obtain ⟨k, hk⟩ := List.mem_iff_getElem?.mp hentry
    refine Or.inr ⟨herror, k, ?_⟩
    by_contra hjump
    exact not_overruns_of_writes (hwrites hk hjump) hover

end Layout

namespace Code

/-! ### Assembly -/

/-- Code with a layout is assembled from what emission puts out. -/
lemma assemble_eq_map {code : Code} {layout : Layout} (h : code.layout = .ok layout) :
    code.assemble =
      (layout.emit (code.nodes.zip (layout.positions.zip layout.sizes)).toList #[]).map
        Array.toList := by
  rw [assemble, h]
  simp only [Layout.encode, Bind.bind, Except.bind, pure, Except.pure]
  split <;> rename_i hout <;> rw [hout] <;> rfl

/-- Whether some jump of the code goes to a label right behind it. -/
def HasEmptyJump (code : Code) : Prop :=
  ∃ j, IsEmptyJump code.nodes.toList j

/-- Code that is built has a layout when every label jumped to is placed, every node has a greatest
size, and these sizes are small enough. -/
lemma hasLayout_built {actions : List Action} {sizes : Array ℕ}
    (hplaced : ∀ kind label, .jump kind label ∈ (built actions).nodes →
      (built actions).bound[label.number]? = some true)
    (hsizes : (built actions).nodes.mapM Node.maxSize = .ok sizes) (hsum : sizes.sum < 2 ^ 31) :
    HasLayout (built actions).bound.size (built actions).nodes.toList sizes.toList := by
  have honce := labelsOnce_built actions
  refine ⟨fun {j kind label} hj => ?_, fun {j k label} hj hk => ?_,
    (array_mapM_eq_ok_iff_forall₂ _ _ _).mp hsizes, by rwa [Array.sum_toList]⟩
  · have hbound := hplaced kind label (by simpa using List.mem_of_getElem? hj)
    obtain ⟨k, hk⟩ := honce.exists_place hbound
    exact ⟨(Array.getElem?_eq_some_iff.mp hbound).1, k, by simpa using hk⟩
  · exact honce.once (by simpa using hj) (by simpa using hk)

/-- Code that is built, in which every label jumped to is placed, every instruction has an encoding,
and the greatest sizes sum up to less than `2 ^ 31`, is assembled just when no jump goes over
nothing. Otherwise the layout is refused as inconsistent. -/
theorem exists_assemble_iff_not_hasEmptyJump (actions : List Action) (sizes : Array ℕ)
    (hplaced : ∀ kind label, .jump kind label ∈ (built actions).nodes →
      (built actions).bound[label.number]? = some true)
    (hsizes : (built actions).nodes.mapM Node.maxSize = .ok sizes) (hsum : sizes.sum < 2 ^ 31) :
    ((∃ bytes, (built actions).assemble = .ok bytes) ↔ ¬(built actions).HasEmptyJump) ∧
      ((built actions).HasEmptyJump →
        ∃ position, (built actions).assemble = .error (.encodingOverrun position)) := by
  have hcode := hasLayout_built hplaced hsizes hsum
  obtain ⟨layout, sizes', hlayout, hmade, hsettled, hshort⟩ := Layout.exists_ofNodes hcode
  have hassemble := assemble_eq_map hlayout
  rcases Layout.emit_of_settling hcode hmade hsettled hshort with
    ⟨⟨out, hout⟩, hnone⟩ | ⟨⟨position, herror⟩, hsome⟩
  · have hnone' : ¬(built actions).HasEmptyJump := fun ⟨j, hjump⟩ => hnone j hjump
    have hok : (built actions).assemble = .ok out.toList := by
      rw [hassemble, hout]
      rfl
    exact ⟨⟨fun _ => hnone', fun _ => ⟨_, hok⟩⟩, fun h => absurd h hnone'⟩
  · have hfails : (built actions).assemble = .error (.encodingOverrun position) := by
      rw [hassemble, herror]
      rfl
    refine ⟨⟨?_, fun h => absurd hsome h⟩, fun _ => ⟨position, hfails⟩⟩
    rintro ⟨bytes, hbytes⟩
    rw [hfails] at hbytes
    cases hbytes

/-- The steps that build a loop: a jump forward over its body, and a jump back to its start. -/
def loopActions : List Action :=
  [.newLabel, .newLabel, .bind ⟨0⟩, .emit (.pushConstant .true), .jump .ifFalse ⟨1⟩,
    .emit (.pushInteger 1000), .emit .pop, .jump .always ⟨0⟩, .bind ⟨1⟩, .emit (.return .nil)]

/-- The loop has no jump over nothing, and is assembled. -/
theorem exists_assemble_loopActions :
    ¬(built loopActions).HasEmptyJump ∧ ∃ bytes, (built loopActions).assemble = .ok bytes := by
  have hnodes : (built loopActions).nodes = #[.bind ⟨0⟩, .instruction (.pushConstant .true),
      .jump .ifFalse ⟨1⟩, .instruction (.pushInteger 1000), .instruction .pop, .jump .always ⟨0⟩,
      .bind ⟨1⟩, .instruction (.return .nil)] := rfl
  have hbound : (built loopActions).bound = #[true, true] := rfl
  have hplaced : ∀ kind label, .jump kind label ∈ (built loopActions).nodes →
      (built loopActions).bound[label.number]? = some true := by
    intro kind label hmem
    rw [hnodes] at hmem
    rw [hbound]
    simp only [List.mem_toArray, List.mem_cons, reduceCtorEq, Node.jump.injEq, List.not_mem_nil,
      false_or, or_false] at hmem
    rcases hmem with ⟨-, rfl⟩ | ⟨-, rfl⟩ <;> rfl
  have hsizes : (built loopActions).nodes.mapM Node.maxSize = .ok #[0, 1, 8, 4, 1, 8, 0, 1] := by
    rw [hnodes]
    decide +kernel
  have hassemble : ∃ bytes, (built loopActions).assemble = .ok bytes :=
    ⟨[77, 239, 9, 225, 3, 232, 232, 216, 225, 255, 237, 244, 91], by decide +kernel⟩
  exact ⟨(exists_assemble_iff_not_hasEmptyJump loopActions _ hplaced hsizes (by decide)).1.mp
    hassemble, hassemble⟩

/-- The steps that build a jump to a label right behind it. -/
def jumpToNext : List Action :=
  [.newLabel, .jump .always ⟨0⟩, .bind ⟨0⟩]

/-- A jump to a label right behind it is refused, though its label is placed and its greatest size
is small. -/
theorem assemble_jumpToNext :
    (∀ kind label, .jump kind label ∈ (built jumpToNext).nodes →
      (built jumpToNext).bound[label.number]? = some true) ∧
    (built jumpToNext).nodes.mapM Node.maxSize = .ok #[8, 0] ∧ (#[8, 0] : Array ℕ).sum < 2 ^ 31 ∧
    (built jumpToNext).assemble = .error (.encodingOverrun 0) := by
  have hnodes : (built jumpToNext).nodes = #[.jump .always ⟨0⟩, .bind ⟨0⟩] := rfl
  have hbound : (built jumpToNext).bound = #[true] := rfl
  refine ⟨fun kind label hmem => ?_, ?_, by decide, by decide +kernel⟩
  · rw [hnodes] at hmem
    rw [hbound]
    simp only [List.mem_toArray, List.mem_cons, reduceCtorEq, Node.jump.injEq, List.not_mem_nil,
      or_false] at hmem
    rw [hmem.2]
    rfl
  · rw [hnodes]
    decide +kernel

end Code

end TalkMachine
