import TalkMachine.Proofs.Code.FixedPoint
import TalkMachine.Proofs.Code.Nodes
import TalkMachine.Proofs.Code.Settling

/-!
# How tight the final layout is

A round weighs a shorter form of a jump while the jump still has its old size, and leaves its label
where it stands. The label of a jump forward would come nearer by the bytes that are given up, and so
the jump is taken to go farther than it would. `Jump.Spare` is what a jump keeps of this in all rounds:
the form it took had room for one step more. In the final layout a jump has therefore the shortest form
that reaches its label, except at the distances right below the reach of a form
(`Code.exists_reachesAs_iff`). A jump back does not move its label, and is always the shortest.
-/

namespace TalkMachine

namespace Jump

/-! ### The reach of each form -/

/-- The greatest distance forward that a form goes over. -/
def farthest : ℕ → ℤ
  | 1 => 8
  | 2 => 255
  | 4 => 32767
  | 6 => 8388607
  | _ => 2147483647

/-- The bytes by which the next longer form is longer. -/
def step : ℕ → ℕ
  | 1 => 1
  | _ => 2

/-- Each size of a jump is one of five. -/
lemma mem_sizes_iff {size : ℕ} :
    size ∈ sizes ↔ size = 1 ∨ size = 2 ∨ size = 4 ∨ size = 6 ∨ size = 8 := by
  simp [sizes]

/-- What holds of some size holds of one of the five. -/
lemma exists_mem_sizes_iff {P : ℕ → Prop} :
    (∃ size ∈ sizes, P size) ↔ P 1 ∨ P 2 ∨ P 4 ∨ P 6 ∨ P 8 := by
  simp [sizes]

/-- What holds of every size holds of the five. -/
lemma forall_mem_sizes_iff {P : ℕ → Prop} :
    (∀ size ∈ sizes, P size) ↔ P 1 ∧ P 2 ∧ P 4 ∧ P 6 ∧ P 8 := by
  simp [sizes]

/-- A jump that fits a size has one of the sizes. -/
lemma mem_sizes_of_fits {distance : ℤ} {size : ℕ} (h : fits distance size = true) :
    size ∈ sizes := by
  rw [mem_sizes_iff]
  by_cases hsize : size = 1
  · exact Or.inl hsize
  · rw [fits_long hsize] at h
    obtain ⟨htwo, heven, hmax, -⟩ := h
    simp only [extensions, maxExtensions] at hmax
    omega

/-- A form goes forward over the distances up to its farthest one. -/
lemma fits_iff_le_farthest {distance : ℤ} {size : ℕ} (hsize : size ∈ sizes) (h : 1 ≤ distance) :
    fits distance size = true ↔ distance ≤ farthest size := by
  rcases mem_sizes_iff.mp hsize with rfl | rfl | rfl | rfl | rfl
  · simp [fits_one, farthest, h]
  all_goals
    rw [fits_long (by decide), signedWidth_le_iff]
    norm_num [extensions, maxExtensions, farthest]
    omega

/-- A longer form is longer by a step at least. -/
lemma add_step_le {short long : ℕ} (hshort : short ∈ sizes) (hlong : long ∈ sizes)
    (hlt : short < long) : short + step short ≤ long := by
  rcases mem_sizes_iff.mp hshort with rfl | rfl | rfl | rfl | rfl <;>
    rcases mem_sizes_iff.mp hlong with rfl | rfl | rfl | rfl | rfl <;> simp [step] at hlt ⊢

/-- The least size that fits is no greater than any other size that fits. -/
lemma le_of_find? {distance : ℕ → ℤ} {least size : ℕ}
    (h : sizes.find? (fun size => fits (distance size) size) = some least)
    (hfits : fits (distance size) size = true) : least ≤ size := by
  have hsize := mem_sizes_of_fits hfits
  have hsorted : sizes.Pairwise (· < ·) := by decide
  obtain ⟨-, before, behind, hsizes, hbefore⟩ := List.find?_eq_some_iff_append.mp h
  rw [hsizes] at hsize hsorted
  rcases List.mem_append.mp hsize with hmem | hmem
  · exact absurd hfits (by simpa using hbefore size hmem)
  · rcases List.mem_cons.mp hmem with rfl | hmem
    · exact le_rfl
    · exact (List.rel_of_pairwise_cons (List.pairwise_append.mp hsorted).2.1 hmem).le

end Jump

/-! ### Changing one size -/

/-- Another size of node `k` does not move the nodes up to it. -/
lemma offset_set_of_le (sizes : List ℕ) {j k : ℕ} (size : ℕ) (h : j ≤ k) :
    offset (sizes.set k size) j = offset sizes j := by
  rw [offset, List.take_set_of_le h, offset]

/-- Another size of node `k` moves the nodes behind it by the difference. -/
lemma offset_set_of_lt {sizes : List ℕ} {j k old : ℕ} (size : ℕ) (hold : sizes[k]? = some old)
    (h : k < j) : offset (sizes.set k size) j + old = offset sizes j + size := by
  obtain ⟨hk, -⟩ := List.getElem?_eq_some_iff.mp hold
  induction j, h using Nat.le_induction with
  | base =>
    have hnew : (sizes.set k size)[k]? = some size := List.getElem?_set_self hk
    rw [offset_succ hnew, offset_succ hold, offset_set_of_le sizes size le_rfl]
    omega
  | succ j hkj ih =>
    have hother : (sizes.set k size)[j]? = sizes[j]? := List.getElem?_set_ne (by omega)
    cases hj : sizes[j]? with
    | none =>
      have hlength := List.getElem?_eq_none_iff.mp hj
      have hlength' : (sizes.set k size).length ≤ j := by simpa using hlength
      rw [offset_of_length_le hlength, offset_of_length_le hlength'] at ih
      rw [offset_of_length_le (by omega), offset_of_length_le (by omega)]
      exact ih
    | some last =>
      rw [offset_succ (hother.trans hj), offset_succ hj]
      omega

/-! ### What a jump has to spare -/

/-- Whether every jump forward has its greatest size, or a size that would still reach its label if
that stood one step farther away. -/
def Jump.Spare (nodes : List Node) (sizes : List ℕ) : Prop :=
  ∀ (j k size : ℕ) (kind : JumpKind) (label : Label), nodes[j]? = some (.jump kind label) →
    nodes[k]? = some (.bind label) → j < k → sizes[j]? = some size →
    size ∈ Jump.sizes ∧ (size = Jump.maxSize ∨
      Node.distance (offset sizes j) size (offset sizes k) + Jump.step size ≤ Jump.farthest size)

namespace Jump.Spare

variable {labelCount : ℕ} {nodes : Array Node} {sizes : List ℕ} {layout : Layout}

/-- A round keeps what jumps have to spare: a form that is taken was weighed at a distance that counts
the bytes which are given up for it. -/
lemma round (honce : ∀ {j k : ℕ} {label : Label}, nodes.toList[j]? = some (.bind label) →
      nodes.toList[k]? = some (.bind label) → j = k)
    (h : Jump.Spare nodes.toList sizes) (hmade : layout.IsMadeFrom labelCount nodes.toList sizes)
    {sizes' : Array ℕ} (hshrink : layout.shrink nodes = .ok sizes') :
    Jump.Spare nodes.toList sizes'.toList := by
  intro j k size' kind label hj hk hjk hsize'
  have hle := hmade.le_of_shrink hshrink
  obtain ⟨-, hround⟩ := (hmade.shrink_eq_ok_iff sizes').mp hshrink
  have hlt : j < sizes.length := by
    rw [hmade.1]
    exact (List.getElem?_eq_some_iff.mp hj).1
  have hsize : sizes[j]? = some sizes[j] := List.getElem?_eq_getElem hlt
  obtain ⟨hmem, hspare⟩ := h j k _ kind label hj hk hjk hsize
  obtain ⟨better, hbetter, hmin⟩ := hround j _ _ (by simpa using hj) hsize
  obtain ⟨target, hfind, hleast⟩ := Node.betterSize_jump.mp hbetter
  obtain ⟨k', hk', rfl⟩ := hmade.exists_place hfind
  obtain rfl := honce hk hk'
  obtain ⟨hmem', hfits⟩ := Jump.fits_of_find? hleast
  obtain rfl : min sizes[j] better = size' := by
    rw [← Array.getElem?_toList, hsize'] at hmin
    exact (Option.some.inj hmin).symm
  -- Behind the jump everything comes nearer, its label at least as much as its end.
  have hnear := offset_sub_le hle (show j + 1 ≤ k from hjk)
  have hbefore := offset_mono sizes (show j + 1 ≤ k from hjk)
  rw [offset_succ hsize'] at hnear
  rw [offset_succ hsize] at hnear hbefore
  rcases Nat.lt_or_ge better sizes[j] with hless | hkept
  · rw [min_eq_right hless.le] at hnear ⊢
    refine ⟨hmem', Or.inr ?_⟩
    have hstep := Jump.add_step_le hmem' hmem hless
    rw [Jump.fits_iff_le_farthest hmem' (by unfold Node.distance; omega)] at hfits
    unfold Node.distance at hfits ⊢
    omega
  · rw [min_eq_left hkept] at hnear ⊢
    refine ⟨hmem, hspare.imp_right fun hspare => ?_⟩
    unfold Node.distance at hspare ⊢
    omega

/-- At the start every jump has its greatest size. -/
lemma of_greatest {greatest : Array ℕ} (h : nodes.mapM Node.maxSize = .ok greatest) :
    Jump.Spare nodes.toList greatest.toList := by
  intro j k size kind label hj hk hjk hsize
  obtain ⟨-, hmaxSize⟩ := (array_mapM_eq_ok_iff _ _ _).mp h
  obtain ⟨most, hmost, hget⟩ := hmaxSize j _ (by simpa using hj)
  obtain rfl : Jump.maxSize = most := Except.ok.inj hmost
  rw [Array.getElem?_toList, hget] at hsize
  obtain rfl := Option.some.inj hsize
  exact ⟨by decide, Or.inl rfl⟩

/-- What jumps have to spare they have in the final layout. -/
lemma of_settle {greatest : Array ℕ} {final : Layout}
    (honce : ∀ {j k : ℕ} {label : Label}, nodes.toList[j]? = some (.bind label) →
      nodes.toList[k]? = some (.bind label) → j = k)
    (hgreatest : nodes.mapM Node.maxSize = .ok greatest)
    (hsettle : Layout.settle labelCount nodes (Layout.ofSizes labelCount nodes greatest) =
      .ok final) :
    Jump.Spare nodes.toList final.sizes.toList := by
  have hsize : greatest.size = nodes.size := by
    simpa using ((array_mapM_eq_ok_iff_forall₂ _ _ _).mp hgreatest).length_eq.symm
  set P : Layout → Prop := fun layout => ∃ sizes,
    layout.IsMadeFrom labelCount nodes.toList sizes ∧ Jump.Spare nodes.toList sizes with hP
  have hstart : P (Layout.ofSizes labelCount nodes greatest) :=
    ⟨greatest.toList, Layout.isMadeFrom_ofSizes hsize, of_greatest hgreatest⟩
  have hround : ∀ layout sizes, P layout → layout.shrink nodes = .ok sizes →
      P (Layout.ofSizes labelCount nodes sizes) := by
    rintro layout sizes' ⟨sizes, hmade, h⟩ hshrink
    exact ⟨sizes'.toList, Layout.isMadeFrom_ofSizes ((hmade.shrink_eq_ok_iff _).mp hshrink).1,
      h.round honce hmade hshrink⟩
  obtain ⟨⟨sizes, hmade, h⟩, -⟩ := Layout.settle_induction hround hstart hsettle
  rwa [hmade.sizes_eq]

end Jump.Spare

/-! ### Forms that are longer than they need be -/

namespace Jump

/-- The distances at which a jump forward has a longer form than it needs: the farthest of the short
form, and the two farthest of each other form but the longest. -/
def wasteful : List ℤ := [8, 254, 255, 32766, 32767, 8388606, 8388607]

/-- A jump forward that has to spare what a form keeps, and that no less form fits as it was weighed,
is longer than it needs to be just at the wasteful distances. -/
lemma exists_shorter_iff_mem_wasteful {distance : ℤ} {size : ℕ} (hmem : size ∈ sizes)
    (hlow : 0 ≤ distance) (hfits : fits distance size = true)
    (hspare : size = maxSize ∨ distance + step size ≤ farthest size)
    (hleast : ∀ short < size, ¬fits (distance + (size - short)) short = true) :
    (∃ short < size, fits distance short = true) ↔ distance ∈ wasteful := by
  -- What was weighed lies ahead of the jump, so each form that was refused falls short of it.
  have hbeyond : ∀ short ∈ sizes, short < size → farthest short < distance + (size - short) := by
    intro short hshort hless
    have hnot := hleast short hless
    rwa [fits_iff_le_farthest hshort (by omega), not_le] at hnot
  have hone : 1 < size → 8 < distance + (size - 1) := hbeyond 1 (by decide)
  have hpos : 1 ≤ distance := by
    by_contra hzero
    obtain rfl : distance = 0 := by omega
    rcases mem_sizes_iff.mp hmem with rfl | hlong
    · simp [fits_one] at hfits
    · omega
  rw [fits_iff_le_farthest hmem hpos] at hfits
  have hshorter : (∃ short < size, fits distance short = true) ↔
      ∃ short ∈ sizes, short < size ∧ distance ≤ farthest short := by
    constructor
    · rintro ⟨short, hless, hshort⟩
      have hmem' := mem_sizes_of_fits hshort
      exact ⟨short, hmem', hless, (fits_iff_le_farthest hmem' hpos).mp hshort⟩
    · rintro ⟨short, hmem', hless, hle⟩
      exact ⟨short, hless, (fits_iff_le_farthest hmem' hpos).mpr hle⟩
  rw [hshorter, exists_mem_sizes_iff]
  rw [forall_mem_sizes_iff] at hbeyond
  simp only [wasteful, List.mem_cons, List.not_mem_nil, or_false]
  rcases mem_sizes_iff.mp hmem with rfl | rfl | rfl | rfl | rfl <;>
    simp only [step, farthest, maxSize, maxExtensions] at hbeyond hfits hspare ⊢ <;> omega

end Jump

/-- A jump that was written fits its size. -/
lemma Node.fits_of_encode_jump {kind : JumpKind} {label : Label} {labels : LabelPositions}
    {position size target : ℕ} {bytes : List UInt8} (hfind : labels.find label = .ok target)
    (h : (Node.jump kind label).encode position size labels = .ok bytes) :
    Jump.fits (Node.distance position size target) size = true := by
  obtain ⟨target', hfind', hwrite⟩ := bind_eq_ok_iff.mp h
  obtain rfl := Except.ok.inj (hfind'.symm.trans hfind)
  by_contra hfits
  rw [if_neg hfits] at hwrite
  cases hwrite

namespace Code

/-- The layout in which node `k` alone has another size. -/
def resized (code : Code) (layout : Layout) (k size : ℕ) : Layout :=
  Layout.ofSizes code.bound.size code.nodes (layout.sizes.setIfInBounds k size)

/-- Whether the jump at node `k` reaches its label in the form of this size, when all other nodes keep
their sizes. -/
def ReachesAs (code : Code) (layout : Layout) (k : ℕ) (label : Label) (size : ℕ) : Prop :=
  ∃ position target, (code.resized layout k size).positions[k]? = some position ∧
    (code.resized layout k size).labels.find label = .ok target ∧
    Jump.fits (Node.distance position size target) size = true

section Resized

variable {code : Code} {layout : Layout} {k j old : ℕ} {label : Label}

/-- A jump reaches its label in another form if it fits from where it lies to where the label comes to
stand. -/
lemma reachesAs_iff (honce : code.LabelsOnce)
    (hmade : layout.IsMadeFrom code.bound.size code.nodes.toList layout.sizes.toList)
    (hk : k < code.nodes.size) (hj : code.nodes[j]? = some (.bind label)) (size : ℕ) :
    code.ReachesAs layout k label size ↔
      Jump.fits (Node.distance (offset layout.sizes.toList k) size
        (offset (layout.sizes.toList.set k size) j)) size = true := by
  have hsize : (layout.sizes.setIfInBounds k size).size = code.nodes.size := by
    simpa using hmade.1
  have hmade' : (code.resized layout k size).IsMadeFrom code.bound.size code.nodes.toList
      (layout.sizes.toList.set k size) := by
    rw [← Array.toList_setIfInBounds]
    exact Layout.isMadeFrom_ofSizes hsize
  have hfind := (honce.find_eq_ok_iff hmade' label _).mpr
    ⟨j, hj, hmade'.position_eq (Array.getElem?_eq_some_iff.mp hj).1⟩
  have hposition := hmade'.position_eq hk
  rw [offset_set_of_le _ _ le_rfl] at hposition
  constructor
  · rintro ⟨position, target, hposition', hfind', hfits⟩
    obtain rfl := Option.some.inj (hposition'.symm.trans hposition)
    obtain rfl := Except.ok.inj (hfind'.symm.trans hfind)
    exact hfits
  · intro hfits
    exact ⟨_, _, hposition, hfind, hfits⟩

/-- A label behind a jump moves with its end, so the distance stays the same. -/
lemma reachesAs_iff_of_lt (honce : code.LabelsOnce)
    (hmade : layout.IsMadeFrom code.bound.size code.nodes.toList layout.sizes.toList)
    (hold : layout.sizes[k]? = some old) (hj : code.nodes[j]? = some (.bind label)) (hkj : k < j)
    (size : ℕ) : code.ReachesAs layout k label size ↔
      Jump.fits (Node.distance (offset layout.sizes.toList k) old
        (offset layout.sizes.toList j)) size = true := by
  have hlt := (Array.getElem?_eq_some_iff.mp hj).1
  have hmoved := offset_set_of_lt size (by simpa using hold : layout.sizes.toList[k]? = some old) hkj
  have hdistance : Node.distance (offset layout.sizes.toList k) size
      (offset (layout.sizes.toList.set k size) j) =
        Node.distance (offset layout.sizes.toList k) old (offset layout.sizes.toList j) := by
    unfold Node.distance
    omega
  rw [reachesAs_iff honce hmade (hkj.trans hlt) hj, hdistance]

/-- A label in front of a jump stays where it is. -/
lemma reachesAs_iff_of_le (honce : code.LabelsOnce)
    (hmade : layout.IsMadeFrom code.bound.size code.nodes.toList layout.sizes.toList)
    (hk : k < code.nodes.size) (hj : code.nodes[j]? = some (.bind label)) (hjk : j ≤ k) (size : ℕ) :
    code.ReachesAs layout k label size ↔
      Jump.fits (Node.distance (offset layout.sizes.toList k) size
        (offset layout.sizes.toList j)) size = true := by
  rw [reachesAs_iff honce hmade hk hj, offset_set_of_le _ _ hjk]

end Resized

/-- In assembled code a shorter form of a jump would still reach its label, with all other nodes as
they are, just at the wasteful distances. In particular, every jump back is as short as it can be, and
so is a jump over 1 to 7 bytes, which takes one byte. -/
theorem exists_reachesAs_iff (actions : List Action) (bytes : List UInt8)
    (hassemble : (built actions).assemble = .ok bytes) :
    ∃ layout, (built actions).layout = .ok layout ∧
      ∀ (k : ℕ) (kind : JumpKind) (label : Label),
        (built actions).nodes[k]? = some (.jump kind label) →
        ∃ position size target, layout.positions[k]? = some position ∧
          layout.sizes[k]? = some size ∧ layout.labels.find label = .ok target ∧
          ((∃ short < size, (built actions).ReachesAs layout k label short) ↔
            Node.distance position size target ∈ Jump.wasteful) ∧
          (1 ≤ Node.distance position size target → Node.distance position size target ≤ 7 →
            size = 1) := by
  obtain ⟨layout, hlayout, hencode⟩ := bind_eq_ok_iff.mp hassemble
  obtain ⟨out, hemit, -⟩ := bind_eq_ok_iff.mp hencode
  obtain ⟨greatest, hgreatest, hsettle⟩ := bind_eq_ok_iff.mp hlayout
  have honce := labelsOnce_built actions
  have hsize : greatest.size = (built actions).nodes.size := by
    simpa using ((array_mapM_eq_ok_iff_forall₂ _ _ _).mp hgreatest).length_eq.symm
  obtain ⟨hmade, hle, hshrink⟩ := Layout.exists_isMadeFrom_of_settle hsize hsettle
  have hspare : Jump.Spare (built actions).nodes.toList layout.sizes.toList :=
    Jump.Spare.of_settle (fun {j k label} hj hk => honce.once (by simpa using hj) (by simpa using hk))
      hgreatest hsettle
  refine ⟨layout, hlayout, fun k kind label hk => ?_⟩
  have hlt := (Array.getElem?_eq_some_iff.mp hk).1
  obtain ⟨position, size, -, better, hposition, hsizek, -, -, hbetter, hless⟩ :=
    hmade.exists_betterSize hshrink hgreatest hle hk
  obtain rfl := Option.some.inj ((hmade.position_eq hlt).symm.trans hposition)
  obtain ⟨target, hfind, hleast⟩ := Node.betterSize_jump.mp hbetter
  obtain ⟨j, hj, rfl⟩ := hmade.exists_place hfind
  have hplaced := (hmade.getElem?_zip k _ _ size).mpr ⟨hk, by simpa using hsizek, rfl⟩
  rw [← Array.getElem?_toList] at hplaced
  obtain ⟨chunk, hchunk, -, -⟩ := Layout.exists_chunk_of_emit hemit hplaced
  have hfits := Node.fits_of_encode_jump hfind hchunk
  have hrefused : ∀ short < size, ¬Jump.fits (Node.distance (offset layout.sizes.toList k) short
      (offset layout.sizes.toList j)) short = true := by
    intro short hshort hfits'
    have := Jump.le_of_find? hleast hfits'
    omega
  have hj' : (built actions).nodes[j]? = some (.bind label) := by simpa using hj
  refine ⟨_, size, _, hposition, hsizek, hfind, ?_⟩
  rcases Nat.lt_or_ge k j with hkj | hjk
  · have hsize' : layout.sizes.toList[k]? = some size := by simpa using hsizek
    obtain ⟨hmem, hroom⟩ := hspare k j size kind label (by simpa using hk) hj hkj hsize'
    have hbehind := offset_mono layout.sizes.toList (show k + 1 ≤ j from hkj)
    rw [offset_succ hsize'] at hbehind
    have hahead : 0 ≤ Node.distance (offset layout.sizes.toList k) size
        (offset layout.sizes.toList j) := by
      unfold Node.distance
      omega
    have hleast : ∀ short < size, ¬Jump.fits (Node.distance (offset layout.sizes.toList k) size
        (offset layout.sizes.toList j) + (size - short)) short = true := by
      intro short hshort hfits'
      apply hrefused short hshort
      convert hfits' using 2
      unfold Node.distance
      omega
    have hwasteful := Jump.exists_shorter_iff_mem_wasteful hmem hahead hfits hroom hleast
    simp only [reachesAs_iff_of_lt honce hmade hsizek hj' hkj]
    refine ⟨hwasteful, fun hlow hhigh => ?_⟩
    by_contra hlong
    have hpos := Jump.pos_of_mem_sizes hmem
    have hnear := hwasteful.mp ⟨1, by omega, (Jump.fits_one _).mpr ⟨hlow, by omega⟩⟩
    simp only [Jump.wasteful, List.mem_cons, List.not_mem_nil, or_false] at hnear
    omega
  · have hback : Node.distance (offset layout.sizes.toList k) size
        (offset layout.sizes.toList j) ≤ 0 := by
      have hbefore := offset_mono layout.sizes.toList hjk
      unfold Node.distance
      omega
    simp only [reachesAs_iff_of_le honce hmade hlt hj' hjk]
    refine ⟨⟨fun ⟨short, hshort, hfits'⟩ => absurd hfits' (hrefused short hshort), fun hnear => ?_⟩,
      fun hlow => by omega⟩
    simp only [Jump.wasteful, List.mem_cons, List.not_mem_nil, or_false] at hnear
    omega

/-- The jump back over the crossing jumps takes four bytes, and no shorter form of it reaches its
label. -/
theorem not_exists_reachesAs_crossingActions :
    ∃ layout, (built crossingActions).layout = .ok layout ∧ layout.sizes[7]? = some 4 ∧
      ¬∃ short < 4, (built crossingActions).ReachesAs layout 7 ⟨0⟩ short := by
  obtain ⟨layout, hlayout, htight⟩ := exists_reachesAs_iff crossingActions
    [186, 83, 177, 216, 95, 225, 255, 239, 251, 92] (by decide +kernel)
  have hknown : (built crossingActions).layout = .ok ⟨#[0, 1, 2, 3, 4, 4, 5, 5, 9],
      #[1, 1, 1, 1, 0, 1, 0, 4, 1], #[some 4, some 5], 10⟩ := by decide +kernel
  obtain rfl := Except.ok.inj (hlayout.symm.trans hknown)
  obtain ⟨position, size, target, hposition, hsize, hfind, hiff, -⟩ := htight 7 .ifFalse ⟨0⟩ rfl
  obtain rfl : 5 = position := Option.some.inj hposition
  obtain rfl : 4 = size := Option.some.inj hsize
  obtain rfl : 4 = target := Except.ok.inj hfind
  refine ⟨_, hlayout, rfl, fun hshort => ?_⟩
  exact absurd (hiff.mp hshort) (by decide)

/-- The steps that build a jump over so many bytes. -/
def jumpOver (count : ℕ) : List Action :=
  [.newLabel, .jump .always ⟨0⟩] ++ List.replicate count (.emit .nop) ++ [.bind ⟨0⟩]

/-- A jump over eight bytes takes two bytes, though with one byte it would still reach its label. -/
theorem reachesAs_jumpOver_eight :
    (built (jumpOver 8)).assemble = .ok [237, 8, 95, 95, 95, 95, 95, 95, 95, 95] ∧
    ∃ layout, (built (jumpOver 8)).layout = .ok layout ∧ layout.positions[0]? = some 0 ∧
      layout.sizes[0]? = some 2 ∧ layout.labels.find ⟨0⟩ = .ok 10 ∧ Node.distance 0 2 10 = 8 ∧
      (built (jumpOver 8)).ReachesAs layout 0 ⟨0⟩ 1 := by
  refine ⟨by decide +kernel, ⟨#[0, 2, 3, 4, 5, 6, 7, 8, 9, 10], #[2, 1, 1, 1, 1, 1, 1, 1, 1, 0],
    #[some 10], 10⟩, by decide +kernel, rfl, rfl, rfl, rfl, 0, 9, ?_, ?_, ?_⟩
  · decide +kernel
  · decide +kernel
  · decide

end Code

end TalkMachine
