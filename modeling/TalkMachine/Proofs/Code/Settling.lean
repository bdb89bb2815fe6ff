import TalkMachine.Proofs.Code.Listing
import TalkMachine.Proofs.Code.Reach

/-!
# Which layouts can be written

While a layout settles every jump keeps a size that reaches its target, but for one exception. A
jump over nothing reaches its target as long as it is longer than one byte; once the other forms are
given up for the short form, its distance is zero and no form is left. `Settling` is what each round
preserves, and `Layout.exists_ofNodes` is what it comes to: a final layout, in which just the jumps
over nothing do not fit.
-/

namespace TalkMachine

/-! ### Jumps over nothing -/

/-- Whether only places of labels lie between node `j` and node `k`, which is behind it. -/
def OnlyPlacesBetween (nodes : List Node) (j k : ℕ) : Prop :=
  j < k ∧ ∀ i, j < i → i < k → ∃ label, nodes[i]? = some (.bind label)

/-- Whether node `j` is a jump to a label right behind it. -/
def IsEmptyJump (nodes : List Node) (j : ℕ) : Prop :=
  ∃ kind label k, nodes[j]? = some (.jump kind label) ∧ nodes[k]? = some (.bind label) ∧
    OnlyPlacesBetween nodes j k

/-! ### Code that can be laid out -/

/-- Whether each label that is jumped to has one place, and every node has a greatest size, with a
sum of less than `2 ^ 31`. -/
structure HasLayout (labelCount : ℕ) (nodes : List Node) (greatest : List ℕ) : Prop where
  exists_place : ∀ {j : ℕ} {kind : JumpKind} {label : Label}, nodes[j]? = some (.jump kind label) →
    label.number < labelCount ∧ ∃ k : ℕ, nodes[k]? = some (.bind label)
  once : ∀ {j k : ℕ} {label : Label}, nodes[j]? = some (.bind label) →
    nodes[k]? = some (.bind label) → j = k
  maxSize : List.Forall₂ (fun node size => node.maxSize = .ok size) nodes greatest
  sum_lt : greatest.sum < 2 ^ 31

/-- Whether a size is one that node `j` can have where `sizes` puts the nodes. -/
def SizeSuits (nodes : List Node) (sizes : List ℕ) (j size : ℕ) : Node → Prop
  | .instruction i => ∃ bytes, i.encode = .ok bytes ∧ bytes.length = size
  | .jump _ label => size ∈ Jump.sizes ∧
    (∀ k : ℕ, nodes[k]? = some (.bind label) →
      Jump.Reaches (Node.distance (offset sizes j) size (offset sizes k)) size) ∧
    (IsEmptyJump nodes j → size = 1 ∨ size = Jump.maxSize)
  | .bind _ => size = 0

/-- What holds of sizes as long as they shrink: none is above the greatest, and each suits its
node. -/
structure Settling (nodes : List Node) (greatest sizes : List ℕ) : Prop where
  le : List.Forall₂ (· ≤ ·) sizes greatest
  suits : ∀ {j : ℕ} {node : Node} {size : ℕ}, nodes[j]? = some node → sizes[j]? = some size →
    SizeSuits nodes sizes j size node

/-- The better size of a jump is the least that fits where things lie. -/
lemma Node.betterSize_jump {kind : JumpKind} {label : Label} {labels : LabelPositions}
    {position better : ℕ} :
    (Node.jump kind label).betterSize position labels = .ok better ↔
      ∃ target, labels.find label = .ok target ∧ Jump.sizes.find? (fun size =>
        Jump.fits (Node.distance position size target) size) = some better := by
  rw [Node.betterSize, bind_eq_ok_iff]
  refine exists_congr fun target => and_congr_right fun _ => ?_
  split
  · rename_i size hsize
    rw [hsize]
    exact ⟨fun h => congrArg some (Except.ok.inj h),
      fun h => congrArg Except.ok (Option.some.inj h)⟩
  · rename_i hnone
    simp [hnone, throw, throwThe, MonadExceptOf.throw]

namespace Settling

variable {nodes : List Node} {greatest sizes : List ℕ} {labelCount : ℕ}

/-- Only places of labels take no bytes. -/
lemma pos_of_not_bind (h : Settling nodes greatest sizes) {i size : ℕ} {node : Node}
    (hnode : nodes[i]? = some node) (hsize : sizes[i]? = some size)
    (hbind : ∀ label, node ≠ .bind label) : 1 ≤ size := by
  have hsuits := h.suits hnode hsize
  cases node with
  | instruction i =>
    obtain ⟨bytes, hbytes, rfl⟩ := hsuits
    exact Instruction.length_pos_of_reads (Instruction.read_encode hbytes)
  | jump kind label => exact Jump.pos_of_mem_sizes hsuits.1
  | bind label => exact absurd rfl (hbind label)

/-- Nothing lies between two nodes just when only places of labels do. -/
lemma offset_eq_iff (h : Settling nodes greatest sizes) (hlength : sizes.length = nodes.length)
    {j k : ℕ} (hjk : j < k) (hk : k < nodes.length) :
    offset sizes k = offset sizes (j + 1) ↔ OnlyPlacesBetween nodes j k := by
  constructor
  · intro heq
    refine ⟨hjk, fun i hji hik => ?_⟩
    have hnode : nodes[i]? = some nodes[i] := List.getElem?_eq_getElem (hik.trans hk)
    have hsize : sizes[i]? = some sizes[i] := List.getElem?_eq_getElem (by omega)
    by_contra hbind
    have hpos := h.pos_of_not_bind hnode hsize fun label heq => hbind ⟨label, heq ▸ hnode⟩
    have hsucc := offset_succ hsize
    have hbefore : offset sizes (j + 1) ≤ offset sizes i := offset_mono sizes hji
    have hbehind : offset sizes (i + 1) ≤ offset sizes k := offset_mono sizes hik
    omega
  · rintro ⟨-, hplaces⟩
    have hall : ∀ i, j + 1 ≤ i → i ≤ k → offset sizes i = offset sizes (j + 1) := by
      intro i hi
      induction i, hi using Nat.le_induction with
      | base => exact fun _ => rfl
      | succ i hji ih =>
        intro hik
        obtain ⟨label, hnode⟩ := hplaces i hji hik
        have hsize : sizes[i]? = some sizes[i] := List.getElem?_eq_getElem (by omega)
        have hzero : sizes[i] = 0 := h.suits hnode hsize
        rw [offset_succ hsize, hzero, Nat.add_zero]
        exact ih (by omega)
    exact hall k hjk le_rfl

/-! ### One round -/

/-- A jump that is laid out has the position of its label as its target. -/
lemma exists_target (hcode : HasLayout labelCount nodes greatest) {layout : Layout}
    (hmade : layout.IsMadeFrom labelCount nodes sizes) {j : ℕ} {kind : JumpKind} {label : Label}
    (hj : nodes[j]? = some (.jump kind label)) :
    ∃ k : ℕ, nodes[k]? = some (.bind label) ∧
      layout.labels.find label = .ok (offset sizes k) := by
  obtain ⟨hlabel, k, hk⟩ := hcode.exists_place hj
  exact ⟨k, hk, hmade.find_eq hlabel hk fun i hi => hcode.once hi hk⟩

/-- A jump over nothing that has its greatest size could have the least one. -/
lemma better_of_isEmptyJump (h : Settling nodes greatest sizes)
    (hlength : sizes.length = nodes.length) (hcode : HasLayout labelCount nodes greatest)
    {j k better : ℕ} {kind : JumpKind} {label : Label} (hj : nodes[j]? = some (.jump kind label))
    (hk : nodes[k]? = some (.bind label)) (hsize : sizes[j]? = some Jump.maxSize)
    (hjump : IsEmptyJump nodes j)
    (hbetter : Jump.sizes.find? (fun size =>
      Jump.fits (Node.distance (offset sizes j) size (offset sizes k)) size) = some better) :
    better = 1 := by
  obtain ⟨kind', label', k', hj', hk', hplaces⟩ := hjump
  obtain ⟨rfl, rfl⟩ : kind = kind' ∧ label = label' := by
    rw [hj] at hj'
    simpa using hj'
  obtain rfl := hcode.once hk hk'
  have hgap := (h.offset_eq_iff hlength hplaces.1 (List.getElem?_eq_some_iff.mp hk).1).mpr hplaces
  have hnext := offset_succ hsize
  have hone : Jump.fits (Node.distance (offset sizes j) 1 (offset sizes k)) 1 = true := by
    rw [Jump.fits_one, hgap, hnext, Node.distance, show Jump.maxSize = 8 from rfl]
    omega
  have hleast : Jump.sizes.find? (fun size =>
      Jump.fits (Node.distance (offset sizes j) size (offset sizes k)) size) = some 1 :=
    Jump.find?_eq_one hone
  exact Option.some.inj (hbetter.symm.trans hleast)

/-- The greatest form of each jump fits, so every node has a least size. -/
lemma exists_betterSize (hcode : HasLayout labelCount nodes greatest)
    (h : Settling nodes greatest sizes) {layout : Layout}
    (hmade : layout.IsMadeFrom labelCount nodes sizes) {j : ℕ} {node : Node}
    (hj : nodes[j]? = some node) :
    ∃ better, node.betterSize (offset sizes j) layout.labels = .ok better := by
  have hlt : j < nodes.length := (List.getElem?_eq_some_iff.mp hj).1
  cases node with
  | instruction i =>
    have hlt' : j < sizes.length := hmade.1.symm ▸ hlt
    have hsize : sizes[j]? = some sizes[j] := List.getElem?_eq_getElem hlt'
    obtain ⟨bytes, hbytes, -⟩ := h.suits hj hsize
    exact ⟨bytes.length, by rw [Node.betterSize, Node.instructionSize, hbytes]; rfl⟩
  | jump kind label =>
    obtain ⟨k, hk, hfind⟩ := exists_target hcode hmade hj
    have hgreatest : greatest[j]? = some Jump.maxSize := by
      have hlt' : j < greatest.length := hcode.maxSize.length_eq ▸ hlt
      have hmax := hcode.maxSize.get hlt hlt'
      have hnode : nodes[j] = .jump kind label := (List.getElem?_eq_some_iff.mp hj).2
      rw [List.get_eq_getElem, hnode] at hmax
      rw [List.getElem?_eq_getElem hlt']
      exact congrArg some (Except.ok.inj hmax).symm
    have hend : offset sizes j + Jump.maxSize ≤ greatest.sum := by
      have hnear := offset_sub_le h.le (Nat.zero_le j)
      have hnext := offset_succ hgreatest
      have hsum := offset_le_sum greatest (j + 1)
      simp only [offset_zero] at hnear
      omega
    have htarget : offset sizes k ≤ greatest.sum := by
      have hnear := offset_sub_le h.le (Nat.zero_le k)
      have hsum := offset_le_sum greatest k
      simp only [offset_zero] at hnear
      omega
    have hsum := hcode.sum_lt
    have hfits : Jump.fits (Node.distance (offset sizes j) Jump.maxSize (offset sizes k))
        Jump.maxSize = true := by
      apply Jump.fits_maxSize <;> unfold Node.distance <;> omega
    obtain ⟨size, hsize⟩ : ∃ size, Jump.sizes.find? (fun size =>
        Jump.fits (Node.distance (offset sizes j) size (offset sizes k)) size) = some size :=
      Jump.exists_find? hfits
    exact ⟨size, Node.betterSize_jump.mpr ⟨_, hfind, hsize⟩⟩
  | bind label => exact ⟨0, rfl⟩

/-- After a round each size still suits its node. A jump that keeps its size or takes a better one
reaches its target before the round, and after it the target is no farther. -/
lemma suits_round (hcode : HasLayout labelCount nodes greatest) (h : Settling nodes greatest sizes)
    {layout : Layout} (hmade : layout.IsMadeFrom labelCount nodes sizes) {sizes' : List ℕ}
    (hle : List.Forall₂ (· ≤ ·) sizes' sizes) {j size better : ℕ} {node : Node}
    (hj : nodes[j]? = some node) (hsize : sizes[j]? = some size)
    (hbetter : node.betterSize (offset sizes j) layout.labels = .ok better)
    (hsize' : sizes'[j]? = some (min size better)) :
    SizeSuits nodes sizes' j (min size better) node := by
  have hsuits := h.suits hj hsize
  cases node with
  | instruction i =>
    obtain ⟨bytes, hbytes, rfl⟩ := hsuits
    rw [Node.betterSize, Node.instructionSize, hbytes] at hbetter
    obtain rfl := Except.ok.inj hbetter
    exact ⟨bytes, hbytes, (min_self _).symm⟩
  | jump kind label =>
    obtain ⟨hmem, hreaches, hempty⟩ := hsuits
    obtain ⟨k, hk, hfind⟩ := exists_target hcode hmade hj
    obtain ⟨target, htarget, hleast⟩ := Node.betterSize_jump.mp hbetter
    obtain rfl : target = offset sizes k := Except.ok.inj (htarget.symm.trans hfind)
    obtain ⟨hmem', hfits⟩ := Jump.fits_of_find? hleast
    have hold : min size better ∈ Jump.sizes ∧ Jump.Reaches
        (Node.distance (offset sizes j) (min size better) (offset sizes k)) (min size better) := by
      rcases min_choice size better with hmin | hmin <;> rw [hmin]
      · exact ⟨hmem, hreaches k hk⟩
      · exact ⟨hmem', Or.inl hfits⟩
    refine ⟨hold.1, fun k' hk' => ?_, fun hjump => ?_⟩
    · obtain rfl := hcode.once hk hk'
      have hnext := offset_succ hsize
      have hnext' := offset_succ hsize'
      have hmin : min size better ≤ size := min_le_left _ _
      have hpos := Jump.pos_of_mem_sizes hold.1
      rcases lt_trichotomy j k with hjk | rfl | hkj
      · have hnear := offset_sub_le hle (show j + 1 ≤ k from hjk)
        have hbehind := offset_mono sizes' (show j + 1 ≤ k from hjk)
        apply Jump.reaches_of_nonneg hold.2 <;> unfold Node.distance <;> omega
      · rw [hj] at hk
        cases hk
      · have hnear := offset_sub_le hle hkj.le
        have hbehind := offset_mono sizes' hkj.le
        apply Jump.reaches_of_neg hold.2 <;> unfold Node.distance <;> omega
    · left
      have hpos := Jump.pos_of_mem_sizes hmem'
      rcases hempty hjump with rfl | rfl
      · omega
      · rw [h.better_of_isEmptyJump hmade.1 hcode hj hk hsize hjump hleast]
        decide
  | bind label =>
    obtain rfl : size = 0 := hsuits
    exact Nat.zero_min _

/-- The greatest sizes suit their nodes. -/
lemma of_greatest (hcode : HasLayout labelCount nodes greatest) :
    Settling nodes greatest greatest := by
  refine ⟨List.forall₂_same.mpr fun _ _ => le_rfl, fun {j node size} hj hsize => ?_⟩
  obtain ⟨hlt, rfl⟩ := List.getElem?_eq_some_iff.mp hj
  obtain ⟨hlt', rfl⟩ := List.getElem?_eq_some_iff.mp hsize
  have hmax : nodes[j].maxSize = .ok greatest[j] := hcode.maxSize.get hlt hlt'
  cases hnode : nodes[j] with
  | instruction i =>
    rw [hnode, Node.maxSize, Node.instructionSize] at hmax
    obtain ⟨bytes, hbytes, hlength⟩ := bind_eq_ok_iff.mp hmax
    exact ⟨bytes, hbytes, Except.ok.inj hlength⟩
  | jump kind label =>
    rw [hnode] at hmax hj
    have height : Jump.maxSize = greatest[j] := Except.ok.inj hmax
    refine ⟨by rw [← height]; decide, fun k hk => Or.inl ?_, fun _ => Or.inr height.symm⟩
    have hnext := offset_succ hsize
    have hend := offset_le_sum greatest (j + 1)
    have htarget := offset_le_sum greatest k
    have hsum := hcode.sum_lt
    rw [← height] at hnext ⊢
    apply Jump.fits_maxSize <;> unfold Node.distance <;> omega
  | bind label =>
    rw [hnode] at hmax
    exact (Except.ok.inj hmax).symm

/-- A round keeps what holds while sizes shrink, and no size grows in it. -/
lemma round {nodes : Array Node} (hcode : HasLayout labelCount nodes.toList greatest)
    (h : Settling nodes.toList greatest sizes) {layout : Layout}
    (hmade : layout.IsMadeFrom labelCount nodes.toList sizes) {sizes' : Array ℕ}
    (hshrink : layout.shrink nodes = .ok sizes') :
    Settling nodes.toList greatest sizes'.toList ∧
      List.Forall₂ (· ≤ ·) sizes'.toList sizes := by
  obtain ⟨-, hround⟩ := (hmade.shrink_eq_ok_iff sizes').mp hshrink
  have hstep : ∀ (j : ℕ) (node : Node), nodes[j]? = some node → ∃ size better,
      sizes[j]? = some size ∧ node.betterSize (offset sizes j) layout.labels = .ok better ∧
      sizes'.toList[j]? = some (min size better) := by
    intro j node hj
    have hlt : j < sizes.length := by
      rw [hmade.1]
      simpa using (Array.getElem?_eq_some_iff.mp hj).1
    have hsizej : sizes[j]? = some sizes[j] := List.getElem?_eq_getElem hlt
    obtain ⟨better, hbetter, hmin⟩ := hround j node _ hj hsizej
    exact ⟨sizes[j], better, hsizej, hbetter, by simpa using hmin⟩
  have hle := hmade.le_of_shrink hshrink
  refine ⟨⟨forall₂_le_trans h.le hle, fun {j node size'} hj hsize' => ?_⟩, hle⟩
  obtain ⟨size, better, hold, hbetter, hnew⟩ := hstep j node (by simpa using hj)
  obtain rfl : min size better = size' := Option.some.inj (hnew.symm.trans hsize')
  exact h.suits_round hcode hmade hle hj hold hbetter hnew

/-- When a round lowers nothing, each jump over nothing has the short form: with its greatest size
it would have shrunk. -/
lemma size_of_isEmptyJump {nodes : Array Node} (hcode : HasLayout labelCount nodes.toList greatest)
    (h : Settling nodes.toList greatest sizes) {layout : Layout}
    (hmade : layout.IsMadeFrom labelCount nodes.toList sizes) {sizes' : Array ℕ}
    (hshrink : layout.shrink nodes = .ok sizes') (htotal : sizes.sum ≤ sizes'.toList.sum) {j : ℕ}
    (hjump : IsEmptyJump nodes.toList j) : sizes[j]? = some 1 := by
  obtain ⟨kind, label, -, hj, -⟩ := id hjump
  have hlt : j < sizes.length := hmade.1.symm ▸ (List.getElem?_eq_some_iff.mp hj).1
  have hsize : sizes[j]? = some sizes[j] := List.getElem?_eq_getElem hlt
  obtain ⟨-, -, hempty⟩ := h.suits hj hsize
  rcases hempty hjump with hone | hmax
  · rw [hsize, hone]
  · have hsame : sizes'.toList = sizes := eq_of_sum_le (h.round hcode hmade hshrink).2 htotal
    obtain ⟨-, hnew⟩ := (hmade.shrink_eq_ok_iff sizes').mp hshrink
    obtain ⟨better, hbetter, hmin⟩ := hnew j _ _ (by simpa using hj) hsize
    obtain ⟨k, hk, hfind⟩ := exists_target hcode hmade hj
    obtain ⟨target, htarget, hleast⟩ := Node.betterSize_jump.mp hbetter
    obtain rfl : target = offset sizes k := Except.ok.inj (htarget.symm.trans hfind)
    have hbetter := h.better_of_isEmptyJump hmade.1 hcode hj hk (hmax ▸ hsize) hjump hleast
    rw [← Array.getElem?_toList, hsame, hsize, hmax, hbetter] at hmin
    exact absurd (Option.some.inj hmin) (by decide)

end Settling

/-! ### All rounds -/

/-- Code that can be laid out has a final layout. All sizes in it suit their nodes, and a jump over
nothing has the short form. -/
theorem Layout.exists_ofNodes {labelCount : ℕ} {nodes : Array Node} {greatest : List ℕ}
    (hcode : HasLayout labelCount nodes.toList greatest) :
    ∃ layout sizes, Layout.ofNodes labelCount nodes = .ok layout ∧
      layout.IsMadeFrom labelCount nodes.toList sizes ∧
      Settling nodes.toList greatest sizes ∧
      ∀ j, IsEmptyJump nodes.toList j → sizes[j]? = some 1 := by
  have hgreatest : nodes.mapM Node.maxSize = .ok greatest.toArray := by
    rw [array_mapM_eq_ok_iff_forall₂]
    exact hcode.maxSize
  set P : Layout → Prop := fun layout => ∃ sizes,
    layout.IsMadeFrom labelCount nodes.toList sizes ∧ Settling nodes.toList greatest sizes with hP
  have hstart : P (ofSizes labelCount nodes greatest.toArray) :=
    ⟨greatest, isMadeFrom_ofSizes (by simpa using hcode.maxSize.length_eq.symm),
      Settling.of_greatest hcode⟩
  have hround : ∀ layout sizes, P layout → layout.shrink nodes = .ok sizes →
      P (ofSizes labelCount nodes sizes) := by
    rintro layout sizes' ⟨sizes, hmade, h⟩ hshrink
    exact ⟨sizes'.toList, isMadeFrom_ofSizes ((hmade.shrink_eq_ok_iff _).mp hshrink).1,
      (h.round hcode hmade hshrink).1⟩
  have hok : ∀ layout, P layout → ∃ sizes, layout.shrink nodes = .ok sizes := by
    rintro layout ⟨sizes, hmade, h⟩
    exact hmade.exists_shrink fun hj => h.exists_betterSize hcode hmade (by simpa using hj)
  obtain ⟨final, hfinal⟩ := exists_settle hround hok hstart
  obtain ⟨⟨sizes, hmade, h⟩, sizes', hshrink, htotal⟩ := settle_induction hround hstart hfinal
  refine ⟨final, sizes, ?_, hmade, h, ?_⟩
  · rw [ofNodes, hgreatest]
    exact hfinal
  · intro j hjump
    refine h.size_of_isEmptyJump hcode hmade hshrink ?_ hjump
    rwa [← hmade.total_eq, ← (isMadeFrom_ofSizes
      ((hmade.shrink_eq_ok_iff sizes').mp hshrink).1).total_eq]

end TalkMachine
