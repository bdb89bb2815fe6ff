import TalkMachine.Proofs.Code.Construction
import TalkMachine.Proofs.Code.Placement

/-!
# The layout that shrinking ends with

A round of shrinking that does not lower the total is the last one. Every other round takes a byte off
the total at least, so there are no more rounds than the greatest sizes have bytes
(`Layout.Rounds.add_total_le`). No size grows in a round, so the last one changes no size at all: the
final layout is a fixed point. `Code.hasFixedLayout_of_layout` says what this means for positions,
sizes and labels.
-/

namespace TalkMachine

namespace Layout

variable {labelCount : ℕ} {nodes : Array Node} {layout final : Layout} {rounds : ℕ}

/-! ### Rounds -/

/-- Whether a round of shrinking leads from a layout to one with a lower total. -/
def Lowers (labelCount : ℕ) (nodes : Array Node) (layout next : Layout) : Prop :=
  ∃ sizes, layout.shrink nodes = .ok sizes ∧ next = ofSizes labelCount nodes sizes ∧
    next.total < layout.total

/-- Whether so many rounds, each of which lowers the total, lead from one layout to another. -/
inductive Rounds (labelCount : ℕ) (nodes : Array Node) : ℕ → Layout → Layout → Prop
  | none (layout : Layout) : Rounds labelCount nodes 0 layout layout
  | lower {layout next final : Layout} {rounds : ℕ} (hlowers : Lowers labelCount nodes layout next)
      (hrounds : Rounds labelCount nodes rounds next final) :
      Rounds labelCount nodes (rounds + 1) layout final

/-- Each round takes a byte off the total at least. -/
lemma Rounds.add_total_le (h : Rounds labelCount nodes rounds layout final) :
    rounds + final.total ≤ layout.total := by
  induction h with
  | none => omega
  | lower hlowers _ ih =>
    obtain ⟨-, -, -, hless⟩ := hlowers
    omega

/-- The final layout is reached in rounds that lower the total. -/
lemma exists_rounds_of_settle (hsettle : settle labelCount nodes layout = .ok final) :
    ∃ rounds, Rounds labelCount nodes rounds layout final := by
  fun_induction settle labelCount nodes layout with
  | case1 layout e he => cases hsettle
  | case2 layout sizes hsizes next hless ih =>
    obtain ⟨rounds, hrounds⟩ := ih hsettle
    exact ⟨rounds + 1, .lower ⟨sizes, hsizes, rfl, hless⟩ hrounds⟩
  | case3 layout sizes hsizes next hless =>
    obtain rfl := Except.ok.inj hsettle
    exact ⟨0, .none layout⟩

/-! ### The last round -/

/-- The position of a node is the sum of the sizes in front of it. -/
lemma IsMadeFrom.position_eq {sizes : List ℕ} (h : layout.IsMadeFrom labelCount nodes.toList sizes)
    {k : ℕ} (hk : k < nodes.size) : layout.positions[k]? = some (offset sizes k) := by
  rw [← Array.getElem?_toList, h.positions_eq]
  simp [hk]

/-- A round that does not lower the total changes no size. -/
lemma IsMadeFrom.shrink_eq {sizes : List ℕ}
    (h : layout.IsMadeFrom labelCount nodes.toList sizes) {sizes' : Array ℕ}
    (hshrink : layout.shrink nodes = .ok sizes')
    (htotal : layout.total ≤ (ofSizes labelCount nodes sizes').total) :
    layout.shrink nodes = .ok layout.sizes := by
  have hsize := ((h.shrink_eq_ok_iff sizes').mp hshrink).1
  rw [h.total_eq, (isMadeFrom_ofSizes hsize).total_eq] at htotal
  have hsame : sizes'.toList = layout.sizes.toList := by
    rw [h.sizes_eq]
    exact eq_of_sum_le (h.le_of_shrink hshrink) htotal
  rw [hshrink, Array.toList_inj.mp hsame]

/-- The final layout is made from sizes that are no greater than the greatest ones, and one more round
leaves all of them as they are. -/
lemma exists_isMadeFrom_of_settle {greatest : Array ℕ}
    (hsize : greatest.size = nodes.size)
    (hsettle : settle labelCount nodes (ofSizes labelCount nodes greatest) = .ok final) :
    final.IsMadeFrom labelCount nodes.toList final.sizes.toList ∧
      List.Forall₂ (· ≤ ·) final.sizes.toList greatest.toList ∧
      final.shrink nodes = .ok final.sizes := by
  set P : Layout → Prop := fun layout => ∃ sizes,
    layout.IsMadeFrom labelCount nodes.toList sizes ∧
      List.Forall₂ (· ≤ ·) sizes greatest.toList with hP
  have hstart : P (ofSizes labelCount nodes greatest) :=
    ⟨greatest.toList, isMadeFrom_ofSizes hsize, List.forall₂_same.mpr fun _ _ => le_rfl⟩
  have hround : ∀ layout sizes, P layout → layout.shrink nodes = .ok sizes →
      P (ofSizes labelCount nodes sizes) := by
    rintro layout sizes' ⟨sizes, hmade, hle⟩ hshrink
    exact ⟨sizes'.toList, isMadeFrom_ofSizes ((hmade.shrink_eq_ok_iff _).mp hshrink).1,
      forall₂_le_trans hle (hmade.le_of_shrink hshrink)⟩
  obtain ⟨⟨sizes, hmade, hle⟩, sizes', hshrink, htotal⟩ := settle_induction hround hstart hsettle
  obtain rfl := hmade.sizes_eq
  exact ⟨hmade, hle, hmade.shrink_eq hshrink htotal⟩

/-- Where a round leaves all sizes as they are, no node could be shorter than it is. -/
lemma IsMadeFrom.exists_betterSize
    (h : layout.IsMadeFrom labelCount nodes.toList layout.sizes.toList)
    (hshrink : layout.shrink nodes = .ok layout.sizes) {greatest : Array ℕ}
    (hgreatest : nodes.mapM Node.maxSize = .ok greatest)
    (hle : List.Forall₂ (· ≤ ·) layout.sizes.toList greatest.toList) {k : ℕ} {node : Node}
    (hk : nodes[k]? = some node) :
    ∃ position size greatest better, layout.positions[k]? = some position ∧
      layout.sizes[k]? = some size ∧ node.maxSize = .ok greatest ∧ size ≤ greatest ∧
      node.betterSize position layout.labels = .ok better ∧ size ≤ better := by
  obtain ⟨-, hmaxSize⟩ := (array_mapM_eq_ok_iff _ _ _).mp hgreatest
  obtain ⟨most, hmost, hget⟩ := hmaxSize k node hk
  obtain ⟨hlength, hbetter⟩ := (h.shrink_eq_ok_iff _).mp hshrink
  have hlt := (Array.getElem?_eq_some_iff.mp hk).1
  have hlt' : k < layout.sizes.size := hlength.symm ▸ hlt
  obtain ⟨hltGreatest, rfl⟩ := Array.getElem?_eq_some_iff.mp hget
  have hsize : layout.sizes[k]? = some layout.sizes[k] := Array.getElem?_eq_getElem hlt'
  have hmostle : layout.sizes[k] ≤ greatest[k] := by
    simpa using (List.forall₂_iff_get.mp hle).2 k (by simpa using hlt') (by simpa using hltGreatest)
  -- The round answers the less of the size and the better one, and that is the size.
  obtain ⟨better, hok, hmin⟩ := hbetter k node layout.sizes[k] hk (by simp [hlt'])
  have hkept : layout.sizes[k] = min layout.sizes[k] better :=
    Option.some.inj (hsize.symm.trans hmin)
  exact ⟨_, layout.sizes[k], greatest[k], better, h.position_eq hlt, hsize, hmost, hmostle, hok,
    by omega⟩

end Layout

namespace Code

/-- Whether the nodes of code lie as a layout says, and no node could be shorter where it lies. -/
structure HasFixedLayout (code : Code) (layout : Layout) : Prop where
  size_sizes : layout.sizes.size = code.nodes.size
  /-- Each node lies behind the sizes of those in front of it. -/
  positions_eq : layout.positions.toList =
    (List.range code.nodes.size).map fun k => (layout.sizes.toList.take k).sum
  total_eq : layout.total = layout.sizes.toList.sum
  size_labels : layout.labels.size = code.bound.size
  /-- A label stands where its place is, and nowhere if it has none. -/
  find_eq_ok_iff : ∀ (label : Label) (position : ℕ), layout.labels.find label = .ok position ↔
    ∃ k : ℕ, code.nodes[k]? = some (.bind label) ∧ layout.positions[k]? = some position
  /-- The size of a node is between nothing and its greatest size, and no less size suits it where
  things now lie. -/
  size_le : ∀ (k : ℕ) (node : Node), code.nodes[k]? = some node →
    ∃ position size greatest better, layout.positions[k]? = some position ∧
      layout.sizes[k]? = some size ∧ node.maxSize = .ok greatest ∧ size ≤ greatest ∧
      node.betterSize position layout.labels = .ok better ∧ size ≤ better
  /-- One more round would leave every size as it is. -/
  shrink_eq : layout.shrink code.nodes = .ok layout.sizes

/-- The label of a place stands there, in code that has each label once. -/
lemma LabelsOnce.find_eq_ok_iff {code : Code} (honce : code.LabelsOnce) {layout : Layout}
    {sizes : List ℕ} (hmade : layout.IsMadeFrom code.bound.size code.nodes.toList sizes)
    (label : Label) (position : ℕ) : layout.labels.find label = .ok position ↔
      ∃ k : ℕ, code.nodes[k]? = some (.bind label) ∧ layout.positions[k]? = some position := by
  constructor
  · intro hfind
    obtain ⟨k, hk, rfl⟩ := hmade.exists_place hfind
    rw [Array.getElem?_toList] at hk
    exact ⟨k, hk, hmade.position_eq (Array.getElem?_eq_some_iff.mp hk).1⟩
  · rintro ⟨k, hk, hplace⟩
    have hbound := (Array.getElem?_eq_some_iff.mp (honce.bound hk)).1
    rw [hmade.position_eq (Array.getElem?_eq_some_iff.mp hk).1] at hplace
    rw [← Option.some.inj hplace]
    refine hmade.find_eq hbound (by simpa using hk) fun j hj => ?_
    exact honce.once (by simpa using hj) hk

/-- The layout of code is reached from the greatest sizes in rounds that each lower the total, so in
no more rounds than the greatest sizes have bytes. In it positions are the sums of the sizes in
front, labels stand at their places, no node has more than its greatest size, and none could be
shorter where it lies. -/
theorem hasFixedLayout_of_layout (actions : List Action) (layout : Layout)
    (h : (built actions).layout = .ok layout) :
    (built actions).HasFixedLayout layout ∧
      ∃ greatest rounds, (built actions).nodes.mapM Node.maxSize = .ok greatest ∧
        Layout.Rounds (built actions).bound.size (built actions).nodes rounds
          (Layout.ofSizes (built actions).bound.size (built actions).nodes greatest) layout ∧
        rounds + layout.total ≤ greatest.toList.sum := by
  have honce := labelsOnce_built actions
  obtain ⟨greatest, hgreatest, hsettle⟩ := bind_eq_ok_iff.mp h
  have hmaxSize := (array_mapM_eq_ok_iff_forall₂ _ _ _).mp hgreatest
  have hsize : greatest.size = (built actions).nodes.size := by
    simpa using hmaxSize.length_eq.symm
  obtain ⟨hmade, hle, hshrink⟩ := Layout.exists_isMadeFrom_of_settle hsize hsettle
  obtain ⟨rounds, hrounds⟩ := Layout.exists_rounds_of_settle hsettle
  have htotal := hrounds.add_total_le
  rw [(Layout.isMadeFrom_ofSizes hsize).total_eq] at htotal
  have hsizes : layout.sizes.size = (built actions).nodes.size := by simpa using hmade.1
  refine ⟨⟨hsizes, ?_, hmade.total_eq, ?_, honce.find_eq_ok_iff hmade,
    fun _ _ => hmade.exists_betterSize hshrink hgreatest hle, hshrink⟩,
    greatest, rounds, hgreatest, hrounds, htotal⟩
  · rw [hmade.positions_eq, Array.length_toList]
    rfl
  · rw [hmade.2, Layout.size_labels_ofPairs]

/-- The steps that build two jumps forward over each other's bodies. The first one becomes shorter
only after the second one has. -/
def crossingActions : List Action :=
  [.newLabel, .newLabel, .jump .ifTrue ⟨0⟩, .emit .dup, .jump .always ⟨1⟩, .emit .pop, .bind ⟨0⟩,
    .emit .nop, .bind ⟨1⟩, .jump .ifFalse ⟨0⟩, .emit (.return .top)]

/-- The crossing jumps are laid out in at most eighteen rounds, with one byte for each jump forward and
four for the jump back. -/
theorem hasFixedLayout_crossingActions :
    (built crossingActions).HasFixedLayout ⟨#[0, 1, 2, 3, 4, 4, 5, 5, 9],
        #[1, 1, 1, 1, 0, 1, 0, 4, 1], #[some 4, some 5], 10⟩ ∧
      ∃ greatest rounds, (built crossingActions).nodes.mapM Node.maxSize = .ok greatest ∧
        Layout.Rounds 2 (built crossingActions).nodes rounds
          (Layout.ofSizes 2 (built crossingActions).nodes greatest)
          ⟨#[0, 1, 2, 3, 4, 4, 5, 5, 9], #[1, 1, 1, 1, 0, 1, 0, 4, 1], #[some 4, some 5], 10⟩ ∧
        rounds + 10 ≤ greatest.toList.sum :=
  hasFixedLayout_of_layout crossingActions _ (by decide +kernel)

end Code

end TalkMachine
