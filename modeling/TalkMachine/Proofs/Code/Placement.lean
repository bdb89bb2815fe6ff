import Mathlib.Data.List.Induction
import Mathlib.Algebra.Order.BigOperators.Group.List
import Mathlib.Tactic.Linarith
import TalkMachine.Code.Layout
import TalkMachine.Proofs.Outcome

/-!
# Where nodes come to lie

A layout made from sizes is the list of their partial sums: `offset sizes k` is where node `k` lies,
and a label stands where the last of its places lies. `settle_induction` carries what a round of
shrinking preserves through all rounds, and adds that a further round would change nothing.
-/

namespace TalkMachine

/-! ### Partial sums -/

/-- The sum of the sizes of the first `k` nodes. -/
def offset (sizes : List ℕ) (k : ℕ) : ℕ :=
  (sizes.take k).sum

/-- The first node lies at the start. -/
@[simp] lemma offset_zero (sizes : List ℕ) : offset sizes 0 = 0 := by
  simp [offset]

/-- Behind a node lies the next one. -/
lemma offset_succ {sizes : List ℕ} {k size : ℕ} (h : sizes[k]? = some size) :
    offset sizes (k + 1) = offset sizes k + size := by
  obtain ⟨hk, rfl⟩ := List.getElem?_eq_some_iff.mp h
  rw [offset, List.take_succ_eq_append_getElem hk, List.sum_append]
  simp [offset]

/-- Behind the last node nothing is added. -/
lemma offset_of_length_le {sizes : List ℕ} {k : ℕ} (h : sizes.length ≤ k) :
    offset sizes k = sizes.sum := by
  rw [offset, List.take_of_length_le h]

/-- The offset behind further nodes. -/
lemma offset_append_of_le {sizes : List ℕ} (rest : List ℕ) {k : ℕ} (h : k ≤ sizes.length) :
    offset (sizes ++ rest) k = offset sizes k := by
  rw [offset, List.take_append_of_le_length h, offset]

/-- The offset with one more node in front. -/
lemma offset_cons_succ (size : ℕ) (sizes : List ℕ) (k : ℕ) :
    offset (size :: sizes) (k + 1) = size + offset sizes k := by
  simp [offset]

/-- Offsets rise. -/
lemma offset_mono (sizes : List ℕ) {i j : ℕ} (h : i ≤ j) : offset sizes i ≤ offset sizes j := by
  induction j, h using Nat.le_induction with
  | base => exact le_rfl
  | succ j hij ih =>
    cases hj : sizes[j]? with
    | none =>
      have hlength := List.getElem?_eq_none_iff.mp hj
      rw [offset_of_length_le (by omega : sizes.length ≤ j + 1),
        ← offset_of_length_le hlength]
      exact ih
    | some size =>
      rw [offset_succ hj]
      omega

/-- No offset lies behind the total. -/
lemma offset_le_sum (sizes : List ℕ) (k : ℕ) : offset sizes k ≤ sizes.sum := by
  calc offset sizes k ≤ offset sizes (max k sizes.length) := offset_mono sizes (le_max_left k _)
    _ = sizes.sum := offset_of_length_le (le_max_right k _)

/-- When all sizes shrink, so does the distance between any two places. -/
lemma offset_sub_le {sizes sizes' : List ℕ} (h : List.Forall₂ (· ≤ ·) sizes' sizes) {i j : ℕ}
    (hij : i ≤ j) : offset sizes' j + offset sizes i ≤ offset sizes j + offset sizes' i := by
  induction j, hij using Nat.le_induction with
  | base => omega
  | succ j hij ih =>
    cases hj : sizes[j]? with
    | none =>
      have hlength := List.getElem?_eq_none_iff.mp hj
      have hlength' := h.length_eq
      rw [offset_of_length_le (by omega : sizes.length ≤ j + 1),
        offset_of_length_le (by omega : sizes'.length ≤ j + 1), ← offset_of_length_le hlength,
        ← offset_of_length_le (by omega : sizes'.length ≤ j)]
      exact ih
    | some size =>
      obtain ⟨hlt, rfl⟩ := List.getElem?_eq_some_iff.mp hj
      have hlt' : j < sizes'.length := by
        rw [h.length_eq]
        exact hlt
      have hle : sizes'[j] ≤ sizes[j] := h.get hlt' hlt
      rw [offset_succ hj, offset_succ (List.getElem?_eq_getElem hlt')]
      omega

/-- Shrinking again is shrinking. -/
lemma forall₂_le_trans {sizes sizes' sizes'' : List ℕ} (h : List.Forall₂ (· ≤ ·) sizes' sizes)
    (h' : List.Forall₂ (· ≤ ·) sizes'' sizes') : List.Forall₂ (· ≤ ·) sizes'' sizes := by
  obtain ⟨hlength, hle⟩ := List.forall₂_iff_get.mp h
  obtain ⟨hlength', hle'⟩ := List.forall₂_iff_get.mp h'
  refine List.forall₂_iff_get.mpr ⟨hlength'.trans hlength, fun k hk hk' => ?_⟩
  exact (hle' k hk (hlength' ▸ hk)).trans (hle k (hlength' ▸ hk) hk')

/-- When no size grows and the sum does not fall, nothing shrinks. -/
lemma eq_of_sum_le {sizes sizes' : List ℕ} (h : List.Forall₂ (· ≤ ·) sizes' sizes)
    (hsum : sizes.sum ≤ sizes'.sum) : sizes' = sizes := by
  induction h with
  | nil => rfl
  | cons hle hrest ih =>
    have hsums := hrest.sum_le_sum
    rw [List.sum_cons, List.sum_cons] at hsum
    rw [ih (by omega)]
    congr 1
    omega

namespace Layout

/-! ### Layouts from sizes -/

/-- Lays out a list of nodes with their sizes. -/
def ofPairs (labelCount : ℕ) (pairs : List (Node × ℕ)) : Layout :=
  pairs.foldl (fun layout pair => layout.extend pair.1 pair.2) (empty labelCount)

/-- A layout is made from the pairs of nodes and sizes. -/
lemma ofSizes_eq_ofPairs (labelCount : ℕ) (nodes : Array Node) (sizes : Array ℕ) :
    ofSizes labelCount nodes sizes = ofPairs labelCount (nodes.toList.zip sizes.toList) := by
  rw [ofSizes, ofPairs, ← Array.toList_zip, Array.foldl_toList]

/-- One more node is put behind the others. -/
lemma ofPairs_concat (labelCount : ℕ) (pairs : List (Node × ℕ)) (pair : Node × ℕ) :
    ofPairs labelCount (pairs ++ [pair]) = (ofPairs labelCount pairs).extend pair.1 pair.2 := by
  simp [ofPairs, List.foldl_append]

variable {labelCount : ℕ} {pairs : List (Node × ℕ)}

/-- The sizes are those the layout is made from. -/
lemma sizes_ofPairs : (ofPairs labelCount pairs).sizes.toList = pairs.map Prod.snd := by
  induction pairs using List.reverseRecOn with
  | nil => rfl
  | append_singleton pairs pair ih => simp [ofPairs_concat, extend, ih]

/-- The total is the sum of the sizes. -/
lemma total_ofPairs (labelCount : ℕ) (pairs : List (Node × ℕ)) :
    (ofPairs labelCount pairs).total = (pairs.map Prod.snd).sum := by
  induction pairs using List.reverseRecOn with
  | nil => rfl
  | append_singleton pairs pair ih => simp [ofPairs_concat, extend, ih]

/-- The positions are the partial sums of the sizes. -/
lemma positions_ofPairs : (ofPairs labelCount pairs).positions.toList =
    (List.range pairs.length).map (offset (pairs.map Prod.snd)) := by
  induction pairs using List.reverseRecOn with
  | nil => rfl
  | append_singleton pairs pair ih =>
    have hprefix : (List.range pairs.length).map (offset ((pairs ++ [pair]).map Prod.snd)) =
        (List.range pairs.length).map (offset (pairs.map Prod.snd)) := by
      apply List.map_congr_left
      intro k hk
      rw [List.map_append]
      exact offset_append_of_le _ (by simpa using (List.mem_range.mp hk).le)
    have hlast : offset ((pairs ++ [pair]).map Prod.snd) pairs.length =
        (pairs.map Prod.snd).sum := by
      rw [List.map_append, offset_append_of_le _ (by simp), offset_of_length_le (by simp)]
    rw [ofPairs_concat, List.length_append, List.length_singleton, List.range_succ,
      List.map_append, hprefix, List.map_singleton, hlast]
    simp [extend, ih, total_ofPairs]

/-- Every label has an entry. -/
lemma size_labels_ofPairs (labelCount : ℕ) (pairs : List (Node × ℕ)) :
    (ofPairs labelCount pairs).labels.size = labelCount := by
  induction pairs using List.reverseRecOn with
  | nil => simp [ofPairs, empty]
  | append_singleton pairs pair ih =>
    obtain ⟨node, size⟩ := pair
    cases node <;> simp [ofPairs_concat, extend, ih]

/-- The entry of a label is the position of one of its places. -/
lemma find_ofPairs {label : Label} {target : ℕ}
    (h : (ofPairs labelCount pairs).labels.find label = .ok target) :
    ∃ k, (pairs.map Prod.fst)[k]? = some (.bind label) ∧
      target = offset (pairs.map Prod.snd) k := by
  induction pairs using List.reverseRecOn with
  | nil =>
    by_cases hlabel : label.number < labelCount <;>
      simp [ofPairs, empty, LabelPositions.find, hlabel] at h
  | append_singleton pairs pair ih =>
    obtain ⟨node, size⟩ := pair
    rw [ofPairs_concat] at h
    have hearlier : (ofPairs labelCount pairs).labels.find label = .ok target →
        ∃ k, ((pairs ++ [(node, size)]).map Prod.fst)[k]? = some (.bind label) ∧
          target = offset ((pairs ++ [(node, size)]).map Prod.snd) k := by
      intro hfind
      obtain ⟨k, hk, rfl⟩ := ih hfind
      have hlt : k < (pairs.map Prod.fst).length := (List.getElem?_eq_some_iff.mp hk).1
      refine ⟨k, ?_, ?_⟩
      · rw [List.map_append, List.getElem?_append_left hlt, hk]
      · rw [List.map_append, offset_append_of_le _ (by simpa using hlt.le)]
    cases node with
    | instruction i => exact hearlier h
    | jump kind other => exact hearlier h
    | bind other =>
      by_cases hother : other.number = label.number
      · obtain rfl : other = label := by
          cases other
          cases label
          exact congrArg Label.mk hother
        refine ⟨pairs.length, by simp, ?_⟩
        rw [List.map_append, offset_append_of_le _ (by simp), offset_of_length_le (by simp),
          ← total_ofPairs labelCount]
        by_cases hlt : other.number < (ofPairs labelCount pairs).labels.size
        · simp [extend, LabelPositions.find, Array.getD_eq_getD_getElem?, hlt] at h
          exact h.symm
        · simp [extend, LabelPositions.find, Array.getD_eq_getD_getElem?, hlt] at h
      · apply hearlier
        simpa [extend, LabelPositions.find, Array.getD_eq_getD_getElem?,
          Array.getElem?_setIfInBounds_ne hother] using h

/-- A label that has an entry and a place has a position. -/
lemma exists_find_ofPairs {label : Label} (hlabel : label.number < labelCount)
    (hplace : .bind label ∈ pairs.map Prod.fst) :
    ∃ target, (ofPairs labelCount pairs).labels.find label = .ok target := by
  induction pairs using List.reverseRecOn with
  | nil => simp at hplace
  | append_singleton pairs pair ih =>
    obtain ⟨node, size⟩ := pair
    have hsize := size_labels_ofPairs labelCount pairs
    rw [List.map_append, List.mem_append] at hplace
    rw [ofPairs_concat]
    by_cases hnode : node = .bind label
    · subst hnode
      refine ⟨(ofPairs labelCount pairs).total, ?_⟩
      simp [extend, LabelPositions.find, Array.getD_eq_getD_getElem?, hsize, hlabel]
    · obtain ⟨target, htarget⟩ := ih (hplace.resolve_right (by simpa using Ne.symm hnode))
      cases node with
      | instruction i => exact ⟨target, htarget⟩
      | jump kind other => exact ⟨target, htarget⟩
      | bind other =>
        have hother : other.number ≠ label.number := by
          intro h
          apply hnode
          cases other
          cases label
          exact congrArg Node.bind (congrArg Label.mk h)
        refine ⟨target, ?_⟩
        simpa [extend, LabelPositions.find, Array.getD_eq_getD_getElem?,
          Array.getElem?_setIfInBounds_ne hother] using htarget

/-! ### Rounds of shrinking -/

/-- Whether a layout is made from nodes and sizes, one size for each node. -/
def IsMadeFrom (layout : Layout) (labelCount : ℕ) (nodes : List Node) (sizes : List ℕ) : Prop :=
  sizes.length = nodes.length ∧ layout = ofPairs labelCount (nodes.zip sizes)

namespace IsMadeFrom

variable {layout : Layout} {nodes : List Node} {sizes : List ℕ}

/-- The sizes of a layout. -/
lemma sizes_eq (h : layout.IsMadeFrom labelCount nodes sizes) : layout.sizes.toList = sizes := by
  rw [h.2, sizes_ofPairs, List.map_snd_zip h.1.le]

/-- The total of a layout. -/
lemma total_eq (h : layout.IsMadeFrom labelCount nodes sizes) : layout.total = sizes.sum := by
  rw [h.2, total_ofPairs, List.map_snd_zip h.1.le]

/-- The positions of a layout. -/
lemma positions_eq (h : layout.IsMadeFrom labelCount nodes sizes) :
    layout.positions.toList = (List.range nodes.length).map (offset sizes) := by
  rw [h.2, positions_ofPairs, List.map_snd_zip h.1.le, List.length_zip, h.1, min_self]

/-- Where a label of a layout stands, one of its places is. -/
lemma exists_place {label : Label} {target : ℕ} (h : layout.IsMadeFrom labelCount nodes sizes)
    (hfind : layout.labels.find label = .ok target) :
    ∃ k, nodes[k]? = some (.bind label) ∧ target = offset sizes k := by
  rw [h.2] at hfind
  have hplace := find_ofPairs hfind
  rwa [List.map_fst_zip h.1.ge, List.map_snd_zip h.1.le] at hplace

/-- A label that is placed once has the position of its place. -/
lemma find_eq {label : Label} {k : ℕ} (h : layout.IsMadeFrom labelCount nodes sizes)
    (hlabel : label.number < labelCount) (hk : nodes[k]? = some (.bind label))
    (honce : ∀ j, nodes[j]? = some (.bind label) → j = k) :
    layout.labels.find label = .ok (offset sizes k) := by
  have hmem : .bind label ∈ (nodes.zip sizes).map Prod.fst := by
    rw [List.map_fst_zip h.1.ge]
    exact List.mem_of_getElem? hk
  obtain ⟨target, htarget⟩ := exists_find_ofPairs hlabel hmem
  rw [← h.2] at htarget
  obtain ⟨j, hj, rfl⟩ := h.exists_place htarget
  rw [htarget, honce j hj]

/-- Each node with its position and size. -/
lemma getElem?_zip {nodes : Array Node} (h : layout.IsMadeFrom labelCount nodes.toList sizes)
    (k : ℕ) (node : Node) (position size : ℕ) :
    (nodes.zip (layout.positions.zip layout.sizes))[k]? = some (node, position, size) ↔
      nodes[k]? = some node ∧ sizes[k]? = some size ∧ position = offset sizes k := by
  have hlength := h.1
  rw [← Array.getElem?_toList, Array.toList_zip, Array.toList_zip, h.positions_eq, h.sizes_eq,
    List.getElem?_zip_eq_some, List.getElem?_zip_eq_some, Array.getElem?_toList]
  constructor
  · rintro ⟨hnode, hposition, hsize⟩
    refine ⟨hnode, hsize, ?_⟩
    simpa [List.getElem?_map, eq_comm, (Array.getElem?_eq_some_iff.mp hnode).1] using hposition
  · rintro ⟨hnode, hsize, rfl⟩
    exact ⟨hnode, by simp [(Array.getElem?_eq_some_iff.mp hnode).1], hsize⟩

/-- The sizes of the nodes with their positions and sizes. -/
lemma map_size {nodes : Array Node} (h : layout.IsMadeFrom labelCount nodes.toList sizes) :
    (nodes.zip (layout.positions.zip layout.sizes)).toList.map (fun entry => entry.2.2) =
      sizes := by
  rw [Array.toList_zip, Array.toList_zip, h.positions_eq, h.sizes_eq]
  apply List.ext_getElem <;> simp [h.1]

/-- One round of shrinking takes the lesser of the old size and the least size there is now. -/
lemma shrink_eq_ok_iff {nodes : Array Node} (h : layout.IsMadeFrom labelCount nodes.toList sizes)
    (sizes' : Array ℕ) :
    layout.shrink nodes = .ok sizes' ↔ sizes'.size = nodes.size ∧
      ∀ (k : ℕ) (node : Node) (size : ℕ), nodes[k]? = some node → sizes[k]? = some size →
        ∃ better, node.betterSize (offset sizes k) layout.labels = .ok better ∧
          sizes'[k]? = some (min size better) := by
  have hsize : (nodes.zip (layout.positions.zip layout.sizes)).size = nodes.size := by
    have hpositions : layout.positions.size = nodes.size := by
      simpa using congrArg List.length h.positions_eq
    have hsizes : layout.sizes.size = nodes.size := by
      simpa [h.1] using congrArg List.length h.sizes_eq
    simp [hpositions, hsizes]
  rw [shrink, array_mapM_eq_ok_iff, hsize]
  refine and_congr_right fun _ => ⟨fun hall k node size hnode hk => ?_, fun hall k => ?_⟩
  · obtain ⟨y, hy, hyk⟩ := hall k (node, offset sizes k, size)
      ((h.getElem?_zip k _ _ _).mpr ⟨hnode, hk, rfl⟩)
    obtain ⟨better, hbetter, hmin⟩ := bind_eq_ok_iff.mp hy
    obtain rfl := Except.ok.inj hmin
    exact ⟨better, hbetter, hyk⟩
  · rintro ⟨node, position, size⟩ hk
    obtain ⟨hnode, hsize', rfl⟩ := (h.getElem?_zip k _ _ _).mp hk
    obtain ⟨better, hbetter, hyk⟩ := hall k node size hnode hsize'
    exact ⟨min size better, bind_eq_ok_iff.mpr ⟨better, hbetter, rfl⟩, hyk⟩

/-- No size grows in a round. -/
lemma le_of_shrink {nodes : Array Node} (h : layout.IsMadeFrom labelCount nodes.toList sizes)
    {sizes' : Array ℕ} (hshrink : layout.shrink nodes = .ok sizes') :
    List.Forall₂ (· ≤ ·) sizes'.toList sizes := by
  obtain ⟨hsize, hround⟩ := (h.shrink_eq_ok_iff sizes').mp hshrink
  have hlength : sizes'.toList.length = sizes.length := by simp [hsize, h.1]
  refine List.forall₂_iff_get.mpr ⟨hlength, fun k hk' hk => ?_⟩
  have hlt : k < nodes.size := by simpa [hsize] using hk'
  obtain ⟨better, -, hmin⟩ := hround k nodes[k] sizes[k] (Array.getElem?_eq_getElem hlt)
    (List.getElem?_eq_getElem hk)
  rw [List.get_eq_getElem, List.get_eq_getElem, Array.getElem_toList,
    (Array.getElem?_eq_some_iff.mp hmin).2]
  exact min_le_left _ _

/-- A round goes through if each node has a least size. -/
lemma exists_shrink {nodes : Array Node} (h : layout.IsMadeFrom labelCount nodes.toList sizes)
    (hbetter : ∀ {k : ℕ} {node : Node}, nodes[k]? = some node →
      ∃ better, node.betterSize (offset sizes k) layout.labels = .ok better) :
    ∃ sizes', layout.shrink nodes = .ok sizes' := by
  apply exists_array_mapM
  rintro ⟨node, position, size⟩ hmem
  obtain ⟨k, hk⟩ := Array.mem_iff_getElem?.mp hmem
  obtain ⟨hnode, -, rfl⟩ := (h.getElem?_zip k _ _ _).mp hk
  obtain ⟨better, hok⟩ := hbetter hnode
  exact ⟨min size better, bind_eq_ok_iff.mpr ⟨better, hok, rfl⟩⟩

end IsMadeFrom

/-- A layout from sizes is made from them. -/
lemma isMadeFrom_ofSizes {nodes : Array Node} {sizes : Array ℕ} (h : sizes.size = nodes.size) :
    (ofSizes labelCount nodes sizes).IsMadeFrom labelCount nodes.toList sizes.toList :=
  ⟨by simpa using h, ofSizes_eq_ofPairs labelCount nodes sizes⟩

/-- What one round of shrinking preserves holds at the end of all rounds, and there one more round
would not lower the total. -/
theorem settle_induction {nodes : Array Node} {P : Layout → Prop}
    (hround : ∀ layout sizes, P layout → layout.shrink nodes = .ok sizes →
      P (ofSizes labelCount nodes sizes))
    {layout final : Layout} (hstart : P layout)
    (hsettle : settle labelCount nodes layout = .ok final) :
    P final ∧ ∃ sizes, final.shrink nodes = .ok sizes ∧
      final.total ≤ (ofSizes labelCount nodes sizes).total := by
  fun_induction settle labelCount nodes layout with
  | case1 layout e he => cases hsettle
  | case2 layout sizes hsizes next hless ih => exact ih (hround _ _ hstart hsizes) hsettle
  | case3 layout sizes hsizes next hless =>
    obtain rfl := Except.ok.inj hsettle
    exact ⟨hstart, sizes, hsizes, Nat.not_lt.mp hless⟩

/-- If each round goes through, there is a final layout. -/
theorem exists_settle {nodes : Array Node} {P : Layout → Prop}
    (hround : ∀ layout sizes, P layout → layout.shrink nodes = .ok sizes →
      P (ofSizes labelCount nodes sizes))
    (hok : ∀ layout, P layout → ∃ sizes, layout.shrink nodes = .ok sizes)
    {layout : Layout} (hstart : P layout) :
    ∃ final, settle labelCount nodes layout = .ok final := by
  fun_induction settle labelCount nodes layout with
  | case1 layout e he =>
    obtain ⟨sizes, hsizes⟩ := hok layout hstart
    rw [he] at hsizes
    cases hsizes
  | case2 layout sizes hsizes next hless ih => exact ih (hround _ _ hstart hsizes)
  | case3 layout sizes hsizes next hless => exact ⟨layout, rfl⟩

end Layout

end TalkMachine
