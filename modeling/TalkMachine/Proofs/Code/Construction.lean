import Mathlib.Data.Int.Notation
import Mathlib.Data.List.Induction
import TalkMachine.Code
import TalkMachine.Proofs.Outcome

/-!
# Code that construction reaches

Code is built by a sequence of construction steps, of which each may be refused. `Code.Action` names
the steps and `Code.built` is what a sequence of them leaves. In all code that is built a label has
at most one place, and it counts as placed just when it has one (`Code.labelsOnce_built`).
-/

namespace TalkMachine

namespace Code

/-- The steps of construction. Every other step puts one fixed instruction at the end. -/
inductive Action
  | emit (i : Instruction)
  | jump (kind : JumpKind) (label : Label)
  | newLabel
  | bind (label : Label)
  | literal (value : Value)
  | pushLiteral (value : Value)
  | pushBinding (association : Value)
  | storeBinding (association : Value) (popping : Bool)
  | send (selector : Value) (argumentCount : ℕ)
  | pushInteger (n : ℤ)

/-- The code after one step. -/
def Action.apply (code : Code) : Action → Code
  | .emit i => stateAfter (Code.emit i code)
  | .jump kind label => stateAfter (Code.jump kind label code)
  | .newLabel => stateAfter (Code.newLabel code)
  | .bind label => stateAfter (Code.bind label code)
  | .literal value => stateAfter (Code.literal value code)
  | .pushLiteral value => stateAfter (Code.pushLiteral value code)
  | .pushBinding association => stateAfter (Code.pushBinding association code)
  | .storeBinding association popping => stateAfter (Code.storeBinding association popping code)
  | .send selector argumentCount => stateAfter (Code.send selector argumentCount code)
  | .pushInteger n => stateAfter (Code.pushInteger n code)

/-- The code that a sequence of steps builds. -/
def built (actions : List Action) : Code :=
  actions.foldl Action.apply empty

/-- The last step is taken in the code that the others have built. -/
lemma built_append_singleton (actions : List Action) (action : Action) :
    built (actions ++ [action]) = action.apply (built actions) := by
  simp [built, List.foldl_append]

/-! ### What one step does to nodes and labels -/

/-- Whether code differs from earlier code, besides in its literals, by at most one node more that
is not the place of a label. -/
def Follows (code code' : Code) : Prop :=
  code'.bound = code.bound ∧ (code'.nodes = code.nodes ∨
    ∃ node, (∀ label, node ≠ .bind label) ∧ code'.nodes = code.nodes.push node)

/-- Nothing changed. -/
lemma follows_refl (code : Code) : Follows code code :=
  ⟨rfl, Or.inl rfl⟩

/-- An instruction or a jump was put at the end. -/
lemma follows_add {node : Node} (h : ∀ label, node ≠ .bind label) (code : Code) :
    Follows code (stateAfter (add node code)) :=
  ⟨rfl, Or.inr ⟨node, h, rfl⟩⟩

/-- Looking for a literal changes the literals only. -/
lemma literal_keeps (value : Value) (code : Code) :
    (∃ index code', literal value code = .ok index code' ∧ code'.bound = code.bound ∧
      code'.nodes = code.nodes) ∨ ∃ e, literal value code = .error e code := by
  unfold literal
  split
  · exact Or.inl ⟨_, _, rfl, rfl, rfl⟩
  · split
    · exact Or.inr ⟨_, rfl⟩
    · exact Or.inl ⟨_, _, rfl, rfl, rfl⟩

/-- An instruction with a literal is put at the end if the literal is there. -/
lemma follows_emit_literal (value : Value) (f : ℕ → Instruction) (code : Code) :
    Follows code (stateAfter ((do emit (f (← literal value))) code)) := by
  rcases literal_keeps value code with ⟨index, code', h, hbound, hnodes⟩ | ⟨e, h⟩
  · have hafter : stateAfter ((do emit (f (← literal value))) code) =
        stateAfter (emit (f index) code') := by
      simp only [stateAfter, Bind.bind, EStateM.bind, h]
    rw [hafter]
    refine ⟨hbound, Or.inr ⟨.instruction (f index), by simp, ?_⟩⟩
    simp [stateAfter, emit, add, hnodes]
  · have hafter : stateAfter ((do emit (f (← literal value))) code) = code := by
      simp only [stateAfter, Bind.bind, EStateM.bind, h]
    rw [hafter]
    exact follows_refl code

/-- Every step but the two that make and place labels puts at most one node at the end. -/
lemma follows_apply (code : Code) {action : Action} (hnew : action ≠ .newLabel)
    (hbind : ∀ label, action ≠ .bind label) : Follows code (action.apply code) := by
  cases action with
  | emit i => exact follows_add (by simp) code
  | jump kind label => exact follows_add (by simp) code
  | newLabel => exact absurd rfl hnew
  | bind label => exact absurd rfl (hbind label)
  | literal value =>
    rcases literal_keeps value code with ⟨index, code', h, hbound, hnodes⟩ | ⟨e, h⟩
    · simp only [Action.apply, stateAfter, h]
      exact ⟨hbound, Or.inl hnodes⟩
    · simp only [Action.apply, stateAfter, h]
      exact follows_refl code
  | pushLiteral value => exact follows_emit_literal value _ code
  | pushBinding association => exact follows_emit_literal association _ code
  | storeBinding association popping => exact follows_emit_literal association _ code
  | send selector argumentCount => exact follows_emit_literal selector _ code
  | pushInteger n =>
    simp only [Action.apply, pushInteger]
    split
    · exact follows_add (by simp) code
    · cases Value.ofInt? n with
      | some value => exact follows_emit_literal value _ code
      | none => exact follows_refl code

/-! ### Places of labels -/

/-- Whether each label has one place if it counts as placed, and none if it does not. -/
structure LabelsOnce (code : Code) : Prop where
  exists_place : ∀ {label : Label}, code.bound[label.number]? = some true →
    ∃ k : ℕ, code.nodes[k]? = some (.bind label)
  bound : ∀ {k : ℕ} {label : Label}, code.nodes[k]? = some (.bind label) →
    code.bound[label.number]? = some true
  once : ∀ {j k : ℕ} {label : Label}, code.nodes[j]? = some (.bind label) →
    code.nodes[k]? = some (.bind label) → j = k

/-- A node that is no place leaves the places of labels alone. -/
lemma LabelsOnce.of_follows {code code' : Code} (h : code.LabelsOnce) (hf : Follows code code') :
    code'.LabelsOnce := by
  obtain ⟨hbound, hnodes | ⟨node, hnode, hnodes⟩⟩ := hf
  · exact ⟨fun hb => hnodes ▸ h.exists_place (hbound ▸ hb),
      fun hk => hbound ▸ h.bound (hnodes ▸ hk),
      fun hj hk => h.once (hnodes ▸ hj) (hnodes ▸ hk)⟩
  · have hplace : ∀ {k : ℕ} {label : Label}, code'.nodes[k]? = some (.bind label) →
        code.nodes[k]? = some (.bind label) := by
      intro k label hk
      rw [hnodes, Array.getElem?_push] at hk
      split at hk
      · exact absurd (Option.some.inj hk) (hnode label)
      · exact hk
    refine ⟨fun hb => ?_, fun hk => hbound ▸ h.bound (hplace hk),
      fun hj hk => h.once (hplace hj) (hplace hk)⟩
    obtain ⟨k, hk⟩ := h.exists_place (hbound ▸ hb)
    have hlt : k < code.nodes.size := (Array.getElem?_eq_some_iff.mp hk).1
    exact ⟨k, by rw [hnodes, Array.getElem?_push, if_neg (by omega), hk]⟩

/-- A new label is not placed. -/
lemma LabelsOnce.newLabel {code : Code} (h : code.LabelsOnce) :
    (stateAfter (Code.newLabel code)).LabelsOnce := by
  have hbound : ∀ n : ℕ, (stateAfter (Code.newLabel code)).bound[n]? = some true ↔
      code.bound[n]? = some true := by
    intro n
    simp only [stateAfter, Code.newLabel, Array.getElem?_push]
    split
    · rename_i hn
      simp [hn]
    · rfl
  exact ⟨fun hb => h.exists_place ((hbound _).mp hb), fun hk => (hbound _).mpr (h.bound hk),
    h.once⟩

/-- A label that is placed for the first time has the place at the end. -/
lemma LabelsOnce.bind {code : Code} (h : code.LabelsOnce) (label : Label) :
    (stateAfter (Code.bind label code)).LabelsOnce := by
  unfold stateAfter Code.bind
  split
  · rename_i code' hcode
    split at hcode
    · cases hcode
    · cases hcode
    · rename_i hunbound
      cases hcode
      have hlt : label.number < code.bound.size := (Array.getElem?_eq_some_iff.mp hunbound).1
      have hbound : ∀ n : ℕ, (code.bound.setIfInBounds label.number true)[n]? = some true ↔
          n = label.number ∨ code.bound[n]? = some true := by
        intro n
        by_cases hn : label.number = n
        · subst hn
          simp [hlt]
        · rw [Array.getElem?_setIfInBounds_ne hn]
          simp [Ne.symm hn]
      have hplace : ∀ {k : ℕ} {other : Label},
          (code.nodes.push (.bind label))[k]? = some (.bind other) ↔
            (k = code.nodes.size ∧ other = label) ∨ code.nodes[k]? = some (.bind other) := by
        intro k other
        rw [Array.getElem?_push]
        split
        · rename_i hk
          simp [hk, eq_comm]
        · rename_i hk
          simp [hk]
      have hfresh : ∀ k : ℕ, code.nodes[k]? ≠ some (.bind label) := by
        intro k hk
        have := h.bound hk
        rw [hunbound] at this
        cases this
      refine ⟨fun {other} hb => ?_, fun {k other} hk => ?_, fun {j k other} hj hk => ?_⟩
      · rcases (hbound _).mp hb with hn | hb
        · exact ⟨code.nodes.size, hplace.mpr (Or.inl ⟨rfl, congrArg Label.mk hn⟩)⟩
        · obtain ⟨k, hk⟩ := h.exists_place hb
          exact ⟨k, hplace.mpr (Or.inr hk)⟩
      · rcases hplace.mp hk with ⟨-, rfl⟩ | hk
        · exact (hbound _).mpr (Or.inl rfl)
        · exact (hbound _).mpr (Or.inr (h.bound hk))
      · rcases hplace.mp hj with ⟨hj', rfl⟩ | hj'
        · rcases hplace.mp hk with ⟨hk', -⟩ | hk'
          · rw [hj', hk']
          · exact absurd hk' (hfresh k)
        · rcases hplace.mp hk with ⟨-, rfl⟩ | hk'
          · exact absurd hj' (hfresh j)
          · exact h.once hj' hk'
  · rename_i code' hcode
    split at hcode
    · cases hcode
      exact h
    · cases hcode
      exact h
    · cases hcode

/-- In code that is built, each label that counts as placed has one place, and no other has any. -/
theorem labelsOnce_built (actions : List Action) : (built actions).LabelsOnce := by
  induction actions using List.reverseRecOn with
  | nil => exact ⟨fun hb => by simp [built, empty] at hb, fun hk => by simp [built, empty] at hk,
      fun hk => by simp [built, empty] at hk⟩
  | append_singleton actions action ih =>
    rw [built_append_singleton]
    by_cases hnew : action = .newLabel
    · subst hnew
      exact ih.newLabel
    · by_cases hbind : ∃ label, action = .bind label
      · obtain ⟨label, rfl⟩ := hbind
        exact ih.bind label
      · exact ih.of_follows (follows_apply _ hnew fun label h => hbind ⟨label, h⟩)

end Code

end TalkMachine
