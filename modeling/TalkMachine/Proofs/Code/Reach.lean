import TalkMachine.Code.Node
import TalkMachine.Proofs.Code.RoundTrip

/-!
# How far jumps reach

A jump of a size reaches a range of distances around zero. What it reaches it also reaches when the
target moves nearer without changing sides (`Jump.reaches_of_nonneg`, `Jump.reaches_of_neg`). The
short form is the exception: it cannot go over zero bytes. `Jump.Reaches` leaves that exception out,
so that it is preserved while a layout shrinks.
-/

namespace TalkMachine

/-! ### Widths of nearer distances -/

/-- A smaller number takes no more bytes. -/
lemma signedWidth_le_of_nonneg {m n : ℤ} (hm : 0 ≤ m) (hmn : m ≤ n) :
    signedWidth m ≤ signedWidth n := by
  have hn := (signedWidth_le_iff n _).mp le_rfl
  rw [signedWidth_le_iff]
  omega

/-- Of two negative numbers, the one nearer to zero takes no more bytes. -/
lemma signedWidth_le_of_neg {m n : ℤ} (hm : m < 0) (hnm : n ≤ m) :
    signedWidth m ≤ signedWidth n := by
  have hn := (signedWidth_le_iff n _).mp le_rfl
  rw [signedWidth_le_iff]
  omega

namespace Jump

/-- The short form goes over 1 to 8 bytes. -/
@[simp] lemma fits_one (distance : ℤ) :
    fits distance 1 = true ↔ 1 ≤ distance ∧ distance ≤ 8 := by
  simp [fits]

/-- What the long forms go over depends on the width of the distance alone. -/
lemma fits_long {distance : ℤ} {size : ℕ} (h : size ≠ 1) :
    fits distance size = true ↔ 2 ≤ size ∧ size % 2 = 0 ∧ extensions size ≤ maxExtensions ∧
      signedWidth (distance / 256) ≤ extensions size := by
  simp [fits, h, and_assoc]

/-- The longest form goes over every distance of 32 bits. -/
lemma fits_maxSize {distance : ℤ} (hlow : -2 ^ 31 ≤ distance) (hhigh : distance < 2 ^ 31) :
    fits distance maxSize = true := by
  rw [fits_long (by decide)]
  refine ⟨by decide, by decide, by decide, ?_⟩
  rw [signedWidth_le_iff, show extensions maxSize = 3 from rfl]
  omega

/-- A jump that fits its size is written. -/
lemma exists_encode (kind : JumpKind) {distance : ℤ} {size : ℕ}
    (h : fits distance size = true) : ∃ bytes, encode kind distance size = .ok bytes := by
  unfold encode
  split
  · rename_i hsize
    subst hsize
    rw [fits_one] at h
    have hlt : (distance - 1).toNat < 8 := by omega
    have hbyte : ∀ k < 8, (kind.shortOp.byte? k).isSome = true := by
      cases kind <;> decide
    obtain ⟨byte, hk⟩ := Option.isSome_iff_exists.mp (hbyte _ hlt)
    exact ⟨[byte], by rw [Op.short, hk]⟩
  · exact ⟨_, rfl⟩

/-! ### Nearer targets -/

/-- Whether a jump of a size fits a distance, or would if the short form could go over no byte. -/
def Reaches (distance : ℤ) (size : ℕ) : Prop :=
  fits distance size = true ∨ (size = 1 ∧ distance = 0)

/-- A jump forward still reaches its target when the target comes nearer. -/
lemma reaches_of_nonneg {distance distance' : ℤ} {size : ℕ} (h : Reaches distance size)
    (hlow : 0 ≤ distance') (hnear : distance' ≤ distance) : Reaches distance' size := by
  by_cases hsize : size = 1
  · subst hsize
    by_cases hzero : distance' = 0
    · exact Or.inr ⟨rfl, hzero⟩
    · rcases h with h | h
      · exact Or.inl (by rw [fits_one] at h ⊢; omega)
      · omega
  · left
    rcases h with h | h
    · rw [fits_long hsize] at h ⊢
      obtain ⟨htwo, heven, hmax, hwidth⟩ := h
      exact ⟨htwo, heven, hmax,
        (signedWidth_le_of_nonneg (by omega) (by omega)).trans hwidth⟩
    · exact absurd h.1 hsize

/-- A jump back still reaches its target when the target comes nearer. -/
lemma reaches_of_neg {distance distance' : ℤ} {size : ℕ} (h : Reaches distance size)
    (hhigh : distance' < 0) (hnear : distance ≤ distance') : Reaches distance' size := by
  by_cases hsize : size = 1
  · subst hsize
    rcases h with h | h
    · rw [fits_one] at h
      omega
    · omega
  · left
    rcases h with h | h
    · rw [fits_long hsize] at h ⊢
      obtain ⟨htwo, heven, hmax, hwidth⟩ := h
      exact ⟨htwo, heven, hmax, (signedWidth_le_of_neg (by omega) (by omega)).trans hwidth⟩
    · exact absurd h.1 hsize

/-! ### The least size -/

/-- The least size that fits a distance is one of the sizes, and fits. -/
lemma fits_of_find? {distance : ℕ → ℤ} {size : ℕ}
    (h : sizes.find? (fun size => fits (distance size) size) = some size) :
    size ∈ sizes ∧ fits (distance size) size = true :=
  ⟨List.mem_of_find?_eq_some h, by simpa using List.find?_some h⟩

/-- If the longest form fits, there is a least size. -/
lemma exists_find? {distance : ℕ → ℤ} (h : fits (distance maxSize) maxSize = true) :
    ∃ size, sizes.find? (fun size => fits (distance size) size) = some size := by
  rw [← Option.isSome_iff_exists, List.find?_isSome]
  exact ⟨maxSize, by decide, h⟩

/-- If the short form fits, it is the least size. -/
lemma find?_eq_one {distance : ℕ → ℤ} (h : fits (distance 1) 1 = true) :
    sizes.find? (fun size => fits (distance size) size) = some 1 := by
  simp [sizes, h]

/-- Every jump has a size. -/
lemma pos_of_mem_sizes {size : ℕ} (h : size ∈ sizes) : 1 ≤ size := by
  simp only [sizes, List.mem_cons, List.not_mem_nil, or_false] at h
  omega

end Jump

end TalkMachine
