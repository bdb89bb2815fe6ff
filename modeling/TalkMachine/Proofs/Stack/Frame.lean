import TalkMachine.Proofs.Stack.Words
import TalkMachine.Stack.Frame

/-!
# Frames on a stack

Where the words of a frame are: those at a fixed distance from the frame pointer
(`Stack.frameAddress_sub`), and the arguments and temporaries (`Stack.tempAddress_cases`). A frame
of at most 255 arguments reads its own metadata back (`FrameMetadata.argumentCount_unpack`).

What a running method may change of its own frame are its arguments, its temporaries and what is
below them. `Stack.SameFrame` says that all else is as it was.
-/

namespace TalkMachine

/-! ### Metadata -/

/-- The argument count of a frame is read back from its metadata. -/
lemma FrameMetadata.argumentCount_unpack {count : ℕ} (h : count < 256) :
    (unpack (pack (ofArgumentCount count))).argumentCount = count := by
  have hpack : (pack (ofArgumentCount count)).toNat = count := by
    unfold pack ofArgumentCount
    rw [UInt64.toNat_ofNat_of_lt' (by simp [UInt64.size]; omega)]
    simp
    omega
  unfold unpack
  dsimp only
  rw [hpack]
  omega

namespace Stack

variable {s s' s'' : Stack} {address argumentCount tempCount : ℕ}

/-! ### Addresses -/

/-- The address at a distance below the frame pointer. -/
lemma frameAddress_sub {distance : ℕ} (h : distance ≤ s.fp) (hfp : s.fp < 2 ^ 64) :
    s.frameAddress (-(distance : ℤ)) = .ok (s.fp - distance) := by
  unfold frameAddress
  dsimp only
  rw [if_pos (by omega)]
  congr 1
  omega

/-- The distance of a few words is eight bytes for each. -/
lemma wordDistance_eq {count : ℕ} (h : count < 256) :
    wordDistance count = ((8 * count : ℕ) : ℤ) := by
  unfold wordDistance
  rw [Int.bmod_eq_of_le]
  · push_cast
    omega
  · push_cast
    omega

/-- An index names an argument or, behind the arguments, a temporary. -/
theorem tempAddress_cases {index : ℕ} (hargs : argumentCount < 256) (htemps : tempCount < 256)
    (h : s.tempAddress argumentCount tempCount index = .ok address) :
    (index < argumentCount ∧ address = s.fp + 16 + 8 * (argumentCount - 1 - index)) ∨
      (argumentCount ≤ index ∧ index - argumentCount < tempCount ∧
        address + 40 + 8 * (index - argumentCount) = s.fp) := by
  unfold tempAddress at h
  split at h
  · rename_i hindex
    left
    refine ⟨hindex, ?_⟩
    unfold argumentAddress frameAddress at h
    rw [wordDistance_eq (by omega)] at h
    dsimp only at h
    split at h
    · have := Except.ok.inj h
      simp only [Frame.firstArgument] at this
      omega
    · cases h
  · split at h
    · cases h
    · right
      unfold frameAddress at h
      rw [wordDistance_eq (by omega)] at h
      dsimp only at h
      split at h
      · have := Except.ok.inj h
        simp only [Frame.firstTemp] at *
        omega
      · cases h

/-- An index below the number of arguments names an argument, the last of which lies just above the
saved words. -/
lemma tempAddress_of_lt {index : ℕ} (hindex : index < argumentCount) (hargs : argumentCount < 256)
    (hfits : s.fp + 16 + 8 * argumentCount ≤ 2 ^ 64) :
    s.tempAddress argumentCount tempCount index =
      .ok (s.fp + 16 + 8 * (argumentCount - 1 - index)) := by
  unfold tempAddress argumentAddress frameAddress
  have hfirst : Frame.firstArgument = 16 := rfl
  rw [if_pos hindex, wordDistance_eq (by omega)]
  dsimp only
  rw [if_pos (by omega)]
  congr 1
  omega

/-- An index behind the arguments names a temporary, the first of which lies just below the words of
the frame. -/
lemma tempAddress_of_ge {index : ℕ} (hindex : argumentCount ≤ index)
    (htemp : index - argumentCount < tempCount) (htemps : tempCount < 256)
    (hfits : 40 + 8 * (index - argumentCount) ≤ s.fp) (hfp : s.fp < 2 ^ 64) :
    s.tempAddress argumentCount tempCount index =
      .ok (s.fp - (40 + 8 * (index - argumentCount))) := by
  unfold tempAddress
  rw [if_neg (by omega), if_neg (by omega), wordDistance_eq (by omega)]
  have hdistance : Frame.firstTemp - ((8 * (index - argumentCount) : ℕ) : ℤ) =
      -((40 + 8 * (index - argumentCount) : ℕ) : ℤ) := by
    rw [show Frame.firstTemp = -40 from rfl]
    omega
  rw [hdistance]
  exact frameAddress_sub hfits hfp

/-- An index behind the temporaries names nothing. -/
lemma tempAddress_eq_error {index : ℕ} (h : argumentCount + tempCount ≤ index) :
    s.tempAddress argumentCount tempCount index = .error (.tempOutOfRange (UInt32.ofNat index)) := by
  unfold tempAddress
  rw [if_neg (by omega), if_pos (by omega)]

/-! ### Words of the frame -/

/-- A value at a distance below the frame pointer is the word at its address, if that is live. -/
lemma frameValue_sub_eq_ok_iff (distance : ℕ) (h : distance ≤ s.fp) (hfp : s.fp < 2 ^ 64)
    {value : Value} :
    s.frameValue (-(distance : ℤ)) = .ok value ↔ s.sp ≤ s.fp - distance ∧
      s.fp - distance + 8 ≤ s.size ∧ s.load 8 (s.fp - distance) = value.raw := by
  unfold frameValue
  rw [frameAddress_sub h hfp]
  exact readValue_eq_ok_iff

/-- The metadata of a frame is unpacked from its word, if that is live. -/
lemma frameMetadata_eq_ok_iff (h : 16 ≤ s.fp) (hfp : s.fp < 2 ^ 64) {metadata : FrameMetadata} :
    s.frameMetadata = .ok metadata ↔ s.sp ≤ s.fp - 16 ∧ s.fp - 16 + 8 ≤ s.size ∧
      FrameMetadata.unpack (s.load 8 (s.fp - 16)) = metadata := by
  unfold frameMetadata frameWord
  rw [show Frame.metadata = -((16 : ℕ) : ℤ) from rfl, frameAddress_sub h hfp, bind_eq_ok_iff]
  constructor
  · rintro ⟨word, hread, hmetadata⟩
    obtain ⟨hsp, hsize, rfl⟩ := read_eq_ok_iff.mp hread
    exact ⟨hsp, hsize, Except.ok.inj hmetadata⟩
  · rintro ⟨hsp, hsize, rfl⟩
    exact ⟨_, read_eq_ok_iff.mpr ⟨hsp, hsize, rfl⟩, rfl⟩

/-! ### What a method may change -/

/-- Two stacks have the same frame pointer, and the same bytes from the words of the frame on, the
arguments apart. -/
structure SameFrame (argumentCount : ℕ) (s s' : Stack) : Prop where
  size : s'.size = s.size
  fp : s'.fp = s.fp
  byteAt : ∀ b, s.fp ≤ b + 32 → (b < s.fp + 16 ∨ s.fp + 16 + 8 * argumentCount ≤ b) →
    b < s.size → s'.byteAt b = s.byteAt b

namespace SameFrame

/-- A stack has the frame of itself. -/
lemma refl (argumentCount : ℕ) (s : Stack) : SameFrame argumentCount s s :=
  ⟨rfl, rfl, fun _ _ _ _ => rfl⟩

/-- Two changes that keep the frame keep it together. -/
lemma trans (h : SameFrame argumentCount s s') (h' : SameFrame argumentCount s' s'') :
    SameFrame argumentCount s s'' := by
  have hsize := h.size
  have hfp := h.fp
  constructor
  · rw [h'.size, hsize]
  · rw [h'.fp, hfp]
  · intro b hb hargs hlt
    rw [h'.byteAt b (by omega) (by omega) (by omega), h.byteAt b hb hargs hlt]

/-- A change below the words of the frame keeps the frame. -/
lemma of_sameFrom (h : SameFrom address s s') (hfp : s'.fp = s.fp)
    (haddress : address + 32 ≤ s.fp) : SameFrame argumentCount s s' :=
  ⟨h.size, hfp, fun b hb _ hlt => h.byteAt b (by omega) hlt⟩

/-- Moving the stack pointer keeps the frame. -/
lemma restore (argumentCount : ℕ) (s : Stack) (sp : ℕ) :
    SameFrame argumentCount s (s.restore sp s.fp) :=
  ⟨rfl, rfl, fun _ _ _ _ => rfl⟩

/-- A push below the words of the frame keeps the frame. -/
lemma push {word : UInt64} (h : Pushed word s s') (hsp : s.sp + 32 ≤ s.fp) :
    SameFrame argumentCount s s' :=
  of_sameFrom h.same h.fp hsp

/-- A write to an argument or a temporary keeps the frame. -/
lemma writeWord {index : ℕ} (hargs : argumentCount < 256) (htemps : tempCount < 256)
    (h : s.tempAddress argumentCount tempCount index = .ok address) (hfits : address + 8 ≤ s.size)
    (word : UInt64) : SameFrame argumentCount s (s.writeWord address word) := by
  have hcases := tempAddress_cases hargs htemps h
  refine ⟨size_writeWord s address word, fp_writeWord s address word, ?_⟩
  intro b hb hargs hlt
  rw [byteAt_writeWord s hfits word hlt, if_neg (by omega)]

/-- The words of a frame, and all behind the arguments, are kept. -/
lemma load {a : ℕ} (h : SameFrame argumentCount s s') (ha : s.fp ≤ a + 32)
    (hargs : a + 8 ≤ s.fp + 16 ∨ s.fp + 16 + 8 * argumentCount ≤ a) (hfits : a + 8 ≤ s.size) :
    s'.load 8 a = s.load 8 a :=
  load_congr fun b hb hlt => h.byteAt b (by omega) (by omega) (by omega)

end SameFrame

end Stack

end TalkMachine
