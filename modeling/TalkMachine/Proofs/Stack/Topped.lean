import TalkMachine.Proofs.Stack.Words

/-!
# Words on top of a stack

`Stack.Topped words base s` says that `s` is the stack `base` with a list of words on top, the topmost
one first, wherever the frame pointer is. Pushes, pops, drops and writes are then the operations of
the list that their names promise, and what lies in `base` is the same.
-/

namespace TalkMachine

namespace Stack

variable {words front : List UInt64} {base s s' : Stack} {word : UInt64} {k : ℕ}

/-- `s` is `base` with words on top, the topmost one first. -/
structure Topped (words : List UInt64) (base s : Stack) : Prop where
  sp : s.sp + 8 * words.length = base.sp
  same : SameFrom base.sp base s
  load : ∀ (k : ℕ) (word : UInt64), words[k]? = some word → s.load 8 (s.sp + 8 * k) = word
  fits : base.sp ≤ base.size

namespace Topped

/-- A stack has no words on top of itself. -/
lemma refl (h : s.sp ≤ s.size) : Topped [] s s :=
  ⟨rfl, .refl _ _, fun _ _ hword => (by simp at hword), h⟩

/-- Words on top of words. -/
lemma trans (h : Topped words base s) (h' : Topped front s s') :
    Topped (front ++ words) base s' := by
  have hsp := h.sp
  have hsp' := h'.sp
  have hsize := h.same.size
  have hfits := h.fits
  refine ⟨?_, h.same.trans (h'.same.mono (by omega)), fun k word hword => ?_, hfits⟩
  · rw [List.length_append]
    omega
  · rcases Nat.lt_or_ge k front.length with hlt | hge
    · rw [List.getElem?_append_left hlt] at hword
      exact h'.load k word hword
    · rw [List.getElem?_append_right hge] at hword
      have hlt := (List.getElem?_eq_some_iff.mp hword).1
      rw [show s'.sp + 8 * k = s.sp + 8 * (k - front.length) by omega,
        h'.same.load (by omega) (by omega)]
      exact h.load _ _ hword

/-- Where the frame pointer is makes no difference. -/
lemma setFp (h : Topped words base s) (fp : ℕ) : Topped words base (s.restore s.sp fp) :=
  ⟨h.sp, h.same.trans (sameFrom_restore _ s _ _), fun k word hword => by
    rw [load_restore, sp_restore, h.load k word hword], h.fits⟩

/-! ### Pushes -/

/-- A word that is pushed comes on top. -/
lemma push (h : Topped words base s) (hpush : Pushed word s s') :
    Topped (word :: words) base s' := by
  have hfits : s.sp ≤ s.size := by
    have hsp := h.sp
    have hsize := h.same.size
    have hbase := h.fits
    omega
  have hone : Topped [word] s s' := by
    refine ⟨hpush.sp, hpush.same, fun k other hother => ?_, hfits⟩
    obtain ⟨rfl, rfl⟩ : k = 0 ∧ word = other := by
      simpa [List.getElem?_singleton] using hother
    exact hpush.load hfits
  exact h.trans hone

/-- Words that are pushed one after the other come on top, the last one topmost. -/
lemma pushAll (h : Topped words base s) (hpush : PushedAll front s s') :
    Topped (front.reverse ++ words) base s' := by
  induction front generalizing words s with
  | nil =>
    obtain rfl : s' = s := hpush
    exact h
  | cons word rest ih =>
    obtain ⟨t, hfirst, hrest⟩ := hpush
    rw [List.reverse_cons, List.append_assoc]
    exact ih (h.push hfirst) hrest

/-! ### Reading -/

/-- The words on top are live. -/
lemma live (h : Topped words base s) (hk : k < words.length) : s.sp + 8 * k + 8 ≤ s.size := by
  have hsp := h.sp
  have hsize := h.same.size
  have hfits := h.fits
  omega

/-- A word is read from its place. -/
lemma readValue (h : Topped words base s) {value : Value} (hk : words[k]? = some value.raw) :
    s.readValue (s.sp + 8 * k) = .ok value :=
  readValue_eq_ok_iff.mpr ⟨by omega, h.live (List.getElem?_eq_some_iff.mp hk).1, h.load k _ hk⟩

/-- A value is peeked at by its depth. -/
lemma peek (h : Topped words base s) {value : Value} (hk : words[k]? = some value.raw) :
    s.peek k = .ok value :=
  peek_eq_ok_iff.mpr ⟨h.live (List.getElem?_eq_some_iff.mp hk).1, h.load k _ hk⟩

/-! ### Drops and pops -/

/-- Dropping the first words leaves the others. -/
lemma drop (h : Topped (front ++ words) base s) :
    Topped words base (s.restore (s.sp + 8 * front.length) s.fp) := by
  have hsp := h.sp
  rw [List.length_append] at hsp
  refine ⟨?_, h.same.trans (sameFrom_restore _ s _ _), fun k word hword => ?_, h.fits⟩
  · rw [sp_restore]
    omega
  · have hplace := h.load (front.length + k) word (by
      rwa [List.getElem?_append_right (by omega), Nat.add_sub_cancel_left])
    rw [load_restore, sp_restore, ← hplace]
    congr 1
    omega

/-- The first words are on top of the others. -/
lemma above (h : Topped (front ++ words) base s) :
    Topped front (s.restore (s.sp + 8 * front.length) s.fp) s := by
  have hsp := h.sp
  have hsize := h.same.size
  have hfits := h.fits
  rw [List.length_append] at hsp
  refine ⟨rfl, ⟨rfl, fun _ _ _ => rfl⟩, fun k word hword => h.load k word ?_, ?_⟩
  · rwa [List.getElem?_append_left (List.getElem?_eq_some_iff.mp hword).1]
  · rw [sp_restore, size_restore]
    omega

/-- A pop takes the topmost word. -/
lemma popWord (h : Topped (word :: words) base s) :
    Stack.popWord s = .ok word (s.restore (s.sp + 8) s.fp) ∧
      Topped words base (s.restore (s.sp + 8) s.fp) := by
  have hlive := h.live (k := 0) (by simp)
  refine ⟨popWord_eq_ok_iff.mpr ⟨hlive, h.load 0 word rfl, rfl⟩, ?_⟩
  have hfront : Topped ([word] ++ words) base s := h
  exact hfront.drop

/-! ### Writes -/

/-- A write replaces one word. -/
lemma writeWord (h : Topped words base s) (hk : k < words.length) (word : UInt64) :
    Topped (words.set k word) base (s.writeWord (s.sp + 8 * k) word) := by
  have hlive := h.live hk
  have hsp := h.sp
  have hsize := h.same.size
  have hfits := h.fits
  constructor
  · rwa [sp_writeWord, List.length_set]
  · refine h.same.trans ⟨size_writeWord _ _ _, fun b hb hlt => ?_⟩
    rw [byteAt_writeWord s hlive word hlt, if_neg (by omega)]
  · intro j other hj
    rw [sp_writeWord]
    by_cases hjk : k = j
    · subst hjk
      rw [List.getElem?_set_self hk] at hj
      obtain rfl := Option.some.inj hj
      exact load_writeWord s hlive word
    · rw [List.getElem?_set_ne hjk] at hj
      have hlt := (List.getElem?_eq_some_iff.mp hj).1
      rw [← h.load j other hj]
      refine load_congr fun b hb hlt' => ?_
      rw [byteAt_writeWord s hlive word (by omega), if_neg (by omega)]
  · exact hfits

end Topped

end Stack

end TalkMachine
