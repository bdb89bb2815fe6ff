import TalkMachine.Proofs.Outcome
import TalkMachine.Proofs.Stack.Bytes

/-!
# Words of a stack

What each operation of a stack does when it succeeds: what it answers, where it leaves the two
pointers, and which bytes it keeps. A push keeps all bytes from the old stack pointer on
(`Stack.pushed_of_pushWord`); all other operations but a write keep every byte.
-/

namespace TalkMachine

namespace Stack

variable {s s' s'' : Stack} {address address' : ℕ}

/-! ### Equal from an address on -/

/-- Two stacks of one size have the same bytes from an address on. -/
structure SameFrom (address : ℕ) (s s' : Stack) : Prop where
  size : s'.size = s.size
  byteAt : ∀ b, address ≤ b → b < s.size → s'.byteAt b = s.byteAt b

namespace SameFrom

/-- A stack has the bytes of itself. -/
lemma refl (address : ℕ) (s : Stack) : SameFrom address s s :=
  ⟨rfl, fun _ _ _ => rfl⟩

/-- Two changes that keep the bytes from an address on keep them together. -/
lemma trans (h : SameFrom address s s') (h' : SameFrom address s' s'') :
    SameFrom address s s'' := by
  constructor
  · rw [h'.size, h.size]
  · intro b hb hsize
    rw [h'.byteAt b hb (by rwa [h.size]), h.byteAt b hb hsize]

/-- Stacks that are the same from an address on are so from a higher one. -/
lemma mono (h : SameFrom address s s') (haddress : address ≤ address') :
    SameFrom address' s s' :=
  ⟨h.size, fun b hb => h.byteAt b (haddress.trans hb)⟩

/-- Stacks that are the same from an address on have the same words there. -/
lemma load {a : ℕ} (h : SameFrom address s s') (haddress : address ≤ a) (hfits : a + 8 ≤ s.size) :
    s'.load 8 a = s.load 8 a :=
  load_congr fun b hb hlt => h.byteAt b (haddress.trans hb) (by omega)

end SameFrom

/-- Moving the pointers keeps all bytes. -/
lemma sameFrom_restore (address : ℕ) (s : Stack) (sp fp : ℕ) :
    SameFrom address s (s.restore sp fp) :=
  ⟨rfl, fun _ _ _ => rfl⟩

/-- Moving the pointers keeps all words. -/
@[simp] lemma load_restore (s : Stack) (sp fp address : ℕ) :
    (s.restore sp fp).load 8 address = s.load 8 address :=
  load_congr fun _ _ _ => rfl

/-- Moving the pointers leaves the stack pointer as asked. -/
@[simp] lemma sp_restore (s : Stack) (sp fp : ℕ) : (s.restore sp fp).sp = sp := rfl

/-- Moving the pointers leaves the frame pointer as asked. -/
@[simp] lemma fp_restore (s : Stack) (sp fp : ℕ) : (s.restore sp fp).fp = fp := rfl

/-- Moving the pointers keeps the size. -/
@[simp] lemma size_restore (s : Stack) (sp fp : ℕ) : (s.restore sp fp).size = s.size := rfl

/-- Of two moves of the pointers the later one counts. -/
@[simp] lemma restore_restore (s : Stack) (sp fp sp' fp' : ℕ) :
    (s.restore sp fp).restore sp' fp' = s.restore sp' fp' := rfl

/-! ### Questions -/

/-- Asking does not change the stack. -/
lemma ask_eq_ok_iff {α : Type} {question : Stack → Except StackError α} {a : α} :
    ask question s = .ok a s' ↔ question s = .ok a ∧ s' = s := by
  unfold ask
  cases question s with
  | error e => simp
  | ok b => simp [eq_comm]

/-- An access outside the live words underflows if its end is an address. -/
lemma outside_of_lt {stop : ℕ} (h : stop < 2 ^ 64) : StackError.outside stop = .underflow :=
  if_pos h

/-- An access outside the live words overflows if its end is no address. -/
lemma outside_of_le {stop : ℕ} (h : 2 ^ 64 ≤ stop) : StackError.outside stop = .addressOverflow :=
  if_neg (Nat.not_lt.mpr h)

/-- Reading answers the word at an address just when it is live. -/
lemma read_eq_ok_iff {word : UInt64} :
    s.read address = .ok word ↔
      s.sp ≤ address ∧ address + 8 ≤ s.size ∧ s.load 8 address = word := by
  unfold read isLive
  by_cases h : s.sp ≤ address ∧ address + 8 ≤ s.size
  · rw [if_pos (by simpa using h)]
    simp [h.1, h.2]
  · rw [if_neg (by simpa using h)]
    simp only [reduceCtorEq, false_iff]
    exact fun hlive => h ⟨hlive.1, hlive.2.1⟩

/-- Reading a value answers the word at an address just when it is live. -/
lemma readValue_eq_ok_iff {value : Value} :
    s.readValue address = .ok value ↔
      s.sp ≤ address ∧ address + 8 ≤ s.size ∧ s.load 8 address = value.raw := by
  unfold readValue
  rw [bind_eq_ok_iff]
  constructor
  · rintro ⟨word, hread, hvalue⟩
    obtain rfl : (⟨word⟩ : Value) = value := Except.ok.inj hvalue
    exact read_eq_ok_iff.mp hread
  · intro h
    exact ⟨value.raw, read_eq_ok_iff.mpr h, rfl⟩

/-- Peeking answers a word that is live. -/
lemma peek_eq_ok_iff {depth : ℕ} {value : Value} :
    s.peek depth = .ok value ↔
      s.sp + 8 * depth + 8 ≤ s.size ∧ s.load 8 (s.sp + 8 * depth) = value.raw := by
  rw [peek, readValue_eq_ok_iff, Nat.mul_comm depth 8]
  simp

/-! ### Pushes -/

/-- `s'` is `s` with a word pushed. -/
structure Pushed (word : UInt64) (s s' : Stack) : Prop where
  sp : s'.sp + 8 = s.sp
  fp : s'.fp = s.fp
  same : SameFrom s.sp s s'
  load : s.sp ≤ s.size → s'.load 8 s'.sp = word

/-- A push puts the word below the stack pointer. -/
theorem pushed_of_pushWord {word : UInt64} (h : pushWord word s = .ok () s') :
    Pushed word s s' := by
  unfold pushWord at h
  split at h
  · simp at h
  · rename_i hroom
    simp only [wordSize] at hroom h
    have hsize := size_writeWord s (s.sp - 8) word
    have hfp := fp_writeWord s (s.sp - 8) word
    have hbyte (hfits : s.sp - 8 + 8 ≤ s.size) {b : ℕ} (hb : b < s.size) :=
      byteAt_writeWord s hfits word hb
    have hload (hfits : s.sp - 8 + 8 ≤ s.size) := load_writeWord s hfits word
    generalize s.writeWord (s.sp - 8) word = t at *
    obtain rfl : t.restore (s.sp - 8) t.fp = s' := by
      simpa [restore] using h
    constructor
    · rw [sp_restore]
      omega
    · rw [fp_restore, hfp]
    · constructor
      · rw [size_restore, hsize]
      · intro b hb hlt
        rw [(sameFrom_restore b t _ _).byteAt b le_rfl (by omega), hbyte (by omega) hlt,
          if_neg (by omega)]
    · intro hsp
      rw [load_restore, sp_restore, hload (by omega)]

/-- A push succeeds where there is room. -/
lemma exists_pushWord (hroom : 8 ≤ s.sp) (word : UInt64) : ∃ s', pushWord word s = .ok () s' := by
  unfold pushWord
  rw [if_neg (by simp only [wordSize]; omega)]
  exact ⟨_, rfl⟩

/-- A word is not pushed where there is no room for it. -/
lemma pushWord_of_lt (hroom : s.sp < 8) (word : UInt64) :
    pushWord word s = .error .overflow s :=
  if_pos hroom

/-- Words pushed one after the other, the first one first. -/
def PushedAll : List UInt64 → Stack → Stack → Prop
  | [], s, s' => s' = s
  | word :: rest, s, s' => ∃ t, Pushed word s t ∧ PushedAll rest t s'

namespace PushedAll

/-- Pushes move the stack pointer down by a word each. -/
lemma sp {words : List UInt64} (h : PushedAll words s s') : s'.sp + 8 * words.length = s.sp := by
  induction words generalizing s with
  | nil =>
    obtain rfl : s' = s := h
    simp
  | cons word rest ih =>
    obtain ⟨t, hpush, hrest⟩ := h
    have := ih hrest
    have := hpush.sp
    rw [List.length_cons]
    omega

/-- Pushes do not move the frame pointer. -/
lemma fp {words : List UInt64} (h : PushedAll words s s') : s'.fp = s.fp := by
  induction words generalizing s with
  | nil =>
    obtain rfl : s' = s := h
    rfl
  | cons word rest ih =>
    obtain ⟨t, hpush, hrest⟩ := h
    rw [ih hrest, hpush.fp]

/-- Pushes keep all bytes from the old stack pointer on. -/
lemma same {words : List UInt64} (h : PushedAll words s s') : SameFrom s.sp s s' := by
  induction words generalizing s with
  | nil =>
    obtain rfl : s' = s := h
    exact .refl _ _
  | cons word rest ih =>
    obtain ⟨t, hpush, hrest⟩ := h
    have hsp := hpush.sp
    exact hpush.same.trans ((ih hrest).mono (by omega))

/-- The word pushed last lies on top, and each of the others a word above the next one. -/
lemma load {words : List UInt64} (h : PushedAll words s s') (hsize : s.sp ≤ s.size) {k : ℕ}
    {word : UInt64} (hword : words[k]? = some word) :
    s'.load 8 (s'.sp + 8 * (words.length - 1 - k)) = word := by
  induction words generalizing s k with
  | nil => cases hword
  | cons first rest ih =>
    obtain ⟨t, hpush, hrest⟩ := h
    have hsp := hpush.sp
    have hsp' := hrest.sp
    have hsame := hpush.same.size
    cases k with
    | zero =>
      obtain rfl : first = word := Option.some.inj hword
      rw [List.length_cons, show s'.sp + 8 * (rest.length + 1 - 1 - 0) = t.sp by omega,
        hrest.same.load le_rfl (by omega), hpush.load hsize]
    | succ k =>
      rw [List.length_cons, show rest.length + 1 - 1 - (k + 1) = rest.length - 1 - k by omega]
      exact ih hrest (by omega) hword

end PushedAll

/-! ### Pops and drops -/

/-- A pop answers the word on top, and moves the stack pointer up. -/
lemma popWord_eq_ok_iff {word : UInt64} :
    popWord s = .ok word s' ↔
      s.sp + 8 ≤ s.size ∧ s.load 8 s.sp = word ∧ s' = s.restore (s.sp + 8) s.fp := by
  unfold popWord
  cases hread : s.read s.sp with
  | error e =>
    simp only [reduceCtorEq, false_iff]
    rintro ⟨hsize, hload, -⟩
    rw [read_eq_ok_iff.mpr ⟨le_rfl, hsize, hload⟩] at hread
    cases hread
  | ok word' =>
    obtain ⟨-, hsize, hload⟩ := read_eq_ok_iff.mp hread
    simp only [EStateM.Result.ok.injEq, hload]
    constructor
    · rintro ⟨rfl, rfl⟩
      exact ⟨hsize, rfl, rfl⟩
    · rintro ⟨-, rfl, rfl⟩
      exact ⟨rfl, rfl⟩

/-- A pop of a value answers the word on top. -/
lemma pop_eq_ok_iff {value : Value} :
    pop s = .ok value s' ↔
      s.sp + 8 ≤ s.size ∧ s.load 8 s.sp = value.raw ∧ s' = s.restore (s.sp + 8) s.fp := by
  unfold pop
  rw [run_bind_eq_ok_iff]
  constructor
  · rintro ⟨word, t, hpop, hvalue⟩
    obtain ⟨rfl, rfl⟩ : (⟨word⟩ : Value) = value ∧ t = s' := by
      simpa [pure, EStateM.pure] using hvalue
    exact popWord_eq_ok_iff.mp hpop
  · intro h
    exact ⟨value.raw, s', popWord_eq_ok_iff.mpr h, rfl⟩

/-- Once a word is gone, what lay below it is one place higher. -/
lemma peek_restore_add {value : Value} {depth : ℕ} (h : s.peek (depth + 1) = .ok value) :
    (s.restore (s.sp + 8) s.fp).peek depth = .ok value := by
  obtain ⟨hlive, hload⟩ := peek_eq_ok_iff.mp h
  have hplace : s.sp + 8 * (depth + 1) = s.sp + 8 + 8 * depth := by omega
  rw [hplace] at hlive hload
  refine peek_eq_ok_iff.mpr ⟨hlive, ?_⟩
  rw [load_restore]
  exact hload

/-- A pop of an address answers the number of the word on top. -/
lemma popAddress_eq_ok_iff {a : ℕ} :
    popAddress s = .ok a s' ↔
      s.sp + 8 ≤ s.size ∧ (s.load 8 s.sp).toNat = a ∧ s' = s.restore (s.sp + 8) s.fp := by
  unfold popAddress
  rw [run_bind_eq_ok_iff]
  constructor
  · rintro ⟨word, t, hpop, hvalue⟩
    obtain ⟨rfl, rfl⟩ : word.toNat = a ∧ t = s' := by
      simpa [pure, EStateM.pure] using hvalue
    obtain ⟨hsize, rfl, ht⟩ := popWord_eq_ok_iff.mp hpop
    exact ⟨hsize, rfl, ht⟩
  · rintro ⟨hsize, rfl, hs'⟩
    exact ⟨s.load 8 s.sp, s', popWord_eq_ok_iff.mpr ⟨hsize, rfl, hs'⟩, rfl⟩

/-- The stack pointer moves to any address in the buffer or to its end. -/
lemma setSp_eq_ok_iff {sp : ℕ} :
    setSp sp s = .ok () s' ↔ sp ≤ s.size ∧ s' = s.restore sp s.fp := by
  unfold setSp
  split
  · simp only [reduceCtorEq, false_iff]
    omega
  · simp only [EStateM.Result.ok.injEq, true_and]
    constructor
    · rintro rfl
      exact ⟨by omega, rfl⟩
    · rintro ⟨-, rfl⟩
      rfl

/-- The frame pointer moves anywhere. -/
lemma setFp_eq_ok_iff {fp : ℕ} : setFp fp s = .ok () s' ↔ s' = s.restore s.sp fp := by
  simp [setFp, restore, eq_comm]

/-- Drops move the stack pointer up, at most to the end of the buffer. -/
lemma drop_eq_ok_iff {count : ℕ} :
    drop count s = .ok () s' ↔
      s.sp + 8 * count ≤ s.size ∧ s' = s.restore (s.sp + 8 * count) s.fp := by
  rw [drop, setSp_eq_ok_iff, Nat.mul_comm count 8]

/-! ### Writes -/

/-- A write replaces a live word. -/
lemma write_eq_ok_iff {word : UInt64} :
    write address word s = .ok () s' ↔
      s.sp ≤ address ∧ address + 8 ≤ s.size ∧ s' = s.writeWord address word := by
  unfold write isLive
  by_cases h : s.sp ≤ address ∧ address + 8 ≤ s.size
  · rw [if_pos (by simpa using h)]
    simp [h.1, h.2, eq_comm]
  · rw [if_neg (by simpa using h)]
    simp only [reduceCtorEq, false_iff]
    exact fun hlive => h ⟨hlive.1, hlive.2.1⟩

end Stack

end TalkMachine
