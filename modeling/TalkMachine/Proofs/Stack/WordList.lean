import TalkMachine.Proofs.Stack.Topped

/-!
# The stack refines a bounded list

A stack whose stack pointer is moved by pushes, pops and drops only is a list of words of bounded
length, the topmost word first: `WordList`. After every run of operations each further one comes to
the same on both (`Stack.Run.refines_list_iff`), so that the words below the stack pointer are never
seen again. The exception are operations that reach behind the last word, up to an end that is no
address: they are not refused, as on a list, but stop the program (`Stack.exists_not_refines`).

Where an operation takes an address it is given by its distance from the stack pointer in words. The
distance of a word below the stack pointer is negative.
-/

namespace TalkMachine

/-! ### Bounded lists of words -/

/-- A list of at most `capacity` words, the topmost one first. -/
structure WordList (capacity : ℕ) where
  words : List UInt64
  fits : words.length ≤ capacity

/-- A change to a bounded list, which may be refused. -/
abbrev WordListM (capacity : ℕ) := EStateM StackError (WordList capacity)

namespace WordList

variable {capacity : ℕ}

/-- The list without words. -/
def empty (capacity : ℕ) : WordList capacity := ⟨[], Nat.zero_le _⟩

/-- The word at a place, counted from the top. There is nothing above the top. -/
def word? (l : WordList capacity) : (place : ℤ) → Option UInt64
  | .ofNat n => l.words[n]?
  | .negSucc _ => none

/-- Puts a word on top of a list that is not full. -/
def push (word : UInt64) : WordListM capacity Unit := fun l =>
  if h : l.words.length < capacity then .ok () ⟨word :: l.words, h⟩ else .error .overflow l

/-- Takes the topmost word. -/
def pop : WordListM capacity UInt64
  | ⟨[], fits⟩ => .error .underflow ⟨[], fits⟩
  | ⟨word :: rest, fits⟩ => .ok word ⟨rest, (Nat.le_succ _).trans fits⟩

/-- Takes words from the top, as many as there are or fewer. -/
def drop (count : ℕ) : WordListM capacity Unit := fun l =>
  if count ≤ l.words.length then
    .ok () ⟨l.words.drop count, (l.words.length_drop ▸ Nat.sub_le _ _).trans l.fits⟩
  else .error .underflow l

/-- Reads the word at a place. -/
def read (place : ℤ) : WordListM capacity UInt64 := fun l =>
  match l.word? place with
  | some word => .ok word l
  | none => .error .underflow l

/-- Replaces the word at a place. -/
def write (place : ℤ) (word : UInt64) : WordListM capacity Unit := fun l =>
  if 0 ≤ place ∧ place < l.words.length then
    .ok () ⟨l.words.set place.toNat word, l.words.length_set.le.trans l.fits⟩
  else .error .underflow l

/-! ### Refusals -/

variable {l l' : WordList capacity} {e : StackError}

/-- A push is refused just when the list is full. -/
lemma push_eq_error_iff {word : UInt64} :
    push word l = .error e l' ↔ l.words.length = capacity ∧ e = .overflow ∧ l' = l := by
  have hfits := l.fits
  unfold push
  split
  · simp only [reduceCtorEq, false_iff]
    omega
  · have hfull : l.words.length = capacity := by omega
    simp [hfull, eq_comm]

/-- A pop is refused just when the list is empty. -/
lemma pop_eq_error_iff : pop l = .error e l' ↔ l.words.length = 0 ∧ e = .underflow ∧ l' = l := by
  obtain ⟨_ | ⟨word, rest⟩, fits⟩ := l <;> simp [pop, eq_comm]

/-- Words are not dropped just when there are fewer. -/
lemma drop_eq_error_iff {count : ℕ} :
    drop count l = .error e l' ↔ l.words.length < count ∧ e = .underflow ∧ l' = l := by
  unfold drop
  split
  · simp only [reduceCtorEq, false_iff]
    omega
  · have hfewer : l.words.length < count := by omega
    simp [hfewer, eq_comm]

/-- A place without a word is above the top or below the last word. -/
lemma word?_eq_none_iff {place : ℤ} :
    l.word? place = none ↔ place < 0 ∨ l.words.length ≤ place := by
  cases place with
  | ofNat n =>
    show l.words[n]? = none ↔ (n : ℤ) < 0 ∨ (l.words.length : ℤ) ≤ n
    rw [List.getElem?_eq_none_iff]
    omega
  | negSucc n => exact ⟨fun _ => .inl (Int.negSucc_lt_zero n), fun _ => rfl⟩

/-- Nothing is read just where there is no word. -/
lemma read_eq_error_iff {place : ℤ} :
    read place l = .error e l' ↔
      (place < 0 ∨ l.words.length ≤ place) ∧ e = .underflow ∧ l' = l := by
  rw [← word?_eq_none_iff]
  unfold read
  cases l.word? place <;> simp [eq_comm]

/-- Nothing is written just where there is no word. -/
lemma write_eq_error_iff {place : ℤ} {word : UInt64} :
    write place word l = .error e l' ↔
      (place < 0 ∨ l.words.length ≤ place) ∧ e = .underflow ∧ l' = l := by
  unfold write
  split
  · simp only [reduceCtorEq, false_iff]
    omega
  · have hplace : place < 0 ∨ l.words.length ≤ place := by omega
    simp [hplace, eq_comm]

end WordList

/-! ### Operations -/

/-- What is done with a stack without moving its pointers by hand. Counts and depths have 64 bits. -/
inductive StackOperation
  | pushWord (word : UInt64)
  | push (value : Value)
  | pushAddress (address : UInt64)
  | popWord
  | pop
  | popAddress
  | drop (count : UInt64)
  | peek (depth : UInt64)
  | read (distance : ℤ)
  | readValue (distance : ℤ)
  | write (distance : ℤ) (word : UInt64)

/-- What an operation answers. -/
inductive StackAnswer
  | nothing
  | word (word : UInt64)
  | value (value : Value)
  | address (address : ℕ)

namespace StackOperation

/-- The address at a distance from the stack pointer. -/
def addressAt (s : Stack) (distance : ℤ) : ℕ :=
  (s.sp + 8 * distance).toNat

/-- Distances that are not negative are counted upwards from the stack pointer. -/
lemma addressAt_natCast (s : Stack) (n : ℕ) : addressAt s n = s.sp + 8 * n := by
  unfold addressAt
  omega

/-- Carries an operation out on a stack. -/
def onStack : StackOperation → StackM StackAnswer
  | pushWord word => (fun _ => .nothing) <$> Stack.pushWord word
  | push value => (fun _ => .nothing) <$> Stack.push value
  | pushAddress address => (fun _ => .nothing) <$> Stack.pushAddress address.toNat
  | popWord => .word <$> Stack.popWord
  | pop => .value <$> Stack.pop
  | popAddress => .address <$> Stack.popAddress
  | drop count => (fun _ => .nothing) <$> Stack.drop count.toNat
  | peek depth => .value <$> Stack.ask fun s => s.peek depth.toNat
  | read distance => .word <$> Stack.ask fun s => s.read (addressAt s distance)
  | readValue distance => .value <$> Stack.ask fun s => s.readValue (addressAt s distance)
  | write distance word => fun s =>
    ((fun _ => .nothing) <$> Stack.write (addressAt s distance) word) s

/-- Carries an operation out on a bounded list. -/
def onList {capacity : ℕ} : StackOperation → WordListM capacity StackAnswer
  | pushWord word => (fun _ => .nothing) <$> WordList.push word
  | push value => (fun _ => .nothing) <$> WordList.push value.raw
  | pushAddress address => (fun _ => .nothing) <$> WordList.push address
  | popWord => .word <$> WordList.pop
  | pop => (fun word => .value ⟨word⟩) <$> WordList.pop
  | popAddress => (fun word => .address word.toNat) <$> WordList.pop
  | drop count => (fun _ => .nothing) <$> WordList.drop count.toNat
  | peek depth => (fun word => .value ⟨word⟩) <$> WordList.read depth.toNat
  | read distance => .word <$> WordList.read distance
  | readValue distance => (fun word => .value ⟨word⟩) <$> WordList.read distance
  | write distance word => (fun _ => .nothing) <$> WordList.write distance word

/-- Whether an operation that takes an address has one, which is a number of 64 bits. -/
def HasAddress (s : Stack) : StackOperation → Prop
  | read distance | readValue distance | write distance _ =>
    0 ≤ (s.sp : ℤ) + 8 * distance ∧ (s.sp : ℤ) + 8 * distance < 2 ^ 64
  | _ => True

/-- Whether an operation is a push. -/
def IsPush : StackOperation → Prop
  | pushWord _ | push _ | pushAddress _ => True
  | _ => False

/-- Whether an operation reaches beyond `count` words. -/
def ReachesBeyond (count : ℕ) : StackOperation → Prop
  | pushWord _ | push _ | pushAddress _ => False
  | popWord | pop | popAddress => count = 0
  | drop words => count < words.toNat
  | peek depth => count ≤ depth.toNat
  | read distance | readValue distance | write distance _ => distance < 0 ∨ count ≤ distance

/-- Whether the word at a distance from the stack pointer is behind the last of `count` words, and its
end is no address. -/
def WordOverflows (count : ℕ) (s : Stack) (distance : ℤ) : Prop :=
  count ≤ distance ∧ 2 ^ 64 ≤ (s.sp : ℤ) + 8 * distance + 8

/-- Whether an operation reaches behind the last of `count` words, up to an end that is no address. -/
def Overflows (count : ℕ) (s : Stack) : StackOperation → Prop
  | pushWord _ | push _ | pushAddress _ => False
  | popWord | pop | popAddress => WordOverflows count s 0
  | drop words => count < words.toNat ∧ 2 ^ 64 ≤ s.sp + 8 * words.toNat
  | peek depth => WordOverflows count s depth.toNat
  | read distance | readValue distance | write distance _ => WordOverflows count s distance

variable {capacity : ℕ}

/-- Whether an operation comes to the same on a stack as on a list: it has the same outcome, a push is
refused just when the list is full, and any other operation just when it reaches beyond the list. A
refusal leaves the stack as it is. -/
structure Refines (operation : StackOperation) (s : Stack) (l : WordList capacity) : Prop where
  outcome_eq : outcome (operation.onStack s) = outcome (operation.onList l)
  eq_error_iff : ∀ e s', operation.onStack s = .error e s' ↔ s' = s ∧
    (operation.IsPush ∧ l.words.length = capacity ∧ e = .overflow ∨
      operation.ReachesBeyond l.words.length ∧ e = .underflow)

/-- A list refuses a push when it is full, and any other operation when that reaches beyond its
words. It is then as before. -/
lemma onList_eq_error_iff {operation : StackOperation} {l l' : WordList capacity}
    {e : StackError} :
    operation.onList l = .error e l' ↔
      (operation.IsPush ∧ l.words.length = capacity ∧ e = .overflow ∨
        operation.ReachesBeyond l.words.length ∧ e = .underflow) ∧ l' = l := by
  cases operation with
  | pushWord word | push value | pushAddress address =>
    rw [onList, run_map_eq_error_iff, WordList.push_eq_error_iff]
    simp [IsPush, ReachesBeyond, and_assoc]
  | popWord | pop | popAddress =>
    rw [onList, run_map_eq_error_iff, WordList.pop_eq_error_iff]
    simp [IsPush, ReachesBeyond, and_assoc]
  | drop count =>
    rw [onList, run_map_eq_error_iff, WordList.drop_eq_error_iff]
    simp [IsPush, ReachesBeyond, and_assoc]
  | peek depth =>
    rw [onList, run_map_eq_error_iff, WordList.read_eq_error_iff]
    simp [IsPush, ReachesBeyond, and_assoc]
  | read distance | readValue distance =>
    rw [onList, run_map_eq_error_iff, WordList.read_eq_error_iff]
    simp [IsPush, ReachesBeyond, and_assoc]
  | write distance word =>
    rw [onList, run_map_eq_error_iff, WordList.write_eq_error_iff]
    simp [IsPush, ReachesBeyond, and_assoc]

end StackOperation

namespace Stack

/-! ### The list that a stack stands for -/

variable {size : ℕ} {l : WordList (size / 8)} {s : Stack} {α β : Type}

/-- Whether a stack has the words of a list, the topmost one first, and nothing else. -/
def Lists (l : WordList (size / 8)) (s : Stack) : Prop :=
  Topped l.words (Stack.new size) s

/-- A new stack has no words. -/
lemma lists_new (size : ℕ) : Lists (WordList.empty (size / 8)) (Stack.new size) :=
  Topped.refl (s := Stack.new size) le_rfl

namespace Lists

/-- The words take the buffer from the stack pointer to its end. -/
lemma sp_add (h : Lists l s) : s.sp + 8 * l.words.length = 8 * (size / 8) :=
  (Topped.sp h).trans (Nat.mul_comm _ _)

/-- The buffer holds whole words. -/
lemma size_eq (h : Lists l s) : s.size = 8 * (size / 8) :=
  (Topped.same h).size.trans (Nat.mul_comm _ _)

/-- The word at a distance from the stack pointer is live just when the list has one at that place. -/
lemma isLive_addressAt (h : Lists l s) {distance : ℤ} (haddress : 0 ≤ (s.sp : ℤ) + 8 * distance) :
    s.isLive (StackOperation.addressAt s distance) = true ↔
      0 ≤ distance ∧ distance < l.words.length := by
  have hsp := h.sp_add
  have hsize := h.size_eq
  unfold isLive StackOperation.addressAt
  simp only [wordSize, Bool.and_eq_true, decide_eq_true_eq]
  omega

/-- A word that the list does not have is refused, or its end is no address. -/
lemma refusal_addressAt (h : Lists l s) {distance : ℤ} (haddress : 0 ≤ (s.sp : ℤ) + 8 * distance)
    (hout : ¬(0 ≤ distance ∧ distance < l.words.length)) :
    ¬StackOperation.WordOverflows l.words.length s distance ∧
        s.refusal (StackOperation.addressAt s distance) = .underflow ∨
      StackOperation.WordOverflows l.words.length s distance ∧
        s.refusal (StackOperation.addressAt s distance) = .addressOverflow := by
  have hsp := h.sp_add
  unfold StackOperation.WordOverflows refusal StackOperation.addressAt
  by_cases hbelow : distance < 0
  · exact .inl ⟨by omega, if_pos (by omega)⟩
  · rw [if_neg (by omega)]
    by_cases hend : (s.sp : ℤ) + 8 * distance + 8 < 2 ^ 64
    · exact .inl ⟨by omega, outside_of_lt (by simp only [wordSize]; omega)⟩
    · exact .inr ⟨⟨by omega, by omega⟩, outside_of_le (by simp only [wordSize]; omega)⟩

/-- The word at a distance from the stack pointer is the one at that place of the list. -/
lemma load_addressAt (h : Lists l s) {n : ℕ} (hn : n < l.words.length) :
    s.load wordSize (StackOperation.addressAt s n) = l.words[n] := by
  rw [StackOperation.addressAt_natCast]
  exact Topped.load h n _ (List.getElem?_eq_getElem hn)

end Lists

/-! ### Operations that come to the same -/

/-- How a change to a stack compares with one to a list. It stops the program in the case `stops`, where
the list is refused. Otherwise both come to the same. -/
inductive Matches (stops : Prop) (x : StackM α) (y : WordListM (size / 8) α) (s : Stack)
    (l : WordList (size / 8)) : Prop
  | answered (hnot : ¬stops) {a : α} {s' : Stack} {l' : WordList (size / 8)} (hx : x s = .ok a s')
      (hy : y l = .ok a l') (hlists : Lists l' s')
  | refused (hnot : ¬stops) {e : StackError} (hx : x s = .error e s) (hy : y l = .error e l)
  | stopped (hstops : stops) (hx : x s = .error .addressOverflow s) (hy : y l = .error .underflow l)

namespace Matches

variable {stops : Prop} {x : StackM α} {y : WordListM (size / 8) α}

/-- To answer something else changes nothing about it. -/
lemma map (h : Matches stops x y s l) (f : α → β) : Matches stops (f <$> x) (f <$> y) s l := by
  cases h with
  | answered hnot hx hy hlists => exact .answered hnot (run_map_of_ok hx) (run_map_of_ok hy) hlists
  | refused hnot hx hy =>
    exact .refused hnot (run_map_eq_error_iff.mpr hx) (run_map_eq_error_iff.mpr hy)
  | stopped hstops hx hy =>
    exact .stopped hstops (run_map_eq_error_iff.mpr hx) (run_map_eq_error_iff.mpr hy)

/-- The stack has the words of the list afterwards, also where nothing was done. -/
lemma lists (h : Matches stops x y s l) (hlists : Lists l s) :
    Lists (stateAfter (y l)) (stateAfter (x s)) := by
  cases h with
  | answered _ hx hy hlists' => rw [hx, hy]; exact hlists'
  | refused _ hx hy | stopped _ hx hy => rw [hx, hy]; exact hlists

/-- Both have the same outcome. -/
lemma outcome_eq (h : Matches stops x y s l) (hnot : ¬stops) : outcome (x s) = outcome (y l) := by
  cases h with
  | answered _ hx hy | refused _ hx hy => rw [hx, hy]; rfl
  | stopped hstops => exact absurd hstops hnot

/-- The stack refuses for the reasons of the list, and has not changed then. -/
lemma eq_error_iff (h : Matches stops x y s l) (hnot : ¬stops) {e : StackError} {s' : Stack} :
    x s = .error e s' ↔ s' = s ∧ y l = .error e l := by
  cases h with
  | answered _ hx hy => simp [hx, hy]
  | refused _ hx hy => rw [hx, hy]; simp [eq_comm, and_comm]
  | stopped hstops => exact absurd hstops hnot

/-- The program stops there. -/
lemma eq_addressOverflow (h : Matches stops x y s l) (hstops : stops) :
    x s = .error .addressOverflow s := by
  cases h with
  | answered hnot | refused hnot => exact absurd hstops hnot
  | stopped _ hx => exact hx

end Matches

namespace Lists

/-- A push. -/
lemma pushWord (h : Lists l s) (word : UInt64) :
    Matches False (Stack.pushWord word) (WordList.push word) s l := by
  have hsp := h.sp_add
  unfold WordList.push
  by_cases hroom : l.words.length < size / 8
  · obtain ⟨s', hpush⟩ := exists_pushWord (s := s) (by omega) word
    exact .answered id hpush (dif_pos hroom) (Topped.push h (pushed_of_pushWord hpush))
  · exact .refused id (pushWord_of_lt (by omega) word) (dif_neg hroom)

/-- A reading. -/
lemma read (h : Lists l s) {distance : ℤ} (haddress : 0 ≤ (s.sp : ℤ) + 8 * distance) :
    Matches (StackOperation.WordOverflows l.words.length s distance)
      (ask fun s => s.read (StackOperation.addressAt s distance)) (WordList.read distance) s l := by
  have hlive := h.isLive_addressAt haddress
  by_cases hplace : 0 ≤ distance ∧ distance < l.words.length
  · obtain ⟨n, rfl⟩ := Int.eq_ofNat_of_zero_le hplace.1
    have hn : n < l.words.length := by omega
    have hread : s.read (StackOperation.addressAt s n) = .ok l.words[n] := by
      rw [Stack.read, if_pos (hlive.mpr hplace), h.load_addressAt hn]
    have hword : l.word? n = some l.words[n] := List.getElem?_eq_getElem hn
    refine .answered (fun hstops => absurd hstops.1 (by omega)) (a := l.words[n]) ?_ ?_ h
    · simp only [ask, hread]
    · simp only [WordList.read, hword]
  · have hread : s.read (StackOperation.addressAt s distance) =
        .error (s.refusal (StackOperation.addressAt s distance)) := if_neg (mt hlive.mp hplace)
    have hlist : WordList.read distance l = .error .underflow l :=
      WordList.read_eq_error_iff.mpr ⟨by omega, rfl, rfl⟩
    obtain ⟨hnot, hrefusal⟩ | ⟨hstops, hrefusal⟩ := h.refusal_addressAt haddress hplace
    · exact .refused hnot (by simp only [ask, hread, hrefusal]) hlist
    · exact .stopped hstops (by simp only [ask, hread, hrefusal]) hlist

/-- A write. -/
lemma write (h : Lists l s) {distance : ℤ} (haddress : 0 ≤ (s.sp : ℤ) + 8 * distance)
    (word : UInt64) :
    Matches (StackOperation.WordOverflows l.words.length s distance)
      (fun s => Stack.write (StackOperation.addressAt s distance) word s)
      (WordList.write distance word) s l := by
  have hlive := h.isLive_addressAt haddress
  by_cases hplace : 0 ≤ distance ∧ distance < l.words.length
  · have hwrite : Stack.write (StackOperation.addressAt s distance) word s =
        .ok () (s.writeWord (StackOperation.addressAt s distance) word) := if_pos (hlive.mpr hplace)
    obtain ⟨n, rfl⟩ := Int.eq_ofNat_of_zero_le hplace.1
    rw [StackOperation.addressAt_natCast] at hwrite
    exact .answered (fun hstops => absurd hstops.1 (by omega)) hwrite (if_pos hplace)
      (Topped.writeWord h (by omega) word)
  · have hwrite : Stack.write (StackOperation.addressAt s distance) word s =
        .error (s.refusal (StackOperation.addressAt s distance)) s := if_neg (mt hlive.mp hplace)
    obtain ⟨hnot, hrefusal⟩ | ⟨hstops, hrefusal⟩ := h.refusal_addressAt haddress hplace
    · exact .refused hnot (hrefusal ▸ hwrite) (if_neg hplace)
    · exact .stopped hstops (hrefusal ▸ hwrite) (if_neg hplace)

/-- A pop. -/
lemma popWord (h : Lists l s) :
    Matches (StackOperation.WordOverflows l.words.length s 0) Stack.popWord WordList.pop s l := by
  obtain ⟨_ | ⟨word, rest⟩, fits⟩ := l
  · have haddress : 0 ≤ (s.sp : ℤ) + 8 * 0 := by omega
    have hempty : ¬((0 : ℤ) ≤ 0 ∧ (0 : ℤ) < ([] : List UInt64).length) := by simp
    have hrefusal := h.refusal_addressAt haddress hempty
    have hlive := mt (h.isLive_addressAt haddress).mp hempty
    have htop : StackOperation.addressAt s 0 = s.sp := StackOperation.addressAt_natCast s 0
    rw [htop] at hrefusal hlive
    have hread : s.read s.sp = .error (s.refusal s.sp) := if_neg hlive
    obtain ⟨hnot, hrefusal⟩ | ⟨hstops, hrefusal⟩ := hrefusal
    · exact .refused hnot (by simp only [Stack.popWord, hread, hrefusal]) rfl
    · exact .stopped hstops (by simp only [Stack.popWord, hread, hrefusal]) rfl
  · obtain ⟨hpop, hrest⟩ := Topped.popWord h
    refine .answered (fun hstops => absurd hstops.1 ?_) hpop rfl hrest
    simp only [List.length_cons]
    omega

/-- A drop. -/
lemma drop (h : Lists l s) (count : ℕ) :
    Matches (l.words.length < count ∧ 2 ^ 64 ≤ s.sp + 8 * count) (Stack.drop count)
      (WordList.drop count) s l := by
  have hsize := h.size_eq
  have hsp := h.sp_add
  by_cases hcount : count ≤ l.words.length
  · have hfront : Topped (l.words.take count ++ l.words.drop count) (Stack.new size) s := by
      rwa [List.take_append_drop]
    have hrest := hfront.drop
    rw [List.length_take_of_le hcount] at hrest
    exact .answered (by omega) (drop_eq_ok_iff.mpr ⟨by omega, rfl⟩) (if_pos hcount) hrest
  · have hdrop : Stack.drop count s = .error (.outside (s.sp + count * wordSize)) s :=
      if_pos (by simp only [wordSize]; omega)
    have hlist : WordList.drop count l = .error .underflow l := if_neg hcount
    rw [show s.sp + count * wordSize = s.sp + 8 * count by rw [wordSize, Nat.mul_comm]] at hdrop
    by_cases hend : s.sp + 8 * count < 2 ^ 64
    · exact .refused (by omega) (outside_of_lt hend ▸ hdrop) hlist
    · have hover : 2 ^ 64 ≤ s.sp + 8 * count := by omega
      exact .stopped ⟨by omega, hover⟩ (outside_of_le hover ▸ hdrop) hlist

end Lists

/-- To ask for a value is to ask for its word. -/
lemma ask_readValue (address : Stack → ℕ) :
    ask (fun s => s.readValue (address s)) = Value.mk <$> ask fun s => s.read (address s) := by
  funext s
  show _ = EStateM.map Value.mk _ s
  simp only [EStateM.map, ask, readValue]
  cases s.read (address s) <;> rfl

/-- To peek is to ask for the value at that distance from the stack pointer. -/
lemma ask_peek (depth : ℕ) :
    ask (fun s => s.peek depth) =
      ask fun s => s.readValue (StackOperation.addressAt s depth) := by
  congr
  funext s
  rw [StackOperation.addressAt_natCast, peek, wordSize, Nat.mul_comm]

/-- How an operation on a stack compares with the one on its list. -/
lemma matches_operation (h : Lists l s) {operation : StackOperation}
    (haddress : operation.HasAddress s) :
    Matches (operation.Overflows l.words.length s) operation.onStack operation.onList s l := by
  cases operation with
  | pushWord word => exact (h.pushWord word).map _
  | push value => exact (h.pushWord value.raw).map _
  | pushAddress address =>
    rw [StackOperation.onStack, pushAddress, UInt64.ofNat_toNat]
    exact (h.pushWord address).map _
  | popWord => exact h.popWord.map _
  | pop =>
    have hpop : StackOperation.onStack .pop = (fun word => .value ⟨word⟩) <$> Stack.popWord := by
      rw [StackOperation.onStack, pop, bind_pure_comp, Functor.map_map]
    rw [hpop]
    exact h.popWord.map _
  | popAddress =>
    have hpop : StackOperation.onStack .popAddress =
        (fun word => .address word.toNat) <$> Stack.popWord := by
      rw [StackOperation.onStack, popAddress, bind_pure_comp, Functor.map_map]
    rw [hpop]
    exact h.popWord.map _
  | drop count => exact (h.drop count.toNat).map _
  | peek depth =>
    rw [StackOperation.onStack, ask_peek, ask_readValue, Functor.map_map]
    exact (h.read (by omega)).map _
  | read distance => exact (h.read haddress.1).map _
  | readValue distance =>
    rw [StackOperation.onStack, ask_readValue, Functor.map_map]
    exact (h.read haddress.1).map _
  | write distance word => exact (h.write haddress.1 word).map _

/-! ### Runs -/

/-- The lists and the stacks that the same operations lead to, from no words on, as long as none of
them stops the program. -/
inductive Run (size : ℕ) : WordList (size / 8) → Stack → Prop
  | start : Run size (WordList.empty _) (Stack.new size)
  | step {l : WordList (size / 8)} {s : Stack} (run : Run size l s) (operation : StackOperation)
      (haddress : operation.HasAddress s) (hnot : ¬operation.Overflows l.words.length s) :
      Run size (stateAfter (operation.onList l)) (stateAfter (operation.onStack s))

/-- After a run the stack has the words of the list. -/
lemma Run.lists (run : Run size l s) : Lists l s := by
  induction run with
  | start => exact lists_new size
  | step _ operation haddress _ ih => exact (matches_operation ih haddress).lists ih

/-- After every run a further operation comes to the same on the stack as on the list, just when it does
not reach behind the last word, up to an end that is no address. There it stops the program. -/
theorem Run.refines_list_iff (run : Run size l s) {operation : StackOperation}
    (haddress : operation.HasAddress s) :
    operation.Refines s l ↔ ¬operation.Overflows l.words.length s := by
  have hmatches := matches_operation run.lists haddress
  constructor
  · intro hrefines hstops
    have herror := (hrefines.eq_error_iff _ _).mp (hmatches.eq_addressOverflow hstops)
    simp at herror
  · intro hnot
    refine ⟨hmatches.outcome_eq hnot, fun e s' => ?_⟩
    rw [hmatches.eq_error_iff hnot, StackOperation.onList_eq_error_iff]
    simp

/-- A word that was popped is not read again, though the buffer still has it. -/
theorem Run.refines_list_iff_popped :
    ∃ l s, Run 20 l s ∧ (StackOperation.read (-1)).HasAddress s ∧
      s.load 8 (StackOperation.addressAt s (-1)) = 2 ∧ (StackOperation.read (-1)).Refines s l ∧
      outcome ((StackOperation.read (-1)).onStack s) = .error .underflow := by
  have pushed : Run 20 _ _ :=
    (Run.start.step (.pushWord 1) trivial id).step (.pushWord 2) trivial id
  have hwords : ¬((2 : ℕ) ≤ (0 : ℤ) ∧ (2 : ℤ) ^ 64 ≤ (0 : ℕ) + 8 * 0 + 8) := by decide
  have run : Run 20 _ _ := pushed.step .popWord trivial hwords
  have haddress : (0 : ℤ) ≤ (8 : ℕ) + 8 * (-1) ∧ (8 : ℕ) + 8 * (-1) < (2 : ℤ) ^ 64 := by decide
  have hbelow : ¬((1 : ℕ) ≤ (-1 : ℤ) ∧ (2 : ℤ) ^ 64 ≤ (8 : ℕ) + 8 * (-1) + 8) := by decide
  have hrefines := (@Run.refines_list_iff 20 _ _ run (.read (-1)) haddress).mpr hbelow
  exact ⟨_, _, run, haddress, by decide, hrefines, hrefines.outcome_eq⟩

/-- The last word that has an address is behind the list, but a reading of it is not refused: it stops
the program. -/
theorem exists_not_refines :
    ∃ l s, Run 64 l s ∧ (StackOperation.read (2 ^ 61 - 8)).HasAddress s ∧
      StackOperation.addressAt s (2 ^ 61 - 8) = 2 ^ 64 - 8 ∧
      (StackOperation.read (2 ^ 61 - 8)).ReachesBeyond l.words.length ∧
      (StackOperation.read (2 ^ 61 - 8)).onStack s = .error .addressOverflow s ∧
      ¬(StackOperation.read (2 ^ 61 - 8)).Refines s l := by
  have run : Run 64 _ _ := Run.start.step (.pushWord 7) trivial id
  have haddress : (0 : ℤ) ≤ (56 : ℕ) + 8 * (2 ^ 61 - 8) ∧
      (56 : ℕ) + 8 * (2 ^ 61 - 8) < (2 : ℤ) ^ 64 := by decide
  have hbeyond : (2 ^ 61 - 8 : ℤ) < 0 ∨ (1 : ℕ) ≤ (2 ^ 61 - 8 : ℤ) := by decide
  have hover : (1 : ℕ) ≤ (2 ^ 61 - 8 : ℤ) ∧ (2 : ℤ) ^ 64 ≤ (56 : ℕ) + 8 * (2 ^ 61 - 8) + 8 := by
    decide
  have hstop := (@matches_operation 64 _ _ run.lists (.read (2 ^ 61 - 8)) haddress)
    |>.eq_addressOverflow hover
  refine ⟨_, _, run, haddress, by decide, hbeyond, hstop, fun hrefines => ?_⟩
  have herror := (hrefines.eq_error_iff _ _).mp hstop
  simp at herror

end Stack

end TalkMachine
