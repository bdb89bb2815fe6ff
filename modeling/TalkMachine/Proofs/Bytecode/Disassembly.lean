import TalkMachine.Proofs.Bytecode.Tiling

/-!
# Reading a disassembly back

Each line of a disassembly begins with an address and the bytes of one instruction in hexadecimal.
Both are read back from the text (`Disassembly.columns`), although mnemonics can contain any
character, also the end of a line: what is read back are the items of the listing, so that the
hexadecimal columns together are the bytes that were decoded (`Disassembly.columns_disassemble`).
-/

namespace TalkMachine

namespace Disassembly

/-! ### A reader -/

/-- The value of a lower-case hexadecimal digit. -/
def hexValue? (c : Char) : Option ℕ :=
  if c.isDigit then some (c.toNat - '0'.toNat)
  else if 'a' ≤ c ∧ c ≤ 'f' then some (c.toNat - 'a'.toNat + 10)
  else none

/-- The bytes that stand at the front of a text, each as two hexadecimal digits and a blank. -/
def hexColumn : List Char → List UInt8
  | high :: low :: ' ' :: rest =>
    match hexValue? high, hexValue? low with
    | some h, some l => UInt8.ofNat (16 * h + l) :: hexColumn rest
    | _, _ => []
  | _ => []

/-- The address and the bytes that a line shows, if it shows bytes. -/
def column (line : List Char) : Option (ℕ × List UInt8) :=
  let field := line.dropWhile (· == ' ')
  let digits := field.takeWhile Char.isDigit
  match hexColumn (field.drop (digits.length + 2)) with
  | [] => none
  | bytes => some (Nat.ofDigitChars 10 digits 0, bytes)

/-- The addresses and bytes that the lines of a text show. -/
def columns (text : List Char) : List (ℕ × List UInt8) :=
  (text.splitOn '\n').filterMap column

variable {line rest : List Char} {bytes : List UInt8} {address : ℕ}

/-! ### One line -/

/-- A byte is written as two hexadecimal digits, from which it is read back. -/
lemma exists_hex (byte : UInt8) : ∃ high low h l, (Text.hex 2 byte.toNat).toList = [high, low] ∧
    hexValue? high = some h ∧ hexValue? low = some l ∧ 16 * h + l = byte.toNat ∧
    high ≠ '\n' ∧ low ≠ '\n' := by
  have hexDigits : ∀ n < 256, (Text.hex 2 n).toList =
        [Nat.digitChar (n / 16), Nat.digitChar (n % 16)] ∧
      hexValue? (Nat.digitChar (n / 16)) = some (n / 16) ∧
      hexValue? (Nat.digitChar (n % 16)) = some (n % 16) ∧
      Nat.digitChar (n / 16) ≠ '\n' ∧ Nat.digitChar (n % 16) ≠ '\n' := by
    decide +kernel
  obtain ⟨htext, hhigh, hlow, hhigh', hlow'⟩ := hexDigits byte.toNat byte.toNat_lt
  exact ⟨_, _, _, _, htext, hhigh, hlow, Nat.div_add_mod _ 16, hhigh', hlow'⟩

/-- A byte that is written at the front is read. -/
lemma hexColumn_hex_append (byte : UInt8) (rest : List Char) :
    hexColumn ((Text.hex 2 byte.toNat).toList ++ ' ' :: rest) = byte :: hexColumn rest := by
  obtain ⟨high, low, h, l, htext, hhigh, hlow, hsum, -, -⟩ := exists_hex byte
  rw [htext, List.cons_append, List.cons_append, List.nil_append, hexColumn, hhigh, hlow]
  simp only [hsum, UInt8.ofNat_toNat]

/-- No byte begins with a character that is not a digit. -/
lemma hexColumn_of_none {c : Char} (hc : hexValue? c = none) (rest : List Char) :
    hexColumn (c :: rest) = [] := by
  unfold hexColumn
  split
  · next hline =>
    cases hline
    simp only [hc]
  · rfl

/-- Bytes in hexadecimal with blanks behind them are read back. -/
lemma hexColumn_hexBytes (bytes : List UInt8) (rest : List Char) :
    hexColumn ((Listing.hexBytes bytes).toList ++ ' ' :: ' ' :: rest) = bytes := by
  simp only [Listing.hexBytes, String.toList_intercalate]
  induction bytes with
  | nil => exact hexColumn_of_none rfl _
  | cons byte bytes ih =>
    cases bytes with
    | nil =>
      simp only [List.map_cons, List.map_nil, List.intercalate_singleton]
      rw [hexColumn_hex_append, hexColumn_of_none rfl]
    | cons byte' bytes =>
      simp only [List.map_cons, List.intercalate_cons_cons, List.append_assoc] at ih ⊢
      exact (hexColumn_hex_append byte _).trans (congrArg (byte :: ·) ih)

/-- An address at the front of a line is read back, and the bytes behind it are read. -/
lemma column_address_append (width : ℕ) (rest : List Char) :
    column ((Text.padLeft width (toString address)).toList ++ ' ' :: ' ' :: rest) =
      match hexColumn rest with
      | [] => none
      | bytes => some (address, bytes) := by
  have hdigits : ∀ c ∈ Nat.toDigits 10 address, c.isDigit = true := fun c hc =>
    Nat.isDigit_of_mem_toDigits (by decide) (by decide) hc
  have hdrop : ((Text.padLeft width (toString address)).toList ++ ' ' :: ' ' :: rest).dropWhile
      (· == ' ') = Nat.toDigits 10 address ++ ' ' :: ' ' :: rest := by
    rw [Text.padLeft, String.toList_append, String.toList_ofList, List.append_assoc,
      List.dropWhile_append_of_pos (by simp), Nat.toString_eq_repr, Nat.toList_repr]
    cases hcons : Nat.toDigits 10 address with
    | nil => exact absurd hcons Nat.toDigits_ne_nil
    | cons c digits =>
      have hc : c.isDigit = true := hdigits c (hcons ▸ List.mem_cons_self)
      refine List.dropWhile_cons_of_neg fun hblank => ?_
      rw [beq_iff_eq.mp hblank] at hc
      cases hc
  have htake : (Nat.toDigits 10 address ++ ' ' :: ' ' :: rest).takeWhile Char.isDigit =
      Nat.toDigits 10 address := by
    rw [List.takeWhile_append_of_pos hdigits]
    simp
  have hbehind : (Nat.toDigits 10 address ++ ' ' :: ' ' :: rest).drop
      ((Nat.toDigits 10 address).length + 2) = rest := by
    rw [List.drop_length_add_append]
    rfl
  simp only [column, hdrop, htake, hbehind, Nat.ofDigitChars_ten_toDigits]

/-- The line of an item up to its instruction. -/
def front (base : ℕ) (item : Listing.Item) : String :=
  Text.padLeft 4 (toString (base + item.offset)) ++ "  " ++
    Text.padRight 12 (Listing.hexBytes item.bytes) ++ "  "

/-- The line of an item is read back, whatever its instruction is called. -/
lemma column_front_append (base : ℕ) {item : Listing.Item} (hbytes : item.bytes ≠ [])
    (name : List Char) : column ((front base item).toList ++ name) =
      some (base + item.offset, item.bytes) := by
  have hblanks : ∀ rest, "  ".toList ++ rest = ' ' :: ' ' :: rest := fun _ => rfl
  have hpadded : (Text.padRight 12 (Listing.hexBytes item.bytes)).toList ++ ' ' :: ' ' :: name =
      (Listing.hexBytes item.bytes).toList ++ ' ' :: ' ' ::
        (List.replicate (12 - (Listing.hexBytes item.bytes).length) ' ' ++ name) := by
    rw [Text.padRight, String.toList_append, String.toList_ofList, List.append_assoc]
    refine congrArg _ ?_
    -- Blanks in a row are the same in any order.
    show _ ++ (List.replicate 2 ' ' ++ name) = List.replicate 2 ' ' ++ (_ ++ name)
    rw [← List.append_assoc, ← List.append_assoc, List.replicate_append_replicate,
      List.replicate_append_replicate, Nat.add_comm]
  simp only [front, String.toList_append, List.append_assoc]
  rw [hblanks, hblanks, column_address_append, hpadded, hexColumn_hexBytes]
  cases hcons : item.bytes with
  | nil => exact absurd hcons hbytes
  | cons byte bytes => rfl

/-! ### The ends of lines -/

/-- Whether a text has no end of a line in it. -/
def OneLine (text : String) : Prop :=
  '\n' ∉ text.toList

instance (text : String) : Decidable (OneLine text) :=
  inferInstanceAs (Decidable ('\n' ∉ text.toList))

namespace OneLine

variable {text text' : String}

/-- Two texts in a row. -/
lemma append (h : OneLine text) (h' : OneLine text') : OneLine (text ++ text') := by
  rw [OneLine, String.toList_append]
  exact fun hmem => (List.mem_append.mp hmem).elim h h'

/-- A number. -/
lemma nat (n : ℕ) : OneLine (toString n) := by
  rw [OneLine, Nat.toString_eq_repr, Nat.toList_repr]
  intro hmem
  have hdigit := Nat.isDigit_of_mem_toDigits (by decide) (by decide) hmem
  cases hdigit

/-- A number with a sign. -/
lemma int (n : ℤ) : OneLine (toString n) := by
  rw [Int.toString_eq_repr, Int.repr_eq_if]
  split
  · exact nat _
  · exact append (by decide +kernel) (nat _)

/-- A character. -/
lemma char {c : Char} (hc : c ≠ '\n') : OneLine c.toString := by
  rw [OneLine, Char.toString_eq_singleton, String.toList_singleton]
  exact fun hmem => hc (List.mem_singleton.mp hmem).symm

/-- A byte in hexadecimal. -/
lemma hex (byte : UInt8) : OneLine (Text.hex 2 byte.toNat) := by
  obtain ⟨high, low, _, _, htext, -, -, -, hhigh, hlow⟩ := exists_hex byte
  rw [OneLine, htext]
  simp [hhigh.symm, hlow.symm]

/-- Bytes in hexadecimal. -/
lemma hexBytes (bytes : List UInt8) : OneLine (Listing.hexBytes bytes) := by
  rw [OneLine, Listing.hexBytes, String.toList_intercalate]
  induction bytes with
  | nil => exact List.not_mem_nil
  | cons byte bytes ih =>
    cases bytes with
    | nil =>
      rw [List.map_singleton, List.map_singleton, List.intercalate_singleton]
      exact hex byte
    | cons byte' bytes =>
      simp only [List.map_cons, List.intercalate_cons_cons, List.mem_append, not_or] at ih ⊢
      exact ⟨⟨hex byte, by decide +kernel⟩, ih⟩

/-- A text flush right. -/
lemma padLeft (width : ℕ) (h : OneLine text) : OneLine (Text.padLeft width text) := by
  refine append ?_ h
  simp [OneLine]

/-- A text flush left. -/
lemma padRight (width : ℕ) (h : OneLine text) : OneLine (Text.padRight width text) := by
  refine append h ?_
  simp [OneLine]

/-- The line of an item up to its instruction. -/
lemma front (base : ℕ) (item : Listing.Item) : OneLine (Disassembly.front base item) :=
  append (append (append (padLeft 4 (nat _)) (by decide +kernel)) (padRight 12 (hexBytes _)))
    (by decide +kernel)

/-- The text of a decoding error. -/
lemma message (e : DecodeError) : OneLine e.message := by
  cases e with
  | unknownOpcode offset byte =>
    exact append (append (append (by decide +kernel) (hex byte)) (by decide +kernel)) (nat offset)
  | tooManyExtensions offset =>
    exact append (append (append (by decide +kernel) (nat _)) (by decide +kernel)) (nat offset)
  | truncated offset => exact append (by decide +kernel) (nat offset)
  | invalidOperand offset => exact append (by decide +kernel) (nat offset)

/-- The names of the special selectors. -/
lemma specialSelector {index : ℕ} {selector : SpecialSelector}
    (h : SpecialSelector.table[index]? = some selector) : OneLine selector.name := by
  have hall : ∀ selector ∈ SpecialSelector.all, OneLine selector.name := by decide +kernel
  exact hall selector (List.mem_of_getElem? (List.getElem?_toArray.symm.trans h))

/-- The name of an instruction, unless it pushes the end of a line. -/
lemma mnemonic {i : Instruction} (hi : i ≠ .pushCharacter '\n'.toNat) : OneLine i.mnemonic := by
  cases i with
  | pushVariable place index =>
    refine append (append (append (by decide +kernel) ?_) (by decide +kernel)) (nat index)
    cases place <;> decide +kernel
  | pushLiteral index => exact append (by decide +kernel) (nat index)
  | pushConstant constant => cases constant <;> decide +kernel
  | pushInteger n => exact append (by decide +kernel) (int n)
  | pushCharacter code =>
    simp only [Instruction.mnemonic, Value.scalar?]
    by_cases hvalid : code.isValidChar
    · rw [if_pos hvalid]
      have htoNat : (Char.ofNat code).toNat = code := by
        unfold Char.ofNat
        rw [dif_pos hvalid]
        rfl
      exact append (by decide +kernel) (char fun hc => hi (by rw [← hc, htoNat]))
    · rw [if_neg hvalid]
      exact append (by decide +kernel) (nat code)
  | dup => decide +kernel
  | pop => decide +kernel
  | nop => decide +kernel
  | «return» value => cases value <;> decide +kernel
  | sendSpecial index =>
    simp only [Instruction.mnemonic]
    split
    · next hselector => exact append (by decide +kernel) (specialSelector hselector)
    · exact append (by decide +kernel) (nat index)
  | send literal argumentCount =>
    exact append (append (append (append (by decide +kernel) (nat literal)) (by decide +kernel))
      (nat argumentCount)) (by decide +kernel)
  | jump kind distance =>
    refine append (by cases kind <;> decide +kernel) ?_
    rw [signedText]
    split
    · exact int distance
    · exact append (by decide +kernel) (int distance)
  | store place index popping =>
    refine append (append (append ?_ ?_) (by decide +kernel)) (nat index)
    · cases popping <;> decide +kernel
    · cases place <;> decide +kernel

end OneLine

/-! ### All lines -/

/-- A line, and the lines behind it. -/
lemma columns_line_append {line : String} (hline : OneLine line) (rest : List Char) :
    columns (line.toList ++ '\n' :: rest) = (column line.toList).toList ++ columns rest := by
  rw [columns, List.splitOn_append_cons_self_of_not_mem hline, List.filterMap_cons]
  cases column line.toList <;> rfl

/-- The line of an item, and the lines behind it. -/
lemma columns_itemLine_append (base : ℕ) {item : Listing.Item} (hbytes : item.bytes ≠ [])
    (rest : List Char) : columns ((Listing.itemLine base item).toList ++ rest) =
      (base + item.offset, item.bytes) :: columns rest := by
  have hline : ∀ {name : String} (rest : List Char), OneLine name →
      columns ((front base item ++ name).toList ++ '\n' :: rest) =
        (base + item.offset, item.bytes) :: columns rest := by
    intro name rest hname
    rw [columns_line_append (.append (.front base item) hname), String.toList_append,
      column_front_append base hbytes]
    rfl
  by_cases hi : item.instruction = .pushCharacter '\n'.toNat
  · -- The instruction ends the line itself, and an empty line follows.
    have hmnemonic : item.instruction.mnemonic = "pushConst: $" ++ "\n" := by
      rw [hi]
      decide +kernel
    have hname := hline ('\n' :: rest) (show OneLine "pushConst: $" by decide +kernel)
    have hempty := columns_line_append (show OneLine "" by decide +kernel) rest
    rw [Listing.itemLine, hmnemonic, ← String.append_assoc, String.toList_append,
      String.toList_append, List.append_assoc, List.append_assoc]
    exact hname.trans (congrArg _ hempty)
  · have hname := hline rest (OneLine.mnemonic hi)
    rw [Listing.itemLine, String.toList_append, List.append_assoc]
    exact hname

/-- The line of an error shows no bytes. -/
lemma columns_errorLine (base stop : ℕ) (e : DecodeError) :
    columns (Listing.errorLine base stop e).toList = [] := by
  have hline : OneLine (Text.padLeft 4 (toString (base + stop)) ++ "  <" ++ e.message ++ ">") :=
    .append (.append (.append (.padLeft 4 (.nat _)) (by decide +kernel)) (.message e))
      (by decide +kernel)
  have hcolumn : column (Text.padLeft 4 (toString (base + stop)) ++ "  <" ++ e.message ++
      ">").toList = none := by
    simp only [String.toList_append, List.append_assoc]
    refine (column_address_append 4 ('<' :: (e.message.toList ++ ">".toList))).trans ?_
    rw [hexColumn_of_none rfl]
  have hcolumns := columns_line_append hline []
  rw [hcolumn] at hcolumns
  rw [Listing.errorLine, show ">\n" = ">" ++ "\n" from rfl, ← String.append_assoc,
    String.toList_append]
  exact hcolumns

/-- What a disassembly shows is read back from its text: the addresses and the bytes of the items, in
their order. -/
theorem columns_disassemble (bytes : List UInt8) (base : ℕ) :
    columns (disassemble bytes base).toList =
      (Listing.ofBytes 0 bytes).items.map fun item => (base + item.offset, item.bytes) := by
  have hnonempty : ∀ item ∈ (Listing.ofBytes 0 bytes).items, item.bytes ≠ [] := by
    intro item hitem
    obtain ⟨_, _, -, -, hpos, -⟩ := (Listing.covers_ofBytes 0 bytes).tile.exists_split hitem
    exact List.ne_nil_of_length_pos hpos
  have hitems : ∀ (items : List Listing.Item) (rest : List Char), (∀ item ∈ items, item.bytes ≠ []) →
      columns ((String.join (items.map (Listing.itemLine base))).toList ++ rest) =
        (items.map fun item => (base + item.offset, item.bytes)) ++ columns rest := by
    intro items rest hitems
    induction items with
    | nil => rfl
    | cons item items ih =>
      simp only [String.toList_join, List.map_cons, List.flatMap_cons, List.append_assoc] at ih ⊢
      rw [columns_itemLine_append base (hitems item List.mem_cons_self)]
      exact congrArg _ (ih fun item hmem => hitems item (List.mem_cons_of_mem _ hmem))
  simp only [disassemble, String.toList_append]
  rw [hitems _ _ hnonempty]
  cases (Listing.ofBytes 0 bytes).error with
  | none => exact List.append_nil _
  | some e =>
    rw [columns_errorLine]
    exact List.append_nil _

end Disassembly

end TalkMachine
