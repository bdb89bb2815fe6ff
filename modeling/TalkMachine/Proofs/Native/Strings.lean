import TalkMachine.Proofs.Machine.Arising
import TalkMachine.Proofs.Machine.Provision
import TalkMachine.Proofs.Native.Table
import TalkMachine.Proofs.Text.Utf8
import TalkMachine.Proofs.Value

/-!
# What strings hold

A new string holds the UTF-8 bytes of its text, and its text is read from the bytes as UTF-8. The
native methods of strings count the bytes, show each as the character with this code point, and put
such a character in place of one (`Machine.HoldsString.of_store`, `StringNative.Puts.holdsString`).
So text and native methods agree on what a string holds only while all its bytes are ASCII
(`Machine.Arises.showsText_iff`).
-/

namespace TalkMachine

open Execution Machine

/-! ### A string on the heap -/

/-- Whether a value is an object on the heap that is a string, may be stored into and holds these
bytes. -/
structure Machine.HoldsString (m : Machine) (string : Value) (o : Object) (bytes : List UInt8) :
    Prop where
  bounded : m.heap.Bounded
  holds : m.heap.Holds string.raw.toNat o
  classIndex : o.classIndex = ClassIndex.string
  isMutable : o.flags.immutable = false
  isBytes : o.format.isBytes = true
  bytes : o.bytes string = .ok bytes

variable {m m' : Machine} {string answer : Value} {o : Object} {bytes : List UInt8}
  {arguments : List Value}

/-- A new string holds the bytes of its text. -/
lemma Machine.exists_holdsString_of_newString (hbounded : m.heap.Bounded) {text : String}
    (hnew : newString text m = .ok string m') :
    ∃ o, m'.HoldsString string o (Text.utf8 text) := by
  obtain ⟨h', hallocate, rfl⟩ := change_eq_ok_iff.mp hnew
  rcases Heap.allocateBytes_cases hbounded.represents_unpopulated (Text.utf8 text)
    (show ClassIndex.string ≤ Header.maxClassIndex by decide) with
    ⟨_, _, herror⟩ | ⟨name, h₁, used, o, s', hok, rep, -, rfl, -, hclass, hflags, hbytes⟩
  · cases hallocate.symm.trans herror
  · obtain ⟨rfl, rfl⟩ := EStateM.Result.ok.inj (hallocate.symm.trans hok)
    have hisBytes : o.format.isBytes = true := by
      rw [Object.bytes] at hbytes
      split at hbytes
      · assumption
      · cases hbytes
    exact ⟨o, .of_represents rep, rep.holds (ObjectMap.objects_put_self _ string o), hclass,
      hflags ▸ rfl, hisBytes, hbytes⟩

namespace Machine.HoldsString

variable (hold : m.HoldsString string o bytes)
include hold

/-- All questions about the string are answered from the object. -/
lemma shows : m.heap.Shows string o :=
  hold.holds.shows hold.bounded.usedBytes_lt

/-- There are as many bytes as count. -/
lemma length_eq : bytes.length = o.byteCount := by
  have hcount : o.byteCount ≤ o.body.length := Nat.sub_le _ _
  have hbytes := hold.bytes
  rw [Object.bytes, if_pos hold.isBytes] at hbytes
  cases hbytes
  rw [List.length_take, min_eq_left hcount]

/-- The text of the string is what the bytes spell. -/
lemma toText_eq : m.toText string = .ok (Text.ofUtf8 bytes) := by
  simp only [toText, hold.shows.classIndex, hold.classIndex, hold.shows.bytes, hold.bytes,
    Except.ofHeap, bind, Except.bind, true_or, if_true]
  rfl

/-- The size of the string is the number of bytes. -/
lemma stringSize_eq : stringSize m string = .ok bytes.length := by
  simp only [stringSize, expectFormat, hold.shows.format, hold.isBytes, if_true,
    hold.holds.byteSize_eq hold.bounded.usedBytes_lt, hold.length_eq, Except.ofHeap, bind,
    Except.bind]

/-- A byte of the string. -/
lemma fetchByte_eq {i : ℕ} {b : UInt8} (hb : bytes[i]? = some b) :
    m.heap.fetchByte string i = .ok b := by
  rw [hold.shows.fetchByte, Object.fetchByte, hold.bytes]
  simp only [bind, Except.bind, hb]
  rfl

end Machine.HoldsString

/-! ### Characters put into a string -/

namespace StringNative

/-- The bytes of a string after `at:put:` with these arguments: in place of the byte at the index,
which counts from one, is the code point of the character. -/
def written (bytes : List UInt8) : List Value → List UInt8
  | index :: character :: _ =>
    match index.toInt?, character.toChar? with
    | some i, some c => bytes.set (i - 1).toNat (UInt8.ofNat c.toNat)
    | _, _ => bytes
  | _ => bytes

end StringNative

namespace Machine.HoldsString

/-- `at:put:` succeeds with an index and a character of one byte if the heap stores that byte. -/
lemma store_eq_ok_iff (hold : m.HoldsString string o bytes) :
    StringNative.store.call string arguments m = .ok answer m' ↔
      ∃ (index : Value) (i : ℤ) (c : Char) (h' : Heap), arguments[0]? = some index ∧
        index.toInt? = some i ∧ arguments[1]? = some answer ∧ answer.toChar? = some c ∧
        c.toNat ≤ 255 ∧ (1 ≤ i ∧ i ≤ bytes.length) ∧
        Heap.storeByte string (i - 1).toNat (UInt8.ofNat c.toNat) m.heap = .ok () h' ∧
        m' = m.withHeap h' := by
  simp only [StringNative.call, run_bind_eq_ok_iff, ask_eq_ok_iff, change_eq_ok_iff,
    bind_eq_ok_iff, guard_eq_ok_iff, argument_eq_ok_iff, toInteger, toCharacter,
    expected_eq_ok_iff, checkedIndex_eq_ok_iff, hold.stringSize_eq]
  constructor
  · rintro ⟨_, _, ⟨⟨index, hindex, i, hi, character, hcharacter, c, hc, hcode, _, ⟨⟩, _,
      ⟨hrange, rfl⟩, ⟨⟩⟩, rfl⟩, _, _, ⟨h', hstore, rfl⟩, ⟨⟩⟩
    exact ⟨index, i, c, h', hindex, hi, hcharacter, hc, Nat.not_lt.mp hcode, hrange, hstore, rfl⟩
  · rintro ⟨index, i, c, h', hindex, hi, hcharacter, hc, hcode, hrange, hstore, rfl⟩
    exact ⟨_, _, ⟨⟨index, hindex, i, hi, answer, hcharacter, c, hc, Nat.not_lt.mpr hcode, _, rfl, _,
      ⟨hrange, rfl⟩, rfl⟩, rfl⟩, _, _, ⟨h', hstore, rfl⟩, rfl⟩

/-- After a byte has been stored, the string holds it. -/
lemma of_storeByte (hold : m.HoldsString string o bytes) {position : ℕ} {byte : UInt8} {h' : Heap}
    (hstore : Heap.storeByte string position byte m.heap = .ok () h') :
    ∃ o', (m.withHeap h').HoldsString string o' (bytes.set position byte) := by
  have rep := hold.bounded.represents_put hold.holds
  have ho := ObjectMap.objects_put_self m.heap.unpopulated string o
  obtain ⟨o', hput, rep'⟩ :=
    Heap.Agree.of_change_ok ho (hstore ▸ Heap.agree_storeByte rep ho position byte)
  have hshape := Object.sameShape_storeByte hput
  have hbytes := Object.bytes_storeByte hold.bytes hput
  obtain ⟨hmutable, -, -, rfl⟩ := Object.storeByte_eq_ok_iff.mp hput
  exact ⟨_, .of_represents rep', rep'.holds (ObjectMap.objects_put_self _ string _),
    hshape.classIndex.trans hold.classIndex, hmutable, hshape.format ▸ hold.isBytes, hbytes⟩

/-- After `at:put:` the string holds what was put. -/
lemma of_store (hold : m.HoldsString string o bytes)
    (hcall : StringNative.store.call string arguments m = .ok answer m') :
    ∃ o', m'.HoldsString string o' (StringNative.written bytes arguments) := by
  obtain ⟨index, i, c, h', hindex, hi, hcharacter, hc, -, -, hstore, rfl⟩ :=
    hold.store_eq_ok_iff.mp hcall
  match arguments with
  | [] => cases hindex
  | [_] => cases hcharacter
  | _ :: _ :: _ =>
    cases hindex
    cases hcharacter
    simp only [StringNative.written, hi, hc]
    exact hold.of_storeByte hstore

/-- Each character of one byte can be put at each index. -/
lemma exists_store (hold : m.HoldsString string o bytes) {i : ℕ} (hi : i < bytes.length)
    (hfits : i + 1 < 2 ^ 62) {c : Char} (hc : c.toNat ≤ 255) :
    ∃ m', StringNative.store.call string [Value.ofInt (i + 1), Value.ofChar c] m =
      .ok (Value.ofChar c) m' := by
  have rep := hold.bounded.represents_put hold.holds
  have ho := ObjectMap.objects_put_self m.heap.unpopulated string o
  have hput : o.storeByte string i (UInt8.ofNat c.toNat) =
      .ok ((), o.overwrite i [UInt8.ofNat c.toNat]) :=
    Object.storeByte_eq_ok_iff.mpr ⟨hold.isMutable, hold.isBytes, hold.length_eq ▸ hi, rfl⟩
  obtain ⟨h', hstore, -⟩ :=
    Heap.Agree.exists_of_change_eq_ok ho hput (Heap.agree_storeByte rep ho i _)
  have hint := Value.toInt?_ofInt_natCast hfits
  refine ⟨_, hold.store_eq_ok_iff.mpr ⟨_, (i + 1 : ℕ), c, h', rfl, ?_, rfl,
    Value.toChar?_ofChar c, hc, ⟨by omega, by omega⟩, ?_, rfl⟩⟩
  · exact_mod_cast hint
  · rw [show ((i + 1 : ℕ) - 1 : ℤ).toNat = i by omega]
    exact hstore

end Machine.HoldsString

namespace StringNative

/-- Calls of `at:put:` on a string, none of which fails: their arguments, and the machines before
and after. -/
inductive Puts (string : Value) : List (List Value) → Machine → Machine → Prop
  | none {m : Machine} : Puts string [] m m
  | put {calls : List (List Value)} {m m' m'' : Machine} (puts : Puts string calls m m')
      {arguments : List Value} {answer : Value}
      (hcall : StringNative.store.call string arguments m' = .ok answer m'') :
      Puts string (calls ++ [arguments]) m m''

/-- After calls of `at:put:` the string holds what they have put. -/
theorem Puts.holdsString {calls : List (List Value)} (puts : Puts string calls m m')
    (hold : m.HoldsString string o bytes) :
    ∃ o', m'.HoldsString string o' (calls.foldl written bytes) := by
  induction puts with
  | none => exact ⟨o, hold⟩
  | put _ hcall ih =>
    obtain ⟨o', hold'⟩ := ih hold
    rw [List.foldl_append]
    exact hold'.of_store hcall

end StringNative

/-! ### What the native methods show -/

/-- Whether a text is what the native methods of strings show of a value: it is as long as `size`
answers, and its characters are what `at:` answers at the indices from one on. -/
structure NativeTable.ShowsText (p : Execution) (string : Value) (text : String) : Prop where
  size : NativeTable.Answers NativeTable.string p "size" string [] (.ok (Value.ofInt text.length))
  character : ∀ (i : ℕ) (c : Char), text.toList[i]? = some c →
    NativeTable.Answers NativeTable.string p "at:" string [Value.ofInt (i + 1)]
      (.ok (Value.ofChar c))

/-- The outcome of a native method of strings that asks the machine is what the question comes to.
-/
lemma NativeTable.answers_of_string_ask (native : StringNative) {p : Execution}
    {selector : String} {count : ℕ} {question : Machine → Except MachineError Value}
    {outcome : Except MachineError Value}
    (hfilter : NativeTable.string.filter (fun entry => entry.selector = selector) =
      [⟨selector, count, .string native⟩])
    (hcall : native.call string arguments = Machine.ask question)
    (houtcome : question p.machine = outcome) :
    NativeTable.Answers NativeTable.string p selector string arguments outcome :=
  answers_of_ask hfilter (fun _ _ => by rw [callNative, hcall, onMachine_ask]) houtcome

namespace Machine.HoldsString

variable {p : Execution} (hold : p.machine.HoldsString string o bytes)
include hold

/-- `size` answers the number of bytes. -/
lemma answers_size : NativeTable.Answers NativeTable.string p "size" string []
    (ofInteger bytes.length) := by
  refine NativeTable.answers_of_string_ask .size rfl rfl ?_
  simp only [hold.stringSize_eq, bind, Except.bind]

/-- `at:` answers a byte as a character. -/
lemma answers_at {i : ℕ} {b : UInt8} (hb : bytes[i]? = some b) (hfits : i + 1 < 2 ^ 62) :
    NativeTable.Answers NativeTable.string p "at:" string [Value.ofInt (i + 1)]
      (.ok (Value.ofChar (Char.ofUInt8 b))) := by
  have hi : i < bytes.length := (List.getElem?_eq_some_iff.mp hb).1
  have hindex : toInteger (Value.ofInt (i + 1)) = .ok ((i : ℤ) + 1) :=
    expected_eq_ok_iff.mpr (by exact_mod_cast Value.toInt?_ofInt_natCast hfits)
  have hposition : checkedIndex string ((i : ℤ) + 1) bytes.length = .ok i :=
    checkedIndex_eq_ok_iff.mpr ⟨by omega, by omega⟩
  refine NativeTable.answers_of_string_ask .fetch rfl rfl ?_
  simp only [argument, List.getElem?_cons_zero, hindex, hold.stringSize_eq, hposition,
    hold.fetchByte_eq hb, Except.ofHeap, bind, Except.bind]
  rfl

/-- The text that is read is what the native methods show just if all bytes are ASCII and their
number is a small integer. -/
lemma showsText_ofUtf8_iff : NativeTable.ShowsText p string (Text.ofUtf8 bytes) ↔
    Value.fitsSmallInteger bytes.length = true ∧ ∀ b ∈ bytes, b.toNat < 0x80 := by
  have hlength : (Text.ofUtf8 bytes).length = (Text.decodeUtf8 bytes).length :=
    String.length_ofList
  have htext : (Text.ofUtf8 bytes).toList = Text.decodeUtf8 bytes := String.toList_ofList
  rw [← Text.decodeUtf8_eq_map_iff]
  constructor
  · intro hshows
    have hsize := hshows.size.unique hold.answers_size
    rw [ofInteger, Value.ofInt?] at hsize
    split_ifs at hsize with hfits
    have hle := Text.length_decodeUtf8_le bytes
    have hrange := Value.fitsSmallInteger_iff.mp hfits
    have hcount : (Text.ofUtf8 bytes).length = bytes.length := by
      have heq := (Value.eq_iff_of_toInt? (Value.toInt?_ofInt_natCast (by omega))
        (Value.toInt?_ofInt hfits)).mp (Except.ok.inj hsize)
      exact_mod_cast heq
    refine ⟨hfits, List.ext_getElem (by rw [← hlength, hcount, List.length_map]) fun i hi hi' => ?_⟩
    rw [List.length_map] at hi'
    have hread := hshows.character i _ (by rw [htext, List.getElem?_eq_getElem hi])
    have hshown := hold.answers_at (List.getElem?_eq_getElem hi') (by omega)
    rw [List.getElem_map]
    exact Value.ofChar_injective (Except.ok.inj (hread.unique hshown))
  · rintro ⟨hfits, hdecode⟩
    have hrange := Value.fitsSmallInteger_iff.mp hfits
    have hinteger : ofInteger bytes.length = .ok (Value.ofInt bytes.length) := by
      rw [ofInteger, Value.ofInt?, if_pos hfits]
    constructor
    case size =>
      rw [hlength, hdecode, List.length_map, ← hinteger]
      exact hold.answers_size
    case character =>
      intro i c hc
      rw [htext, hdecode, List.getElem?_map, Option.map_eq_some_iff] at hc
      obtain ⟨b, hb, rfl⟩ := hc
      have hi := (List.getElem?_eq_some_iff.mp hb).1
      exact hold.answers_at hb (by omega)

end Machine.HoldsString

/-- After any calls of `at:put:` on a new string, none of which fails, its text is what its bytes
spell: those of the text it was made of, with the characters that were put in their places. `size`
answers their number and `at:` each of them as a character. So text and native methods agree just if
all these bytes are ASCII and their number is a small integer. -/
theorem Machine.Arises.showsText_iff {limit : ℕ} (hlimit : limit < 2 ^ 64) {m m₀ m₁ : Machine}
    (arises : m.Arises limit) {text : String} {string : Value}
    (hnew : newString text m = .ok string m₀) {calls : List (List Value)}
    (puts : StringNative.Puts string calls m₀ m₁) (stack : Stack) :
    ∃ bytes, bytes = calls.foldl StringNative.written (Text.utf8 text) ∧
      m₁.toText string = .ok (Text.ofUtf8 bytes) ∧
      NativeTable.Answers NativeTable.string ⟨m₁, stack⟩ "size" string []
        (ofInteger bytes.length) ∧
      (∀ (i : ℕ) (b : UInt8), bytes[i]? = some b → i + 1 < 2 ^ 62 →
        NativeTable.Answers NativeTable.string ⟨m₁, stack⟩ "at:" string [Value.ofInt (i + 1)]
          (.ok (Value.ofChar (Char.ofUInt8 b)))) ∧
      (NativeTable.ShowsText ⟨m₁, stack⟩ string (Text.ofUtf8 bytes) ↔
        Value.fitsSmallInteger bytes.length = true ∧ ∀ b ∈ bytes, b.toNat < 0x80) := by
  obtain ⟨o₀, hold₀⟩ := exists_holdsString_of_newString (arises.isSound hlimit).bounded hnew
  obtain ⟨o, hold⟩ := puts.holdsString hold₀
  replace hold : (Execution.mk m₁ stack).machine.HoldsString string o _ := hold
  exact ⟨_, rfl, hold.toText_eq, hold.answers_size, fun _ _ => hold.answers_at,
    hold.showsText_ofUtf8_iff⟩

/-! ### Strings in a fresh machine -/

/-- In a fresh machine a string of one letter is made, and a character of one byte is put into it. -/
lemma exists_puts_of_new {c : Char} (hc : c.toNat ≤ 255) :
    ∃ m string m₀ m₁, m.Arises 1048576 ∧ newString "a" m = .ok string m₀ ∧
      StringNative.Puts string [[Value.ofInt 1, Value.ofChar c]] m₀ m₁ := by
  have hcost : freshCost +
      Heap.objectSize (ObjectFormat.indexable8.slotsFor (Text.utf8 "a").length) ≤ 1048576 := by
    decide +kernel
  obtain ⟨m, hnew, hroom, -⟩ := exists_new (show 1048576 < 2 ^ 64 by norm_num) (by omega)
  have arises : m.Arises 1048576 := .new hnew
  have hbounded := (arises.isSound (by norm_num)).bounded
  obtain ⟨string, m₀, hstring, -⟩ := affords_change (m := m)
    (Heap.affords_allocateBytes hbounded.represents_unpopulated (Text.utf8 "a")
      (show ClassIndex.string ≤ Header.maxClassIndex by decide))
    (by omega)
  obtain ⟨o, hold⟩ := exists_holdsString_of_newString hbounded hstring
  obtain ⟨m₁, hcall⟩ := hold.exists_store (i := 0) (by decide) (by decide) hc
  exact ⟨m, string, m₀, m₁, arises, hstring, .put .none hcall⟩

/-- A letter that is put into a string is read, by the native methods and as text. -/
theorem Machine.Arises.showsText_ascii : ∃ m string m₀ m₁, (1048576 : ℕ) < 2 ^ 64 ∧
    m.Arises 1048576 ∧ newString "a" m = .ok string m₀ ∧
    StringNative.Puts string [[Value.ofInt 1, Value.ofChar 'x']] m₀ m₁ ∧
    m₁.toText string = .ok "x" ∧ NativeTable.ShowsText ⟨m₁, Stack.new 0⟩ string "x" := by
  have hlimit : (1048576 : ℕ) < 2 ^ 64 := by norm_num
  obtain ⟨m, string, m₀, m₁, arises, hnew, puts⟩ := exists_puts_of_new (c := 'x') (by decide)
  obtain ⟨bytes, hbytes, htext, -, -, hiff⟩ := arises.showsText_iff hlimit hnew puts (Stack.new 0)
  obtain rfl : bytes = [120] := hbytes.trans (by decide)
  have hspell : Text.ofUtf8 [120] = "x" := Text.ofUtf8_utf8 "x"
  exact ⟨m, string, m₀, m₁, hlimit, arises, hnew, puts, hspell ▸ htext,
    hspell ▸ hiff.mpr ⟨rfl, List.forall_mem_singleton.mpr (by decide)⟩⟩

/-- An accented letter that is put into a string is shown by `at:`, but the text of the string is
the replacement character. -/
theorem Machine.exists_misread : ∃ m string m₀ m₁, m.Arises 1048576 ∧
    newString "a" m = .ok string m₀ ∧
    StringNative.Puts string [[Value.ofInt 1, Value.ofChar 'é']] m₀ m₁ ∧
    NativeTable.Answers NativeTable.string ⟨m₁, Stack.new 0⟩ "at:" string [Value.ofInt 1]
      (.ok (Value.ofChar 'é')) ∧
    m₁.toText string = .ok (String.singleton Text.replacement) ∧
    ¬NativeTable.ShowsText ⟨m₁, Stack.new 0⟩ string (String.singleton Text.replacement) := by
  obtain ⟨m, string, m₀, m₁, arises, hnew, puts⟩ := exists_puts_of_new (c := 'é') (by decide)
  obtain ⟨o₀, hold₀⟩ := exists_holdsString_of_newString (arises.isSound (by norm_num)).bounded hnew
  obtain ⟨o, hold⟩ := puts.holdsString hold₀
  have hbytes : [[Value.ofInt 1, Value.ofChar 'é']].foldl StringNative.written (Text.utf8 "a") =
      [233] := by decide
  rw [hbytes] at hold
  replace hold : (Execution.mk m₁ (Stack.new 0)).machine.HoldsString string o [233] := hold
  have hspell : Text.ofUtf8 [233] = String.singleton Text.replacement := by
    have hfirst : Text.firstChar 233 [] = (Text.replacement, 0) := by decide
    rw [Text.ofUtf8, Text.decodeUtf8, hfirst]
    simp only [List.drop_nil, Text.decodeUtf8]
    rfl
  have hshown := hold.answers_at (i := 0) rfl (by decide)
  have htext := hold.toText_eq
  have hagree := mt hold.showsText_ofUtf8_iff.mp
    (fun h => absurd (List.forall_mem_singleton.mp h.2) (by decide))
  rw [hspell] at htext hagree
  exact ⟨m, string, m₀, m₁, arises, hnew, puts, hshown, htext, hagree⟩

end TalkMachine
