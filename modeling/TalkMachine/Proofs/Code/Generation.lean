import TalkMachine.Code
import TalkMachine.Proofs.Heap.Slots
import TalkMachine.Proofs.Method
import TalkMachine.Proofs.Value

/-!
# Generated methods

A method is generated in four steps: an object with room for everything is allocated, its header and
its literals are stored word by word, and the bytes of the code are put behind them. Each step is
read off the object map that the heap represents. Only the first step can be refused, as a fresh
object accepts all that follows (`Code.exists_fillMethod`, `Code.allocateMethod_cases`). So a generated
object has the header and the code it was generated from (`Code.hasCode_of_generate`), and its last
byte lies at a program counter that is a word.
-/

namespace TalkMachine

open ObjectMap

variable {h h' : Heap} {s : ObjectMap} {o o' : Object} {object method : Value}

/-! ### Words and bytes of one object -/

/-- Overwriting bytes behind a slot keeps what is in the slot. -/
lemma Object.fetch_overwrite_of_le {start index : ℕ} {bytes : List UInt8}
    (hfits : start + bytes.length ≤ o.body.length) (hindex : 8 * (index + 1) ≤ start) :
    (o.overwrite start bytes).fetch object index = o.fetch object index := by
  have hslots : (o.overwrite start bytes).slotCount = o.slotCount := by
    rw [slotCount, slotCount, length_overwrite hfits]
  have hword : (o.overwrite start bytes).word index = o.word index := by
    rw [word, word]
    congr 1
    refine List.ext_getElem? fun k => ?_
    simp only [List.getElem?_take, List.getElem?_drop, wordSize]
    split
    · rw [getElem?_overwrite hfits, if_neg (by omega)]
    · rfl
  rw [fetch, fetch, hslots, hword]

/-- Behind its first bytes an object has those that were stored there, up to its last byte. -/
lemma Object.bytes_overwrite {start : ℕ} {bytes : List UInt8} (hbytes : o.format.isBytes = true)
    (hcount : o.byteCount = start + bytes.length) :
    (o.overwrite start bytes).bytes object = .ok (o.body.take start ++ bytes) := by
  have hfits : start + bytes.length ≤ o.body.length := by
    rw [← hcount, byteCount]
    omega
  have hcount' : (o.overwrite start bytes).byteCount = start + bytes.length := by
    rw [← hcount, byteCount, byteCount, length_overwrite hfits]
    rfl
  have hlength : (o.body.take start ++ bytes).length = start + bytes.length := by
    rw [List.length_append, List.length_take]
    omega
  rw [Object.bytes, hcount', if_pos (show (o.overwrite start bytes).format.isBytes = true from hbytes),
    overwrite, ← hlength, List.take_left']
  rfl

/-! ### Headers -/

/-- A header is read back from its number. -/
lemma MethodHeader.unpack_pack {header : MethodHeader} (hliterals : header.literalCount < 2 ^ 16)
    (htemps : header.tempCount < 2 ^ 8) (harguments : header.argumentCount < 2 ^ 8) :
    MethodHeader.unpack header.pack = header := by
  obtain ⟨literals, temps, arguments⟩ := header
  simp only [unpack, pack] at *
  congr <;> omega

namespace Code

/-- The header of a method that is accepted has the counts it was asked for, and they fit. -/
lemma methodHeader_eq_ok {code : Code} {argumentCount tempCount : ℕ} {header : MethodHeader}
    (hok : code.methodHeader argumentCount tempCount = .ok header) :
    header = ⟨code.literals.size, tempCount, argumentCount⟩ ∧ code.literals.size < 2 ^ 16 ∧
      tempCount < 2 ^ 8 ∧ argumentCount < 2 ^ 8 := by
  rw [Code.methodHeader] at hok
  obtain ⟨hliterals, hok⟩ := guard_eq_ok_iff.mp hok
  obtain ⟨htemps, hok⟩ := guard_eq_ok_iff.mp hok
  obtain ⟨harguments, hok⟩ := guard_eq_ok_iff.mp hok
  rw [maxLiterals] at hliterals
  exact ⟨(Except.ok.inj hok).symm, by omega, by omega, by omega⟩

/-! ### Stores that are accepted -/

/-- A mutable object accepts a store into each of its slots. -/
lemma exists_store (rep : h.Represents s) (ho : s.objects object = some o)
    (hmutable : o.flags.immutable = false) (index : ℕ) (value : Value)
    (hindex : index < o.slotCount) : ∃ h' o', Heap.store object index value h = .ok () h' ∧
      h'.Represents (s.put object o') ∧ o.storeWord object index value.raw = .ok ((), o') := by
  have hstored : o.storeWord object index value.raw =
      .ok ((), o.overwrite (wordSize * index) (Word.bytes value.raw)) := by
    rw [Object.storeWord, if_neg (by rw [hmutable]; exact Bool.false_ne_true),
      if_neg (Nat.not_le.mpr hindex)]
  obtain ⟨h', hok, rep'⟩ := (Heap.agree_store rep ho index value).exists_of_change_eq_ok ho hstored
  exact ⟨h', _, hok, rep', hstored⟩

/-- A mutable object accepts values into its slots from an index on. They are read there, and the
slots before are kept. -/
theorem exists_storeAll (rep : h.Represents s) (ho : s.objects object = some o)
    (hmutable : o.flags.immutable = false) (index : ℕ) (values : List Value)
    (hfits : index + values.length ≤ o.slotCount) :
    ∃ h' o', storeAll object index values h = .ok () h' ∧ h'.Represents (s.put object o') ∧
      o.SameShape o' ∧ o'.flags = o.flags ∧
      ∀ k, o'.fetch object k =
        if index ≤ k ∧ k < index + values.length then .ok (values.getD (k - index) Value.zero)
        else o.fetch object k := by
  induction values generalizing h s o index with
  | nil =>
    refine ⟨h, o, rfl, ?_, .refl o, rfl, fun k => by rw [if_neg (by simp)]⟩
    rwa [ObjectMap.put, ← ho, Function.update_eq_self]
  | cons value rest ih =>
    rw [List.length_cons] at hfits
    obtain ⟨h₁, o₁, hstore, rep₁, hstored⟩ :=
      exists_store rep ho hmutable index value (by omega)
    have hshape₁ := Object.sameShape_storeWord hstored
    have hflags₁ := Object.flags_storeWord hstored
    have hslots₁ : o₁.slotCount = o.slotCount := by
      rw [Object.slotCount, Object.slotCount, hshape₁.length]
    obtain ⟨h', o', hrest, rep', hshape, hflags, hfetch⟩ := ih rep₁ (objects_put_self s object o₁)
      (hflags₁ ▸ hmutable) (index + 1) (by omega)
    refine ⟨h', o', (run_bind_of_ok hstore).trans hrest, ?_, hshape₁.trans hshape,
      hflags.trans hflags₁, fun k => ?_⟩
    · simpa only [ObjectMap.put, Function.update_idem] using rep'
    rw [hfetch, Object.fetch_storeWord (rep.holds ho).wellFormed hstored, List.length_cons]
    rcases Nat.lt_trichotomy k index with hlt | rfl | hlt
    · rw [if_neg (by omega), if_neg (by omega), if_neg (by omega)]
    · rw [if_neg (by omega), if_pos rfl, if_pos (by omega), Nat.sub_self, List.getD_cons_zero]
    · have hnext : k - index = k - (index + 1) + 1 := by omega
      rw [hnext, List.getD_cons_succ, if_neg (show k ≠ index by omega)]
      simp only [show index + 1 ≤ k ↔ index ≤ k by omega,
        show k < index + 1 + rest.length ↔ k < index + (rest.length + 1) by omega]

/-! ### The method object -/

/-- Whether an object is the method of this class, with this header, these literals and this code.
-/
structure IsMethod (o : Object) (method : Value) (header : MethodHeader) (literals : List Value)
    (code : List UInt8) (classIndex : ℕ) : Prop where
  format : o.format = .compiledMethod
  classIndex : o.classIndex = classIndex
  packed : o.fetch method 0 = .ok (Value.ofInt header.pack)
  literal : ∀ {i : ℕ} {value : Value}, literals[i]? = some value →
    o.fetch method (1 + i) = .ok value
  bytes : ∃ front : List UInt8, front.length = header.initialPc ∧
    o.bytes method = .ok (front ++ code)
  byteCount : o.byteCount = header.initialPc + code.length

variable {header : MethodHeader} {literals : List Value} {code : List UInt8} {classIndex : ℕ}

/-- In front of the code of a method there is a slot for its header and one for each literal. -/
lemma le_slotsFor_method (hcount : header.literalCount = literals.length) :
    1 + literals.length ≤
      ObjectFormat.slotsFor .compiledMethod (header.initialPc + code.length) := by
  have hslots :=
    ObjectFormat.slotsFor_mul_divisor .compiledMethod (header.initialPc + code.length)
  have hpc : header.initialPc = 8 * (1 + header.literalCount) := rfl
  rw [show ObjectFormat.divisor .compiledMethod = 8 from rfl] at hslots
  omega

/-- A fresh object accepts the header, the literals and the code of a method. -/
lemma exists_fillMethod (rep : h.Represents s) {hash : ℕ} {fill : UInt64}
    (hcount : header.literalCount = literals.length)
    (ho : s.objects method = some (fresh 0 (header.initialPc + code.length) .compiledMethod
      classIndex hash fill)) :
    ∃ h' o, (do
      Heap.store method 0 (Value.ofInt header.pack)
      storeAll method 1 literals
      let _ ← Heap.storeBytes method header.initialPc code
      return method : HeapM Value) h = .ok method h' ∧ h'.Represents (s.put method o) ∧
      (s.Fills → (s.put method o).Fills) ∧ IsMethod o method header literals code classIndex := by
  generalize hfresh : fresh 0 (header.initialPc + code.length) .compiledMethod classIndex hash fill
    = o₁ at ho
  have hformat₁ : o₁.format = .compiledMethod := hfresh ▸ rfl
  have hmutable₁ : o₁.flags.immutable = false := hfresh ▸ rfl
  have hbytes₁ : o₁.byteCount = header.initialPc + code.length :=
    hfresh ▸ Heap.byteCount_fresh _ _ _ _ _ rfl
  have hslots₁ : 1 + literals.length ≤ o₁.slotCount := by
    rw [← hfresh, Heap.slotCount_fresh, Nat.zero_add]
    exact le_slotsFor_method hcount
  obtain ⟨h₂, o₂, hheader, rep₂, hstored⟩ :=
    exists_store rep ho hmutable₁ 0 (Value.ofInt header.pack) (by omega)
  have hshape₂ := Object.sameShape_storeWord hstored
  have hslots₂ : o₂.slotCount = o₁.slotCount := by
    rw [Object.slotCount, Object.slotCount, hshape₂.length]
  obtain ⟨h₃, o₃, hliterals, rep₃, hshape₃, hflags₃, hfetch₃⟩ :=
    exists_storeAll rep₂ (objects_put_self s method o₂)
      ((Object.flags_storeWord hstored).symm ▸ hmutable₁) 1 literals (by omega)
  have hshape := hshape₂.trans hshape₃
  have hformat₃ : o₃.format = .compiledMethod := hshape.format.trans hformat₁
  have hmutable₃ : o₃.flags.immutable = false := by
    rw [hflags₃, Object.flags_storeWord hstored, hmutable₁]
  have hcount₃ : o₃.byteCount = header.initialPc + code.length := by
    rw [← hbytes₁, Object.byteCount, Object.byteCount, hshape.length, hshape.unused]
  have hlength₃ : header.initialPc + code.length ≤ o₃.body.length := by
    rw [← hcount₃, Object.byteCount]
    omega
  have hwritten : o₃.storeBytes method header.initialPc code =
      .ok (code.length, o₃.overwrite header.initialPc code) := by
    rw [Object.storeBytes, if_neg (by rw [hmutable₃]; exact Bool.false_ne_true),
      if_neg (by rw [hformat₃]; exact Bool.false_ne_true), hcount₃, Nat.add_sub_cancel_left,
      List.take_length]
  obtain ⟨h₄, hcode, rep₄⟩ :=
    (Heap.agree_storeBytes rep₃ (objects_put_self _ method o₃) header.initialPc
      code).exists_of_change_eq_ok (objects_put_self _ method o₃) hwritten
  -- The code lies behind the header and the literals, so these are read as they were stored.
  have hfetch : ∀ k ≤ literals.length, (o₃.overwrite header.initialPc code).fetch method k =
      o₃.fetch method k := by
    intro k hk
    rw [Object.fetch_overwrite_of_le hlength₃]
    rw [MethodHeader.initialPc, wordSize]
    omega
  have hshape₄ := hshape.trans (Object.sameShape_storeBytes hwritten)
  refine ⟨h₄, o₃.overwrite header.initialPc code, ?_, ?_, fun fills => fills.put ho hshape₄, hformat₃,
    ?_, ?_, fun hvalue => ?_, ?_, ?_⟩
  · rw [run_bind_of_ok hheader, run_bind_of_ok hliterals, run_bind_of_ok hcode]
    rfl
  · simpa only [ObjectMap.put, Function.update_idem] using rep₄
  · exact hshape.classIndex.trans (hfresh ▸ rfl)
  · rw [hfetch 0 (Nat.zero_le _), hfetch₃, if_neg (by omega),
      Object.fetch_storeWord (rep.holds ho).wellFormed hstored, if_pos rfl]
  · rename_i i value
    obtain ⟨hi, -⟩ := List.getElem?_eq_some_iff.mp hvalue
    rw [hfetch (1 + i) (by omega), hfetch₃, if_pos (by omega), Nat.add_sub_cancel_left,
      List.getD_eq_getElem?_getD, hvalue, Option.getD_some]
  · exact ⟨_, by rw [List.length_take]; omega,
      Object.bytes_overwrite (by rw [hformat₃]; rfl) hcount₃⟩
  · rw [Object.byteCount, Object.length_overwrite hlength₃]
    exact hcount₃

/-- To allocate a method is refused only where its object is, and changes nothing then; else there is
one object more, which is that method. -/
theorem allocateMethod_cases (rep : h.Represents s)
    (hcount : header.literalCount = literals.length) (code : List UInt8) (classIndex : ℕ) :
    (∃ e, Heap.allocate 0 (header.initialPc + code.length) .compiledMethod classIndex none h =
        .error e h ∧ allocateMethod header literals code classIndex h = .error e h) ∨
    ∃ method h' h₁ o used,
      Heap.allocate 0 (header.initialPc + code.length) .compiledMethod classIndex none h =
        .ok method h₁ ∧
      allocateMethod header literals code classIndex h = .ok method h' ∧
      h'.Represents { s.put method o with used := used } ∧ s.objects method = none ∧
      (s.Fills → { s.put method o with used := used }.Fills) ∧
      IsMethod o method header literals code classIndex := by
  cases hallocate : Heap.allocate 0 (header.initialPc + code.length) .compiledMethod classIndex none
    h with
  | error e h₁ =>
    obtain rfl := Heap.state_eq_of_allocate_error hallocate
    exact .inl ⟨e, rfl, by rw [allocateMethod, run_bind_of_error hallocate]⟩
  | ok method h₁ =>
    obtain ⟨-, hnone, address, used, s₁, rfl, rep₁, hfills₁⟩ :=
      Heap.exists_fresh_of_allocate rep hallocate
    obtain ⟨h', o, hfill, rep', hfills, hmethod⟩ :=
      exists_fillMethod rep₁ hcount (objects_put_self s method _)
    simp only [ObjectMap.put, Function.update_idem] at rep' hfills
    refine .inr ⟨method, h', h₁, o, used, rfl, ?_, rep', hnone, hfills ∘ hfills₁, hmethod⟩
    rw [allocateMethod, run_bind_of_ok hallocate]
    exact hfill

/-- What is known of a method object from its header and its bytes. -/
lemma IsMethod.hasCode (hmethod : IsMethod o method header literals code classIndex)
    (rep : h.Represents s) (ho : s.objects method = some o)
    (hliterals : header.literalCount < 2 ^ 16) (htemps : header.tempCount < 2 ^ 8)
    (harguments : header.argumentCount < 2 ^ 8) : h.HasCode method header code := by
  have hshows := (rep.holds ho).shows rep.usedBytes_lt
  have hpack : header.pack < 2 ^ 62 := by
    rw [MethodHeader.pack]
    omega
  obtain ⟨front, hfront, hbytes⟩ := hmethod.bytes
  refine ⟨?_, ?_, front, hfront, hshows.bytes.trans hbytes⟩
  · rw [Heap.isCompiledMethod, hshows.format, hmethod.format]
  · refine bind_eq_ok_iff.mpr ⟨_, (hshows.fetch 0).trans hmethod.packed, ?_⟩
    rw [Value.toInt?_ofInt_natCast hpack]
    exact congrArg Except.ok (MethodHeader.unpack_pack hliterals htemps harguments)

/-- A method object has fewer bytes than a word can count. -/
lemma IsMethod.length_lt (hmethod : IsMethod o method header literals code classIndex)
    (rep : h.Represents s) (ho : s.objects method = some o) :
    header.initialPc + code.length < 2 ^ 64 := by
  have hfits := (rep.holds ho).fits
  have hlt := rep.usedBytes_lt
  have hcount := hmethod.byteCount
  rw [Object.byteCount] at hcount
  omega

/-- Code is turned down, or its object is, and nothing has changed then; else there is one object
more, which is the method with the header and the bytes of the code. -/
theorem generate_cases (rep : h.Represents s) (code : Code) (classIndex argumentCount tempCount : ℕ) :
    (∃ e, code.generate classIndex argumentCount tempCount h = .error e h ∧
      ∀ header bytes, code.methodHeader argumentCount tempCount = .ok header →
        code.assemble = .ok bytes → ∃ e, Heap.allocate 0 (header.initialPc + bytes.length)
          .compiledMethod classIndex none h = .error e h) ∨
    ∃ header bytes method h' h₁ o used, code.methodHeader argumentCount tempCount = .ok header ∧
      code.assemble = .ok bytes ∧
      Heap.allocate 0 (header.initialPc + bytes.length) .compiledMethod classIndex none h =
        .ok method h₁ ∧
      code.generate classIndex argumentCount tempCount h = .ok method h' ∧
      h'.Represents { s.put method o with used := used } ∧ s.objects method = none ∧
      (s.Fills → { s.put method o with used := used }.Fills) ∧
      IsMethod o method header code.literals.toList bytes classIndex := by
  rw [generate]
  cases hheader : code.methodHeader argumentCount tempCount with
  | error e => exact .inl ⟨e, rfl, nofun⟩
  | ok header =>
    cases hbytes : code.assemble with
    | error e => exact .inl ⟨e, rfl, nofun⟩
    | ok bytes =>
      have hcount : header.literalCount = code.literals.toList.length := by
        rw [(methodHeader_eq_ok hheader).1, Array.length_toList]
      rcases allocateMethod_cases rep hcount bytes classIndex with ⟨e, hallocate, herror⟩ |
        ⟨method, h', h₁, o, used, hallocate, hok, rep', hnew⟩
      · refine .inl ⟨.heap e, by simp only [EStateM.adaptExcept, herror], ?_⟩
        rintro _ _ ⟨⟩ ⟨⟩
        exact ⟨e, hallocate⟩
      · exact .inr ⟨header, bytes, method, h', h₁, o, used, rfl, rfl, hallocate,
          adaptExcept_eq_ok_iff.mpr hok, rep', hnew⟩

/-- What has been generated is one object more, which is the method. -/
lemma exists_of_generate (rep : h.Represents s) {code : Code}
    {classIndex argumentCount tempCount : ℕ}
    (hok : code.generate classIndex argumentCount tempCount h = .ok method h') :
    ∃ header bytes o used, code.methodHeader argumentCount tempCount = .ok header ∧
      code.assemble = .ok bytes ∧ h'.Represents { s.put method o with used := used } ∧
      s.objects method = none ∧ (s.Fills → { s.put method o with used := used }.Fills) ∧
      IsMethod o method header code.literals.toList bytes classIndex := by
  rcases generate_cases rep code classIndex argumentCount tempCount with ⟨e, herror, -⟩ |
    ⟨header, bytes, made, h'', h₁, o, used, hheader, hbytes, -, hmade, hnew⟩
  · rw [herror] at hok
    cases hok
  · obtain ⟨rfl, rfl⟩ := EStateM.Result.ok.inj (hok.symm.trans hmade)
    exact ⟨header, bytes, o, used, hheader, hbytes, hnew⟩

/-- A generated method has the header and the code that it was generated from. -/
theorem hasCode_of_generate (rep : h.Represents s) {code : Code}
    {classIndex argumentCount tempCount : ℕ}
    (hok : code.generate classIndex argumentCount tempCount h = .ok method h') :
    ∃ bytes, code.assemble = .ok bytes ∧
      h'.HasCode method ⟨code.literals.size, tempCount, argumentCount⟩ bytes ∧
      (⟨code.literals.size, tempCount, argumentCount⟩ : MethodHeader).initialPc + bytes.length <
        2 ^ 64 := by
  obtain ⟨header, bytes, o, used, hheader, hbytes, rep', -, -, hmethod⟩ := exists_of_generate rep hok
  obtain ⟨rfl, hliterals, htemps, harguments⟩ := methodHeader_eq_ok hheader
  have ho := objects_put_self s method o
  exact ⟨bytes, hbytes, hmethod.hasCode rep' ho hliterals htemps harguments,
    hmethod.length_lt rep' ho⟩

end Code

end TalkMachine
