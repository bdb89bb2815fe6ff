import TalkMachine.Proofs.Code.Construction
import TalkMachine.Proofs.Code.Generation
import TalkMachine.Proofs.Heap.Allocation

/-!
# Method objects

Literals are only ever added at the end while code is built, so an index that was answered once names
its value for good (`Code.getElem?_literals_built`). The object that is generated from the code answers
everything that is asked of a method from what it was generated from (`Heap.IsMethodOf`), whatever
operations have led to the heap, and the other objects are as they were
(`Code.generate_reads_back`).
-/

namespace TalkMachine

/-! ### Literals of code that is built -/

namespace Code

variable {code code' : Code} {value : Value} {index : ℕ}

/-- The value that a step of construction looks for among the literals, if it looks for one. -/
def Action.literal? : Action → Option Value
  | .literal value | .pushLiteral value => some value
  | .pushBinding association | .storeBinding association _ => some association
  | .send selector _ => some selector
  | .pushInteger n => if signedWidth (n / 256) ≤ maxExtensions then none else Value.ofInt? n
  | _ => none

/-- An index that is answered names the value it was asked for, and literals are added at the end. -/
lemma literals_of_literal (hok : literal value code = .ok index code') :
    code'.literals[index]? = some value ∧ code.literals.toList <+: code'.literals.toList := by
  rw [literal] at hok
  split at hok
  · rename_i found hfound
    cases hok
    obtain ⟨hlt, hsame, -⟩ := Array.findIdx?_eq_some_iff_getElem.mp hfound
    exact ⟨(Array.getElem?_eq_getElem hlt).trans (congrArg some (eq_of_beq hsame)),
      List.prefix_refl _⟩
  · split at hok
    · cases hok
    · cases hok
      exact ⟨by simp, by simp⟩

/-- To look for a literal adds literals at the end at most, also when it is refused. -/
lemma prefix_literals_literal (value : Value) (code : Code) :
    code.literals.toList <+: (stateAfter (literal value code)).literals.toList := by
  cases hliteral : literal value code with
  | ok index code' => exact (literals_of_literal hliteral).2
  | error e code' =>
    rcases literal_keeps value code with ⟨_, _, hok, -⟩ | ⟨e', herror⟩
    · rw [hok] at hliteral
      cases hliteral
    · obtain ⟨-, rfl⟩ := EStateM.Result.error.inj (herror.symm.trans hliteral)
      exact List.prefix_refl _

/-- An instruction with a literal has the effect on the literals that looking for the literal has. -/
lemma literals_emit_literal (value : Value) (f : ℕ → Instruction) (code : Code) :
    (stateAfter ((do emit (f (← literal value))) code)).literals =
      (stateAfter (literal value code)).literals := by
  cases hliteral : literal value code with
  | ok index code' =>
    rw [run_bind_of_ok hliteral]
    rfl
  | error e code' => rw [run_bind_of_error hliteral, stateAfter, stateAfter]

/-- A step of construction has the effect on the literals that looking for its literal has, and none
without a literal. -/
lemma literals_apply (action : Action) (code : Code) :
    (action.apply code).literals = match action.literal? with
      | some value => (stateAfter (literal value code)).literals
      | none => code.literals := by
  cases action with
  | emit i => rfl
  | jump kind label => rfl
  | newLabel => rfl
  | bind label =>
    show (stateAfter (Code.bind label code)).literals = code.literals
    rw [Code.bind]
    split <;> rfl
  | literal value => rfl
  | pushLiteral value => exact literals_emit_literal value _ code
  | pushBinding association => exact literals_emit_literal association _ code
  | storeBinding association popping => exact literals_emit_literal association _ code
  | send selector argumentCount => exact literals_emit_literal selector _ code
  | pushInteger n =>
    simp only [Action.apply, Action.literal?, pushInteger]
    split
    · rfl
    · cases Value.ofInt? n with
      | some value => exact literals_emit_literal value _ code
      | none => rfl

/-- A step of construction adds literals at the end at most. -/
lemma prefix_literals_apply (action : Action) (code : Code) :
    code.literals.toList <+: (action.apply code).literals.toList := by
  rw [literals_apply]
  split
  · exact prefix_literals_literal _ code
  · exact List.prefix_refl _

/-- So do further steps. -/
lemma prefix_literals_built (before after : List Action) :
    (built before).literals.toList <+: (built (before ++ after)).literals.toList := by
  induction after using List.reverseRecOn with
  | nil => rw [List.append_nil]
  | append_singleton after action ih =>
    rw [← List.append_assoc, built_append_singleton]
    exact ih.trans (prefix_literals_apply action _)

/-- An index that is answered while code is built names its value in the code that is built. -/
theorem getElem?_literals_built {before after : List Action} {action : Action}
    (hliteral : action.literal? = some value)
    (hok : literal value (built before) = .ok index code') :
    (built (before ++ action :: after)).literals[index]? = some value := by
  have hafter : (built (before ++ [action])).literals = code'.literals := by
    rw [built_append_singleton, literals_apply, hliteral]
    simp only [hok, stateAfter]
  have hfound : (built (before ++ [action])).literals.toList[index]? = some value := by
    rw [hafter, Array.getElem?_toList]
    exact (literals_of_literal hok).1
  obtain ⟨added, hadded⟩ := prefix_literals_built (before ++ [action]) after
  obtain ⟨hlt, -⟩ := List.getElem?_eq_some_iff.mp hfound
  rw [← Array.getElem?_toList, List.append_cons, ← hadded, List.getElem?_append_left hlt, hfound]

end Code

/-! ### What is asked of a method -/

namespace Heap

variable {h h' : Heap} {method : Value} {header : MethodHeader} {bytes : List UInt8}
  {classIndex : ℕ}

/-- Whether all that is asked of a method is answered from its header, its literals and the bytes of
its code. -/
structure IsMethodOf (h : Heap) (method : Value) (header : MethodHeader) (literals : Array Value)
    (bytes : List UInt8) (classIndex : ℕ) : Prop where
  isCompiledMethod : h.isCompiledMethod method = true
  classIndexOf : h.classIndexOf method = .ok classIndex
  methodHeader : h.methodHeader method = .ok header
  methodLiteral : ∀ i, h.methodLiteral method i = match literals[i]? with
    | some value => .ok value
    | none => .error (.indexOutOfBounds method i literals.size)
  methodCode : h.methodCode method = .ok bytes
  byteSize : h.byteSize method = .ok (header.initialPc + bytes.length)

/-- An object that is a method answers as one. -/
theorem isMethodOf_of_object {s : ObjectMap} {o : Object} {literals : Array Value}
    (rep : h.Represents s) (ho : s.objects method = some o)
    (hmethod : Code.IsMethod o method header literals.toList bytes classIndex)
    (hcount : header.literalCount = literals.size) (hliterals : header.literalCount < 2 ^ 16)
    (htemps : header.tempCount < 2 ^ 8) (harguments : header.argumentCount < 2 ^ 8) :
    h.IsMethodOf method header literals bytes classIndex := by
  have hshows := (rep.holds ho).shows rep.usedBytes_lt
  have hcode := hmethod.hasCode rep ho hliterals htemps harguments
  have hsize : h.byteSize method = .ok (header.initialPc + bytes.length) := by
    rw [(rep.holds ho).byteSize_eq rep.usedBytes_lt, hmethod.format, hmethod.byteCount]
    rfl
  refine ⟨hcode.compiled, hmethod.classIndex ▸ hshows.classIndex, hcode.reads, fun i => ?_, ?_,
    hsize⟩
  · rw [methodLiteral, hcode.reads]
    simp only [Bind.bind, Except.bind, hcount]
    cases hvalue : literals[i]? with
    | none =>
      rw [if_pos (Array.getElem?_eq_none_iff.mp hvalue)]
      rfl
    | some value =>
      obtain ⟨hlt, -⟩ := Array.getElem?_eq_some_iff.mp hvalue
      rw [if_neg (Nat.not_le.mpr hlt)]
      exact (hshows.fetch (1 + i)).trans
        (hmethod.literal ((Array.getElem?_toList ..).trans hvalue))
  · have hbytes := hcode.bytesFrom 0 bytes.length
    rw [Nat.add_zero, List.drop_zero, List.take_length] at hbytes
    rw [methodCode, hcode.reads]
    simp only [Bind.bind, Except.bind, hsize]
    rw [if_neg (by omega), Nat.add_sub_cancel_left]
    exact hbytes

/-- An object that two heaps hold alike is kept from one to the other. -/
lemma Keeps.of_holds {o : Object} (hbounded : h.Bounded) (hbounded' : h'.Bounded)
    (hold : h.Holds method.raw.toNat o) (hold' : h'.Holds method.raw.toNat o) :
    Keeps method h h' := by
  have hshows := hold.shows hbounded.usedBytes_lt
  have hshows' := hold'.shows hbounded'.usedBytes_lt
  exact ⟨hshows'.format.trans hshows.format.symm,
    fun index => (hshows'.fetch index).trans (hshows.fetch index).symm⟩

end Heap

/-! ### Generating -/

namespace Code

variable {h h' : Heap} {method : Value}

/-- The size of the object of a method: a word for its header and for each literal, and the words of
its code. -/
lemma slots_eq (header : MethodHeader) (bytes : List UInt8) :
    1 + header.literalCount + (bytes.length + 7) / 8 =
      ObjectFormat.slotsFor .compiledMethod (header.initialPc + bytes.length) := by
  have hpc : header.initialPc = 8 * (1 + header.literalCount) := rfl
  rw [ObjectFormat.slotsFor, show ObjectFormat.divisor .compiledMethod = 8 from rfl]
  omega

/-- A generated method answers as one, whatever the heap. -/
lemma isMethodOf_of_generate (hbounded : h.Bounded) {code : Code}
    {classIndex argumentCount tempCount : ℕ}
    (hok : code.generate classIndex argumentCount tempCount h = .ok method h') :
    ∃ header bytes, code.methodHeader argumentCount tempCount = .ok header ∧
      code.assemble = .ok bytes ∧ h'.IsMethodOf method header code.literals bytes classIndex := by
  obtain ⟨header, bytes, o, used, hheader, hbytes, rep', -, -, hmethod⟩ :=
    exists_of_generate hbounded.represents_unpopulated hok
  obtain ⟨hcounts, hliterals, htemps, harguments⟩ := methodHeader_eq_ok hheader
  refine ⟨header, bytes, hheader, hbytes, ?_⟩
  rw [hcounts] at hmethod ⊢
  exact Heap.isMethodOf_of_object rep' (ObjectMap.objects_put_self _ method o) hmethod rfl
    hliterals htemps harguments

/-- To generate a method leaves each object as it was that the heap holds. -/
lemma holds_of_generate (hbounded : h.Bounded) {code : Code}
    {classIndex argumentCount tempCount : ℕ}
    (hok : code.generate classIndex argumentCount tempCount h = .ok method h') {name : Value}
    {o : Object} (hold : h.Holds name.raw.toNat o) : h'.Holds name.raw.toNat o := by
  obtain ⟨_, _, o', used, -, -, rep', hnone, -⟩ :=
    exists_of_generate (hbounded.represents_put hold) hok
  have hfollows := ObjectMap.follows_put_of_none hnone o' used
  exact rep'.holds (hfollows.same (ObjectMap.objects_put_self _ name o) nofun)

/-- A method is generated just when the code is not turned down and there is room for its object. -/
lemma exists_generate_iff (hbounded : h.Bounded) {code : Code}
    {classIndex argumentCount tempCount : ℕ} :
    (∃ method h', code.generate classIndex argumentCount tempCount h = .ok method h') ↔
      ∃ header bytes, code.methodHeader argumentCount tempCount = .ok header ∧
        code.assemble = .ok bytes ∧ classIndex ≤ Header.maxClassIndex ∧
        h.usedBytes + Heap.objectSize
          (ObjectFormat.slotsFor .compiledMethod (header.initialPc + bytes.length)) ≤ h.limit := by
  have hallocates : ∀ size,
      (∃ object h', Heap.allocate 0 size .compiledMethod classIndex none h = .ok object h') ↔
        classIndex ≤ Header.maxClassIndex ∧
          h.usedBytes + Heap.objectSize (ObjectFormat.slotsFor .compiledMethod size) ≤ h.limit := by
    intro size
    rw [hbounded.exists_allocate_iff, Nat.zero_add]
    simp [ObjectFormat.admits]
  rcases generate_cases hbounded.represents_unpopulated code classIndex argumentCount tempCount with
    ⟨e, herror, hrefused⟩ |
    ⟨header, bytes, method, h', h₁, o, used, hheader, hbytes, hallocate, hok, -⟩
  · constructor
    · rintro ⟨method, h', hok⟩
      rw [herror] at hok
      cases hok
    · rintro ⟨header, bytes, hheader, hbytes, hroom⟩
      obtain ⟨method, h₁, hallocate⟩ := (hallocates _).mpr hroom
      obtain ⟨e, hrefuse⟩ := hrefused header bytes hheader hbytes
      rw [hrefuse] at hallocate
      cases hallocate
  · exact ⟨fun _ => ⟨header, bytes, hheader, hbytes, (hallocates _).mp ⟨method, h₁, hallocate⟩⟩,
      fun _ => ⟨method, h', hok⟩⟩

/-- On every heap that operations lead to, and for all code that can be built, a generated method
answers as one from the header that was asked for, the literals in order and the assembled bytes; each
index of a literal that was answered while the code was built names the value it was asked for; and
the other objects are as they were. Nothing changes when the method is refused. It is generated
exactly when the code is not turned down, the class index has 22 bits and the words of the object are
left. -/
theorem generate_reads_back {limit : ℕ} (hlimit : limit < 2 ^ 64) (hreached : h.Reached limit)
    (actions : List Action) (classIndex argumentCount tempCount : ℕ) :
    (∀ method h', (built actions).generate classIndex argumentCount tempCount h = .ok method h' →
      ∃ header bytes, (built actions).methodHeader argumentCount tempCount = .ok header ∧
        (built actions).assemble = .ok bytes ∧
        h'.IsMethodOf method header (built actions).literals bytes classIndex ∧
        (∀ before action after value index code, actions = before ++ action :: after →
          action.literal? = some value → literal value (built before) = .ok index code →
          h'.methodLiteral method index = .ok value) ∧
        ∀ (name : Value) (o : Object), h.Holds name.raw.toNat o → h'.Holds name.raw.toNat o) ∧
    (∀ e h', (built actions).generate classIndex argumentCount tempCount h = .error e h' →
      h' = h) ∧
    ((∃ method h',
        (built actions).generate classIndex argumentCount tempCount h = .ok method h') ↔
      ∃ header bytes slots, (built actions).methodHeader argumentCount tempCount = .ok header ∧
        (built actions).assemble = .ok bytes ∧
        slots = 1 + header.literalCount + (bytes.length + 7) / 8 ∧ classIndex ≤ 0x3fffff ∧
        h.usedBytes + 8 * ((if slots < 255 then 1 else 2) + slots) ≤ h.limit) := by
  obtain ⟨hbounded, -⟩ := hreached.bounded hlimit
  refine ⟨fun method h' hok => ?_, fun e h' herror => ?_, ?_⟩
  · obtain ⟨header, bytes, hheader, hbytes, hmethod⟩ := isMethodOf_of_generate hbounded hok
    refine ⟨header, bytes, hheader, hbytes, hmethod, ?_,
      fun name o hold => holds_of_generate hbounded hok hold⟩
    rintro before action after value index code rfl hliteral hindex
    rw [hmethod.methodLiteral, getElem?_literals_built hliteral hindex]
  · rcases generate_cases hbounded.represents_unpopulated (built actions) classIndex argumentCount
      tempCount with ⟨e', herror', -⟩ | ⟨_, _, _, _, _, _, _, -, -, -, hok, -⟩
    · rw [herror'] at herror
      exact (EStateM.Result.error.inj herror).2.symm
    · rw [hok] at herror
      cases herror
  · rw [exists_generate_iff hbounded]
    constructor
    · rintro ⟨header, bytes, hheader, hbytes, hclass, hroom⟩
      rw [← slots_eq, Heap.objectSize_eq] at hroom
      exact ⟨header, bytes, _, hheader, hbytes, rfl, hclass, hroom⟩
    · rintro ⟨header, bytes, _, hheader, hbytes, rfl, hclass, hroom⟩
      rw [← Heap.objectSize_eq, slots_eq] at hroom
      exact ⟨header, bytes, hheader, hbytes, hclass, hroom⟩

/-- Code that pushes a literal, then sends a selector with the same literal as its argument. -/
def repeatedLiteral : List Action :=
  [.pushLiteral (Value.ofInt 7), .pushLiteral (Value.ofInt 7), .send (Value.ofInt 8) 1,
    .emit (.return .top)]

/-- The literal that is pushed twice is kept once, and both instructions name it. -/
theorem generate_repeatedLiteral : (1024 : ℕ) < 2 ^ 64 ∧ (Heap.new 1024).Reached 1024 ∧
    ∃ method h', (built repeatedLiteral).generate 9 1 0 (Heap.new 1024) = .ok method h' ∧
      h'.IsMethodOf method ⟨2, 0, 1⟩ #[Value.ofInt 7, Value.ofInt 8] [32, 32, 145, 92] 9 ∧
      h'.methodLiteral method 0 = .ok (Value.ofInt 7) := by
  have hreached : (Heap.new 1024).Reached 1024 := .new
  have hassemble : (built repeatedLiteral).assemble = .ok [32, 32, 145, 92] := by decide +kernel
  have hliterals : (built repeatedLiteral).literals = #[Value.ofInt 7, Value.ofInt 8] := by
    decide +kernel
  have hcounts : (built repeatedLiteral).methodHeader 1 0 = .ok ⟨2, 0, 1⟩ := by decide +kernel
  obtain ⟨hread, -, hiff⟩ := generate_reads_back (by decide) hreached repeatedLiteral 9 1 0
  obtain ⟨method, h', hok⟩ :=
    hiff.mpr ⟨⟨2, 0, 1⟩, [32, 32, 145, 92], 4, hcounts, hassemble, by decide, by decide, by decide⟩
  obtain ⟨header, bytes, hheader, hbytes, hmethod, hindex, -⟩ := hread method h' hok
  obtain rfl := Except.ok.inj (hassemble.symm.trans hbytes)
  obtain rfl := Except.ok.inj (hcounts.symm.trans hheader)
  rw [hliterals] at hmethod
  have hfound : (built [.pushLiteral (Value.ofInt 7)]).literals.findIdx?
      (fun other => other == Value.ofInt 7) = some 0 := by decide +kernel
  have hagain : literal (Value.ofInt 7) (built [.pushLiteral (Value.ofInt 7)]) =
      .ok 0 (built [.pushLiteral (Value.ofInt 7)]) := by
    rw [literal, hfound]
  exact ⟨by decide, hreached, method, h', hok, hmethod, hindex _ _ _ _ _ _ rfl rfl hagain⟩

end Code

end TalkMachine
