import TalkMachine.Heap

/-!
# Compiled methods

A compiled method is an object whose body is a string of bytes. Its word 0 is the method header, a
small integer; the literals follow, a word each; the rest is code. Program counters are byte offsets
into the body, so the code begins at the initial program counter.
-/

namespace TalkMachine

/-- What a method header says. -/
structure MethodHeader where
  literalCount : Nat
  /-- The number of temporaries, without the arguments. -/
  tempCount : Nat
  argumentCount : Nat
deriving DecidableEq, Repr

namespace MethodHeader

/-- The header as a number: from the lowest bit 16 bits of literals, 8 of temporaries, 8 of
arguments. -/
def pack (header : MethodHeader) : Nat :=
  header.literalCount + header.tempCount * 0x10000 + header.argumentCount * 0x100_0000

/-- The header that a number stands for. Higher bits are ignored. -/
def unpack (word : Int) : MethodHeader :=
  ⟨(word % 0x10000).toNat, (word / 0x10000 % 0x100).toNat, (word / 0x100_0000 % 0x100).toNat⟩

/-- The offset of the first byte of code. -/
def initialPc (header : MethodHeader) : Nat :=
  wordSize * (1 + header.literalCount)

end MethodHeader

namespace Heap

/-- Whether a value is an object with the format of a compiled method. -/
def isCompiledMethod (h : Heap) (value : Value) : Bool :=
  match h.format value with
  | .ok (.compiledMethod, _) => true
  | _ => false

/-- The header of a method. -/
def methodHeader (h : Heap) (method : Value) : Except HeapError MethodHeader := do
  let word ← h.fetch method 0
  match word.toInt? with
  | some n => return MethodHeader.unpack n
  | none => throw (.corruptHeader method)

/-- A literal of a method. -/
def methodLiteral (h : Heap) (method : Value) (index : Nat) : Except HeapError Value := do
  let count := (← h.methodHeader method).literalCount
  if count ≤ index then throw (.indexOutOfBounds method index count)
  h.fetch method (1 + index)

/-- The code of a method. -/
def methodCode (h : Heap) (method : Value) : Except HeapError (List UInt8) := do
  let start := (← h.methodHeader method).initialPc
  let size ← h.byteSize method
  if size < start then throw (.corruptHeader method)
  h.bytesFrom method start (size - start)

end Heap

end TalkMachine
