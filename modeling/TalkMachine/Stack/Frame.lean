import TalkMachine.Object.Header
import TalkMachine.Stack

/-!
# Frames

A frame is what a running method keeps on the stack. At these distances in bytes from the frame
pointer it has, for `n` arguments:

* `16 + 8 * n`: the receiver, pushed by the caller;
* `16 + 8 * (n - 1 - i)`: argument `i`, pushed by the caller;
* `8`: the program counter to return to, zero for a frame that ends the run;
* `0`: the frame pointer of the caller;
* `-8`: the method;
* `-16`: the metadata;
* `-24`: the context;
* `-32`: the receiver again;
* `-40 - 8 * j`: temporary `j`.
-/

namespace TalkMachine

/-! ### Metadata -/

/-- What a frame notes of itself. -/
structure FrameMetadata where
  argumentCount : Nat
  isBlock : Bool
  hasContext : Bool
deriving DecidableEq, Repr

namespace FrameMetadata

/-- The metadata of a method with so many arguments. -/
def ofArgumentCount (count : Nat) : FrameMetadata :=
  ⟨count, false, false⟩

/-- The metadata as a word: the argument count in the lowest byte, the flags in the next two. -/
def pack (metadata : FrameMetadata) : UInt64 :=
  UInt64.ofNat (metadata.argumentCount % 256 + metadata.isBlock.toNat * 0x100 +
    metadata.hasContext.toNat * 0x10000)

/-- The metadata that a word stands for. A flag is set if its byte is not zero. -/
def unpack (word : UInt64) : FrameMetadata :=
  ⟨word.toNat % 256, word.toNat / 0x100 % 256 != 0, word.toNat / 0x10000 % 256 != 0⟩

/-- The flags as two bits. -/
def flagBits (metadata : FrameMetadata) : Nat :=
  metadata.isBlock.toNat + 2 * metadata.hasContext.toNat

/-- The fields of the metadata. -/
def describe (metadata : FrameMetadata) : String :=
  "FrameMetadata \x7b arg_count: " ++ toString metadata.argumentCount ++ ", flags: FrameFlags(" ++
    describeFlags ((if metadata.isBlock then ["IS_BLOCK"] else []) ++
      (if metadata.hasContext then ["HAS_CONTEXT"] else [])) ++ ") \x7d"

end FrameMetadata

/-! ### Fields -/

namespace Frame

/-- Distance of the first argument of a frame with one argument. -/
def firstArgument : Int := 16
/-- Distance of the program counter to return to. -/
def returnPc : Int := 8
/-- Distance of the method. -/
def method : Int := -8
/-- Distance of the metadata. -/
def metadata : Int := -16
/-- Distance of the context. -/
def thisContext : Int := -24
/-- Distance of the receiver. -/
def receiver : Int := -32
/-- Distance of the first temporary. -/
def firstTemp : Int := -40

end Frame

namespace Stack

/-- The address at a distance from the frame pointer. It must be a word. -/
def frameAddress (s : Stack) (distance : Int) : Except StackError Nat :=
  let address := s.fp + distance
  if 0 ≤ address ∧ address < 0x1_0000_0000_0000_0000 then .ok address.toNat else .error .underflow

/-- The word at a distance from the frame pointer. -/
def frameWord (s : Stack) (distance : Int) : Except StackError UInt64 := do
  s.read (← s.frameAddress distance)

/-- The value at a distance from the frame pointer. -/
def frameValue (s : Stack) (distance : Int) : Except StackError Value := do
  s.readValue (← s.frameAddress distance)

/-- The method of the frame. -/
def frameMethod (s : Stack) : Except StackError Value :=
  s.frameValue Frame.method

/-- The metadata of the frame. -/
def frameMetadata (s : Stack) : Except StackError FrameMetadata := do
  return FrameMetadata.unpack (← s.frameWord Frame.metadata)

/-- The receiver of the frame. -/
def frameReceiver (s : Stack) : Except StackError Value :=
  s.frameValue Frame.receiver

/-- The program counter that the frame returns to. -/
def frameReturnPc (s : Stack) : Except StackError Nat := do
  return (← s.frameWord Frame.returnPc).toNat

/-- The distance of `count` words, as a signed word. It turns negative where its bytes reach half of
the range of words. -/
def wordDistance (count : Nat) : Int :=
  Int.bmod (wordSize * count : Nat) 0x1_0000_0000_0000_0000

/-- The address of an argument in a frame with `argumentCount` of them. -/
def argumentAddress (s : Stack) (argumentCount index : Nat) : Except StackError Nat :=
  s.frameAddress (Frame.firstArgument + wordDistance (argumentCount - 1 - index))

/-- The address of a temporary. The first indices name the arguments. -/
def tempAddress (s : Stack) (argumentCount tempCount index : Nat) : Except StackError Nat :=
  if index < argumentCount then s.argumentAddress argumentCount index
  else if tempCount ≤ index - argumentCount then .error (.tempOutOfRange (UInt32.ofNat index))
  else s.frameAddress (Frame.firstTemp - wordDistance (index - argumentCount))

end Stack

end TalkMachine
