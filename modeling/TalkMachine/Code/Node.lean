import TalkMachine.Code.Encode

/-!
# Nodes

Code under construction is a sequence of nodes: instructions, jumps to labels, and the places where
labels stand. The size of a jump depends on where it and its label come to lie.
-/

namespace TalkMachine

/-- One element of code under construction. -/
inductive Node
  | instruction (i : Instruction)
  /-- A jump to a label. -/
  | jump (kind : JumpKind) (label : Label)
  /-- The place of a label, in front of the next node. -/
  | bind (label : Label)
deriving DecidableEq, Repr

/-- Where each label stands, by its number. -/
abbrev LabelPositions := Array (Option Nat)

/-- The position of a label. -/
def LabelPositions.find (labels : LabelPositions) (label : Label) : Except AssemblyError Nat :=
  match labels.getD label.number none with
  | some position => .ok position
  | none => .error (.unboundLabel label)

namespace Node

/-- The bytes between the end of a jump of this size at `position` and its target. -/
def distance (position size target : Nat) : Int :=
  target - (position + size : Nat)

/-- The size of an instruction. -/
def instructionSize (i : Instruction) : Except AssemblyError Nat := do
  return (← i.encode).length

/-- The greatest size of a node, wherever it lies. -/
def maxSize : Node → Except AssemblyError Nat
  | instruction i => instructionSize i
  | jump _ _ => .ok Jump.maxSize
  | bind _ => .ok 0

/-- The least size of a node at `position` when the labels stand at `labels`. -/
def betterSize (position : Nat) (labels : LabelPositions) : Node → Except AssemblyError Nat
  | instruction i => instructionSize i
  | jump _ label => do
    let target ← labels.find label
    match Jump.sizes.find? (fun size => Jump.fits (distance position size target) size) with
    | some size => return size
    | none => throw (.operandOutOfRange (distance position Jump.maxSize target))
  | bind _ => .ok 0

/-- The bytes of a node of the given size at `position`. -/
def encode (position size : Nat) (labels : LabelPositions) :
    Node → Except AssemblyError (List UInt8)
  | instruction i => i.encode
  | jump kind label => do
    let target ← labels.find label
    let distance := distance position size target
    if Jump.fits distance size then Jump.encode kind distance size
    else throw (.encodingOverrun position)
  | bind _ => .ok []

end Node

end TalkMachine
