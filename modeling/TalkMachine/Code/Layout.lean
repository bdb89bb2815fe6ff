import TalkMachine.Code.Node

/-!
# Layout of code

A layout gives every node a position and a size, and every label a position. It starts from the
greatest sizes. Each round then shrinks every node to the least size it could have where things now
lie, and the rounds go on while the total falls. No size ever grows.
-/

namespace TalkMachine

/-- Positions and sizes of nodes, and positions of labels. -/
structure Layout where
  positions : Array Nat
  sizes : Array Nat
  labels : LabelPositions
  /-- The sum of the sizes. -/
  total : Nat
deriving DecidableEq, Repr

namespace Layout

/-- The layout of no nodes, with `labelCount` labels that have no place yet. -/
def empty (labelCount : Nat) : Layout :=
  ⟨#[], #[], Array.replicate labelCount none, 0⟩

/-- Puts a node of the given size behind the nodes so far. -/
def extend (layout : Layout) (node : Node) (size : Nat) : Layout :=
  { positions := layout.positions.push layout.total
    sizes := layout.sizes.push size
    labels :=
      match node with
      | .bind label => layout.labels.setIfInBounds label.number (some layout.total)
      | _ => layout.labels
    total := layout.total + size }

/-- Lays out nodes of the given sizes one behind the other. -/
def ofSizes (labelCount : Nat) (nodes : Array Node) (sizes : Array Nat) : Layout :=
  (nodes.zip sizes).foldl (fun layout (node, size) => layout.extend node size) (empty labelCount)

/-- The sizes after one round of shrinking. -/
def shrink (layout : Layout) (nodes : Array Node) : Except AssemblyError (Array Nat) :=
  (nodes.zip (layout.positions.zip layout.sizes)).mapM fun (node, position, size) => do
    return min size (← node.betterSize position layout.labels)

/-- Shrinks while that lowers the total. -/
def settle (labelCount : Nat) (nodes : Array Node) (layout : Layout) :
    Except AssemblyError Layout :=
  match layout.shrink nodes with
  | .error e => .error e
  | .ok sizes =>
    let next := ofSizes labelCount nodes sizes
    if next.total < layout.total then settle labelCount nodes next else .ok layout
termination_by layout.total

/-- The final layout of nodes with `labelCount` labels. -/
def ofNodes (labelCount : Nat) (nodes : Array Node) : Except AssemblyError Layout := do
  let sizes ← nodes.mapM Node.maxSize
  settle labelCount nodes (ofSizes labelCount nodes sizes)

/-- Puts one byte behind those written so far, of which there may be `limit`. -/
def emitByte (limit : Nat) (out : Array UInt8) (byte : UInt8) :
    Except AssemblyError (Array UInt8) :=
  if limit ≤ out.size then .error (.encodingOverrun out.size) else .ok (out.push byte)

/-- Writes nodes, each with its position and size, behind the bytes in `out`. A node that does not
begin and end where it lies in the layout is refused. -/
def emit (layout : Layout) :
    List (Node × Nat × Nat) → Array UInt8 → Except AssemblyError (Array UInt8)
  | [], out => .ok out
  | (node, position, size) :: rest, out => do
    let start := out.size
    if start ≠ position then throw (.encodingOverrun start)
    let bytes ← node.encode start size layout.labels
    let out ← bytes.foldlM (emitByte layout.total) out
    if out.size - start ≠ size then throw (.encodingOverrun out.size)
    layout.emit rest out

/-- The bytes of nodes that lie as the layout says. -/
def encode (layout : Layout) (nodes : Array Node) : Except AssemblyError (List UInt8) := do
  let out ← layout.emit (nodes.zip (layout.positions.zip layout.sizes)).toList #[]
  return out.toList

end Layout

end TalkMachine
