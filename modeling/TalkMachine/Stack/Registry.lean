/-!
# The registry of stacks

A machine knows the stacks in use on it. Each has an identifier that no other ever has.
-/

namespace TalkMachine

/-- The stacks in use. -/
structure StackRegistry where
  /-- The identifier given last. -/
  lastId : Nat
  /-- Identifier and size of each stack in use. -/
  live : List (Nat × Nat)
deriving DecidableEq, Repr

namespace StackRegistry

/-- No stack was ever in use. -/
def empty : StackRegistry := ⟨0, []⟩

/-- Enters a stack of this size. Answers its identifier. -/
def register (registry : StackRegistry) (size : Nat) : Nat × StackRegistry :=
  let id := registry.lastId + 1
  (id, ⟨id, (id, size) :: registry.live⟩)

/-- Takes a stack out. -/
def unregister (registry : StackRegistry) (id : Nat) : StackRegistry :=
  { registry with live := registry.live.filter (fun entry => entry.1 != id) }

/-- The number of stacks in use. -/
def count (registry : StackRegistry) : Nat :=
  registry.live.length

/-- Whether a stack is in use. -/
def contains (registry : StackRegistry) (id : Nat) : Bool :=
  registry.live.any (fun entry => entry.1 == id)

end StackRegistry

end TalkMachine
