/-!
# Special selectors

The 32 selectors that can be sent without a literal. Those below 16 are arithmetic.
-/

namespace TalkMachine

/-- A selector and the number of arguments it takes. -/
structure SpecialSelector where
  name : String
  argumentCount : Nat
deriving DecidableEq, Repr

namespace SpecialSelector

/-- The special selectors, by index. -/
def all : List SpecialSelector :=
  [⟨"+", 1⟩, ⟨"-", 1⟩, ⟨"<", 1⟩, ⟨">", 1⟩, ⟨"<=", 1⟩, ⟨">=", 1⟩, ⟨"=", 1⟩, ⟨"~=", 1⟩,
   ⟨"*", 1⟩, ⟨"/", 1⟩, ⟨"\\\\", 1⟩, ⟨"@", 1⟩, ⟨"bitShift:", 1⟩, ⟨"//", 1⟩, ⟨"bitAnd:", 1⟩,
   ⟨"bitOr:", 1⟩, ⟨"at:", 1⟩, ⟨"at:put:", 2⟩, ⟨"size", 0⟩, ⟨"next", 0⟩, ⟨"nextPut:", 1⟩,
   ⟨"atEnd", 0⟩, ⟨"==", 1⟩, ⟨"class", 0⟩, ⟨"~~", 1⟩, ⟨"value", 0⟩, ⟨"value:", 1⟩, ⟨"do:", 1⟩,
   ⟨"new", 0⟩, ⟨"new:", 1⟩, ⟨"x", 0⟩, ⟨"y", 0⟩]

/-- The special selectors, for access by index. -/
def table : Array SpecialSelector := all.toArray

/-! ### Indices of the selectors that need no send -/

/-- Index of `+`. -/
def add : Nat := 0
/-- Index of `-`. -/
def subtract : Nat := 1
/-- Index of `<`. -/
def less : Nat := 2
/-- Index of `>`. -/
def greater : Nat := 3
/-- Index of `<=`. -/
def lessEqual : Nat := 4
/-- Index of `>=`. -/
def greaterEqual : Nat := 5
/-- Index of `=`. -/
def equal : Nat := 6
/-- Index of `~=`. -/
def notEqual : Nat := 7
/-- Index of `*`. -/
def multiply : Nat := 8
/-- Index of `==`. -/
def identical : Nat := 22
/-- Index of `class`. -/
def classOf : Nat := 23

end SpecialSelector

end TalkMachine
