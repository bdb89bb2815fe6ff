/-!
# Shortest decimals

A binary floating-point number is read back from any decimal that lies in its rounding interval.
This module finds the decimal with the fewest digits that does, and of those the one nearest to the
number; where two are equally near, the larger.

All arithmetic is on natural numbers. The number is `significand * 2 ^ exponent`; numbers are
compared in quarters of its last place, so that the ends of the rounding interval are whole.
-/

namespace TalkMachine

/-- A positive decimal fraction `digits * 10 ^ exponent`. -/
structure Decimal where
  digits : Nat
  exponent : Int
deriving DecidableEq, Repr

/-- A positive binary fraction `significand * 2 ^ exponent`. -/
structure Binary where
  significand : Nat
  exponent : Int
deriving DecidableEq, Repr

namespace Binary

/-- Number of bits of a double's significand. -/
def precision : Nat := 53

/-- Exponent of the smallest double. -/
def minExponent : Int := -1074

/-- The magnitude of the finite double with these bits. -/
def ofBits (bits : UInt64) : Binary :=
  let fraction := bits.toNat % 0x10_0000_0000_0000
  let biased := bits.toNat / 0x10_0000_0000_0000 % 0x800
  if biased = 0 then ⟨fraction, minExponent⟩
  else ⟨0x10_0000_0000_0000 + fraction, minExponent + (biased - 1 : Nat)⟩

/-- Quarters of the last place from the number down to the end of its rounding interval. The
interval is narrower below a power of two, where the spacing halves. -/
def gapBelow (x : Binary) : Nat :=
  if x.significand = Nat.pow 2 (precision - 1) ∧ minExponent < x.exponent then 1 else 2

/-- Factors that bring `c * 10 ^ e` and quarters of the last place of `x` to one unit:
`c * 10 ^ e` lies below `n` quarters iff `c * scale.1 < n * scale.2`. -/
def scale (x : Binary) (e : Int) : Nat × Nat :=
  (Nat.pow 10 e.toNat * Nat.pow 2 (2 - x.exponent).toNat,
    Nat.pow 10 (-e).toNat * Nat.pow 2 (x.exponent - 2).toNat)

/-- Whether `c * 10 ^ e` lies in the rounding interval of `x`, whose ends belong to it when the
significand is even. -/
def readsBack (x : Binary) (c : Nat) (e : Int) : Bool :=
  let (grid, quarter) := x.scale e
  let low := (4 * x.significand - x.gapBelow) * quarter
  let high := (4 * x.significand + 2) * quarter
  if x.significand % 2 = 0 then low ≤ c * grid ∧ c * grid ≤ high
  else low < c * grid ∧ c * grid < high

/-- The multiple of `10 ^ e` nearest to `x` among its two neighbours that read back, if any does. -/
def onGrid (x : Binary) (e : Int) : Option Nat :=
  let (grid, quarter) := x.scale e
  let exact := 4 * x.significand * quarter
  let below := exact / grid
  match x.readsBack below e, x.readsBack (below + 1) e with
  | true, true =>
    some (if exact - below * grid < (below + 1) * grid - exact then below else below + 1)
  | true, false => some below
  | false, true => some (below + 1)
  | false, false => none

/-- The multiple of `10 ^ e` that `x` is, where `e` is neither positive nor above the exponent of
`x`. -/
def exactOnGrid (x : Binary) (e : Int) : Nat :=
  x.significand * Nat.pow 2 (x.exponent - e).toNat * Nat.pow 5 (-e).toNat

/-- Tries grids of falling exponent, `steps` of them, and then takes the number itself on the next.
-/
def search (x : Binary) : (steps : Nat) → (e : Int) → Decimal
  | 0, e => ⟨x.exactOnGrid e, e⟩
  | steps + 1, e =>
    match x.onGrid e with
    | some c => ⟨c, e⟩
    | none => x.search steps (e - 1)

/-- The shortest decimal that reads back, nearest to `x` among the shortest. The search starts above
the magnitude of `x` and ends on the first grid that holds `x` for sure. -/
def shortest (x : Binary) : Decimal :=
  let magnitude := x.exponent + (Nat.log2 x.significand + 1 : Nat)
  let start := magnitude.toNat / 3 + 1
  x.search (start + (-x.exponent).toNat) start

end Binary

end TalkMachine
