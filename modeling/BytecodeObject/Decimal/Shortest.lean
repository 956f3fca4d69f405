import BytecodeObject.Double

set_option autoImplicit false

/-!
# Shortest decimals

The decimal text of a double needs no more digits than it takes to tell the double from its two
neighbours. The digits are found in exact arithmetic: on ever finer decimal grids the two grid
points around the value are tried, and the first grid with a point that rounds to the value wins.
-/

namespace BytecodeObject

/-- A positive decimal number: `digits * 10 ^ exponent`. -/
structure Decimal where
  digits : Nat
  exponent : Int
  deriving DecidableEq, Repr

namespace Decimal

/-- The numbers that round to a double, in quarters of the unit `2 ^ power`, with the double itself in
the middle. The bounds belong to them when the significand is even. -/
structure Interval where
  low : Nat
  middle : Nat
  high : Nat
  closed : Bool
  power : Int

/-- The interval of a finite double other than zero. Just below a power of two the doubles lie
twice as close as just above it. -/
def Interval.ofDouble (double : Double) : Interval :=
  let (significand, power) := double.magnitude
  let below := if double.fractionField = 0 && 1 < double.exponentField then 1 else 2
  { low := 4 * significand - below
    middle := 4 * significand
    high := 4 * significand + 2
    closed := significand % 2 == 0
    power }

/-- Two numbers whose quotient is a quarter of `2 ^ power`, counted in steps of `10 ^ exponent`. -/
def quarterSteps (power exponent : Int) : Nat × Nat :=
  (Nat.pow 2 (power - 2).toNat * Nat.pow 10 (-exponent).toNat,
    Nat.pow 10 exponent.toNat * Nat.pow 2 (2 - power).toNat)

/-- The point on the grid of multiples of `10 ^ exponent` that rounds to the double and is nearest
to it. Of two points that are equally near the even one is taken. -/
def onGrid? (interval : Interval) (exponent : Int) : Option Nat :=
  let (numerator, denominator) := quarterSteps interval.power exponent
  let inside (point : Nat) : Bool :=
    let place := point * denominator
    if interval.closed then
      interval.low * numerator ≤ place && place ≤ interval.high * numerator
    else
      interval.low * numerator < place && place < interval.high * numerator
  let below := interval.middle * numerator / denominator
  let pastBelow := interval.middle * numerator % denominator
  match inside below, inside (below + 1) with
  | false, false => none
  | true, false => some below
  | false, true => some (below + 1)
  | true, true =>
      if 2 * pastBelow < denominator then some below
      else if denominator < 2 * pastBelow then some (below + 1)
      else if below % 2 = 0 then some below
      else some (below + 1)

def search (interval : Interval) : (limit : Nat) → (exponent : Int) → Decimal
  | 0, exponent => ⟨0, exponent⟩
  | limit + 1, exponent =>
      match onGrid? interval exponent with
      | some digits => ⟨digits, exponent⟩
      | none => search interval limit (exponent - 1)

/-- A power of ten above the number in the middle of an interval. The factor is slightly below the
decimal logarithm of two. -/
def gridAbove (interval : Interval) : Int :=
  Int.fdiv ((interval.middle.log2 + interval.power - 2) * 1233) 4096 + 2

/-- The shortest decimal that rounds to the magnitude of a finite double other than zero, and of the
shortest ones the nearest. Seventeen digits always suffice, and the search starts at most three
grids above the first digit. The digits do not end in zero: such a point lies on the grid before,
too. -/
def shortest (double : Double) : Decimal :=
  let interval := Interval.ofDouble double
  search interval 20 (gridAbove interval)

end Decimal

end BytecodeObject
