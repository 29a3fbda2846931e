import TaskRunner.Number.Decimal

/-!
# Shortest decimal of a number

The reals that round to a number form an interval around it. `shortest` goes through the decimal
grids `10 ^ p`, coarsest first, and takes the first grid that has a point in the interval: the
number then has the fewest digits that read back. Of two points the nearer is taken, and of two
equally near the one with the even last digit.
-/
namespace TaskRunner.Number

/-- A decimal `coefficient · 10 ^ power`. -/
structure Decimal where
  coefficient : Nat
  power : Int
deriving DecidableEq, Repr

/-- The interval of reals that round to a number, in units of `2 ^ unit`. Its ends belong to it
exactly when the mantissa is even. -/
structure Interval where
  low : Nat
  middle : Nat
  high : Nat
  unit : Int
  closed : Bool
deriving DecidableEq, Repr

/-- The gap below a power of two is half the gap above it, except at the least exponent. -/
def interval (mantissa : Nat) (exponent : Int) : Interval :=
  let below := if mantissa = 1 <<< 52 ∧ -1074 < exponent then 1 else 2
  { low := 4 * mantissa - below
    middle := 4 * mantissa
    high := 4 * mantissa + 2
    unit := exponent - 2
    closed := mantissa % 2 = 0 }

/-- Factors that bring `n · 10 ^ power` and `m · 2 ^ unit` to whole numbers of one scale. -/
def decimalFactor (power unit : Int) : Nat := Nat.pow 10 power.toNat <<< (-unit).toNat

def binaryFactor (power unit : Int) : Nat := Nat.pow 10 (-power).toNat <<< unit.toNat

/-- Whether `n · 10 ^ power` lies in the interval. -/
def Interval.holds (i : Interval) (power : Int) (n : Nat) : Bool :=
  let v := n * decimalFactor power i.unit
  let lo := i.low * binaryFactor power i.unit
  let hi := i.high * binaryFactor power i.unit
  if i.closed then lo ≤ v && v ≤ hi else lo < v && v < hi

/-- The better of the two grid points around the middle, if one lies in the interval. -/
def Interval.gridPoint (i : Interval) (power : Int) : Option Nat :=
  let den := decimalFactor power i.unit
  let num := i.middle * binaryFactor power i.unit
  let down := num / den
  let up := down + 1
  match i.holds power down, i.holds power up with
  | true, true => some (roundDiv num den)
  | true, false => some down
  | false, true => some up
  | false, false => none

/-- Searches `count` grids from `10 ^ power` downwards. -/
def Interval.search (i : Interval) : Nat → Int → Decimal
  | 0, power => ⟨0, power⟩
  | count + 1, power =>
    match i.gridPoint power with
    | some n => ⟨n, power⟩
    | none => i.search count (power - 1)

/-- A power of ten above the whole interval, so that no coarser grid has a point in it. The interval
is below `2 ^ size`, and `30103 / 100000` is just above the decimal logarithm of two. -/
def Interval.coarsest (i : Interval) : Int :=
  let size : Int := (i.high.log2 : Int) + 1 + i.unit
  size * 30103 / 100000 + 2

/-- The first grid with a point in the interval is never finer than `10 ^ -324`. -/
def shortest (mantissa : Nat) (exponent : Int) : Decimal :=
  let i := interval mantissa exponent
  i.search 640 i.coarsest

end TaskRunner.Number
