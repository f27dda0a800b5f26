import Planimeter.Binary.Basic
/-!
# Arithmetic on binary data

Each operation takes the exact result in units and rounds it once. What has no exact result is told
apart first: a NaN operand is passed on, the first of two, and an invalid operation gives the
negative NaN without a payload. Invalid are a sum of infinities of opposite signs, zero times
infinity, and the square root of a negative number.
-/
namespace Planimeter

/-- The greatest number whose square is at most `n`. -/
def floorSqrt (n : Nat) : Nat :=
  if h : n = 0 then 0
  else
    let root := 2 * floorSqrt (n / 4)
    if (root + 1) * (root + 1) ≤ n then root + 1 else root
termination_by n
decreasing_by omega

namespace Binary

variable {F : Format}

def invalid : Binary F := nan true

/-- The sum; a sum of exactly zero is negative only if both terms are. -/
def add (x y : Binary F) : Binary F :=
  if x.isNaN then x.quiet
  else if y.isNaN then y.quiet
  else if x.isInfinite then
    if y.isInfinite && x.negative != y.negative then invalid else x
  else if y.isInfinite then y
  else
    let sum := x.toUnits + y.toUnits
    rounded (sum < 0 || (sum == 0 && x.negative && y.negative)) sum.natAbs 1

/-- The difference, which passes on a NaN with its own sign. -/
def sub (x y : Binary F) : Binary F := if y.isNaN then x.add y else x.add y.neg

def mul (x y : Binary F) : Binary F :=
  let negative := x.negative != y.negative
  if x.isNaN then x.quiet
  else if y.isNaN then y.quiet
  else if x.isInfinite || y.isInfinite then
    if x.isZero || y.isZero then invalid else infinite negative
  else rounded negative (F.units x.rank * F.units y.rank) (Nat.pow 2 F.scale)

/-- Half of a datum. -/
def half (x : Binary F) : Binary F :=
  if x.isNaN then x.quiet
  else if x.isInfinite then x
  else rounded x.negative (F.units x.rank) 2

/-- The square root. The root of the units is taken four times over, with a further unit of doubt
when it is not exact, so that rounding sees on which side of a tie it lies. -/
def sqrt (x : Binary F) : Binary F :=
  if x.isNaN then x.quiet
  else if x.isZero then x
  else if x.negative then invalid
  else if x.isInfinite then x
  else
    let square := 16 * (F.units x.rank * Nat.pow 2 F.scale)
    let root := floorSqrt square
    rounded false (2 * root + if root * root = square then 0 else 1) 8

end Binary

end Planimeter
