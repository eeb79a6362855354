import SchemaEvolution.Number.Decimal
import SchemaEvolution.Rule.Table

/-!
# Divisors

How the value of `multipleOf` moved, decided in double arithmetic on unit counts with a small
tolerance: the new divisor is a multiple of the old one, shares a factor with it after both are
scaled to whole numbers, or neither.
-/

namespace SchemaEvolution

namespace Divisibility

open Binary64

/-- The unit count of the double nearest to `10 ^ -n`. -/
def tenth (n : Nat) : Nat := roundUnits one (Nat.pow 10 n)

/-- How far a quotient may be from a whole number. -/
def quotientTolerance : Nat := tenth 9

/-- How far a scaled divisor may be from a whole number. -/
def wholeTolerance : Nat := tenth 6

/-- The whole number nearest to a unit count; a half goes up. -/
def nearestWhole (units : Nat) : Nat := (2 * units + one) / (2 * one)

/-- The distance of a unit count from the nearest whole number. -/
def wholeDistance (units : Nat) : Nat :=
  let whole := nearestWhole units * one
  if units ≤ whole then whole - units else units - whole

/-- Whether the quotient of two divisors is a whole number of at least one, within tolerance. -/
def isMultiple (old new : Nat) : Bool :=
  let quotient := divUnits new old
  quotient < limit && roundUnits (one - quotientTolerance) 1 ≤ quotient &&
    wholeDistance quotient < quotientTolerance

/-- A divisor after scaling, as a whole number, if it is close to one that is at most
`2 ^ 64`; that number itself is taken one lower. -/
def scaledWhole? (units factor : Nat) : Option Nat :=
  let scaled := mulUnits units (factor * one)
  let whole := nearestWhole scaled
  if scaled < limit && wholeDistance scaled < wholeTolerance && whole ≤ Decimal.wordLimit then
    some (min whole (Decimal.wordLimit - 1))
  else none

/-- Both divisors scaled by the same power of ten. -/
def scaledPair? (old new factor : Nat) : Option (Nat × Nat) := do
  return (← scaledWhole? old factor, ← scaledWhole? new factor)

/-- Both divisors scaled to whole numbers by the least power of ten that does it, up to the
ninth. -/
def wholePair? (old new : Nat) : Option (Nat × Nat) :=
  (List.range 10).findSome? fun n => scaledPair? old new (Nat.pow 10 n)

/-- How a divisor moved, told from the unit counts of the old and the new one. -/
def direction (old new : Int) : Direction :=
  if old ≤ 0 || new ≤ 0 then .noCommonFactor
  else if isMultiple old.toNat new.toNat then .multiple
  else
    match wholePair? old.toNat new.toNat with
    | some (a, b) => if 1 < Nat.gcd a b then .commonFactor else .noCommonFactor
    | none => .noCommonFactor

end Divisibility

end SchemaEvolution
