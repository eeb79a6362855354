import SchemaEvolution.Number.Decimal

/-!
# Shortest decimal text of a double

The fewest significant digits whose value rounds back to the double, and of those the nearest
to it.
-/

namespace SchemaEvolution

namespace Binary64

/-- The numbers that round to one double, in quarter units: the ends and whether they belong. -/
structure RoundingInterval where
  low : Nat
  high : Nat
  closed : Bool

/-- The interval of numbers that round to the double with these units. It reaches half way to
each neighbour, and the half way points belong to it if the significand is even. -/
def roundingInterval (units : Nat) : RoundingInterval :=
  let above := spacing units
  let below := if 1 < above && units % (above * Nat.pow 2 52) = 0 then above / 2 else above
  { low := 4 * units - 2 * below
    high := 4 * units + 2 * above
    closed := units / above % 2 = 0 }

/-- Whether `numerator / denominator` units lie in the interval. -/
def RoundingInterval.has (interval : RoundingInterval) (numerator denominator : Nat) : Bool :=
  let point := 4 * numerator
  if interval.closed then
    interval.low * denominator ≤ point && point ≤ interval.high * denominator
  else
    interval.low * denominator < point && point < interval.high * denominator

/-- The decimal exponent of the leading digit of a positive unit count. -/
def leadingExponent (units : Nat) : Int :=
  let estimate := ((units.log2 : Int) - 1074) * 30103 / 100000
  let next := estimate + 1
  let reached :=
    if 0 ≤ next then Nat.pow 10 next.toNat * one ≤ units
    else one ≤ units * Nat.pow 10 (-next).toNat
  if reached then next else estimate

/-- The point `digits * 10 ^ exponent`, in units, as a fraction. -/
def gridPoint (digits : Nat) (exponent : Int) : Nat × Nat :=
  if 0 ≤ exponent then (digits * Nat.pow 10 exponent.toNat * one, 1)
  else (digits * one, Nat.pow 10 (-exponent).toNat)

/-- The multiple of `10 ^ exponent` nearest to the units that rounds back to them. -/
def onGrid? (units : Nat) (exponent : Int) : Option Nat :=
  let (unitNumerator, unitDenominator) := gridPoint 1 exponent
  let below := units * unitDenominator / unitNumerator
  let rest := units * unitDenominator % unitNumerator
  let readsBack (digits : Nat) : Bool :=
    (roundingInterval units).has (digits * unitNumerator) unitDenominator
  let lowFirst := 2 * rest < unitNumerator || (2 * rest = unitNumerator && below % 2 = 0)
  let order := if lowFirst then [below, below + 1] else [below + 1, below]
  order.find? readsBack

/-- Significant digits and the decimal exponent of the first of them. -/
structure Digits where
  digits : List Char
  exponent : Int
  deriving DecidableEq

/-- A run of digits without the zeros it ends with. -/
def stripZeros (digits : List Char) : List Char :=
  (digits.reverse.dropWhile (· == '0')).reverse

/-- The digits for `count` and more significant places, on the first grid that reads back. There is
`fuel` for so many grids. -/
def shortestFrom (units : Nat) (leading : Int) (count : Nat) : Nat → Digits
  | 0 => { digits := ['0'], exponent := 0 }
  | fuel + 1 =>
    let exponent := leading - (count : Int) + 1
    match onGrid? units exponent with
    | some n =>
      let digits := Decimal.digits n
      { digits := stripZeros digits, exponent := exponent + (digits.length : Int) - 1 }
    | none => shortestFrom units leading (count + 1) fuel

/-- The fewest digits that read back as the double with these units, seventeen at most. Were there
none before it, the last grid of those that are tried, that of `10^-1074`, holds every double. -/
def shortest (units : Nat) : Digits :=
  if units = 0 then { digits := ['0'], exponent := 0 }
  else
    let leading := leadingExponent units
    shortestFrom units leading 1 (leading + 1075).toNat

/-- The least and the greatest exponent of a leading digit that is written without a power of
ten. -/
def plainExponents : Int × Int := (-5, 15)

/-- The magnitude as text: plain with a point for a leading digit from `10^-5` to `10^15`, else
with a power of ten that always has a sign, and a point only between digits. -/
def magnitudeText (units : Nat) : List Char :=
  let { digits, exponent } := shortest units
  if plainExponents.1 ≤ exponent && exponent ≤ plainExponents.2 then
    if exponent < 0 then
      ['0', '.'] ++ List.replicate (-exponent - 1).toNat '0' ++ digits
    else
      let whole := exponent.toNat + 1
      let padded := digits ++ List.replicate (whole - digits.length) '0'
      let fraction := padded.drop whole
      padded.take whole ++ ['.'] ++ (if fraction.isEmpty then ['0'] else fraction)
  else
    let power := (if exponent < 0 then '-' else '+') :: Decimal.digits exponent.natAbs
    match digits with
    | [] => []
    | [first] => first :: 'e' :: power
    | first :: rest => first :: '.' :: rest ++ 'e' :: power

/-- The shortest text that reads back as the double. -/
def text (x : Binary64) : String :=
  String.ofList ((if x.negative then ['-'] else []) ++ magnitudeText x.units)

end Binary64

end SchemaEvolution
