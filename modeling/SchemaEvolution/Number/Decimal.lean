import SchemaEvolution.Number.Binary64

/-!
# Decimal numerals

Reading decimal digits and turning a decimal numeral into a double, by rounding its exact value
or by scaling the digits that fit a machine word.
-/

namespace SchemaEvolution

namespace Decimal

def digits (n : Nat) : List Char := Nat.toDigits 10 n

def digitValue (c : Char) : Nat := c.toNat - '0'.toNat

/-- The number that a run of digits denotes. -/
def value (text : List Char) : Nat :=
  text.foldl (fun n c => 10 * n + digitValue c) 0

/-- The least natural number that a 64-bit word cannot hold. -/
def wordLimit : Nat := Nat.pow 2 64

end Decimal

/-- A decimal numeral: its digits before and after the point, and the power of ten it is
scaled by. -/
structure Decimal where
  negative : Bool
  whole : List Char
  fraction : List Char
  exponent : Int
  deriving DecidableEq

namespace Decimal

/-- The numeral's digits as one number. -/
def significand (d : Decimal) : Nat := value (d.whole ++ d.fraction)

/-- The power of ten that scales the significand. -/
def scale (d : Decimal) : Int := d.exponent - d.fraction.length

/-- The place of the leading significant digit: the magnitude is below `10 ^ place`, and not below
a tenth of that unless it is zero. -/
def place (d : Decimal) : Int :=
  d.scale + ((d.whole ++ d.fraction).dropWhile (· == '0')).length

/-- The double nearest to the exact value, or none if that is too large. Places far beyond those
of doubles are decided without working out the power of ten. -/
def nearest? (d : Decimal) : Option Binary64 :=
  if d.significand = 0 || d.place < -400 then Binary64.ofUnits? d.negative 0
  else if 400 < d.place then none
  else
    let units :=
      if 0 ≤ d.scale then
        Binary64.roundUnits (d.significand * Nat.pow 10 d.scale.toNat * Binary64.one) 1
      else Binary64.roundUnits (d.significand * Binary64.one) (Nat.pow 10 (-d.scale).toNat)
    Binary64.ofUnits? d.negative units

/-- The greatest power of ten used in one scaling step. -/
def maxStep : Nat := 308

/-- The unit count of the double nearest to `10 ^ n`. -/
def powerUnits (n : Nat) : Nat := Binary64.roundUnits (Nat.pow 10 n * Binary64.one) 1

/-- The unit count after scaling up by `10 ^ n`, in one rounded product; none if too large. -/
def scaleUp? (units n : Nat) : Option Nat :=
  if units = 0 then some 0
  else if n ≤ maxStep then
    let scaled := Binary64.mulUnits units (powerUnits n)
    if scaled < Binary64.limit then some scaled else none
  else none

/-- The unit count after scaling down by `10 ^ n`, in rounded quotients by at most `10 ^ 308`
each. -/
def scaleDown (units n : Nat) : Nat :=
  if units = 0 then 0
  else if n ≤ maxStep then Binary64.divUnits units (powerUnits n)
  else scaleDown (Binary64.divUnits units (powerUnits maxStep)) (n - maxStep)
termination_by n
decreasing_by all_goals (simp only [maxStep] at *; omega)

/-- The leading digits whose value fits a 64-bit word, and the digits after them. -/
def splitWord (start : Nat) : List Char → Nat × List Char
  | [] => (start, [])
  | c :: rest =>
    let next := 10 * start + digitValue c
    if next < wordLimit then splitWord next rest else (start, c :: rest)

/-- The double got by rounding the leading digits that fit a 64-bit word and scaling the result
by a power of ten in double arithmetic; digits past the word only count towards the power. None
if the number is too large. -/
def scaled? (d : Decimal) : Option Binary64 :=
  let (start, wholeRest) := splitWord 0 d.whole
  let (word, fractionRest) := splitWord start d.fraction
  let exponent := d.exponent + wholeRest.length + fractionRest.length - d.fraction.length
  let units := Binary64.roundUnits (word * Binary64.one) 1
  let scaled :=
    if 0 ≤ exponent then scaleUp? units exponent.toNat else some (scaleDown units (-exponent).toNat)
  scaled.bind (Binary64.ofUnits? d.negative)

end Decimal

end SchemaEvolution
