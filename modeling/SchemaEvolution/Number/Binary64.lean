/-!
# Double precision numbers

A finite double is a sign and a whole number of units, one unit being `2^-1074`, the least
positive double. Every operation is exact integer arithmetic on units followed by one rounding,
so two doubles compare as their unit counts do.
-/

namespace SchemaEvolution

namespace Binary64

/-- The units in the number one. -/
def one : Nat := Nat.pow 2 1074

/-- The least unit count too large for a double. -/
def limit : Nat := Nat.pow 2 2098

/-- The distance between the doubles from the greatest power of two below `units` to the next:
one unit up to 53 significant bits, then doubling with each further bit. -/
def spacing (units : Nat) : Nat := Nat.pow 2 (units.log2 - 52)

/-- Whether a double has exactly this many units. -/
def Representable (units : Nat) : Prop :=
  units < limit ∧ units % spacing units = 0

instance (units : Nat) : Decidable (Representable units) :=
  inferInstanceAs (Decidable (_ ∧ _))

/-- The whole number nearest to `numerator / denominator`; a half goes to the even neighbour. -/
def roundHalfEven (numerator denominator : Nat) : Nat :=
  let quotient := numerator / denominator
  let rest := 2 * (numerator % denominator)
  if rest < denominator then quotient
  else if denominator < rest then quotient + 1
  else if quotient % 2 = 0 then quotient
  else quotient + 1

/-- The unit count with 53 significant bits nearest to `numerator / denominator` units. A result
of `limit` or more means that the quotient is too large for a double. -/
def roundUnits (numerator denominator : Nat) : Nat :=
  let step := spacing (numerator / denominator)
  roundHalfEven numerator (denominator * step) * step

def mulUnits (x y : Nat) : Nat := roundUnits (x * y) one

def divUnits (x y : Nat) : Nat := roundUnits (x * one) y

end Binary64

/-- A finite double. There are two zeros, one of each sign. -/
structure Binary64 where
  negative : Bool
  units : Nat
  representable : Binary64.Representable units
  deriving DecidableEq

namespace Binary64

/-- The double with this sign and unit count, if there is one. -/
def ofUnits? (negative : Bool) (units : Nat) : Option Binary64 :=
  if h : Representable units then some ⟨negative, units, h⟩ else none

/-- The signed unit count; both zeros have none. -/
def signedUnits (x : Binary64) : Int :=
  if x.negative then -(x.units : Int) else x.units

/-- The signed unit count of the double nearest to a whole number. -/
def unitsOfInt (n : Int) : Int :=
  let units := roundUnits (n.natAbs * one) 1
  if n < 0 then -(units : Int) else units

end Binary64

end SchemaEvolution
