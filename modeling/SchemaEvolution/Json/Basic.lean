import SchemaEvolution.Names
import SchemaEvolution.Number.Binary64

/-!
# JSON values

A number is a whole number that fits 64 bits, signed or not, or a double. Objects keep the order
of their members; `Json.same` is the equality that ignores it.
-/

namespace SchemaEvolution

/-- Whether a whole number fits 64 bits, signed or not. -/
def Number.IsWord (n : Int) : Prop :=
  -9223372036854775808 ≤ n ∧ n < 18446744073709551616

instance (n : Int) : Decidable (Number.IsWord n) :=
  inferInstanceAs (Decidable (_ ∧ _))

/-- A JSON number. A whole number and a double are different numbers even at the same value. -/
inductive Number where
  | integer (value : Int) (bounded : Number.IsWord value)
  | double (value : Binary64)
  deriving DecidableEq

namespace Number

/-- The whole number as a JSON number, if 64 bits hold it. -/
def ofInt? (n : Int) : Option Number :=
  if h : IsWord n then some (.integer n h) else none

/-- Equality of JSON numbers: the two zero doubles are equal, a whole number equals no double. -/
def same : Number → Number → Bool
  | .integer m _, .integer n _ => m == n
  | .double x, .double y => x.signedUnits == y.signedUnits
  | _, _ => false

/-- The number rounded to a double, as a signed count of units. -/
def signedUnits : Number → Int
  | .integer n _ => Binary64.unitsOfInt n
  | .double x => x.signedUnits

/-- The number as a count: a whole number that is not negative. -/
def count? : Number → Option UInt64
  | .integer n _ => if 0 ≤ n then some (UInt64.ofNat n.toNat) else none
  | .double _ => none

def ofCount (n : UInt64) : Number :=
  .integer n.toNat (by have := n.toNat_lt; unfold IsWord; omega)

end Number

/-- A JSON value. -/
inductive Json where
  | null
  | bool (value : Bool)
  | number (value : Number)
  | string (value : String)
  | array (elements : List Json)
  | object (members : List (String × Json))
  deriving Inhabited

inductive JsonKind where
  | null
  | boolean
  | number
  | string
  | array
  | object
  deriving Repr, DecidableEq

namespace JsonKind

def name : JsonKind → String
  | .null => "null"
  | .boolean => "boolean"
  | .number => "number"
  | .string => "string"
  | .array => "array"
  | .object => "object"

end JsonKind

namespace Json

def kind : Json → JsonKind
  | .null => .null
  | .bool _ => .boolean
  | .number _ => .number
  | .string _ => .string
  | .array _ => .array
  | .object _ => .object

def ofPosition (n : Nat) : Json :=
  .number (.ofCount (UInt64.ofNat n))

def string? : Json → Option String
  | .string s => some s
  | _ => none

def elements? : Json → Option (List Json)
  | .array elements => some elements
  | _ => none

def members? : Json → Option (List (String × Json))
  | .object members => some members
  | _ => none

def number? : Json → Option Number
  | .number n => some n
  | _ => none

def bool? : Json → Option Bool
  | .bool b => some b
  | _ => none

/-- The value's member of that name, if it is an object that has one. -/
def member? (name : String) : Json → Option Json
  | .object members => NameTable.get? name members
  | _ => none

mutual

/-- Equality of values. The order of an object's members does not count. -/
def same : Json → Json → Bool
  | .null, .null => true
  | .bool a, .bool b => a == b
  | .number a, .number b => a.same b
  | .string a, .string b => a == b
  | .array as, .array bs => sameElements as bs
  | .object as, .object bs => as.length == bs.length && sameMembers as bs
  | _, _ => false

def sameElements : List Json → List Json → Bool
  | [], [] => true
  | a :: as, b :: bs => same a b && sameElements as bs
  | _, _ => false

/-- Whether each of the members has an equal one of its name among the others. -/
def sameMembers : List (String × Json) → List (String × Json) → Bool
  | [], _ => true
  | (name, a) :: as, bs =>
    (match NameTable.get? name bs with
      | some b => same a b
      | none => false) && sameMembers as bs

end

/-- Equality of what two values stand for: numbers are equal when they round to the same double,
anything else as in `same`. -/
def equivalent : Json → Json → Bool
  | .number a, .number b => a.signedUnits == b.signedUnits
  | a, b => a.same b

end Json

end SchemaEvolution
