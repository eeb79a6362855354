import SchemaEvolution.Keyword

/-!
# Types of values

The type names a schema may declare, and the keyword family that constrains each.
-/

namespace SchemaEvolution

/-- A type that a schema may declare for its values. -/
inductive InstanceType where
  | null
  | boolean
  | object
  | array
  | number
  | integer
  | string
  deriving Repr, DecidableEq

namespace InstanceType

/-- Every type, in the order in which a set of types is listed. -/
def all : List InstanceType := [.null, .boolean, .object, .array, .number, .integer, .string]

def name : InstanceType → String
  | .null => "null"
  | .boolean => "boolean"
  | .object => "object"
  | .array => "array"
  | .number => "number"
  | .integer => "integer"
  | .string => "string"

def ofName? (name : String) : Option InstanceType :=
  all.find? (·.name == name)

def family? : InstanceType → Option Family
  | .null | .boolean => none
  | .object => some .object
  | .array => some .array
  | .number | .integer => some .numeric
  | .string => some .string

/-- The set of the types in a list, in order. -/
def setOf (types : List InstanceType) : List InstanceType :=
  all.filter fun type => types.contains type

theorem mem_all (type : InstanceType) : type ∈ all := by
  cases type <;> decide

theorem mem_setOf {type : InstanceType} {types : List InstanceType} :
    type ∈ setOf types ↔ type ∈ types := by
  simp [setOf, mem_all]

end InstanceType

end SchemaEvolution
