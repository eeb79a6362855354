/-!
# Schema keywords

The keywords that the comparison understands, the families they belong to, and the side of a
range that a bound limits. Any other name is a keyword too, of no family.
-/

namespace SchemaEvolution

/-- A keyword of a schema. -/
inductive Keyword where
  | type
  | enum
  | format
  | maximum
  | exclusiveMaximum
  | minimum
  | exclusiveMinimum
  | multipleOf
  | maxLength
  | minLength
  | pattern
  | items
  | prefixItems
  | contains
  | maxItems
  | minItems
  | maxContains
  | minContains
  | uniqueItems
  | properties
  | required
  | additionalProperties
  | maxProperties
  | minProperties
  | dependentRequired
  | title
  | description
  | default
  | deprecated
  | readOnly
  | writeOnly
  | examples
  | id
  | comment
  /-- A keyword outside the recognized ones. -/
  | other (name : String)
  deriving Repr, DecidableEq

/-- Keywords that constrain the same kinds of values. -/
inductive Family where
  /-- Values of every kind. -/
  | core
  | numeric
  | string
  | array
  | object
  /-- No values: the keyword only describes. -/
  | metadata
  deriving Repr, DecidableEq

/-- The side of a range that a keyword limits. -/
inductive Bound where
  | upper
  | lower
  deriving Repr, DecidableEq

namespace Family

def all : List Family := [.core, .numeric, .string, .array, .object, .metadata]

def name : Family → String
  | .core => "Core"
  | .numeric => "Numeric"
  | .string => "String"
  | .array => "Array"
  | .object => "Object"
  | .metadata => "Metadata"

end Family

namespace Bound

def name : Bound → String
  | .upper => "Upper"
  | .lower => "Lower"

end Bound

namespace Keyword

def recognized : List Keyword :=
  [.type, .enum, .format, .maximum, .exclusiveMaximum, .minimum, .exclusiveMinimum, .multipleOf,
    .maxLength, .minLength, .pattern, .items, .prefixItems, .contains, .maxItems, .minItems,
    .maxContains, .minContains, .uniqueItems, .properties, .required, .additionalProperties,
    .maxProperties, .minProperties, .dependentRequired, .title, .description, .default,
    .deprecated, .readOnly, .writeOnly, .examples, .id, .comment]

def name : Keyword → String
  | .type => "type"
  | .enum => "enum"
  | .format => "format"
  | .maximum => "maximum"
  | .exclusiveMaximum => "exclusiveMaximum"
  | .minimum => "minimum"
  | .exclusiveMinimum => "exclusiveMinimum"
  | .multipleOf => "multipleOf"
  | .maxLength => "maxLength"
  | .minLength => "minLength"
  | .pattern => "pattern"
  | .items => "items"
  | .prefixItems => "prefixItems"
  | .contains => "contains"
  | .maxItems => "maxItems"
  | .minItems => "minItems"
  | .maxContains => "maxContains"
  | .minContains => "minContains"
  | .uniqueItems => "uniqueItems"
  | .properties => "properties"
  | .required => "required"
  | .additionalProperties => "additionalProperties"
  | .maxProperties => "maxProperties"
  | .minProperties => "minProperties"
  | .dependentRequired => "dependentRequired"
  | .title => "title"
  | .description => "description"
  | .default => "default"
  | .deprecated => "deprecated"
  | .readOnly => "readOnly"
  | .writeOnly => "writeOnly"
  | .examples => "examples"
  | .id => "$id"
  | .comment => "$comment"
  | .other name => name

def ofName (name : String) : Keyword :=
  match recognized.find? (·.name == name) with
  | some keyword => keyword
  | none => .other name

def isRecognized : Keyword → Bool
  | .other _ => false
  | _ => true

def family? : Keyword → Option Family
  | .type | .enum | .format => some .core
  | .maximum | .exclusiveMaximum | .minimum | .exclusiveMinimum | .multipleOf => some .numeric
  | .maxLength | .minLength | .pattern => some .string
  | .items | .prefixItems | .contains | .maxItems | .minItems | .maxContains | .minContains
  | .uniqueItems => some .array
  | .properties | .required | .additionalProperties | .maxProperties | .minProperties
  | .dependentRequired => some .object
  | .title | .description | .default | .deprecated | .readOnly | .writeOnly | .examples | .id
  | .comment => some .metadata
  | .other _ => none

/-- The side of a range that the keyword limits, if it is a bound. -/
def bound? : Keyword → Option Bound
  | .maximum | .exclusiveMaximum | .maxLength | .maxItems | .maxContains | .maxProperties =>
    some .upper
  | .minimum | .exclusiveMinimum | .minLength | .minItems | .minContains | .minProperties =>
    some .lower
  | _ => none

/-- Whether the keyword only describes. -/
def isMetadata (keyword : Keyword) : Bool :=
  keyword.family? == some .metadata

def numericScalars : List Keyword :=
  [.maximum, .exclusiveMaximum, .minimum, .exclusiveMinimum, .multipleOf]

def stringScalars : List Keyword := [.maxLength, .minLength, .pattern]

def arrayScalars : List Keyword :=
  [.maxItems, .minItems, .maxContains, .minContains, .uniqueItems]

def objectScalars : List Keyword := [.maxProperties, .minProperties]

def metadata : List Keyword :=
  [.title, .description, .default, .deprecated, .readOnly, .writeOnly, .examples, .id, .comment]

end Keyword

end SchemaEvolution
