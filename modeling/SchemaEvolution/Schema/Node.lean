import SchemaEvolution.Json.Basic
import SchemaEvolution.Schema.InstanceType

/-!
# Schema nodes

A decoded schema. `Facets` holds the keywords that say something by their own value, `Node` adds
the keywords that hold further schemas. A keyword that is not recognized is kept as it stands.
-/

namespace SchemaEvolution

/-- The value of `exclusiveMaximum` or `exclusiveMinimum`: a limit of its own, or a flag that
makes `maximum` or `minimum` strict. -/
inductive Exclusive where
  | limit (value : Number)
  | flag (strict : Bool)
  deriving DecidableEq

/-- What an object schema says of the properties it does not list. -/
inductive ExtraProperties where
  | allowed
  | notAllowed
  /-- They are allowed if they match a schema. -/
  | validated
  deriving Repr, DecidableEq

/-- The part of a schema without sub-schemas, and the document it was decoded from. -/
structure Facets where
  source : Json
  types : Option (List InstanceType) := none
  enumeration : Option (List Json) := none
  format : Option String := none
  maximum : Option Number := none
  exclusiveMaximum : Option Exclusive := none
  minimum : Option Number := none
  exclusiveMinimum : Option Exclusive := none
  multipleOf : Option Number := none
  maxLength : Option UInt64 := none
  minLength : Option UInt64 := none
  pattern : Option String := none
  maxItems : Option UInt64 := none
  minItems : Option UInt64 := none
  maxContains : Option UInt64 := none
  minContains : Option UInt64 := none
  uniqueItems : Bool := false
  required : NameSet := []
  maxProperties : Option UInt64 := none
  minProperties : Option UInt64 := none
  dependentRequired : List (String × NameSet) := []
  /-- The keywords that only describe, the latest first. -/
  metadata : List (Keyword × Json) := []
  /-- The keywords that are not recognized, by name. -/
  extensions : List (String × Json) := []

mutual

/-- A place for a schema where a boolean may stand too. -/
inductive SubSchema where
  | flag (allowed : Bool)
  | schema (node : Node)

/-- The value of `items`: one schema for every element, or one for each position. -/
inductive Items where
  | single (sub : SubSchema)
  | tuple (slots : List SubSchema)

/-- A schema. -/
structure Node extends Facets where
  items : Option Items
  prefixItems : Option (List SubSchema)
  contains : Option SubSchema
  /-- The listed properties, in code point order of their names. -/
  properties : List (String × SubSchema)
  additionalProperties : SubSchema

end

namespace Exclusive

def toJson : Exclusive → Json
  | .limit n => .number n
  | .flag b => .bool b

end Exclusive

namespace ExtraProperties

def all : List ExtraProperties := [.allowed, .notAllowed, .validated]

def name : ExtraProperties → String
  | .allowed => "allowed"
  | .notAllowed => "not_allowed"
  | .validated => "validated"

def label : ExtraProperties → String
  | .allowed => "allowed"
  | .notAllowed => "not allowed"
  | .validated => "validated"

def ofName? (name : String) : Option ExtraProperties :=
  all.find? (·.name == name)

end ExtraProperties

namespace SubSchema

def toJson : SubSchema → Json
  | .flag allowed => .bool allowed
  | .schema node => node.source

end SubSchema

namespace Items

def toJson : Items → Json
  | .single sub => sub.toJson
  | .tuple slots => .array (slots.map SubSchema.toJson)

/-- `items` where the schema that allows everything counts as none. -/
def effective : Option Items → Option Items
  | some (.single (.flag true)) => none
  | items => items

end Items

/-- How much a value in the place of a schema lets pass, for a boolean and a schema: nothing,
something, everything. -/
def openness? : Json → Option Nat
  | .bool false => some 0
  | .object _ => some 1
  | .bool true => some 2
  | _ => none

namespace Facets

/-- Whether keywords of the family constrain what the schema describes. Without a declared type
all of them do. -/
def constrains (facets : Facets) (family : Family) : Bool :=
  match facets.types with
  | none => true
  | some types =>
    family == .core || family == .metadata || types.any (·.family? == some family)

/-- A set of types as a document has it: the name of a single type, else a list of names. -/
def typesToJson : List InstanceType → Json
  | [type] => .string type.name
  | types => .array (types.map fun type => .string type.name)

/-- An exclusive limit, where a flag that is off counts as none. -/
def effectiveExclusive : Option Exclusive → Option Json
  | none | some (.flag false) => none
  | some exclusive => some exclusive.toJson

/-- The value that a keyword has when it is compared as one value. `uniqueItems` always has
one. Keywords that hold several things at once have none. -/
def valueOf (facets : Facets) : Keyword → Option Json
  | .type => facets.types.map typesToJson
  | .format => facets.format.map .string
  | .maximum => facets.maximum.map .number
  | .exclusiveMaximum => effectiveExclusive facets.exclusiveMaximum
  | .minimum => facets.minimum.map .number
  | .exclusiveMinimum => effectiveExclusive facets.exclusiveMinimum
  | .multipleOf => facets.multipleOf.map .number
  | .maxLength => count facets.maxLength
  | .minLength => count facets.minLength
  | .pattern => facets.pattern.map .string
  | .maxItems => count facets.maxItems
  | .minItems => count facets.minItems
  | .maxContains => count facets.maxContains
  | .minContains => count facets.minContains
  | .uniqueItems => some (.bool facets.uniqueItems)
  | .maxProperties => count facets.maxProperties
  | .minProperties => count facets.minProperties
  | .other name => NameTable.get? name facets.extensions
  | .enum | .items | .prefixItems | .contains | .properties | .required
  | .additionalProperties | .dependentRequired => none
  | keyword => facets.metadata.lookup keyword
where
  /-- A count as a value. -/
  count (n : Option UInt64) : Option Json := n.map fun n => .number (.ofCount n)

end Facets

namespace Node

/-- The node of a document before any of its keywords is read. -/
def blank (source : Json) : Node :=
  { source, items := none, prefixItems := none, contains := none, properties := []
    additionalProperties := .flag true }

def extraProperties (node : Node) : ExtraProperties :=
  match node.additionalProperties with
  | .flag true => .allowed
  | .flag false => .notAllowed
  | .schema _ => .validated

/-- The node's `items`, where the schema that allows everything counts as none. -/
def effectiveItems (node : Node) : Option Items := Items.effective node.items

end Node

end SchemaEvolution
