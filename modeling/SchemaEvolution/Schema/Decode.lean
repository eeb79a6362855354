import SchemaEvolution.Schema.Node
import SchemaEvolution.Schema.Pointer

/-!
# Decoding schemas

A document becomes a node key by key, in document order and depth first; the first value of a
wrong shape ends it with an error that names its place.
-/

namespace SchemaEvolution

/-- The shape that a keyword requires of its value. -/
inductive Shape where
  | string
  | stringOrArray
  | array
  | arrayOfStrings
  | object
  | number
  | numberOrBoolean
  | boolean
  | count
  deriving Repr, DecidableEq

/-- Why a document is no schema. -/
inductive DecodeError where
  | notASchema (place : Pointer) (actual : JsonKind)
  | invalidKeyword (place : Pointer) (keyword : Keyword) (expected : Shape) (actual : JsonKind)
  | unknownType (place : Pointer) (name : String)
  deriving Repr, DecidableEq

namespace Shape

def text : Shape → String
  | .string => "string"
  | .stringOrArray => "string or array"
  | .array => "array"
  | .arrayOfStrings => "array of strings"
  | .object => "object"
  | .number => "number"
  | .numberOrBoolean => "number or boolean"
  | .boolean => "boolean"
  | .count => "non-negative integer"

end Shape

namespace DecodeError

def place : DecodeError → Pointer
  | .notASchema place _ | .invalidKeyword place _ _ _ | .unknownType place _ => place

def message : DecodeError → String
  | .notASchema place actual =>
    "expected a schema object at " ++ place.text ++ ", got " ++ actual.name
  | .invalidKeyword place keyword expected actual =>
    "invalid " ++ keyword.name ++ " at " ++ place.text ++ ": expected " ++ expected.text ++
      ", got " ++ actual.name
  | .unknownType place name => "unknown instance type \"" ++ name ++ "\" at " ++ place.text

end DecodeError

namespace Decode

/-- What `read` finds in the value of a keyword, or an error that the shape is missing. -/
def expect {α : Type} (read : Json → Option α) (expected : Shape) (place : Pointer)
    (keyword : Keyword) (value : Json) : Except DecodeError α :=
  match read value with
  | some found => .ok found
  | none => .error (.invalidKeyword place keyword expected value.kind)

def count? (value : Json) : Option UInt64 := value.number?.bind Number.count?

def exclusive? : Json → Option Exclusive
  | .number n => some (.limit n)
  | .bool b => some (.flag b)
  | _ => none

def typeName (place : Pointer) : Json → Except DecodeError InstanceType
  | .string name =>
    match InstanceType.ofName? name with
    | some type => .ok type
    | none => .error (.unknownType place name)
  | value => .error (.invalidKeyword place .type .string value.kind)

/-- The declared types: one name or a list of names. -/
def types (place : Pointer) : Json → Except DecodeError (List InstanceType)
  | .array names => InstanceType.setOf <$> names.mapM (typeName place)
  | .string name => (fun type => [type]) <$> typeName place (.string name)
  | value => .error (.invalidKeyword place .type .stringOrArray value.kind)

def nameSet (place : Pointer) (keyword : Keyword) (value : Json) : Except DecodeError NameSet := do
  let elements ← expect Json.elements? .array place keyword value
  let names ← elements.mapM (expect Json.string? .arrayOfStrings place keyword)
  return NameSet.ofList names

/-- A table of lists of names, added to what is there already. -/
def nameSets (place : Pointer) (table : List (String × NameSet)) :
    List (String × Json) → Except DecodeError (List (String × NameSet))
  | [] => .ok table
  | (name, value) :: rest => do
    let names ← nameSet (place ++ [name]) .dependentRequired value
    nameSets place (NameTable.put name names table) rest

/-- The shape that a keyword which only describes requires, if any. -/
def metadataShape : Keyword → Option Shape
  | .title | .description | .id | .comment => some .string
  | .deprecated | .readOnly | .writeOnly => some .boolean
  | .examples => some .array
  | _ => none

/-- Whether a value has the shape that a keyword which only describes requires. -/
def checkMetadata (place : Pointer) (keyword : Keyword) (value : Json) :
    Except DecodeError Unit :=
  match metadataShape keyword, value with
  | some .string, .string _ | some .boolean, .bool _ | some .array, .array _ | none, _ => .ok ()
  | some expected, value => .error (.invalidKeyword place keyword expected value.kind)

/-- The facets with one more keyword read, for a keyword that holds no sub-schema. -/
def facet (facets : Facets) (place : Pointer) (keyword : Keyword) (value : Json) :
    Except DecodeError Facets :=
  let number := expect Json.number? .number place keyword value
  let count := expect count? .count place keyword value
  let string := expect Json.string? .string place keyword value
  let exclusive := expect exclusive? .numberOrBoolean place keyword value
  match keyword with
  | .type => do return { facets with types := some (← types place value) }
  | .enum => do
    return { facets with enumeration := some (← expect Json.elements? .array place keyword value) }
  | .format => do return { facets with format := some (← string) }
  | .maximum => do return { facets with maximum := some (← number) }
  | .exclusiveMaximum => do return { facets with exclusiveMaximum := some (← exclusive) }
  | .minimum => do return { facets with minimum := some (← number) }
  | .exclusiveMinimum => do return { facets with exclusiveMinimum := some (← exclusive) }
  | .multipleOf => do return { facets with multipleOf := some (← number) }
  | .maxLength => do return { facets with maxLength := some (← count) }
  | .minLength => do return { facets with minLength := some (← count) }
  | .pattern => do return { facets with pattern := some (← string) }
  | .maxItems => do return { facets with maxItems := some (← count) }
  | .minItems => do return { facets with minItems := some (← count) }
  | .maxContains => do return { facets with maxContains := some (← count) }
  | .minContains => do return { facets with minContains := some (← count) }
  | .uniqueItems => do
    return { facets with uniqueItems := ← expect Json.bool? .boolean place keyword value }
  | .required => do return { facets with required := ← nameSet place keyword value }
  | .maxProperties => do return { facets with maxProperties := some (← count) }
  | .minProperties => do return { facets with minProperties := some (← count) }
  | .dependentRequired => do
    let members ← expect Json.members? .object place keyword value
    return { facets with dependentRequired := ← nameSets place [] members }
  | .other name => .ok { facets with extensions := NameTable.put name value facets.extensions }
  | .items | .prefixItems | .contains | .properties | .additionalProperties => .ok facets
  | keyword => do
    checkMetadata place keyword value
    return { facets with metadata := (keyword, value) :: facets.metadata }

mutual

/-- A value in the place of a schema: a boolean or a schema. -/
def subSchema (place : Pointer) : Json → Except DecodeError SubSchema
  | .bool allowed => .ok (.flag allowed)
  | .object members =>
    .schema <$> keywords place (.blank (.object members)) members
  | value => .error (.notASchema place value.kind)

def slots (place : Pointer) (position : Nat) : List Json → Except DecodeError (List SubSchema)
  | [] => .ok []
  | value :: rest => do
    let first ← subSchema (place ++ [Pointer.positionToken position]) value
    let rest ← slots place (position + 1) rest
    return first :: rest

def properties (place : Pointer) (table : List (String × SubSchema)) :
    List (String × Json) → Except DecodeError (List (String × SubSchema))
  | [] => .ok table
  | (name, value) :: rest => do
    let sub ← subSchema (place ++ [name]) value
    properties place (NameTable.put name sub table) rest

/-- The node with the keywords of a document read in order. -/
def keywords (place : Pointer) (node : Node) : List (String × Json) → Except DecodeError Node
  | [] => .ok node
  | (key, value) :: rest => do
    let inner := place ++ [key]
    let node ←
      match Keyword.ofName key with
      | .items =>
        match value with
        | .array elements => do
          let slots ← slots inner 0 elements
          .ok { node with items := some (.tuple slots) }
        | value => do
          let sub ← subSchema inner value
          .ok { node with items := some (.single sub) }
      | .prefixItems =>
        match value with
        | .array elements => do
          let slots ← slots inner 0 elements
          .ok { node with prefixItems := some slots }
        | value => .error (.invalidKeyword inner .prefixItems .array value.kind)
      | .contains => do
        let sub ← subSchema inner value
        .ok { node with contains := some sub }
      | .properties =>
        match value with
        | .object members => do
          let table ← properties inner [] members
          .ok { node with properties := table }
        | value => .error (.invalidKeyword inner .properties .object value.kind)
      | .additionalProperties => do
        let sub ← subSchema inner value
        .ok { node with additionalProperties := sub }
      | keyword => do
        let facets ← facet node.toFacets inner keyword value
        .ok { node with toFacets := facets }
    keywords place node rest

end

end Decode

namespace Node

/-- The schema that a document denotes. -/
def decode : Json → Except DecodeError Node
  | .object members => Decode.keywords [] (.blank (.object members)) members
  | value => .error (.notASchema [] value.kind)

end Node

end SchemaEvolution
