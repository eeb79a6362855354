import SchemaEvolution.Json.Basic
import SchemaEvolution.Schema.InstanceType

/-! # Validity

Whether a value is valid against a document, keyword by keyword. A keyword speaks of values of one
kind and lets any other value pass. The keywords that bound numbers, `pattern` and `format` are left
out, and so are the ones that only describe.
-/

namespace SchemaEvolution

def Number.isWhole : Number → Bool
  | .integer _ _ => true
  | .double x => x.signedUnits % Binary64.one == 0

def InstanceType.describes : InstanceType → Json → Bool
  | .null, .null | .boolean, .bool _ | .object, .object _ | .array, .array _
  | .number, .number _ | .string, .string _ => true
  | .integer, .number n => n.isWhole
  | _, _ => false

namespace Json

def elements (value : Json) : List Json := value.elements?.getD []

def members (value : Json) : List (String × Json) := value.members?.getD []

def has (name : String) (value : Json) : Bool := (value.member? name).isSome

def names : Json → List String
  | .string name => [name]
  | .array elements => elements.filterMap string?
  | _ => []

/-- Whether no two elements are equivalent. -/
def hasUniqueElements (value : Json) : Bool :=
  decide (value.elements.Pairwise fun a b => a.equivalent b = false)

end Json

namespace Keyword

/-- The size of a value that a keyword for lengths and counts limits. -/
def measure? : Keyword → Json → Option Nat
  | .maxLength, .string s | .minLength, .string s => some s.length
  | .maxItems, .array elements | .minItems, .array elements => some elements.length
  | .maxProperties, .object members | .minProperties, .object members => some members.length
  | _, _ => none

/-- Whether a size is on the right side of a limit. -/
def admitsSize (keyword : Keyword) (size : Nat) : Json → Bool
  | .number (.integer limit _) =>
    match keyword.bound? with
    | some .upper => decide ((size : Int) ≤ limit)
    | some .lower => decide (limit ≤ (size : Int))
    | none => true
  | _ => true

/-- Whether a value meets a keyword that holds no schemas. -/
def meets (keyword : Keyword) (argument value : Json) : Bool :=
  match keyword with
  | .type => argument.names.any fun name => (InstanceType.ofName? name).any (·.describes value)
  | .enum => argument.elements.any (·.equivalent value)
  | .uniqueItems => !argument.same (.bool true) || value.hasUniqueElements
  | .required => value.members?.isNone || argument.names.all (value.has ·)
  | .dependentRequired =>
    argument.members.all fun member => !value.has member.1 || member.2.names.all (value.has ·)
  | keyword =>
    match keyword.measure? value with
    | some size => keyword.admitsSize size argument
    | none => true

end Keyword

/-- The number of positions that `prefixItems` has a schema for, among the keywords of a schema. -/
def prefixLength (siblings : List (String × Json)) : Nat :=
  match NameTable.get? "prefixItems" siblings with
  | some schemas => schemas.elements.length
  | none => 0

/-- Whether `properties` has a schema for the name, among the keywords of a schema. -/
def listsProperty (siblings : List (String × Json)) (name : String) : Bool :=
  match NameTable.get? "properties" siblings with
  | some schemas => schemas.has name
  | none => false

/-- Whether so many elements may match `contains`, among the keywords of a schema: at least one
unless they say otherwise. -/
def admitsMatches (siblings : List (String × Json)) (count : Nat) : Bool :=
  (match NameTable.get? "minContains" siblings with
    | some limit => Keyword.minContains.admitsSize count limit
    | none => 1 ≤ count) &&
  (match NameTable.get? "maxContains" siblings with
    | some limit => Keyword.maxContains.admitsSize count limit
    | none => true)

namespace Json

mutual

/-- Whether the value, the second one, is valid against the document. -/
def validates : Json → Json → Bool
  | .bool allowed, _ => allowed
  | .object keywords, value => meetsAll keywords value keywords
  | _, _ => false

/-- Whether the value meets every keyword, where the siblings are all keywords of the schema. -/
def meetsAll (siblings : List (String × Json)) (value : Json) : List (String × Json) → Bool
  | [] => true
  | (key, argument) :: rest =>
    (match Keyword.ofName key with
      | .items =>
        match argument with
        | .array schemas => validatesEach schemas value.elements
        | schema => (value.elements.drop (prefixLength siblings)).all fun e => validates schema e
      | .prefixItems =>
        match argument with
        | .array schemas => validatesEach schemas value.elements
        | _ => true
      | .contains =>
        value.elements?.isNone ||
          admitsMatches siblings (value.elements.countP fun e => validates argument e)
      | .properties =>
        match argument with
        | .object schemas => validatesMembers schemas value
        | _ => true
      | .additionalProperties =>
        value.members.all fun m => listsProperty siblings m.1 || validates argument m.2
      | keyword => keyword.meets argument value) &&
    meetsAll siblings value rest

/-- Whether each element is valid against the schema at its position, if there is one. -/
def validatesEach : List Json → List Json → Bool
  | schema :: schemas, e :: elements => validates schema e && validatesEach schemas elements
  | _, _ => true

/-- Whether each member is valid against the schema of its name, if there is one. -/
def validatesMembers : List (String × Json) → Json → Bool
  | [], _ => true
  | (name, schema) :: schemas, value =>
    (match value.member? name with
      | some inner => validates schema inner
      | none => true) && validatesMembers schemas value

end

end Json

end SchemaEvolution
