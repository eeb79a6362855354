import SchemaEvolution.Json.Printer
import SchemaEvolution.Path
import SchemaEvolution.Schema.Node

/-!
# Changes

One atomic difference between two schemas, and the sentence that tells it.
-/

namespace SchemaEvolution

/-- What happened at a place. -/
inductive ChangeKind where
  | added
  | removed
  | modified
  deriving Repr, DecidableEq

/-- Whether a change concerns a keyword as a whole or one member of what it holds: an option of
`enum`, a pair of `dependentRequired`, a position of a list of schemas. -/
inductive Scope where
  | keyword
  | member
  deriving Repr, DecidableEq

/-- What decides how far the addition or removal of a property reaches. -/
structure PropertyContext where
  /-- Whether the side that has the property requires it. -/
  required : Bool
  /-- What the side without the property says of properties it does not list. -/
  additionalProperties : ExtraProperties
  deriving Repr, DecidableEq

/-- One atomic difference between two schemas. -/
structure Change where
  path : Path
  kind : ChangeKind
  keyword : Keyword
  scope : Scope := .keyword
  oldValue : Option Json := none
  newValue : Option Json := none
  property : Option PropertyContext := none

namespace ChangeKind

def all : List ChangeKind := [.added, .removed, .modified]

def name : ChangeKind → String
  | .added => "added"
  | .removed => "removed"
  | .modified => "modified"

def ofName? (name : String) : Option ChangeKind :=
  all.find? (·.name == name)

end ChangeKind

namespace Scope

def name : Scope → String
  | .keyword => "keyword"
  | .member => "member"

end Scope

namespace Change

def added (path : Path) (keyword : Keyword) (value : Json) : Change :=
  { path, keyword, kind := .added, newValue := some value }

def removed (path : Path) (keyword : Keyword) (value : Json) : Change :=
  { path, keyword, kind := .removed, oldValue := some value }

def modified (path : Path) (keyword : Keyword) (old new : Json) : Change :=
  { path, keyword, kind := .modified, oldValue := some old, newValue := some new }

/-- A member that only the new side has. -/
def memberAdded (path : Path) (keyword : Keyword) (value : Json) : Change :=
  { added path keyword value with scope := .member }

/-- A member that only the old side has. -/
def memberRemoved (path : Path) (keyword : Keyword) (value : Json) : Change :=
  { removed path keyword value with scope := .member }

def propertyAdded (path : Path) (schema : Json) (context : PropertyContext) : Change :=
  { added path .properties schema with property := some context }

def propertyRemoved (path : Path) (schema : Json) (context : PropertyContext) : Change :=
  { removed path .properties schema with property := some context }

/-- A value within a sentence. -/
def shown : Option Json → String
  | some value => value.compact
  | none => "nothing"

def propertyText (change : Change) (context : PropertyContext) : String :=
  let status := if context.required then "Required" else "Optional"
  let label := context.additionalProperties.label
  match change.kind with
  | .removed =>
    status ++ " property removed from " ++ change.path.text ++
      "; additional properties are " ++ label ++ " in the current schema"
  | _ =>
    status ++ " property added at " ++ change.path.text ++
      "; additional properties were " ++ label ++ " in the previous schema"

def requiredText (change : Change) : String :=
  let turn :=
    match change.newValue with
    | some (.bool true) => "optional to required"
    | _ => "required to optional"
  "Property at " ++ change.path.text ++ " changed from " ++ turn

def keywordText (change : Change) : String :=
  let label := if change.keyword.isMetadata then "Metadata" else "Validation"
  let keyword := "'" ++ change.keyword.name ++ "'"
  match change.scope, change.kind with
  | .member, .added =>
    keyword ++ " entry " ++ shown change.newValue ++ " added at " ++ change.path.text
  | .member, _ =>
    keyword ++ " entry " ++ shown change.oldValue ++ " removed from " ++ change.path.text
  | .keyword, .added => label ++ " keyword " ++ keyword ++ " added at " ++ change.path.text
  | .keyword, .removed => label ++ " keyword " ++ keyword ++ " removed from " ++ change.path.text
  | .keyword, .modified =>
    label ++ " keyword " ++ keyword ++ " modified at " ++ change.path.text ++ " from " ++
      shown change.oldValue ++ " to " ++ shown change.newValue

def text (change : Change) : String :=
  match change.property with
  | some context => change.propertyText context
  | none => if change.keyword = .required then change.requiredText else change.keywordText

end Change

end SchemaEvolution
