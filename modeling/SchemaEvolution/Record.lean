import SchemaEvolution.Release

/-!
# Records

Changes and releases as JSON values.
-/

namespace SchemaEvolution

def optionalMember (name : String) : Option Json → List (String × Json)
  | some value => [(name, value)]
  | none => []

namespace PropertyContext

def toJson (context : PropertyContext) : Json :=
  .object
    [("required", .bool context.required),
      ("additional_properties", .string context.additionalProperties.name)]

end PropertyContext

namespace Change

def members (change : Change) : List (String × Json) :=
  [("path", .string change.path.text),
    ("kind", .string change.kind.name),
    ("keyword", .string change.keyword.name),
    ("scope", .string change.scope.name)] ++
  optionalMember "old_value" change.oldValue ++
  optionalMember "new_value" change.newValue ++
  optionalMember "property" (change.property.map PropertyContext.toJson)

end Change

namespace ClassifiedChange

/-- The change as a record, its severity last. -/
def toJson (entry : ClassifiedChange) : Json :=
  .object (entry.change.members ++ [("severity", .string entry.severity.name)])

end ClassifiedChange

namespace Release

def toJson (release : Release) : Json :=
  .object
    [("previous", .string release.previous.text),
      ("next", .string release.next.text),
      ("severity", .string release.severity.name),
      ("changes", .array (release.changes.map ClassifiedChange.toJson))]

end Release

end SchemaEvolution
