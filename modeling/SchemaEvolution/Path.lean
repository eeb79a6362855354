import SchemaEvolution.Keyword
import SchemaEvolution.Schema.Pointer

/-! # Paths through a schema

A path leads from the root of a schema to one of its nodes. Paths are compared step by step, so a
property that is named like a keyword in brackets is not that keyword's sub-schema, although both
are written alike.
-/

namespace SchemaEvolution

/-- One step from a node towards a node below it. -/
inductive Step where
  /-- To the property of that name. -/
  | property (name : String)
  /-- To what the keyword holds. -/
  | subSchema (keyword : Keyword)
  /-- To a position of a list of schemas. -/
  | position (index : Nat)
  deriving Repr, DecidableEq

/-- A place in a schema, from its root. -/
abbrev Path := List Step

namespace Step

def text : Step → String
  | .property name => Pointer.escape name
  | .subSchema keyword => "[" ++ keyword.name ++ "]"
  | .position index => Pointer.positionToken index

end Step

namespace Path

/-- The text of a path; the root is written as a single slash. -/
def text : Path → String
  | [] => "/"
  | steps => String.join (steps.map fun step => "/" ++ step.text)

end Path

end SchemaEvolution
