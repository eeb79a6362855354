/-!
# Restrictiveness of patterns

How a new pattern relates to the one it replaces.
-/

namespace SchemaEvolution

/-- How a new pattern relates to the old one. -/
inductive Restrictiveness where
  /-- It accepts every string the old one did, and maybe more. -/
  | looser
  /-- It accepts nothing but what the old one did. -/
  | stricter
  /-- Both accept the same strings. -/
  | equivalent
  deriving Repr, DecidableEq

namespace Restrictiveness

def all : List Restrictiveness := [.looser, .stricter, .equivalent]

def name : Restrictiveness → String
  | .looser => "looser"
  | .stricter => "stricter"
  | .equivalent => "equivalent"

def ofName? (name : String) : Option Restrictiveness :=
  all.find? (·.name == name)

end Restrictiveness

/-- Decides how a new pattern relates to an old one; none where it cannot tell. -/
abbrev PatternComparator := (old new : String) → Option Restrictiveness

end SchemaEvolution
