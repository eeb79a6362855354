import SchemaEvolution.Diff
import SchemaEvolution.Pattern.Restrictiveness
import SchemaEvolution.Rule.Divisibility

/-!
# Classification of changes

Which row of the table a change falls under, and hence its severity. A change that falls under
none is an error, so that an unknown change never lowers a version.
-/

namespace SchemaEvolution

/-- What classification depends on: how patterns are compared, and which further keywords only
describe. -/
structure RuleEngine where
  patterns : PatternComparator
  annotations : NameSet := []

/-- A change that falls under no rule. -/
structure UnclassifiedError where
  keyword : Keyword
  path : Path
  deriving Repr, DecidableEq

namespace UnclassifiedError

def message (error : UnclassifiedError) : String :=
  "cannot classify change to '" ++ error.keyword.name ++ "' at " ++ error.path.text

end UnclassifiedError

namespace Direction

/-- The direction of a keyword or member that came, went or changed. -/
def ofKind : ChangeKind → Direction
  | .added => .added
  | .removed => .removed
  | .modified => .changed

/-- The direction of a constraint that became tighter, or else looser. -/
def tightenedIf (tighter : Bool) : Direction :=
  if tighter then .tightened else .loosened

/-- The direction of a pattern. One whose relation to the old pattern is unknown counts as
tighter. -/
def ofPatterns : Option Restrictiveness → Direction
  | some .looser | some .equivalent => .loosened
  | some .stricter | none => .tightened

/-- The direction of a limit; values that are not numbers, or equal, only changed. -/
def ofLimits : Json → Json → Direction
  | .number old, .number new =>
    if old.signedUnits < new.signedUnits then .increased
    else if new.signedUnits < old.signedUnits then .decreased
    else .changed
  | _, _ => .changed

/-- The direction of a divisor; values that are not numbers share no factor. -/
def ofDivisors : Json → Json → Direction
  | .number old, .number new => Divisibility.direction old.signedUnits new.signedUnits
  | _, _ => .noCommonFactor

end Direction

def Bound.category : Bound → RuleCategory
  | .upper => .upperBound
  | .lower => .lowerBound

/-- The row for a bound: a flag on both sides is a rule of its own. -/
def Bound.rule (bound : Bound) : Json → Json → RuleCategory × Direction
  | .bool _, .bool new => (.exclusiveFlag, .tightenedIf new)
  | old, new => (bound.category, .ofLimits old new)

namespace RuleEngine

def isTrue : Json → Bool
  | .bool true => true
  | _ => false

/-- The row for a place that moved between nothing, a schema and everything. -/
def opennessRule? (old new : Json) : Option (RuleCategory × Direction) := do
  let after ← openness? new
  let before ← openness? old
  return (.openness, .tightenedIf (after < before))

/-- The row for a member that came or went. -/
def memberRule? (keyword : Keyword) (kind : ChangeKind) : Option (RuleCategory × Direction) :=
  match keyword with
  | .enum => some (.enumOption, .ofKind kind)
  | .dependentRequired => some (.dependency, .ofKind kind)
  | .items | .prefixItems => some (.position, .ofKind kind)
  | _ => none

/-- The row for a keyword whose value moved from one to another. -/
def modifiedRule? (engine : RuleEngine) (keyword : Keyword) (old new : Json) :
    Option (RuleCategory × Direction) :=
  match keyword with
  | .type => some (.type, .changed)
  | .format => some (.format, .changed)
  | .required => some (.required, .tightenedIf (isTrue new))
  | .uniqueItems => some (.uniqueItems, .tightenedIf (isTrue new))
  | .multipleOf => some (.multipleOf, .ofDivisors old new)
  | .pattern => do
    return (.pattern, .ofPatterns (engine.patterns (← old.string?) (← new.string?)))
  | .items =>
    if old.elements?.isSome != new.elements?.isSome then some (.itemsForm, .changed)
    else opennessRule? old new
  | .prefixItems | .contains | .additionalProperties | .properties => opennessRule? old new
  | keyword => keyword.bound?.map fun bound => bound.rule old new

/-- The row that a change falls under, whatever its context as a property. -/
def rule? (engine : RuleEngine) (change : Change) : Option (RuleCategory × Direction) :=
  match change.keyword with
  | .other name =>
    if engine.annotations.contains name then some (.metadata, .ofKind change.kind) else none
  | keyword =>
    if keyword.isMetadata then some (.metadata, .ofKind change.kind)
    else
      match change.scope, change.kind with
      | .member, kind => memberRule? keyword kind
      | .keyword, .modified => do
        engine.modifiedRule? keyword (← change.oldValue) (← change.newValue)
      | .keyword, kind => some (.validation, .ofKind kind)

/-- The severity of a change. -/
def classify (engine : RuleEngine) (change : Change) : Except UnclassifiedError Severity :=
  let severity :=
    match change.property with
    | some context =>
      PropertyRule.severity? change.kind context.required context.additionalProperties
    | none =>
      (engine.rule? change).bind fun (category, direction) =>
        KeywordRule.severity? category direction
  match severity with
  | some severity => .ok severity
  | none => .error { keyword := change.keyword, path := change.path }

end RuleEngine

end SchemaEvolution
