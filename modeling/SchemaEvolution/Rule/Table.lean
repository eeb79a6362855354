import SchemaEvolution.Change
import SchemaEvolution.Severity

/-!
# The table of rules

The severity of every change that has a rule: one table by what a change touches and which way it
goes, one for properties by what surrounds them.
-/

namespace SchemaEvolution

/-- What kind of constraint a change touches. -/
inductive RuleCategory where
  | metadata
  /-- Whether a keyword is there. -/
  | validation
  | type
  | format
  | enumOption
  | required
  | upperBound
  | lowerBound
  | uniqueItems
  /-- A flag that makes a bound strict. -/
  | exclusiveFlag
  | multipleOf
  | pattern
  /-- A place for a schema that holds nothing, a schema or everything. -/
  | openness
  /-- `items` as one schema or one for each position. -/
  | itemsForm
  | dependency
  /-- A position of a list of schemas. -/
  | position
  deriving Repr, DecidableEq

/-- Which way a change goes within its category. -/
inductive Direction where
  | added
  | removed
  | changed
  | increased
  | decreased
  | tightened
  | loosened
  /-- The new divisor is a multiple of the old one. -/
  | multiple
  /-- The divisors share a factor greater than one. -/
  | commonFactor
  | noCommonFactor
  deriving Repr, DecidableEq

namespace RuleCategory

def all : List RuleCategory :=
  [.metadata, .validation, .type, .format, .enumOption, .required, .upperBound, .lowerBound,
    .uniqueItems, .exclusiveFlag, .multipleOf, .pattern, .openness, .itemsForm, .dependency,
    .position]

def name : RuleCategory → String
  | .metadata => "Metadata"
  | .validation => "Validation"
  | .type => "Type"
  | .format => "Format"
  | .enumOption => "EnumOption"
  | .required => "Required"
  | .upperBound => "UpperBound"
  | .lowerBound => "LowerBound"
  | .uniqueItems => "UniqueItems"
  | .exclusiveFlag => "ExclusiveFlag"
  | .multipleOf => "MultipleOf"
  | .pattern => "Pattern"
  | .openness => "Openness"
  | .itemsForm => "ItemsForm"
  | .dependency => "Dependency"
  | .position => "Position"

def ofName? (name : String) : Option RuleCategory :=
  all.find? (·.name == name)

end RuleCategory

namespace Direction

def all : List Direction :=
  [.added, .removed, .changed, .increased, .decreased, .tightened, .loosened, .multiple,
    .commonFactor, .noCommonFactor]

def name : Direction → String
  | .added => "Added"
  | .removed => "Removed"
  | .changed => "Changed"
  | .increased => "Increased"
  | .decreased => "Decreased"
  | .tightened => "Tightened"
  | .loosened => "Loosened"
  | .multiple => "Multiple"
  | .commonFactor => "CommonFactor"
  | .noCommonFactor => "NoCommonFactor"

def ofName? (name : String) : Option Direction :=
  all.find? (·.name == name)

end Direction

/-- A row for changes of keywords. -/
structure KeywordRule where
  category : RuleCategory
  direction : Direction
  severity : Severity
  deriving Repr, DecidableEq

/-- A row for the addition or removal of a property. -/
structure PropertyRule where
  kind : ChangeKind
  required : Bool
  additionalProperties : ExtraProperties
  severity : Severity
  deriving Repr, DecidableEq

namespace KeywordRule

/-- The rows for changes of keywords. -/
def table : List KeywordRule :=
  [⟨.metadata, .added, .addition⟩,
    ⟨.metadata, .removed, .addition⟩,
    ⟨.metadata, .changed, .addition⟩,
    ⟨.validation, .added, .revision⟩,
    ⟨.validation, .removed, .addition⟩,
    ⟨.type, .changed, .model⟩,
    ⟨.format, .changed, .model⟩,
    ⟨.enumOption, .added, .addition⟩,
    ⟨.enumOption, .removed, .revision⟩,
    ⟨.required, .tightened, .revision⟩,
    ⟨.required, .loosened, .addition⟩,
    ⟨.upperBound, .increased, .addition⟩,
    ⟨.upperBound, .decreased, .revision⟩,
    ⟨.upperBound, .changed, .revision⟩,
    ⟨.lowerBound, .increased, .revision⟩,
    ⟨.lowerBound, .decreased, .addition⟩,
    ⟨.lowerBound, .changed, .revision⟩,
    ⟨.uniqueItems, .tightened, .revision⟩,
    ⟨.uniqueItems, .loosened, .addition⟩,
    ⟨.exclusiveFlag, .tightened, .revision⟩,
    ⟨.exclusiveFlag, .loosened, .addition⟩,
    ⟨.multipleOf, .multiple, .addition⟩,
    ⟨.multipleOf, .commonFactor, .revision⟩,
    ⟨.multipleOf, .noCommonFactor, .model⟩,
    ⟨.pattern, .tightened, .revision⟩,
    ⟨.pattern, .loosened, .addition⟩,
    ⟨.openness, .tightened, .revision⟩,
    ⟨.openness, .loosened, .addition⟩,
    ⟨.itemsForm, .changed, .model⟩,
    ⟨.dependency, .added, .revision⟩,
    ⟨.dependency, .removed, .addition⟩,
    ⟨.position, .added, .revision⟩,
    ⟨.position, .removed, .addition⟩]

def severity? (category : RuleCategory) (direction : Direction) : Option Severity :=
  (table.find? fun row => row.category == category && row.direction == direction).map (·.severity)

end KeywordRule

namespace PropertyRule

/-- The rows for properties. A schema for the properties that are not listed counts as allowing
them. -/
def table : List PropertyRule :=
  [⟨.added, false, .notAllowed, .addition⟩,
    ⟨.added, false, .allowed, .revision⟩,
    ⟨.added, false, .validated, .revision⟩,
    ⟨.added, true, .notAllowed, .model⟩,
    ⟨.added, true, .allowed, .revision⟩,
    ⟨.added, true, .validated, .revision⟩,
    ⟨.removed, false, .notAllowed, .revision⟩,
    ⟨.removed, false, .allowed, .addition⟩,
    ⟨.removed, false, .validated, .addition⟩,
    ⟨.removed, true, .notAllowed, .model⟩,
    ⟨.removed, true, .allowed, .addition⟩,
    ⟨.removed, true, .validated, .addition⟩]

def severity? (kind : ChangeKind) (required : Bool) (extra : ExtraProperties) : Option Severity :=
  (table.find? fun row =>
    row.kind == kind && row.required == required && row.additionalProperties == extra).map
      (·.severity)

end PropertyRule

end SchemaEvolution
