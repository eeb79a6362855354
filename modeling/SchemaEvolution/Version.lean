import SchemaEvolution.Text.Blank
import SchemaEvolution.Number.Decimal
import SchemaEvolution.Severity

/-!
# Versions

A version has three components, written `MODEL-REVISION-ADDITION`. Each severity raises one
component and sets those right of it to zero.
-/

namespace SchemaEvolution

/-- A version. -/
structure Version where
  model : UInt64
  revision : UInt64
  addition : UInt64
  deriving Repr, DecidableEq

/-- A component of a version. -/
inductive Component where
  | model
  | revision
  | addition
  deriving Repr, DecidableEq

namespace Component

def name : Component → String
  | .model => "model"
  | .revision => "revision"
  | .addition => "addition"

end Component

/-- Why a text is no version, or why a version has no next one. -/
inductive VersionError where
  | invalidFormat (text : String)
  | noChanges (current : Version)
  | overflow (current : Version) (component : Component)
  deriving Repr, DecidableEq

namespace Version

def component (version : Version) : Component → UInt64
  | .model => version.model
  | .revision => version.revision
  | .addition => version.addition

def componentDigits (n : UInt64) : List Char := Decimal.digits n.toNat

def characters (version : Version) : List Char :=
  componentDigits version.model ++ '-' :: componentDigits version.revision ++
    '-' :: componentDigits version.addition

def text (version : Version) : String := String.ofList version.characters

def component? (digits : List Char) : Option UInt64 :=
  if digits.isEmpty || !digits.all Char.isDigit then none
  else
    let n := Decimal.value digits
    if n < Decimal.wordLimit then some (UInt64.ofNat n) else none

/-- The text without one `v` at its start. -/
def stripMark : List Char → List Char
  | 'v' :: rest => rest
  | text => text

/-- The version that some characters denote: three components between hyphens, after at most one
`v`, with blanks allowed at both ends. -/
def ofCharacters? (text : List Char) : Option Version :=
  match (stripMark (Text.trim text)).splitOn '-' with
  | [model, revision, addition] => do
    return { model := ← component? model
             revision := ← component? revision
             addition := ← component? addition }
  | _ => none

def parse (text : String) : Except VersionError Version :=
  match ofCharacters? text.toList with
  | some version => .ok version
  | none => .error (.invalidFormat text)

def next? (n : UInt64) : Option UInt64 :=
  if n.toNat + 1 < Decimal.wordLimit then some (n + 1) else none

/-- The next version for a change of that severity. -/
def bump (current : Version) : Severity → Except VersionError Version
  | .none => .error (.noChanges current)
  | .addition =>
    match next? current.addition with
    | some addition => .ok { current with addition }
    | none => .error (.overflow current .addition)
  | .revision =>
    match next? current.revision with
    | some revision => .ok { current with revision, addition := 0 }
    | none => .error (.overflow current .revision)
  | .model =>
    match next? current.model with
    | some model => .ok { model, revision := 0, addition := 0 }
    | none => .error (.overflow current .model)

/-- The order of versions: by model, then by revision, then by addition. -/
def Precedes (a b : Version) : Prop :=
  a.model < b.model ∨
    (a.model = b.model ∧
      (a.revision < b.revision ∨ (a.revision = b.revision ∧ a.addition < b.addition)))

instance : LT Version := ⟨Precedes⟩

instance (a b : Version) : Decidable (a < b) :=
  inferInstanceAs (Decidable (_ ∨ (_ ∧ (_ ∨ (_ ∧ _)))))

def sort (versions : List Version) : List Version :=
  versions.mergeSort fun a b => decide (¬ b < a)

end Version

namespace VersionError

def message : VersionError → String
  | .invalidFormat text =>
    "invalid version \"" ++ text ++ "\": expected MODEL-REVISION-ADDITION, e.g. 1-0-0"
  | .noChanges current => "no changes detected; version remains " ++ current.text
  | .overflow current component =>
    component.name ++ " component of " ++ current.text ++ " cannot be incremented"

end VersionError

end SchemaEvolution
