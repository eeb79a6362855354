/-!
# Severity

How far a change reaches, and the greatest of several severities.
-/

namespace SchemaEvolution

/-- How far a change reaches. -/
inductive Severity where
  /-- Nothing changed. -/
  | none
  /-- Every value valid before is still valid. -/
  | addition
  /-- Breaks validators or queries, but not data. -/
  | revision
  /-- Breaks data: some values valid before are rejected. -/
  | model
  deriving Repr, DecidableEq

namespace Severity

/-- The place of a severity among all, the least first. -/
def rank : Severity → Nat
  | .none => 0
  | .addition => 1
  | .revision => 2
  | .model => 3

instance : LE Severity := ⟨fun a b => a.rank ≤ b.rank⟩

instance : LT Severity := ⟨fun a b => a.rank < b.rank⟩

instance (a b : Severity) : Decidable (a ≤ b) := inferInstanceAs (Decidable (a.rank ≤ b.rank))

instance (a b : Severity) : Decidable (a < b) := inferInstanceAs (Decidable (a.rank < b.rank))

/-- Every severity, the least first. -/
def all : List Severity := [.none, .addition, .revision, .model]

def name : Severity → String
  | .none => "none"
  | .addition => "addition"
  | .revision => "revision"
  | .model => "model"

def ofName? (name : String) : Option Severity :=
  all.find? (·.name == name)

def max (a b : Severity) : Severity :=
  if a ≤ b then b else a

/-- The greatest of several severities; none if there are none. -/
def reduce (severities : List Severity) : Severity :=
  severities.foldr max .none

def sort (severities : List Severity) : List Severity :=
  all.flatMap fun severity => severities.filter (· == severity)

def alignLeft (width : Nat) (severity : Severity) : String :=
  String.ofList (severity.name.toList.rightpad width ' ')

def alignRight (width : Nat) (severity : Severity) : String :=
  String.ofList (severity.name.toList.leftpad width ' ')

def cut (width : Nat) (severity : Severity) : String :=
  String.ofList (severity.name.toList.take width)

end Severity

end SchemaEvolution
