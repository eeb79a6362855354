import SchemaEvolution.Rule.Engine
import SchemaEvolution.Schema.Decode
import SchemaEvolution.Version

/-!
# Releases

Two documents and a version make a release: the classified changes, the greatest severity among
them, and the next version.
-/

namespace SchemaEvolution

/-- A change with its severity. -/
structure ClassifiedChange where
  change : Change
  severity : Severity

/-- The outcome of comparing two documents. -/
structure Release where
  previous : Version
  /-- The same as `previous` if nothing changed. -/
  next : Version
  severity : Severity
  changes : List ClassifiedChange

/-- One of the two documents compared. -/
inductive Side where
  | old
  | new
  deriving Repr, DecidableEq

/-- Why two documents have no next version. -/
inductive CompareError where
  | decode (side : Side) (cause : DecodeError)
  | unclassified (cause : UnclassifiedError)
  | version (cause : VersionError)
  deriving Repr, DecidableEq

namespace Side

def name : Side → String
  | .old => "old"
  | .new => "new"

end Side

namespace CompareError

def message : CompareError → String
  | .decode side cause => "cannot read " ++ side.name ++ " schema: " ++ cause.message
  | .unclassified cause => cause.message
  | .version cause => cause.message

def exitCode : CompareError → UInt8
  | .version (.noChanges _) => 1
  | _ => 2

end CompareError

namespace RuleEngine

/-- The changes with their severities, in order; the first that has none ends it. -/
def classifyAll (engine : RuleEngine) (changes : List Change) :
    Except UnclassifiedError (List ClassifiedChange) :=
  changes.mapM fun change => do return { change, severity := ← engine.classify change }

end RuleEngine

namespace Release

def decodeSide (side : Side) (document : Json) : Except CompareError Node :=
  (Node.decode document).mapError (.decode side)

/-- The version after changes of that severity; the same version if it is none. -/
def nextVersion (current : Version) (severity : Severity) : Except CompareError Version :=
  match current.bump severity with
  | .ok next => .ok next
  | .error (.noChanges current) => .ok current
  | .error cause => .error (.version cause)

/-- Compares two documents and raises a version by their greatest change. -/
def compare (engine : RuleEngine) (old new : Json) (current : Version) :
    Except CompareError Release := do
  let oldNode ← decodeSide .old old
  let newNode ← decodeSide .new new
  let changes ← (engine.classifyAll (oldNode.diff newNode)).mapError .unclassified
  let severity := Severity.reduce (changes.map (·.severity))
  let next ← nextVersion current severity
  return { previous := current, next, severity, changes }

def isUnchanged (release : Release) : Bool := release.changes.isEmpty

def changesAt (release : Release) (severity : Severity) : List ClassifiedChange :=
  release.changes.filter (·.severity == severity)

/-- The next version for two documents; where nothing changed there is none. -/
def nextFor (engine : RuleEngine) (old new : Json) (current : Version) :
    Except CompareError Version := do
  let release ← compare engine old new current
  if release.isUnchanged then .error (.version (.noChanges current)) else return release.next

/-- The levels of the changelog with their headings, the greatest first. -/
def levels : List (Severity × String) :=
  [(.model, "Model level"), (.revision, "Revision level"), (.addition, "Addition level")]

def levelLines (release : Release) (severity : Severity) (heading : String) : List String :=
  match release.changesAt severity with
  | [] => []
  | changes =>
    ["", "### " ++ heading, ""] ++ changes.map fun entry => "- " ++ entry.change.text

def summaryLines (release : Release) : List String :=
  ["## Summary", ""] ++
    if release.isUnchanged then
      ["No changes detected; version remains " ++ release.previous.text ++ "."]
    else
      ["- Previous version: " ++ release.previous.text,
        "- New version: " ++ release.next.text,
        "- Change level: " ++ release.severity.name] ++
      levels.flatMap fun (severity, heading) => release.levelLines severity heading

def summary (release : Release) : String :=
  String.join (release.summaryLines.map (· ++ "\n"))

end Release

end SchemaEvolution
