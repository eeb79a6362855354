import SchemaEvolution.Host
import SchemaEvolution.Record

/-!
# Commands

One command compares two documents and names the next version, the other lists every change. A
command looks around on its host, plans what to report and maybe a text to write to a file; only
then is anything written.
-/

namespace SchemaEvolution

/-- What the comparison of two documents is reported as. -/
inductive OutputFormat where
  /-- The next version. -/
  | version
  /-- The changelog. -/
  | markdown
  /-- The whole release as a record. -/
  | json
  deriving Repr, DecidableEq

/-- The command that compares two documents. -/
structure CompareCommand where
  old : String
  new : String
  version : Version
  format : OutputFormat := .version
  /-- The path of the file that takes the result, if it does not go to the standard output. -/
  output : Option String := none
  annotations : List String := []
  failIfUnchanged : Bool := false
  deriving DecidableEq

/-- The command that lists the changes between two documents. -/
structure DiffCommand where
  old : String
  new : String
  annotations : List String := []
  /-- Whether the list is a JSON value. -/
  asJson : Bool := false
  deriving DecidableEq

/-- A command. -/
inductive Command where
  | compare (command : CompareCommand)
  | diff (command : DiffCommand)
  deriving DecidableEq

/-- What a program leaves behind on its streams, and its exit code. -/
structure Report where
  exitCode : UInt8 := 0
  stdout : String := ""
  stderr : String := ""
  deriving DecidableEq

/-- A report, and the text that has to be written to a path for the report to hold. -/
structure Plan where
  report : Report
  output : Option (String × String) := none
  deriving DecidableEq

namespace Report

/-- The report of a program that fails with a message. -/
def failure (exitCode : UInt8) (message : String) : Report :=
  { exitCode, stderr := message ++ "\n" }

def ofLoadError (option : String) (e : LoadError) : Report :=
  failure e.exitCode ("Error: cannot load " ++ option ++ " schema: " ++ e.message)

def ofCompareError (e : CompareError) : Report :=
  failure e.exitCode ("Error: " ++ e.message)

def ofUnwritten (path : String) : Report :=
  failure 3 ("Error writing to " ++ path ++ ": the file cannot be written")

end Report

/-- The rules with the annotation keywords that a command declares. -/
def RuleEngine.ofAnnotations (emptyMatch : Pattern.EmptyMatch) (annotations : List String) :
    RuleEngine :=
  { patterns := Pattern.compare? emptyMatch, annotations := NameSet.ofList annotations }

/-- The document of an option. -/
def loadOption (reach : Reach) (option source : String) : Except Report Json :=
  ((Source.ofText source).load reach).mapError (Report.ofLoadError option)

namespace OutputFormat

def name : OutputFormat → String
  | .version => "version"
  | .markdown => "markdown"
  | .json => "json"

def ofName? (name : String) : Option OutputFormat :=
  [version, markdown, json].find? (·.name == name)

def text (release : Release) : OutputFormat → String
  | .version => release.next.text
  | .markdown => release.summary
  | .json => release.toJson.pretty

end OutputFormat

namespace CompareCommand

/-- The release that the command finds. -/
def release (around : Surroundings) (command : CompareCommand) : Except Report Release := do
  let old ← loadOption around.toReach "--old" command.old
  let new ← loadOption around.toReach "--new" command.new
  let engine := RuleEngine.ofAnnotations around.emptyMatch command.annotations
  (Release.compare engine old new command.version).mapError .ofCompareError

def exitCode (command : CompareCommand) (release : Release) : UInt8 :=
  if release.isUnchanged && command.failIfUnchanged then 1 else 0

/-- The note on a release without changes. -/
def note (release : Release) : String :=
  if release.isUnchanged then
    "No changes detected; version remains " ++ release.previous.text ++ "\n"
  else ""

/-- A text as a line of the standard output, without the blanks at its end. -/
def outputLine (text : String) : String :=
  String.ofList (Text.trimEnd text.toList) ++ "\n"

def plan (around : Surroundings) (command : CompareCommand) : Plan :=
  match command.release around with
  | .error report => { report }
  | .ok release =>
    let text := command.format.text release
    let exitCode := command.exitCode release
    match command.output with
    | some path =>
      { report := { exitCode, stderr := note release }, output := some (path, text) }
    | none => { report := { exitCode, stdout := outputLine text, stderr := note release } }

end CompareCommand

namespace DiffCommand

/-- The classified changes that the command finds. The old document is understood before the new
one is loaded. -/
def changes (around : Surroundings) (command : DiffCommand) :
    Except Report (List ClassifiedChange) := do
  let old ← loadOption around.toReach "--old" command.old
  let oldNode ← (Release.decodeSide .old old).mapError .ofCompareError
  let new ← loadOption around.toReach "--new" command.new
  let newNode ← (Release.decodeSide .new new).mapError .ofCompareError
  let engine := RuleEngine.ofAnnotations around.emptyMatch command.annotations
  (engine.classifyAll (oldNode.diff newNode)).mapError (.ofCompareError ∘ .unclassified)

/-- The line of one change. -/
def line (entry : ClassifiedChange) : String :=
  entry.severity.alignLeft 8 ++ " " ++ entry.change.text ++ "\n"

def listing (changes : List ClassifiedChange) : String :=
  if changes.isEmpty then "No changes detected\n" else String.join (changes.map line)

def toJson (changes : List ClassifiedChange) : Json :=
  .array (changes.map ClassifiedChange.toJson)

def plan (around : Surroundings) (command : DiffCommand) : Plan :=
  match command.changes around with
  | .error report => { report }
  | .ok changes =>
    { report :=
        { stdout :=
            if command.asJson then (toJson changes).pretty ++ "\n" else listing changes } }

end DiffCommand

namespace Command

def plan (around : Surroundings) : Command → Plan
  | .compare command => command.plan around
  | .diff command => command.plan around

def sources : Command → List Source
  | .compare command => [.ofText command.old, .ofText command.new]
  | .diff command => [.ofText command.old, .ofText command.new]

end Command

namespace Plan

/-- Carries out the plan on a host. Without a text to write, the host keeps its state. -/
def carryOut {State : Type} (host : Host State) (state : State) (plan : Plan) : Report × State :=
  match plan.output with
  | none => (plan.report, state)
  | some (path, text) =>
    match host.write state path text with
    | (true, after) => (plan.report, after)
    | (false, after) => (.ofUnwritten path, after)

end Plan

namespace Command

def run {State : Type} (host : Host State) (state : State) (command : Command) : Report × State :=
  (command.plan (host.surroundings state)).carryOut host state

end Command

end SchemaEvolution
