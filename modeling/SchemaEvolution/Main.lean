import SchemaEvolution.Command.Arguments

/-!
# The program

Reads the files that its arguments name, prints the planned report, and writes the planned file. It
is built without access to the web.
-/

open SchemaEvolution

/-- What stands at a path of the machine. A path through something that is no folder leads
nowhere. -/
def readFile (path : String) : IO FileContent := do
  try
    return (FileEntry.file (← IO.FS.readBinFile path)).content
  catch e =>
    match e with
    | .noFileOrDirectory _ _ _ => return .missing
    | .inappropriateType _ 20 _ | .resourceExhausted _ 36 _ => return .missing
    | _ => return .unreadable

/-- The paths of the files that a request reads, each with what stands there. -/
def readSources : Option Request → IO (List (String × FileContent))
  | some (.run command) =>
    command.sources.filterMapM fun source =>
      match source with
      | .file path => return some (path, ← readFile path)
      | _ => return none
  | _ => return []

def writeOutput (plan : Plan) : IO Report := do
  match plan.output with
  | none => return plan.report
  | some (path, text) =>
    try
      IO.FS.writeBinFile path text.toUTF8
      return plan.report
    catch _ => return .ofUnwritten path

def main (arguments : List String) : IO UInt32 := do
  let contents ← readSources (Request.ofArguments? arguments)
  let around : Surroundings :=
    { read := fun path => (contents.lookup path).getD .missing
      emptyMatch := Pattern.emptyMatch Pattern.Expr.isEstimatedSmall }
  let report ← writeOutput (Request.planArguments around arguments)
  IO.print report.stdout
  IO.eprint report.stderr
  return report.exitCode.toUInt32
