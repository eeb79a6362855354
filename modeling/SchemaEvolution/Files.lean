import SchemaEvolution.Host
import SchemaEvolution.Pattern.BestEffort

/-!
# Files in a folder

A host of its own, for trying the program out: the files in and below the folder that the program
works in, and nothing outside it, but that it has folders around it. There is no web.
-/

namespace SchemaEvolution

/-- What stands at a path. -/
inductive FileEntry where
  | folder
  | file (octets : ByteArray)

/-- The entries of a folder. Each is under the names that lead to it, and the folders on the way to
an entry are there too. -/
abbrev Files := List (List String × FileEntry)

/-- A place that a path leads to: so many folders up from the working folder, or below it. -/
structure FilePlace where
  levelsUp : Nat := 0
  names : List String := []
  deriving DecidableEq

namespace FileEntry

def content : FileEntry → FileContent
  | .folder => .unreadable
  | .file octets =>
    match String.fromUTF8? octets with
    | some text => .text text
    | none => .unreadable

end FileEntry

namespace Files

/-- What stands at a place. -/
def standing? (files : Files) (place : FilePlace) : Option FileEntry :=
  if place.names.isEmpty then some .folder
  else if 0 < place.levelsUp then none
  else
    match files.lookup place.names with
    | some entry => some entry
    | none => if files.any (place.names.isPrefixOf ·.1) then some .folder else none

def isFolder (files : Files) (place : FilePlace) : Bool :=
  match files.standing? place with
  | some .folder => true
  | _ => false

/-- The place that one more component of a path leads to from a place, which has to be that of a
folder. -/
def step? (files : Files) (place : FilePlace) (component : String) : Option FilePlace :=
  if !files.isFolder place then none
  else if component = "" || component = "." then some place
  else if component = ".." then
    if place.names.isEmpty then some { place with levelsUp := place.levelsUp + 1 }
    else some { place with names := place.names.dropLast }
  else some { place with names := place.names ++ [component] }

/-- The place that a path leads to. Of the paths that start at the root only the root itself is
known. -/
def place? (files : Files) (path : String) : Option FilePlace :=
  if path.isEmpty then none
  else
    let start : FilePlace := if path.startsWith "/" then { levelsUp := 1 } else {}
    (components path).foldlM files.step? start

def read (files : Files) (path : String) : FileContent :=
  match (files.place? path).bind files.standing? with
  | some entry => entry.content
  | none => .missing

/-- The greatest length of a name, in octets. -/
def maxNameLength : Nat := 255

/-- The files after a text is written to a path, if it can be: to a file that is there, or to a new
one in a folder that is there. -/
def write? (files : Files) (path text : String) : Option Files := do
  let place ← files.place? path
  if 0 < place.levelsUp || files.isFolder place then none
  if place.names.any fun name => maxNameLength < name.utf8ByteSize then none
  let others := files.filter fun (names, _) => names ≠ place.names
  return others ++ [(place.names, .file text.toUTF8)]

/-- The folder as a host. -/
def host : Host Files where
  surroundings files :=
    { read := files.read, emptyMatch := Pattern.emptyMatch Pattern.Expr.isEstimatedSmall }
  write files path text :=
    match files.write? path text with
    | some after => (true, after)
    | none => (false, files)

end Files

end SchemaEvolution
