import SchemaEvolution.Command
import SchemaEvolution.Files

/-!
# Arguments

The arguments of a program as a request. The name of a command comes first, then its options in any
order. An option takes the next argument or what follows an equals sign as its value. All but the
annotations may be given once, and the flag that asks for more messages counts nowhere.
-/

namespace SchemaEvolution

/-- The names of the commands. -/
inductive CommandName where
  | compare
  | diff
  deriving Repr, DecidableEq

/-- What arguments ask for. -/
inductive Request where
  | version
  | help
  | run (command : Command)
  deriving DecidableEq

/-- The options that have been read. -/
structure Settings where
  old : Option String := none
  new : Option String := none
  version : Option Version := none
  format : Option OutputFormat := none
  output : Option String := none
  annotations : List String := []
  failIfUnchanged : Bool := false
  asJson : Bool := false

namespace CommandName

def ofName? : String → Option CommandName
  | "compare" => some .compare
  | "diff" => some .diff
  | _ => none

end CommandName

namespace Settings

/-- Gives an option of a command a value; none if the value is refused, or if the option has one
and takes only one. -/
abbrev Setter := Settings → String → Option Settings

/-- The option of that name, if the command has one that takes a value. -/
def setter? (name : CommandName) (option : String) : Option Setter :=
  match name, option with
  | _, "old" => some fun s value => if s.old.isNone then some { s with old := value } else none
  | _, "new" => some fun s value => if s.new.isNone then some { s with new := value } else none
  | _, "annotation" =>
    some fun s value => some { s with annotations := s.annotations ++ [value] }
  | .compare, "version" => some fun s value => do
    let version ← (Version.parse value).toOption
    if s.version.isNone then return { s with version := some version }
    none
  | .compare, "format" => some fun s value => do
    let format ← OutputFormat.ofName? value
    if s.format.isNone then return { s with format := some format }
    none
  | .compare, "output" => some fun s value =>
    if s.output.isNone && !value.isEmpty then some { s with output := value } else none
  | _, _ => none

/-- Sets a flag of a command; none if the command has no such flag, or if it is set already. -/
def setFlag? (name : CommandName) (flag : String) (s : Settings) : Option Settings :=
  match name, flag with
  | _, "verbose" => some s
  | .compare, "fail-if-unchanged" =>
    if s.failIfUnchanged then none else some { s with failIfUnchanged := true }
  | .diff, "json" => if s.asJson then none else some { s with asJson := true }
  | _, _ => none

/-- The command with these options, if none is missing. -/
def command? (s : Settings) : CommandName → Option Command
  | .compare => do
    return .compare
      { old := ← s.old
        new := ← s.new
        version := ← s.version
        format := s.format.getD .version
        output := s.output
        annotations := s.annotations
        failIfUnchanged := s.failIfUnchanged }
  | .diff => do
    return .diff
      { old := ← s.old, new := ← s.new, annotations := s.annotations, asJson := s.asJson }

end Settings

/-- The forms of arguments. -/
inductive ArgumentForm where
  /-- What only other arguments than options may follow. -/
  | separator
  /-- An option by its name, maybe with a value. -/
  | long (name : String) (value : Option String)
  /-- Flags of one letter each. -/
  | short (letters : List Char)
  | plain
  deriving DecidableEq

namespace ArgumentForm

def ofText (text : String) : ArgumentForm :=
  match text.toList with
  | ['-', '-'] => .separator
  | '-' :: '-' :: rest =>
    let name := rest.takeWhile (· != '=')
    let value := (rest.dropWhile (· != '=')).drop 1
    .long (String.ofList name)
      (if rest.contains '=' then some (String.ofList value) else none)
  | '-' :: first :: rest => .short (first :: rest)
  | _ => .plain

end ArgumentForm

namespace Request

/-- What flags of one letter each ask for: nothing, if they only ask for more messages. -/
def ofLetters? (special : Char → Option Request) : List Char → Option (Option Request)
  | [] => some none
  | 'v' :: rest => ofLetters? special rest
  | letter :: _ => (special letter).map some

/-- The request for help by its letter. -/
def helpLetter? (letter : Char) : Option Request :=
  if letter = 'h' then some .help else none

/-- The requests for help and for the program's version by their letters. -/
def generalLetter? (letter : Char) : Option Request :=
  if letter = 'V' then some .version else helpLetter? letter

/-- Reads the options of a command. -/
def ofOptions? (name : CommandName) (s : Settings) : List String → Option Request
  | [] => (s.command? name).map .run
  | argument :: rest =>
    match ArgumentForm.ofText argument with
    | .plain => none
    | .separator => if rest.isEmpty then (s.command? name).map .run else none
    | .short letters =>
      match ofLetters? helpLetter? letters with
      | none => none
      | some (some request) => some request
      | some none => ofOptions? name s rest
    | .long option value =>
      match Settings.setter? name option, value with
      | some set, some value => (set s value).bind fun s => ofOptions? name s rest
      | some set, none =>
        match rest with
        | [] => none
        | value :: rest =>
          if ArgumentForm.ofText value = .plain then
            (set s value).bind fun s => ofOptions? name s rest
          else none
      | none, some _ => none
      | none, none =>
        if option = "help" then some .help
        else (s.setFlag? name option).bind fun s => ofOptions? name s rest

/-- Whether these may follow the request for help: at most the name of what to explain. -/
def isTopic : List String → Bool
  | [] => true
  | [name] => name == "help" || (CommandName.ofName? name).isSome
  | _ => false

/-- What arguments ask for, if they can be understood. -/
def ofArguments? : List String → Option Request
  | [] => none
  | argument :: rest =>
    match ArgumentForm.ofText argument with
    | .plain =>
      match CommandName.ofName? argument with
      | some name => ofOptions? name {} rest
      | none => if argument = "help" && isTopic rest then some .help else none
    | .long "version" none => some .version
    | .long "help" none => some .help
    | .long "verbose" none => ofArguments? rest
    | .long _ _ | .separator => none
    | .short letters =>
      match ofLetters? generalLetter? letters with
      | none => none
      | some (some request) => some request
      | some none => ofArguments? rest

/-- The line that names the program and its version. -/
def versionLine : String := "schemaver 0.1.0\n"

def usage : String :=
  "Usage: schemaver [-v...] compare --old <SCHEMA> --new <SCHEMA> --version <VERSION>\n" ++
  "           [--format version|markdown|json] [--output <FILE>]\n" ++
  "           [--annotation <KEYWORD>]... [--fail-if-unchanged]\n" ++
  "       schemaver [-v...] diff --old <SCHEMA> --new <SCHEMA>\n" ++
  "           [--annotation <KEYWORD>]... [--json]\n"

/-- The report on arguments that cannot be understood. -/
def misuse : Report :=
  { exitCode := 2, stderr := usage }

def plan (around : Surroundings) : Request → Plan
  | .version => { report := { stdout := versionLine } }
  | .help => { report := { stdout := usage } }
  | .run command => command.plan around

def planArguments (around : Surroundings) (arguments : List String) : Plan :=
  match ofArguments? arguments with
  | some request => request.plan around
  | none => { report := misuse }

/-- Runs the program with arguments on a host. -/
def runOn {State : Type} (host : Host State) (state : State) (arguments : List String) :
    Report × State :=
  (planArguments (host.surroundings state) arguments).carryOut host state

/-- Runs the program with arguments among the files of a folder. -/
def runArguments (files : Files) (arguments : List String) : Report × Files :=
  runOn Files.host files arguments

end Request

end SchemaEvolution
