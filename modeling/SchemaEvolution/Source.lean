import SchemaEvolution.Json.Parser
import SchemaEvolution.Text.Blank
import SchemaEvolution.Yaml.Document

/-!
# Sources of documents

A document comes from an address on the web, from JSON text that is given in place, or from a file,
which holds YAML if its name says so and JSON otherwise. What stands at a path, and what an address
answers with, is the matter of the machine that the program runs on.
-/

namespace SchemaEvolution

/-- What reading a path gives. -/
inductive FileContent where
  /-- Nothing stands at the path. -/
  | missing
  /-- What stands there is not a file of text. -/
  | unreadable
  | text (content : String)
  deriving DecidableEq

/-- What a program can get at on its machine. -/
structure Reach where
  read : String → FileContent
  /-- The text that an address answers with, if it does. A program that is built without access to
  the web has no such function. -/
  fetch : Option (String → Option String) := none

instance : Coe (String → FileContent) Reach := ⟨fun read => { read }⟩

/-- Where a document comes from. -/
inductive Source where
  | web (address : String)
  | inline (text : String)
  | file (path : String)
  deriving Repr, DecidableEq

/-- Why nothing can be read where there may be something. -/
inductive AccessError where
  /-- The path is that of a folder, or the file is not text. -/
  | file (path : String)
  /-- The address does not answer, or not with JSON. -/
  | network (address : String)
  deriving Repr, DecidableEq

/-- Why a document cannot be loaded. -/
inductive LoadError where
  | fileNotFound (path : String)
  | unreadable (cause : AccessError)
  | invalidJson
  | invalidYaml
  deriving Repr, DecidableEq

namespace LoadError

def message : LoadError → String
  | .fileNotFound path => "file not found: " ++ path
  | .unreadable (.file path) => "cannot read " ++ path ++ ": not a text file"
  | .unreadable (.network address) => "failed to fetch " ++ address ++ ": no JSON value"
  | .invalidJson => "invalid JSON: the text is not a JSON value"
  | .invalidYaml => "invalid YAML: the text is not a YAML document"

def exitCode : LoadError → UInt8
  | .fileNotFound _ | .unreadable _ => 3
  | .invalidJson | .invalidYaml => 2

end LoadError

/-- The formats of documents. -/
inductive DocumentFormat where
  | json
  | yaml
  deriving Repr, DecidableEq

/-- The parts of a text between the places where a character stands. -/
def Text.pieces (separator : Char) (text : String) : List String :=
  (text.toList.splitOn separator).map String.ofList

def Files.components (path : String) : List String := Text.pieces '/' path

namespace DocumentFormat

/-- The extension of a path: what follows the last point in its last name, unless nothing stands
before that point. -/
def extension? (path : String) : Option String :=
  match (Files.components path).getLast? with
  | none => none
  | some name =>
    match (Text.pieces '.' name).reverse with
    | extension :: before :: further =>
      if before.isEmpty && further.isEmpty then none else some extension
    | _ => none

def ofPath (path : String) : DocumentFormat :=
  match extension? path with
  | some "yaml" | some "yml" => .yaml
  | _ => .json

/-- The document that a text of the format denotes. -/
def parse (text : String) : DocumentFormat → Except LoadError Json
  | .json =>
    match Json.parse? text with
    | some document => .ok document
    | none => .error .invalidJson
  | .yaml =>
    match Yaml.parse? text with
    | some document => .ok document
    | none => .error .invalidYaml

end DocumentFormat

namespace Source

/-- Whether a text is an address on the web. -/
def isWebAddress (text : String) : Bool :=
  text.startsWith "http://" || text.startsWith "https://"

/-- Whether a text is JSON given in place: its first character that is not blank opens an object. -/
def isInline (text : String) : Bool :=
  (Text.trimStart text.toList).head? = some '{'

/-- The source that a text names. -/
def ofText (text : String) : Source :=
  if isWebAddress text then .web text
  else if isInline text then .inline text
  else .file text

/-- The document of a source. Without access to the web an address counts as a file that is not
there. -/
def load (reach : Reach) : Source → Except LoadError Json
  | .web address =>
    match reach.fetch with
    | none => .error (.fileNotFound address)
    | some fetch =>
      match (fetch address).bind Json.parse? with
      | some document => .ok document
      | none => .error (.unreadable (.network address))
  | .inline text => DocumentFormat.json.parse text
  | .file path =>
    match reach.read path with
    | .missing => .error (.fileNotFound path)
    | .unreadable => .error (.unreadable (.file path))
    | .text content => (DocumentFormat.ofPath path).parse content

end Source

end SchemaEvolution
