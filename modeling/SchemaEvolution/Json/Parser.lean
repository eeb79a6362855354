import SchemaEvolution.Json.Token

/-!
# Reading JSON text

The tokens of a text drive a machine whose stack holds the arrays and objects that are still
open. A repeated member name keeps its first place and takes its last value. Readers differ in how
many arrays and objects may be open at once.
-/

namespace SchemaEvolution

namespace Json

/-- An array or object that is still open, its contents so far in reverse. -/
inductive Frame where
  | array (elements : List Json)
  /-- An object that waits for the value of the member `name`. -/
  | object (members : List (String × Json)) (name : String)

/-- What may come next. -/
inductive Expecting where
  /-- A value, or the end of the array just opened. -/
  | valueOrClose
  | value
  /-- A member name, or the end of the object just opened. -/
  | nameOrClose
  | name (members : List (String × Json))
  | colon (members : List (String × Json)) (name : String)
  /-- What follows a complete value: a comma or the end of what encloses it. -/
  | afterValue (value : Json)

/-- What readers of JSON text differ in. -/
structure Reader where
  /-- The greatest number of arrays and objects that may be open at once, if there is one. -/
  maxOpen : Option Nat
  /-- The double that is taken for a decimal. -/
  double? : Decimal → Option Binary64

/-- The state of the machine: what is open, innermost first, and what may come next. -/
structure Machine where
  frames : List Frame
  expecting : Expecting

namespace Machine

/-- Puts a complete member among those before it, which are in reverse. -/
def addMember (members : List (String × Json)) (name : String) (value : Json) :
    List (String × Json) :=
  if members.any (·.1 == name) then
    members.map fun member => if member.1 = name then (name, value) else member
  else (name, value) :: members

def push (maxOpen : Option Nat) (frames : List Frame) (frame : Option Frame)
    (expecting : Expecting) : Option Machine :=
  if maxOpen.all (frames.length + 1 ≤ ·) then
    some ⟨(match frame with | some frame => frame :: frames | none => frames), expecting⟩
  else none

def readValue (maxOpen : Option Nat) (frames : List Frame) : Token → Option Machine
  | .text s => some ⟨frames, .afterValue (.string s)⟩
  | .scalar v => some ⟨frames, .afterValue v⟩
  | .openArray => push maxOpen frames (some (.array [])) .valueOrClose
  | .openObject => push maxOpen frames none .nameOrClose
  | _ => none

def step (maxOpen : Option Nat) (machine : Machine) (token : Token) : Option Machine :=
  let frames := machine.frames
  match machine.expecting, token with
  | .valueOrClose, .closeArray =>
    match frames with
    | .array elements :: frames => some ⟨frames, .afterValue (.array elements.reverse)⟩
    | _ => none
  | .valueOrClose, token => readValue maxOpen frames token
  | .value, token => readValue maxOpen frames token
  | .nameOrClose, .closeObject => some ⟨frames, .afterValue (.object [])⟩
  | .nameOrClose, .text name => some ⟨frames, .colon [] name⟩
  | .name members, .text name => some ⟨frames, .colon members name⟩
  | .colon members name, .colon => some ⟨.object members name :: frames, .value⟩
  | .afterValue value, token =>
    match frames, token with
    | .array elements :: frames, .comma => some ⟨.array (value :: elements) :: frames, .value⟩
    | .array elements :: frames, .closeArray =>
      some ⟨frames, .afterValue (.array (value :: elements).reverse)⟩
    | .object members name :: frames, .comma =>
      some ⟨frames, .name (addMember members name value)⟩
    | .object members name :: frames, .closeObject =>
      some ⟨frames, .afterValue (.object (addMember members name value).reverse)⟩
    | _, _ => none
  | _, _ => none

end Machine

namespace Reader

/-- The value that a text denotes to the reader. -/
def parse? (reader : Reader) (text : String) : Option Json := do
  let tokens ← tokens? reader.double? text.toList
  match ← tokens.foldlM (Machine.step reader.maxOpen) ⟨[], .value⟩ with
  | ⟨[], .afterValue value⟩ => some value
  | _ => none

/-- The reader of the program: it gives up on deep nesting, and scales doubles roughly. -/
def swift : Reader where
  maxOpen := some 127
  double? := Decimal.scaled?

/-- The reader that goes to any depth and rounds every decimal to the nearest double. -/
def exact : Reader where
  maxOpen := none
  double? := Decimal.nearest?

end Reader

/-- The value that a JSON text denotes to the program. -/
def parse? (text : String) : Option Json := Reader.swift.parse? text

end Json

end SchemaEvolution
