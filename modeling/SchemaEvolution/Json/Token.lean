import SchemaEvolution.Json.Basic
import SchemaEvolution.Number.Decimal
import SchemaEvolution.Text.Hex

/-!
# Tokens of JSON text

Text is cut into brackets, marks and scalar values; blanks between them are space, tab, line
feed and carriage return. Readers of JSON differ in the double that they take for a numeral.
-/

namespace SchemaEvolution

namespace Json

/-- A token of JSON text. A string is told from the other scalars, as it may be a name. -/
inductive Token where
  | openArray
  | closeArray
  | openObject
  | closeObject
  | comma
  | colon
  | text (value : String)
  | scalar (value : Json)

/-- Whether a character may stand between tokens. -/
def isSpace (c : Char) : Bool :=
  c == ' ' || c == '\t' || c == '\n' || c == '\r'

/-- Whether a character may stand in a scalar that is not a string. -/
def isBareChar (c : Char) : Bool :=
  c.isAlphanum || c == '-' || c == '+' || c == '.'

/-- The digits a text begins with, if there is one, and the rest. -/
def digits? (text : List Char) : Option (List Char × List Char) :=
  let found := text.takeWhile Char.isDigit
  if found.isEmpty then none else some (found, text.dropWhile Char.isDigit)

/-- The whole part of a numeral: a single zero, or digits that do not start with one. -/
def wholePart? (text : List Char) : Option (List Char × List Char) :=
  match digits? text with
  | some (['0'], rest) => some (['0'], rest)
  | some ('0' :: _, _) => none
  | found => found

/-- The part of a numeral after its point: at least one digit if the point is there. -/
def fractionPart? : List Char → Option (List Char × List Char)
  | '.' :: rest => digits? rest
  | text => some ([], text)

/-- The power of ten of a numeral: an `e`, maybe a sign, and at least one digit. -/
def exponentPart? : List Char → Option (Option Int × List Char)
  | [] => some (none, [])
  | c :: rest =>
    if c == 'e' || c == 'E' then
      let (negative, rest) :=
        match rest with
        | '-' :: rest => (true, rest)
        | '+' :: rest => (false, rest)
        | rest => (false, rest)
      (digits? rest).map fun (found, rest) =>
        let n : Int := Decimal.value found
        (some (if negative then -n else n), rest)
    else some (none, c :: rest)

/-- A numeral: the decimal, and whether it is written without point and power. -/
structure Numeral where
  decimal : Decimal
  isWhole : Bool

def numeral? (text : List Char) : Option Numeral := do
  let (negative, rest) :=
    match text with
    | '-' :: rest => (true, rest)
    | rest => (false, rest)
  let (whole, rest) ← wholePart? rest
  let (fraction, rest) ← fractionPart? rest
  let (exponent, rest) ← exponentPart? rest
  if !rest.isEmpty then none
  return {
    decimal := { negative, whole, fraction, exponent := exponent.getD 0 }
    isWhole := fraction.isEmpty && exponent.isNone }

/-- The number that a numeral denotes, where `double?` finds the double of a decimal. Without point
and power it is a whole number if 64 bits hold it, except that minus zero is a double. -/
def Numeral.number? (double? : Decimal → Option Binary64) (numeral : Numeral) : Option Number :=
  let decimal := numeral.decimal
  let asDouble := (double? decimal).map Number.double
  if numeral.isWhole then
    let magnitude := Decimal.value decimal.whole
    if decimal.negative && magnitude = 0 then asDouble
    else
      match Number.ofInt? (if decimal.negative then -(magnitude : Int) else magnitude) with
      | some n => some n
      | none => asDouble
  else asDouble

def hexWord? (a b c d : Char) : Option Nat :=
  Text.valueInBase? 16 0 [a, b, c, d]

/-- The character that two code units denote, a high surrogate and a low one. -/
def pairChar? (high low : Nat) : Option Char :=
  if 0xD800 ≤ high && high < 0xDC00 && 0xDC00 ≤ low && low < 0xE000 then
    Text.charOf? (0x10000 + (high - 0xD800) * 0x400 + (low - 0xDC00))
  else none

/-- The character that an escape of one letter denotes. -/
def escaped? : Char → Option Char
  | '"' => some '"'
  | '\\' => some '\\'
  | '/' => some '/'
  | 'b' => some '\x08'
  | 'f' => some '\x0c'
  | 'n' => some '\n'
  | 'r' => some '\r'
  | 't' => some '\t'
  | _ => none

def bareScalar? (double? : Decimal → Option Binary64) (text : List Char) : Option Json :=
  match String.ofList text with
  | "true" => some (.bool true)
  | "false" => some (.bool false)
  | "null" => some .null
  | _ => ((numeral? text).bind (Numeral.number? double?)).map .number

/-- What a text is in the middle of. The characters of it so far are in reverse. -/
inductive Pending where
  /-- Nothing: a token may begin. -/
  | nothing
  | bare (read : List Char)
  | string (read : List Char)
  /-- A string, after a backslash. -/
  | escape (read : List Char)
  /-- A string, inside the four digits of a code unit, after a high surrogate if there is one. -/
  | unit (read : List Char) (high : Option Nat) (digits : List Char)
  /-- A string, after a high surrogate, before the backslash of the low one. -/
  | lowEscape (read : List Char) (high : Nat)
  /-- A string, after a high surrogate and a backslash. -/
  | lowMark (read : List Char) (high : Nat)

/-- The tokens of a text so far, in reverse, and what the text is in the middle of. -/
structure Reading where
  found : List Token
  pending : Pending

namespace Reading

def begin (found : List Token) (c : Char) : Option Reading :=
  match c with
  | '[' => some ⟨.openArray :: found, .nothing⟩
  | ']' => some ⟨.closeArray :: found, .nothing⟩
  | '{' => some ⟨.openObject :: found, .nothing⟩
  | '}' => some ⟨.closeObject :: found, .nothing⟩
  | ',' => some ⟨.comma :: found, .nothing⟩
  | ':' => some ⟨.colon :: found, .nothing⟩
  | '"' => some ⟨found, .string []⟩
  | c =>
    if isSpace c then some ⟨found, .nothing⟩
    else if isBareChar c then some ⟨found, .bare [c]⟩
    else none

def endBare (double? : Decimal → Option Binary64) (found : List Token) (read : List Char) :
    Option (List Token) :=
  (bareScalar? double? read.reverse).map (Token.scalar · :: found)

def endUnit (found : List Token) (read : List Char) (high : Option Nat) (word : Nat) :
    Option Reading :=
  match high with
  | some high => (pairChar? high word).map fun c => ⟨found, .string (c :: read)⟩
  | none =>
    match Text.charOf? word with
    | some c => some ⟨found, .string (c :: read)⟩
    | none => if word < 0xDC00 then some ⟨found, .lowEscape read word⟩ else none

def step (double? : Decimal → Option Binary64) (reading : Reading) (c : Char) : Option Reading :=
  let found := reading.found
  match reading.pending with
  | .nothing => begin found c
  | .bare read =>
    if isBareChar c then some ⟨found, .bare (c :: read)⟩
    else (endBare double? found read).bind (begin · c)
  | .string read =>
    if c = '"' then some ⟨.text (String.ofList read.reverse) :: found, .nothing⟩
    else if c = '\\' then some ⟨found, .escape read⟩
    else if c.toNat < 0x20 then none
    else some ⟨found, .string (c :: read)⟩
  | .escape read =>
    if c = 'u' then some ⟨found, .unit read none []⟩
    else (escaped? c).map fun c => ⟨found, .string (c :: read)⟩
  | .unit read high digits =>
    match digits with
    | [third, second, first] =>
      (hexWord? first second third c).bind (endUnit found read high)
    | digits => some ⟨found, .unit read high (c :: digits)⟩
  | .lowEscape read high => if c = '\\' then some ⟨found, .lowMark read high⟩ else none
  | .lowMark read high => if c = 'u' then some ⟨found, .unit read (some high) []⟩ else none

/-- The tokens, in order, of a text that ends here. -/
def finish (double? : Decimal → Option Binary64) (reading : Reading) : Option (List Token) :=
  match reading.pending with
  | .nothing => some reading.found.reverse
  | .bare read => (endBare double? reading.found read).map List.reverse
  | _ => none

end Reading

def tokens? (double? : Decimal → Option Binary64) (text : List Char) : Option (List Token) :=
  (text.foldlM (Reading.step double?) ⟨[], .nothing⟩).bind (Reading.finish double?)

end Json

end SchemaEvolution
