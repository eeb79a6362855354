import SchemaEvolution.Json.Basic
import SchemaEvolution.Number.Shortest

/-!
# JSON text of a value

The compact form has no spaces; the indented form has one member or element a line, two spaces
a level, and keeps an empty array or object on its line.
-/

namespace SchemaEvolution

/-- The text of a number: decimal digits of a whole number, the shortest text of a double. -/
def Number.text : Number → String
  | .integer n _ => String.ofList ((if n < 0 then ['-'] else []) ++ Decimal.digits n.natAbs)
  | .double x => x.text

namespace Json

def hexDigit (n : Nat) : Char := Nat.digitChar n

/-- A character inside a quoted string. Only the quote, the backslash and what is below the
space are escaped. -/
def escapeChar (c : Char) : List Char :=
  match c with
  | '"' => ['\\', '"']
  | '\\' => ['\\', '\\']
  | '\n' => ['\\', 'n']
  | '\r' => ['\\', 'r']
  | '\t' => ['\\', 't']
  | '\x08' => ['\\', 'b']
  | '\x0c' => ['\\', 'f']
  | c =>
    if c.toNat < 0x20 then
      ['\\', 'u', '0', '0', hexDigit (c.toNat / 16), hexDigit (c.toNat % 16)]
    else [c]

def quote (s : String) : String :=
  "\"" ++ String.ofList (s.toList.flatMap escapeChar) ++ "\""

mutual

/-- The value without any spaces. -/
def compact : Json → String
  | .null => "null"
  | .bool true => "true"
  | .bool false => "false"
  | .number n => n.text
  | .string s => quote s
  | .array elements => "[" ++ ",".intercalate (compactElements elements) ++ "]"
  | .object members => "\x7b" ++ ",".intercalate (compactMembers members) ++ "\x7d"

def compactElements : List Json → List String
  | [] => []
  | element :: rest => compact element :: compactElements rest

def compactMembers : List (String × Json) → List String
  | [] => []
  | (name, value) :: rest => (quote name ++ ":" ++ compact value) :: compactMembers rest

end

/-- A line break and the margin of a nesting level. -/
def newline (level : Nat) : String :=
  "\n" ++ String.ofList (List.replicate (2 * level) ' ')

/-- Texts between brackets, one a line at the next level; nothing at all between the brackets if
there are none. -/
def bracketed (left right : String) (level : Nat) (texts : List String) : String :=
  if texts.isEmpty then left ++ right
  else
    let margin := newline (level + 1)
    left ++ margin ++ ("," ++ margin).intercalate texts ++ newline level ++ right

mutual

/-- The value over several lines, where its first line stands at a nesting level. -/
def indented (level : Nat) : Json → String
  | .array elements => bracketed "[" "]" level (indentedElements (level + 1) elements)
  | .object members => bracketed "\x7b" "\x7d" level (indentedMembers (level + 1) members)
  | value => compact value

def indentedElements (level : Nat) : List Json → List String
  | [] => []
  | element :: rest => indented level element :: indentedElements level rest

def indentedMembers (level : Nat) : List (String × Json) → List String
  | [] => []
  | (name, value) :: rest =>
    (quote name ++ ": " ++ indented level value) :: indentedMembers level rest

end

/-- The value over several lines. -/
def pretty (value : Json) : String := indented 0 value

end Json

end SchemaEvolution
