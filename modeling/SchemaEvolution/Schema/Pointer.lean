import SchemaEvolution.Number.Decimal

/-!
# Pointers into documents

Places in a document as the names and positions that lead there, written with a slash before
each.
-/

namespace SchemaEvolution

/-- A place in a document: member names and element positions from the root. -/
abbrev Pointer := List String

namespace Pointer

/-- A character inside a token: `~` and `/` are written `~0` and `~1`. -/
def escapeChar (c : Char) : List Char :=
  if c = '~' then ['~', '0'] else if c = '/' then ['~', '1'] else [c]

/-- A token as it is written. -/
def escape (token : String) : String :=
  String.ofList (token.toList.flatMap escapeChar)

def positionToken (n : Nat) : String := String.ofList (Decimal.digits n)

/-- The text of a pointer; the root is written as a single slash. -/
def text : Pointer → String
  | [] => "/"
  | tokens => String.join (tokens.map fun token => "/" ++ escape token)

end Pointer

end SchemaEvolution
