/-!
# Places in YAML text

A cursor holds the text that is left and counts characters, lines and columns. Text ends a line
with a line feed, a carriage return, both of these in turn, or one of three characters beyond
ASCII.
-/

namespace SchemaEvolution.Yaml

/-- Whether a character may stand in YAML text at all. -/
def isAllowed (c : Char) : Bool :=
  let n := c.toNat
  n == 0x09 || n == 0x0A || n == 0x0D || (0x20 ≤ n && n ≤ 0x7E) || n == 0x85 ||
    (0xA0 ≤ n && n ≤ 0xD7FF) || (0xE000 ≤ n && n ≤ 0xFFFD) || 0x10000 ≤ n

def isBlank (c : Char) : Bool :=
  c == ' ' || c == '\t'

def isBreak (c : Char) : Bool :=
  c == '\n' || c == '\r' || c == '\u0085' || c == '\u2028' || c == '\u2029'

def isWordChar (c : Char) : Bool :=
  !isBlank c && !isBreak c

def isNameChar (c : Char) : Bool :=
  c.isAlphanum || c == '_' || c == '-'

/-- Whether no word goes on where this text starts. -/
def endsWord : List Char → Bool
  | [] => true
  | c :: _ => !isWordChar c

def endsLine : List Char → Bool
  | [] => true
  | c :: _ => isBreak c

def startsWithAny (chars : List Char) : List Char → Bool
  | [] => false
  | c :: _ => chars.contains c

/-- A place in a text. -/
structure Cursor where
  /-- The text from here on. -/
  rest : List Char
  /-- How many characters the whole text has. -/
  size : Nat
  /-- How many characters stand before. -/
  index : Nat := 0
  line : Nat := 0
  /-- How many characters of the line stand before. -/
  column : Nat := 0

namespace Cursor

def ofText (text : List Char) : Cursor := { rest := text, size := text.length }

def remaining (c : Cursor) : Nat := c.size - c.index

/-- The place after `n` more characters, none of which ends a line. -/
def advance (n : Nat) (c : Cursor) : Cursor :=
  { c with rest := c.rest.drop n, index := c.index + n, column := c.column + n }

/-- The place after the characters from here on that satisfy `p`, none of which ends a line. -/
def skipWhile (p : Char → Bool) (c : Cursor) : Cursor :=
  c.advance (c.rest.takeWhile p).length

def nextLine (n : Nat) (c : Cursor) : Cursor :=
  { c with rest := c.rest.drop n, index := c.index + n, line := c.line + 1, column := 0 }

/-- The line break that stands here, as the text it stands for, and the place after it. The breaks
that have a character of their own stand for themselves, the others for a line feed. -/
def lineBreak? (c : Cursor) : Option (List Char × Cursor) :=
  match c.rest with
  | '\r' :: '\n' :: _ => some (['\n'], c.nextLine 2)
  | first :: _ =>
    if first == '\u2028' || first == '\u2029' then some ([first], c.nextLine 1)
    else if isBreak first then some (['\n'], c.nextLine 1)
    else none
  | [] => none

/-- The place after the line break that stands here, if one does. -/
def skipBreak (c : Cursor) : Cursor :=
  match c.lineBreak? with
  | some (_, next) => next
  | none => c

def skipComment (c : Cursor) : Cursor :=
  if c.rest.head? = some '#' then c.skipWhile fun char => !isBreak char else c

/-- Whether a line starts here with a mark of three characters that is a word of its own. -/
def startsMark (mark : Char) (c : Cursor) : Bool :=
  c.column == 0 && [mark, mark, mark].isPrefixOf c.rest && endsWord (c.rest.drop 3)

/-- Whether the mark that starts or the one that ends a document stands here. -/
def startsDocumentMark (c : Cursor) : Bool :=
  c.startsMark '-' || c.startsMark '.'

theorem length_rest_advance (n : Nat) (c : Cursor) :
    (c.advance n).rest.length = c.rest.length - n := by
  simp [advance]

theorem length_rest_nextLine (n : Nat) (c : Cursor) :
    (c.nextLine n).rest.length = c.rest.length - n := by
  simp [nextLine]

theorem length_rest_lineBreak {c next : Cursor} {text : List Char}
    (h : c.lineBreak? = some (text, next)) : next.rest.length < c.rest.length := by
  unfold lineBreak? at h
  split at h
  · rename_i rest found
    cases h
    have : c.rest.length = rest.length + 2 := congrArg List.length found
    have := length_rest_nextLine 2 c
    omega
  · rename_i first rest _ found
    have : c.rest.length = rest.length + 1 := congrArg List.length found
    have := length_rest_nextLine 1 c
    split at h
    · cases h
      omega
    · split at h
      · cases h
        omega
      · cases h
  · cases h

end Cursor

end SchemaEvolution.Yaml
