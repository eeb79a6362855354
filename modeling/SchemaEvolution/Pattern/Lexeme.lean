import SchemaEvolution.Pattern.Expr
import SchemaEvolution.Text.Blank
import SchemaEvolution.Text.Hex

/-! # Small pieces of patterns

Readers of escapes, flags, group names and repetition counts. Each takes the text at which the
piece starts and gives the piece with the text after it, or nothing if the piece is malformed.
-/

namespace SchemaEvolution

namespace Pattern

/-- The text without the blanks and comments it starts with, where those mean nothing. -/
def skipBlanks (ignore : Bool) (text : List Char) : List Char :=
  if ignore then skip false text else text
where
  /-- Skips on, inside a comment or outside. -/
  skip (inComment : Bool) : List Char → List Char
    | [] => []
    | c :: rest =>
      if inComment then skip (c != '\n') rest
      else if Text.isBlank c then skip false rest
      else if c = '#' then skip true rest
      else c :: rest

/-- The character after the current one, past blanks and one comment sign. -/
def peekPast (ignore : Bool) (text : List Char) : Option Char :=
  if ignore then
    match text.dropWhile Text.isBlank with
    | '#' :: rest => (rest.dropWhile Text.isBlank).head?
    | rest => rest.head?
  else text.head?

/-- The greatest number a repetition may count to. -/
def maxCount : Nat := Nat.pow 2 32 - 1

/-- Exactly `count` hexadecimal digits after those whose value is `code`. -/
def hexDigits? (ignore : Bool) (code : Nat) : Nat → List Char → Option (Nat × List Char)
  | 0, text => some (code, text)
  | count + 1, c :: rest => do
    let digit ← Text.hexValue? c
    hexDigits? ignore (16 * code + digit) count (skipBlanks ignore rest)
  | _ + 1, [] => none

/-- Hexadecimal digits up to a closing brace. -/
def bracedHex? (code : Option Nat) : List Char → Option (Nat × List Char)
  | [] => none
  | '}' :: rest => code.map fun code => (code, rest)
  | c :: rest => do
    let digit ← Text.hexValue? c
    bracedHex? (some (16 * code.getD 0 + digit)) rest

/-- The text before the first closing brace, as far as blanks and comments let it count, and the
text after it. -/
def braced? (ignore : Bool) (text : List Char) : Option (List Char × List Char) :=
  read [] (skipBlanks ignore text) text.length
where
  /-- Reads on; the characters so far are in reverse. -/
  read (found : List Char) : List Char → Nat → Option (List Char × List Char)
    | [], _ => none
    | _, 0 => none
    | '}' :: rest, _ => some (found.reverse, rest)
    | c :: rest, fuel + 1 => read (c :: found) (skipBlanks ignore rest) fuel

/-- The character that digits after `\x`, `\u` or `\U` denote: two, four or eight of them, or any
number between braces. -/
def hexEscape? (ignore : Bool) (kind : Char) (text : List Char) :
    Option (Literal × List Char) := do
  match text with
  | '{' :: rest =>
    let (digits, rest) ← braced? ignore rest
    let (code, _) ← bracedHex? none (digits ++ ['}'])
    let char ← Text.charOf? code
    return ({ char }, skipBlanks ignore rest)
  | text =>
    let count := if kind = 'x' then 2 else if kind = 'u' then 4 else 8
    let (code, rest) ← hexDigits? ignore 0 count text
    let char ← Text.charOf? code
    return ({ char, isByte := kind = 'x' }, rest)

/-- The text before the first occurrence of another one, and the text after it. -/
def cutAt? (mark : List Char) : List Char → Option (List Char × List Char)
  | [] => none
  | c :: rest =>
    if mark.isPrefixOf (c :: rest) then some ([], (c :: rest).drop mark.length)
    else (cutAt? mark rest).map fun (before, after) => (c :: before, after)

/-- A property between braces: a name, or a name and a value with `!=`, `:` or `=` between. A
`!=` negates the property. -/
def propertyName (text : List Char) : PropertyName × Bool :=
  match cutAt? ['!', '='] text, cutAt? [':'] text, cutAt? ['='] text with
  | some (name, value), _, _ => (.valued (String.ofList name) (String.ofList value), true)
  | none, some (name, value), _ | none, none, some (name, value) =>
    (.valued (String.ofList name) (String.ofList value), false)
  | none, none, none => (.single (String.ofList text), false)

/-- A property after `\p` or `\P`: one letter, or a name between braces. -/
def property? (ignore : Bool) (negated : Bool) (text : List Char) :
    Option (Expr × List Char) := do
  match text with
  | [] => none
  | '{' :: rest =>
    let (written, rest) ← braced? ignore rest
    let (name, differs) := propertyName written
    return (.property name (negated != differs), rest)
  | '\\' :: _ => none
  | c :: rest => return (.property (.single (String.ofList [c])) negated, skipBlanks ignore rest)

/-- The assertion between braces after `\b`. -/
def wordAssertion? : List Char → Option Assertion
  | ['s', 't', 'a', 'r', 't'] => some .wordStart
  | ['e', 'n', 'd'] => some .wordEnd
  | ['s', 't', 'a', 'r', 't', '-', 'h', 'a', 'l', 'f'] => some .wordStartHalf
  | ['e', 'n', 'd', '-', 'h', 'a', 'l', 'f'] => some .wordEndHalf
  | _ => none

/-- What follows `\b`: the name of an assertion between braces, or anything else, which makes it
a plain word boundary. -/
def wordBoundary? (ignore : Bool) (text : List Char) : Option (Assertion × List Char) :=
  let isNameChar (c : Char) : Bool := c.isAlpha || c == '-'
  match text with
  | '{' :: rest =>
    match skipBlanks ignore rest with
    | [] => none
    | c :: inner =>
      if isNameChar c then do
        let (name, after) ← braced? ignore (c :: inner)
        if name.all isNameChar then return (← wordAssertion? name, after) else none
      else some (.wordBoundary, text)
  | text => some (.wordBoundary, text)

/-- Whether a character means something in a pattern. -/
def isMeta (c : Char) : Bool :=
  "\\.+*?()|[]\x7b\x7d^$#&-~".toList.contains c

/-- Whether a backslash before a character makes it stand for itself: any ASCII character but
letters, digits and angle brackets. -/
def isEscapable (c : Char) : Bool :=
  isMeta c || (c.toNat < 0x80 && !c.isAlphanum && c != '<' && c != '>')

/-- What follows a backslash. -/
def escape? (ignore : Bool) : List Char → Option (Expr × List Char)
  | [] => none
  | c :: rest =>
    let special (char : Char) : Option (Expr × List Char) := some (.literal { char }, rest)
    let assertion (kind : Assertion) : Option (Expr × List Char) := some (.assertion kind, rest)
    let short (kind : ShortClass) (negated : Bool) : Option (Expr × List Char) :=
      some (.short kind negated, rest)
    if c.isDigit then none
    else if c = 'x' || c = 'u' || c = 'U' then do
      let (literal, rest) ← hexEscape? ignore c (skipBlanks ignore rest)
      return (.literal literal, rest)
    else if c = 'p' || c = 'P' then property? ignore (c == 'P') (skipBlanks ignore rest)
    else if isEscapable c then special c
    else
      match c with
      | 'd' => short .digit false
      | 'D' => short .digit true
      | 's' => short .space false
      | 'S' => short .space true
      | 'w' => short .word false
      | 'W' => short .word true
      | 'a' => special '\x07'
      | 'f' => special '\x0c'
      | 't' => special '\t'
      | 'n' => special '\n'
      | 'r' => special '\r'
      | 'v' => special '\x0b'
      | 'A' => assertion .textStart
      | 'z' => assertion .textEnd
      | 'b' => do
        let (kind, rest) ← wordBoundary? ignore rest
        return (.assertion kind, rest)
      | 'B' => assertion .notWordBoundary
      | '<' => assertion .wordStart
      | '>' => assertion .wordEnd
      | _ => none

/-- The flag that a letter stands for. -/
def flag? : Char → Option Flag
  | 'i' => some .caseInsensitive
  | 'm' => some .multiLine
  | 's' => some .dotAll
  | 'U' => some .swapGreed
  | 'u' => some .unicode
  | 'R' => some .crlf
  | 'x' => some .ignoreBlanks
  | _ => none

/-- Flags up to a colon or a closing parenthesis, which comes last. No flag may be named twice,
and a hyphen, at most one, must have a flag after it. -/
def flags? (change : FlagChange) (negative : Bool) :
    List Char → Option (FlagChange × Char × List Char)
  | [] => none
  | c :: rest =>
    if c = ':' || c = ')' then
      if negative && change.off.isEmpty then none else some (change, c, rest)
    else if c = '-' then if negative then none else flags? change true rest
    else do
      let flag ← flag? c
      if change.on.contains flag || change.off.contains flag then none
      else if negative then flags? { change with off := change.off ++ [flag] } true rest
      else flags? { change with on := change.on ++ [flag] } false rest

/-- A group name up to its closing angle bracket. The characters so far are in reverse. -/
def groupName? (isLetter isLetterOrDigit : Char → Bool) (found : List Char) :
    List Char → Option (String × List Char)
  | [] => none
  | '>' :: rest => if found.isEmpty then none else some (String.ofList found.reverse, rest)
  | c :: rest =>
    let allowed :=
      if found.isEmpty then c == '_' || isLetter c
      else c == '_' || c == '.' || c == '[' || c == ']' || isLetterOrDigit c
    if allowed then groupName? isLetter isLetterOrDigit (c :: found) rest else none

/-- Digits with blanks around them, after those whose value is `found`. -/
def countDigits (ignore : Bool) (found : Option Nat) :
    List Char → Nat → Option Nat × List Char
  | text, 0 => (found, text)
  | [], _ => (found, [])
  | c :: rest, fuel + 1 =>
    if c.isDigit then
      countDigits ignore (some (10 * found.getD 0 + (c.toNat - '0'.toNat)))
        (skipBlanks ignore rest) fuel
    else (found, c :: rest)

/-- A count with blanks allowed around it: no count where no digit stands, and nothing at all
where the count is too great. -/
def count? (ignore : Bool) (text : List Char) : Option (Option Nat × List Char) :=
  let text := text.dropWhile Text.isBlank
  let (found, rest) := countDigits ignore none text text.length
  let rest := skipBlanks ignore (rest.dropWhile Text.isBlank)
  match found with
  | some n => if n ≤ maxCount then some (some n, rest) else none
  | none => some (none, rest)

/-- The counts of a repetition after its opening brace, up to the closing one. -/
def repetitionCounts? (ignore : Bool) (text : List Char) :
    Option (Nat × Option Nat × List Char) := do
  let (first, rest) ← count? ignore (skipBlanks ignore text)
  let first ← first
  match rest with
  | '}' :: rest => return (first, some first, rest)
  | ',' :: rest =>
    match skipBlanks ignore rest with
    | '}' :: rest => return (first, none, rest)
    | rest =>
      let (last, rest) ← count? ignore rest
      let last ← last
      match rest with
      | '}' :: rest => if first ≤ last then return (first, some last, rest) else none
      | _ => none
  | _ => none

end Pattern

end SchemaEvolution
