import SchemaEvolution.Text.Hex
import SchemaEvolution.Number.Decimal
import SchemaEvolution.Yaml.Cursor
import SchemaEvolution.Yaml.Token

/-!
# Names, tags and directives

The names of anchors, the tags that nodes carry, and the directives before a document. A tag is
written in full between angle brackets, or as a handle and a suffix; a handle is an exclamation
mark, or two with a name between them.
-/

namespace SchemaEvolution.Yaml

/-- Whether a character may stand in a tag as it is. Between angle brackets, and where a directive
gives the start of tags, three marks of flow collections may stand there too. -/
def isTagChar (inFull : Bool) (c : Char) : Bool :=
  isNameChar c || [';', '/', '?', ':', '@', '&', '=', '+', '$', '.', '!', '~', '*', '\'', '(',
    ')'].contains c || (inFull && [',', '[', ']'].contains c)

/-- The octet that an escape of a percent sign and two digits stands for. -/
def escapedOctet? : List Char → Option UInt8
  | '%' :: high :: low :: _ => (Text.valueInBase? 16 0 [high, low]).map UInt8.ofNat
  | _ => none

def octetCount? (first : UInt8) : Option Nat :=
  if first < 0x80 then some 1
  else if first < 0xC0 then none
  else if first < 0xE0 then some 2
  else if first < 0xF0 then some 3
  else if first < 0xF8 then some 4
  else none

/-- Whether an octet goes on with a character. -/
def continuesChar (octet : UInt8) : Bool :=
  0x80 ≤ octet && octet < 0xC0

/-- So many escaped octets, each of which goes on with a character. -/
def furtherOctets? : Nat → List Char → Option Octets
  | 0, _ => some []
  | count + 1, text => do
    let octet ← escapedOctet? text
    if !continuesChar octet then none
    return octet :: (← furtherOctets? count (text.drop 3))

/-- The escaped octets of one character. -/
def escapedChar? (text : List Char) : Option Octets := do
  let first ← escapedOctet? text
  let count ← octetCount? first
  return first :: (← furtherOctets? (count - 1) (text.drop 3))

def octetsOf (text : List Char) : Octets :=
  (String.ofList text).toUTF8.toList

/-- A tag is cut where an escape puts a zero octet. -/
def Octets.beforeZero (octets : Octets) : Octets :=
  octets.takeWhile (· != 0)

namespace Cursor

/-- The octets of the tag characters that stand here, and the place after these. -/
def tagText? (inFull : Bool) (c : Cursor) : Option (Octets × Cursor) :=
  read c.remaining [] c
where
  /-- Reads on after the octets so far. -/
  read : Nat → Octets → Cursor → Option (Octets × Cursor)
    | 0, octets, c => some (octets, c)
    | fuel + 1, octets, c =>
      match c.rest with
      | [] => some (octets, c)
      | first :: _ =>
        if first = '%' then
          (escapedChar? c.rest).bind fun found =>
            read fuel (octets ++ found) (c.advance (3 * found.length))
        else if isTagChar inFull first then
          read fuel (octets ++ octetsOf [first]) (c.advance 1)
        else some (octets, c)

/-- A tag between angle brackets, of which the first two characters are read. -/
def fullTag? (c : Cursor) : Option (Token × Cursor) := do
  let (octets, next) ← c.tagText? true
  if octets.isEmpty || next.rest.head? ≠ some '>' then none
  return (.tag "" octets.beforeZero, next.advance 1)

/-- What looks like a handle here: an exclamation mark, name characters and maybe another
exclamation mark, which makes it one. -/
def handleText (c : Cursor) : List Char × Bool × Cursor :=
  let name := (c.rest.drop 1).takeWhile isNameChar
  let next := c.advance (name.length + 1)
  if next.rest.head? = some '!' then ('!' :: name ++ ['!'], true, next.advance 1)
  else ('!' :: name, false, next)

/-- A tag of a handle and a suffix. What only looks like a handle starts the suffix of the single
exclamation mark; without any suffix that is a tag of its own. -/
def shortTag? (c : Cursor) : Option (Token × Cursor) := do
  let (handle, isHandle, next) := c.handleText
  let (octets, next) ← next.tagText? false
  if isHandle then
    if octets.isEmpty then none
    return (.tag (String.ofList handle) octets.beforeZero, next)
  let suffix := (octetsOf (handle.drop 1) ++ octets).beforeZero
  if suffix.isEmpty then return (.tag "" (octetsOf ['!']), next)
  return (.tag "!" suffix, next)

/-- The tag that stands here, which ends as a word does, or in a flow collection before a comma. -/
def tag? (inFlow : Bool) (c : Cursor) : Option (Token × Cursor) := do
  let (token, next) ←
    if c.rest[1]? = some '<' then (c.advance 2).fullTag? else c.shortTag?
  if endsWord next.rest || (inFlow && next.rest.head? = some ',') then return (token, next)
  none

/-- The name after the mark that stands here, followed by a blank, a line break or one of a few
marks. -/
def name? (c : Cursor) : Option (String × Cursor) :=
  let name := (c.rest.drop 1).takeWhile isNameChar
  let next := c.advance (name.length + 1)
  let ends := endsWord next.rest ||
    startsWithAny ['?', ':', ',', ']', '}', '%', '@', '\x60'] next.rest
  if name.isEmpty || !ends then none else some (String.ofList name, next)

def maxVersionDigits : Nat := 9

def versionPart? (c : Cursor) : Option (Nat × Cursor) :=
  let digits := c.rest.takeWhile Char.isDigit
  if digits.isEmpty || maxVersionDigits < digits.length then none
  else some (Decimal.value digits, c.advance digits.length)

def version? (c : Cursor) : Option (Token × Cursor) := do
  let (major, next) ← (c.skipWhile isBlank).versionPart?
  if next.rest.head? ≠ some '.' then none
  let (minor, next) ← (next.advance 1).versionPart?
  return (.version major minor, next)

/-- The handle that stands here after blanks, and the start of tags that it stands for. -/
def tagHandle? (c : Cursor) : Option (Token × Cursor) := do
  let start := c.skipWhile isBlank
  if start.rest.head? ≠ some '!' then none
  let (handle, isHandle, next) := start.handleText
  if !isHandle && handle ≠ ['!'] then none
  if !next.rest.head?.any isBlank then none
  let (octets, next) ← (next.skipWhile isBlank).tagText? true
  if octets.isEmpty || !endsWord next.rest then none
  return (.tagHandle (String.ofList handle) octets.beforeZero, next)

end Cursor

end SchemaEvolution.Yaml
