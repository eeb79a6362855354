import SchemaEvolution.Pattern.Settings
import SchemaEvolution.Text.Letters

/-! # Characters of classes

The characters of the classes that have an escape or a name of their own, and those that end a
line.
-/

namespace SchemaEvolution

namespace Pattern

open Text

/-- The characters of a class with an escape of its own. -/
def ShortClass.ranges (unicode : Bool) : ShortClass → CharRanges
  | .digit => if unicode then decimalDigits else [(0x30, 0x39)]
  | .space => if unicode then blanks else [(0x09, 0x0D), (0x20, 0x20)]
  | .word =>
    if unicode then wordChars else [(0x30, 0x39), (0x41, 0x5A), (0x5F, 0x5F), (0x61, 0x7A)]

/-- The characters of a class of ASCII characters. -/
def NamedClass.ranges : NamedClass → CharRanges
  | .alnum => [(0x30, 0x39), (0x41, 0x5A), (0x61, 0x7A)]
  | .alpha => [(0x41, 0x5A), (0x61, 0x7A)]
  | .ascii => [(0x00, 0x7F)]
  | .blank => [(0x09, 0x09), (0x20, 0x20)]
  | .cntrl => [(0x00, 0x1F), (0x7F, 0x7F)]
  | .digit => [(0x30, 0x39)]
  | .graph => [(0x21, 0x7E)]
  | .lower => [(0x61, 0x7A)]
  | .print => [(0x20, 0x7E)]
  | .punct => [(0x21, 0x2F), (0x3A, 0x40), (0x5B, 0x60), (0x7B, 0x7E)]
  | .space => [(0x09, 0x0D), (0x20, 0x20)]
  | .upper => [(0x41, 0x5A)]
  | .word => [(0x30, 0x39), (0x41, 0x5A), (0x5F, 0x5F), (0x61, 0x7A)]
  | .xdigit => [(0x30, 0x39), (0x41, 0x46), (0x61, 0x66)]

/-- The characters that end a line, or none where the dot matches them too. -/
def Settings.lineEnds (settings : Settings) : CharRanges :=
  if settings.dotAll then []
  else if settings.crlf then [(0x0A, 0x0A), (0x0D, 0x0D)]
  else [(0x0A, 0x0A)]

end Pattern

end SchemaEvolution
