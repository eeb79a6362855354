import SchemaEvolution.Json.Basic
import SchemaEvolution.Number.Decimal
import SchemaEvolution.Text.Hex
import SchemaEvolution.Yaml.Tree

/-!
# Values of scalars

What a scalar stands for. A plain one without a tag may be a null, a truth value or a number by its
form; a tag of one of these kinds demands that form; any other scalar is a string.
-/

namespace SchemaEvolution.Yaml

def spellsNull (text : String) : Bool :=
  ["null", "Null", "NULL", "~"].contains text

/-- The truth value that a text spells. -/
def truth? (text : String) : Option Bool :=
  if ["true", "True", "TRUE"].contains text then some true
  else if ["false", "False", "FALSE"].contains text then some false
  else none

/-- The sign that a text starts with. -/
inductive Sign where
  | none
  | plus
  | minus
  deriving DecidableEq

/-- The sign of a text, and what follows it. -/
def sign : List Char → Sign × List Char
  | '+' :: rest => (.plus, rest)
  | '-' :: rest => (.minus, rest)
  | text => (.none, text)

/-- Whether a text is made of digits that start with a zero and go on, after its sign if it has
one. Such a text is no number. -/
def isPaddedDigits (text : List Char) : Bool :=
  match (sign text).2 with
  | '0' :: second :: rest => (second :: rest).all Char.isDigit
  | _ => false

/-- The number that the digits of a base denote, if there is any digit. -/
def magnitude? (base : Nat) (digits : List Char) : Option Nat :=
  if digits.isEmpty then none else Text.valueInBase? base 0 digits

/-- The whole number that a text spells: an optional sign, and decimal digits or a mark of another
base with its digits. Digits that start with a superfluous zero spell none. -/
def integer? (text : List Char) : Option Int := do
  let (sign, digits) := sign text
  let magnitude ←
    match digits with
    | '0' :: 'x' :: rest => magnitude? 16 rest
    | '0' :: 'o' :: rest => magnitude? 8 rest
    | '0' :: 'b' :: rest => magnitude? 2 rest
    | digits => if isPaddedDigits text then none else magnitude? 10 digits
  return if sign = .minus then -(magnitude : Int) else magnitude

/-- Whether a whole number is so large that it is read as a number with a fraction: it does not
fit 128 bits, signed or not. -/
def isHuge (n : Int) : Bool :=
  n < -(Nat.pow 2 127 : Int) || (Nat.pow 2 128 : Int) ≤ n

/-- The decimal numeral that a text spells: an optional sign, digits with an optional point among
or around them, and an optional power of ten. -/
def decimal? (text : List Char) : Option Decimal := do
  let (sign, text) := sign text
  let whole := text.takeWhile Char.isDigit
  let text := text.dropWhile Char.isDigit
  let (fraction, text) :=
    match text with
    | '.' :: rest => (rest.takeWhile Char.isDigit, rest.dropWhile Char.isDigit)
    | text => ([], text)
  if whole.isEmpty && fraction.isEmpty then none
  let exponent : Int ←
    match text with
    | [] => some 0
    | mark :: rest =>
      if mark = 'e' || mark = 'E' then
        let (sign, digits) := Yaml.sign rest
        (magnitude? 10 digits).map fun n => if sign = .minus then -(n : Int) else n
      else none
  return { negative := sign = .minus, whole, fraction, exponent }

/-- Whether a text spells an infinity or the value that is no number. -/
def spellsNonFinite (text : List Char) : Bool :=
  let unsigned := if (sign text).1 = .none then [".nan", ".NaN", ".NAN"] else []
  ([".inf", ".Inf", ".INF"].contains (String.ofList (sign text).2)) ||
    unsigned.contains (String.ofList text)

/-- The value of a text that spells a number with a fraction. What is not finite is null. -/
def fraction? (text : List Char) : Option Json :=
  if spellsNonFinite text then some .null
  else ((decimal? text).bind Decimal.nearest?).map (.number ∘ .double)

/-- The value of a text that spells a whole number: none of another form, and no value inside for
one that 64 bits do not hold. -/
def whole? (text : List Char) : Option (Option Json) :=
  match integer? text with
  | some n => if isHuge n then none else some ((Number.ofInt? n).map .number)
  | none => none

/-- The value of a plain scalar without a tag; none if it is a whole number out of range. -/
def plainValue? (text : String) : Option Json :=
  if text.isEmpty || spellsNull text then some .null
  else
    match truth? text, whole? text.toList with
    | some b, _ => some (.bool b)
    | none, some value => value
    | none, none =>
      if isPaddedDigits text.toList then some (.string text)
      else some ((fraction? text.toList).getD (.string text))

/-- The kinds of scalars that a tag can demand. -/
inductive ScalarKind where
  | truth
  | whole
  | fraction
  | null
  deriving DecidableEq

namespace ScalarKind

/-- The kind that a tag demands. -/
def ofTag? (tag : Octets) : Option ScalarKind :=
  let isTag (name : String) : Bool := tag == (coreTagStart ++ name).toUTF8.toList
  if isTag "bool" then some .truth
  else if isTag "int" then some .whole
  else if isTag "float" then some .fraction
  else if isTag "null" then some .null
  else none

def value? (text : String) : ScalarKind → Option Json
  | .truth => (truth? text).map .bool
  | .whole => (whole? text.toList).join
  | .fraction => fraction? text.toList
  | .null => if spellsNull text then some .null else none

end ScalarKind

/-- Whether a tag is local to the document, which no value can carry. -/
def isLocalTag (tag : Octets) : Bool :=
  tag.head? = some '!'.toUInt8 && (ByteArray.mk tag.toArray).validateUTF8

def scalarValue? (tag : Option Octets) (text : String) (isPlain : Bool) : Option Json :=
  match tag with
  | none => if isPlain then plainValue? text else some (.string text)
  | some tag =>
    if isLocalTag tag then none
    else
      match ScalarKind.ofTag? tag with
      | some kind => kind.value? text
      | none =>
        if tag.head? = some '!'.toUInt8 && isPlain then plainValue? text
        else some (.string text)

end SchemaEvolution.Yaml
