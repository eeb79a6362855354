import SchemaEvolution.Pattern.Lexeme
import SchemaEvolution.Text.Letters

/-! # Reading patterns

A pattern is read part by part. Two stacks hold what is still open: the groups and alternations
around a part, and the brackets and operators around an item of a class.
-/

namespace SchemaEvolution

namespace Pattern

/-- A bracket or an operator that waits for the rest of its set. -/
inductive ClassFrame where
  /-- A bracket: the items before it in the set around it, in reverse, and whether it is
  negated. -/
  | bracket (before : List ClassSet) (negated : Bool)
  /-- An operator and its left side. -/
  | operator (kind : SetOperator) (left : ClassSet)

/-- A class that is being read: what is open, innermost first, the items of the set at hand in
reverse, and the text ahead. -/
structure ClassReading where
  frames : List ClassFrame
  items : List ClassSet
  rest : List Char

namespace ClassReading

/-- The hyphens at the start of a set, which stand for themselves, before what is there
already, and the text after them. -/
def leadingHyphens (ignore : Bool) (items : List ClassSet) :
    List Char → Nat → List ClassSet × List Char
  | '-' :: rest, fuel + 1 =>
    leadingHyphens ignore (.literal { char := '-' } :: items) (skipBlanks ignore rest) fuel
  | text, _ => (items, text)

/-- Opens a bracket, given the text after it: maybe a negation sign, then hyphens and a closing
bracket at the very start, which stand for themselves. -/
def openBracket? (ignore : Bool) (frames : List ClassFrame) (before : List ClassSet)
    (text : List Char) : Option ClassReading :=
  let text := skipBlanks ignore text
  let (negated, text) :=
    match text with
    | '^' :: rest => (true, skipBlanks ignore rest)
    | text => (false, text)
  let (items, text) := leadingHyphens ignore [] text text.length
  let (items, text) :=
    match items, text with
    | [], ']' :: rest => ([ClassSet.literal { char := ']' }], skipBlanks ignore rest)
    | items, text => (items, text)
  if text.isEmpty then none else some ⟨.bracket before negated :: frames, items, text⟩

/-- A named class such as `[:alpha:]`, given the text after its first bracket. -/
def namedClass? : List Char → Option (ClassSet × List Char)
  | ':' :: rest =>
    let (negated, rest) :=
      match rest with
      | '^' :: rest => (true, rest)
      | rest => (false, rest)
    let name := rest.takeWhile (· != ':')
    match rest.dropWhile (· != ':') with
    | ':' :: ']' :: after =>
      (NamedClass.ofName? (String.ofList name)).map fun kind => (.named kind negated, after)
    | _ => none
  | _ => none

/-- The set read so far, with the operator that waits for it. -/
def closeOperator (frames : List ClassFrame) (set : ClassSet) : List ClassFrame × ClassSet :=
  match frames with
  | .operator kind left :: frames => (frames, .combined kind left set)
  | frames => (frames, set)

def readOperator (reading : ClassReading) (kind : SetOperator) (rest : List Char) :
    ClassReading :=
  let (frames, set) := closeOperator reading.frames (.ofItems reading.items.reverse)
  ⟨.operator kind set :: frames, [], rest⟩

/-- One item: what a backslash introduces, or a character. -/
def item? (ignore : Bool) : List Char → Option (Expr × List Char)
  | [] => none
  | '\\' :: rest => escape? ignore rest
  | c :: rest => some (.literal { char := c }, rest)

/-- An item as a set. -/
def setOf? : Expr → Option ClassSet
  | .literal value => some (.literal value)
  | .short kind negated => some (.short kind negated)
  | .property name negated => some (.property name negated)
  | _ => none

/-- The set from one item to another, which must be characters in order. -/
def rangeOf? : Expr → Expr → Option ClassSet
  | .literal first, .literal last =>
    if first.char ≤ last.char then some (.range first last) else none
  | _, _ => none

/-- Reads an item or a range. A hyphen before a closing bracket or another hyphen does not make a
range. -/
def readItem? (ignore : Bool) (reading : ClassReading) : Option ClassReading := do
  let (first, rest) ← item? ignore reading.rest
  match skipBlanks ignore rest with
  | [] => none
  | '-' :: after =>
    let next := peekPast ignore after
    if next = some ']' || next = some '-' then
      return { reading with items := (← setOf? first) :: reading.items, rest := '-' :: after }
    else
      let (last, rest) ← item? ignore (skipBlanks ignore after)
      return { reading with items := (← rangeOf? first last) :: reading.items, rest }
  | rest => return { reading with items := (← setOf? first) :: reading.items, rest }

/-- The class, or what remains to be read of it, after a closing bracket. -/
def close? (reading : ClassReading) (rest : List Char) :
    Option ((Expr × List Char) ⊕ ClassReading) :=
  let (frames, set) := closeOperator reading.frames (.ofItems reading.items.reverse)
  match frames with
  | [.bracket _ negated] => some (.inl (.bracketed negated set, rest))
  | .bracket before negated :: frames =>
    some (.inr ⟨frames, .bracketed negated set :: before, rest⟩)
  | _ => none

def step? (ignore : Bool) (reading : ClassReading) :
    Option ((Expr × List Char) ⊕ ClassReading) :=
  let text := skipBlanks ignore reading.rest
  let reading := { reading with rest := text }
  match text with
  | [] => none
  | '[' :: rest =>
    match namedClass? rest with
    | some (set, rest) => some (.inr { reading with items := set :: reading.items, rest })
    | none => Sum.inr <$> openBracket? ignore reading.frames reading.items rest
  | ']' :: rest => close? reading rest
  | '&' :: '&' :: rest => some (.inr (readOperator reading .intersection rest))
  | '-' :: '-' :: rest => some (.inr (readOperator reading .difference rest))
  | '~' :: '~' :: rest => some (.inr (readOperator reading .symmetricDifference rest))
  | _ => Sum.inr <$> readItem? ignore reading

/-- Reads a class to its end. Every step takes some of the text, so its length is enough. -/
def run? (ignore : Bool) : Nat → ClassReading → Option (Expr × List Char)
  | 0, _ => none
  | fuel + 1, reading =>
    match step? ignore reading with
    | none => none
    | some (.inl found) => some found
    | some (.inr reading) => run? ignore fuel reading

end ClassReading

/-- A class, given the text after its opening bracket. -/
def class? (ignore : Bool) (text : List Char) : Option (Expr × List Char) := do
  let reading ← ClassReading.openBracket? ignore [] [] text
  reading.run? ignore (text.length + 1)

/-- A group or an alternation that waits for the rest of its contents. -/
inductive Frame where
  /-- A group: the parts before it, in reverse, and whether blanks meant nothing there. -/
  | group (before : List Expr) (kind : GroupKind) (ignoreBefore : Bool)
  /-- The branches before the one at hand, in reverse. -/
  | branches (before : List Expr)

/-- A pattern that is being read: what is open, innermost first, the parts of the branch at hand
in reverse, whether blanks mean nothing, the group names so far, and the text ahead. -/
structure Reading where
  frames : List Frame
  parts : List Expr
  ignore : Bool
  names : List String
  rest : List Char

namespace Reading

def branch (reading : Reading) : Expr := .ofParts reading.parts.reverse

/-- The group or pattern at hand, and what is open around it. -/
def body (reading : Reading) : Expr × List Frame :=
  match reading.frames with
  | .branches before :: frames => (.alternation (reading.branch :: before).reverse, frames)
  | frames => (reading.branch, frames)

def addPart (reading : Reading) (part : Expr) (rest : List Char) : Reading :=
  { reading with parts := part :: reading.parts, rest }

def endBranch (reading : Reading) (rest : List Char) : Reading :=
  match reading.frames with
  | .branches before :: frames =>
    { reading with frames := .branches (reading.branch :: before) :: frames, parts := [], rest }
  | frames =>
    { reading with frames := .branches [reading.branch] :: frames, parts := [], rest }

def openGroup (reading : Reading) (kind : GroupKind) (rest : List Char) : Reading :=
  let ignore :=
    match kind with
    | .plain change =>
      if change.on.contains .ignoreBlanks then true
      else if change.off.contains .ignoreBlanks then false
      else reading.ignore
    | .captured _ => reading.ignore
  { reading with
    frames := .group reading.parts kind reading.ignore :: reading.frames, parts := [], ignore,
    rest }

/-- Opens a group with a name that no other group has. -/
def openNamed? (reading : Reading) (text : List Char) : Option Reading := do
  let (name, rest) ← groupName? Text.isLetter Text.isLetterOrNumber [] text
  if reading.names.contains name then none
  else
    return { reading with names := name :: reading.names }.openGroup (.captured (some name)) rest

/-- Reads flags after a question mark: a directive, or a group that is not captured. -/
def readFlags? (reading : Reading) (text : List Char) : Option Reading := do
  let (change, last, rest) ← flags? ⟨[], []⟩ false text
  if last = ':' then return reading.openGroup (.plain change) rest
  else if change.on.isEmpty && change.off.isEmpty then none
  else
    let ignore :=
      if change.on.contains .ignoreBlanks then true
      else if change.off.contains .ignoreBlanks then false
      else reading.ignore
    return { reading with parts := .flags change :: reading.parts, ignore, rest }

/-- Reads what follows an opening parenthesis. Looking around is not supported. -/
def readGroup? (reading : Reading) (text : List Char) : Option Reading :=
  match skipBlanks reading.ignore text with
  | '?' :: '=' :: _ | '?' :: '!' :: _ | '?' :: '<' :: '=' :: _ | '?' :: '<' :: '!' :: _ => none
  | '?' :: 'P' :: '<' :: rest | '?' :: '<' :: rest => reading.openNamed? rest
  | '?' :: rest => reading.readFlags? rest
  | rest => some (reading.openGroup (.captured none) rest)

def closeGroup? (reading : Reading) (rest : List Char) : Option Reading :=
  match reading.body with
  | (body, .group before kind ignore :: frames) =>
    some { reading with frames, parts := .group kind body :: before, ignore, rest }
  | _ => none

/-- Makes a repetition of the last part, which must be there and no directive. -/
def repeat? (reading : Reading) (min : Nat) (max : Option Nat) (rest : List Char) :
    Option Reading :=
  let (greedy, rest) :=
    match rest with
    | '?' :: rest => (false, rest)
    | rest => (true, rest)
  match reading.parts with
  | [] | .empty :: _ | .flags _ :: _ => none
  | part :: parts =>
    some { reading with parts := .repetition part min max greedy :: parts, rest }

def step? (reading : Reading) : List Char → Option Reading
  | [] => none
  | c :: rest =>
    match c with
    | '(' => reading.readGroup? rest
    | ')' => reading.closeGroup? rest
    | '|' => some (reading.endBranch rest)
    | '[' => do
      let (part, rest) ← class? reading.ignore rest
      return reading.addPart part rest
    | '?' => reading.repeat? 0 (some 1) rest
    | '*' => reading.repeat? 0 none rest
    | '+' => reading.repeat? 1 none rest
    | '{' => do
      let (min, max, rest) ← repetitionCounts? reading.ignore rest
      reading.repeat? min max (skipBlanks reading.ignore rest)
    | '\\' => do
      let (part, rest) ← escape? reading.ignore rest
      return reading.addPart part rest
    | '.' => some (reading.addPart .dot rest)
    | '^' => some (reading.addPart (.assertion .lineStart) rest)
    | '$' => some (reading.addPart (.assertion .lineEnd) rest)
    | c => some (reading.addPart (.literal { char := c }) rest)

/-- Reads a pattern to its end. Every step takes some of the text, so its length is enough. -/
def run? : Nat → Reading → Option Expr
  | 0, _ => none
  | fuel + 1, reading =>
    match skipBlanks reading.ignore reading.rest with
    | [] =>
      match reading.body with
      | (body, []) => some body
      | _ => none
    | text =>
      match reading.step? text with
      | some reading => run? fuel reading
      | none => none

end Reading

def maxDepth : Nat := 250

/-- The pattern that a text denotes, if it is well formed and not too deep. -/
def Expr.parse? (text : List Char) : Option Expr := do
  let expr ← Reading.run? (text.length + 1) ⟨[], [], false, [], text⟩
  if expr.depth ≤ maxDepth then return expr else none

end Pattern

end SchemaEvolution
