import SchemaEvolution.Pattern.Classes

/-! # Estimated footprint of a pattern

An estimate of the bytes that an automaton for a pattern takes: states of 32 bytes, 8 more for each
range of a state with several, 4 more for each way out of a fork. A character beyond ASCII is read
byte by byte, and a repetition repeats its body. Engines differ in this, and what is proved of
patterns holds whatever their sizes are: only the program that runs goes by the estimate.
-/

namespace SchemaEvolution

namespace Pattern

open Text

def stateBytes : Nat := 32

/-- The bytes of a fork with that many ways out. -/
def forkBytes (ways : Nat) : Nat := stateBytes + 4 * ways

/-- The codes from `first` to `last` as rows of byte ranges, one row for each form that the last
`count` bytes of their UTF-8 encoding take. -/
def continuationRows (first last : Nat) : Nat → List (List (Nat × Nat))
  | 0 => [[]]
  | count + 1 =>
    let block := Nat.pow 2 (6 * count)
    let firstLead := first / block
    let lastLead := last / block
    let full : List (Nat × Nat) := List.replicate count (0, 63)
    if firstLead = lastLead then
      (continuationRows (first % block) (last % block) count).map ((firstLead, firstLead) :: ·)
    else
      let startsWhole := first % block = 0
      let endsWhole := last % block = block - 1
      let head :=
        if startsWhole then []
        else (continuationRows (first % block) (block - 1) count).map ((firstLead, firstLead) :: ·)
      let tail :=
        if endsWhole then []
        else (continuationRows 0 (last % block) count).map ((lastLead, lastLead) :: ·)
      let low := if startsWhole then firstLead else firstLead + 1
      let high := if endsWhole then lastLead else lastLead - 1
      let middle := if low ≤ high then [(low, high) :: full] else []
      head ++ middle ++ tail

/-- The first and last codes whose UTF-8 encodings have one, two, three and four bytes, without
the surrogates, and how many bytes follow the first. -/
def encodingBlocks : List (Nat × Nat × Nat) :=
  [(0, 0x7F, 0), (0x80, 0x7FF, 1), (0x800, 0xD7FF, 2), (0xE000, 0xFFFF, 2),
    (0x10000, 0x10FFFF, 3)]

/-- The rows of byte ranges that encode the characters of a range, the number of bytes first. -/
def encodingRows (range : Nat × Nat) : List (List (Nat × Nat)) :=
  encodingBlocks.flatMap fun (first, last, more) =>
    let low := max first range.1
    let high := min last range.2
    if low ≤ high then (continuationRows low high (more + 1)).map ((more, more) :: ·) else []

/-- How many entries of a row differ from the row before it, from the first that does. -/
def newEntries : List (Nat × Nat) → List (Nat × Nat) → Nat
  | a :: as, b :: bs => if a = b then newEntries as bs else (b :: bs).length
  | _, row => row.length

/-- The states for rows in order, where rows share the states of what they start with. -/
def rowStates (before : List (Nat × Nat)) : List (List (Nat × Nat)) → Nat
  | [] => 0
  | row :: rest =>
    -- the number of bytes at the front of a row takes no state
    min (newEntries before row) (row.length - 1) + rowStates row rest

/-- The bytes of an automaton for one character of a set. -/
def rangesFootprint (ranges : CharRanges) : Nat :=
  match ranges with
  | [] => stateBytes
  | ranges =>
    if ranges.all fun range => range.2 < 0x80 then 2 * stateBytes + 8 * ranges.length
    else
      let rows := ranges.flatMap encodingRows
      stateBytes * (2 + rowStates [] rows) + 4 * rows.length

/-- What is known of a set of characters: its ranges, and the bytes for the properties in it
whose characters are not listed here. -/
structure Extent where
  ranges : CharRanges
  unlisted : Nat := 0

namespace Extent

def union (a b : Extent) : Extent :=
  ⟨a.ranges.union b.ranges, a.unlisted + b.unlisted⟩

def complement (a : Extent) : Extent :=
  if a.unlisted = 0 then ⟨a.ranges.complement, 0⟩ else a

/-- The complement of a set if it is negated. -/
def negateIf (negated : Bool) (a : Extent) : Extent :=
  if negated then a.complement else a

def inter (a b : Extent) : Extent :=
  ⟨CharRanges.inter a.ranges b.ranges, min a.unlisted b.unlisted⟩

def combine (operator : SetOperator) (a b : Extent) : Extent :=
  match operator with
  | .intersection => a.inter b
  | .difference => ⟨CharRanges.inter a.ranges b.ranges.complement, a.unlisted⟩
  | .symmetricDifference =>
    ⟨CharRanges.inter (a.ranges.union b.ranges)
      (CharRanges.complement (CharRanges.inter a.ranges b.ranges)), a.unlisted + b.unlisted⟩

/-- The ASCII letters in a set from `first` on, moved to the other case. -/
def shiftedLetters (ranges : CharRanges) (first : Char) (other : Char) : CharRanges :=
  ranges.filterMap fun range =>
    let low := max range.1 first.toNat
    let high := min range.2 (first.toNat + 25)
    if low ≤ high then
      some (low - first.toNat + other.toNat, high - first.toNat + other.toNat)
    else none

/-- The set with both cases of the ASCII letters in it, and with the Kelvin sign and the long s
for the letters they fold to. -/
def foldCase (unicode : Bool) (a : Extent) : Extent :=
  let other := shiftedLetters a.ranges 'a' 'A' ++ shiftedLetters a.ranges 'A' 'a'
  let both := a.ranges.union other
  let folded :=
    (if unicode && CharRanges.has both 'k' then [(0x212A, 0x212A)] else []) ++
    (if unicode && CharRanges.has both 's' then [(0x17F, 0x17F)] else [])
  { a with ranges := both.union folded }

/-- The bytes of an automaton for one character of the set. -/
def footprint (a : Extent) : Nat :=
  match a.ranges with
  | [(code, last)] =>
    if code = last && a.unlisted = 0 then
      stateBytes * (if code < 0x80 then 1 else if code < 0x800 then 2
        else if code < 0x10000 then 3 else 4)
    else rangesFootprint a.ranges + a.unlisted
  | ranges => rangesFootprint ranges + a.unlisted

end Extent

/-- Bytes for properties whose characters are not listed here, by name. -/
def PropertyName.listedFootprints : List (List String × Nat) :=
  [(["l", "letter", "idstart", "ids", "xidstart", "xids", "c", "other", "cn", "unassigned"], 43000),
    (["lu", "uppercaseletter", "ll", "lowercaseletter", "upper", "uppercase", "lower",
      "lowercase"], 27000),
    (["lt", "titlecaseletter", "pi", "initialpunctuation", "pf", "finalpunctuation", "pc",
      "connectorpunctuation", "me", "enclosingmark", "z", "separator", "zs", "spaceseparator",
      "zl", "lineseparator", "zp", "paragraphseparator", "cc", "control", "cntrl", "co",
      "privateuse"], 600),
    (["lm", "modifierletter", "nd", "decimalnumber", "digit", "no", "othernumber"], 5200),
    (["lo", "otherletter"], 34000),
    (["lc", "casedletter", "n", "number"], 9800),
    (["m", "mark", "combiningmark", "mn", "nonspacingmark"], 19000),
    (["mc", "spacingmark", "p", "punctuation", "punct", "po", "otherpunctuation", "emoji"], 11000),
    (["s", "symbol", "so", "othersymbol"], 14000),
    (["ps", "openpunctuation", "pe", "closepunctuation", "sm", "mathsymbol"], 3900),
    (["alphabetic", "alpha"], 47000),
    (["idcontinue", "idc", "xidcontinue", "xidc", "assigned"], 50000),
    (["any"], 964),
    (["ascii"], 72)]

/-- About how many bytes an automaton for a property takes. -/
def PropertyName.footprint (name : PropertyName) : Nat :=
  let value := PropertyName.normalize <|
    match name with
    | .single name => name
    | .valued _ value => value
  match listedFootprints.find? fun entry => entry.1.contains value with
  | some entry => entry.2
  | none => if scriptNames.contains value then 1500 else 10000

namespace ClassSet

mutual

def extent (settings : Settings) : ClassSet → Extent
  | .empty => ⟨[], 0⟩
  | .literal value => ⟨[(value.char.toNat, value.char.toNat)], 0⟩
  | .range first last => ⟨[(first.char.toNat, last.char.toNat)], 0⟩
  | .named kind negated => Extent.negateIf negated ⟨kind.ranges, 0⟩
  | .short kind negated => Extent.negateIf negated ⟨kind.ranges settings.unicode, 0⟩
  | .property name _ => ⟨[], name.footprint⟩
  | .bracketed negated set => bracketedExtent settings negated set
  | .union items => unionExtent settings items
  | .combined operator left right =>
    .combine operator (extent settings left) (extent settings right)

/-- The characters of a set in brackets. Case is folded before the set is negated. -/
def bracketedExtent (settings : Settings) (negated : Bool) (set : ClassSet) : Extent :=
  let inner := extent settings set
  let inner := if settings.caseInsensitive then inner.foldCase settings.unicode else inner
  inner.negateIf negated

def unionExtent (settings : Settings) : List ClassSet → Extent
  | [] => ⟨[], 0⟩
  | set :: rest => (extent settings set).union (unionExtent settings rest)

end

end ClassSet

namespace Settings

def literalExtent (settings : Settings) (value : Literal) : Extent :=
  let extent : Extent := ⟨[(value.char.toNat, value.char.toNat)], 0⟩
  if settings.caseInsensitive then extent.foldCase settings.unicode else extent

end Settings

namespace Expr

mutual

/-- Whether the pattern matches nothing but the empty text. -/
def onlyEmpty : Expr → Bool
  | .empty | .flags _ | .assertion _ => true
  | .repetition body _ max _ => max == some 0 || onlyEmpty body
  | .group _ body => onlyEmpty body
  | .alternation branches => allOnlyEmpty branches
  | .concat parts => allOnlyEmpty parts
  | .literal _ | .dot | .short _ _ | .property _ _ | .bracketed _ _ => false

def allOnlyEmpty : List Expr → Bool
  | [] => true
  | expr :: rest => onlyEmpty expr && allOnlyEmpty rest

end

/-- The characters that a pattern of one character matches. -/
def extent? (settings : Settings) : Expr → Option Extent
  | .literal value => some (settings.literalExtent value)
  | .dot => some (Extent.complement ⟨settings.lineEnds, 0⟩)
  | .short kind negated => some (Extent.negateIf negated ⟨kind.ranges settings.unicode, 0⟩)
  | .property name _ => some ⟨[], name.footprint⟩
  | .bracketed negated set => some (set.bracketedExtent settings negated)
  | _ => none

/-- The characters that branches of one character each match together. -/
def branchesExtent? (settings : Settings) : List Expr → Option Extent
  | [] => some ⟨[], 0⟩
  | expr :: rest => do
    return (← extent? settings expr).union (← branchesExtent? settings rest)

/-- The bytes of a repetition of a body that takes `bytes`. -/
def repetitionFootprint (bytes min : Nat) : Option Nat → Nat
  | none => if min ≤ 1 then bytes + forkBytes 2 else min * bytes + forkBytes 2
  | some 0 => stateBytes
  | some max =>
    if min = 1 && max = 1 then bytes
    else if min = max then min * bytes
    else if min = 0 && max = 1 then bytes + forkBytes 2 + stateBytes
    else
      (if min = 0 then stateBytes else min * bytes) + stateBytes +
        (max - min) * (bytes + forkBytes 2)

mutual

/-- The bytes of an automaton for the pattern. -/
def footprint (settings : Settings) : Expr → Nat
  | .empty | .flags _ | .assertion _ => stateBytes
  | .literal value => (settings.literalExtent value).footprint
  | .dot => (Extent.complement ⟨settings.lineEnds, 0⟩).footprint
  | .short kind negated => (Extent.negateIf negated ⟨kind.ranges settings.unicode, 0⟩).footprint
  | .property name _ => name.footprint
  | .bracketed negated set => (set.bracketedExtent settings negated).footprint
  | .repetition body min max _ =>
    let bytes := footprint settings body
    if onlyEmpty body then
      repetitionFootprint bytes (Nat.min min 1) (some (Nat.min (max.getD 1) 1))
    else repetitionFootprint bytes min max
  | .group kind body =>
    match kind with
    | .captured _ => 2 * stateBytes + footprint settings body
    | .plain change => footprint (settings.apply change) body
  | .alternation branches =>
    match branchesExtent? settings branches with
    | some extent => extent.footprint
    | none =>
      forkBytes branches.length + stateBytes + footprintOfBranches settings branches
  | .concat parts => footprintOfParts settings parts

def footprintOfBranches (settings : Settings) : List Expr → Nat
  | [] => 0
  | expr :: rest =>
    footprint settings expr + footprintOfBranches (settingsAfter settings expr) rest

/-- The bytes for several parts in a row. Parts that stand for nothing take none. -/
def footprintOfParts (settings : Settings) : List Expr → Nat
  | [] => 0
  | expr :: rest =>
    (match expr with
      | .empty | .flags _ => 0
      | expr => footprint settings expr) +
      footprintOfParts (settingsAfter settings expr) rest

end

end Expr

end Pattern

end SchemaEvolution
