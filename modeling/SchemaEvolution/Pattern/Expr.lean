/-! # Pattern expressions

The parts of a pattern as they are written. A flag directive stands where it was written and
holds from there to the end of the group around it, across later branches.
-/

namespace SchemaEvolution

namespace Pattern

/-- A setting that changes how a pattern reads. -/
inductive Flag where
  | caseInsensitive
  /-- Line anchors match at every line, not only at the ends of the text. -/
  | multiLine
  /-- The dot matches a line feed too. -/
  | dotAll
  | swapGreed
  | unicode
  /-- A line also ends at a carriage return. -/
  | crlf
  /-- Blanks and comments in the pattern mean nothing. -/
  | ignoreBlanks
  deriving Repr, DecidableEq

/-- A directive: the flags it turns on and those it turns off. -/
structure FlagChange where
  on : List Flag
  off : List Flag
  deriving Repr, DecidableEq

/-- A character. `isByte` tells that it was written as a byte of two hexadecimal digits. -/
structure Literal where
  char : Char
  isByte : Bool := false
  deriving Repr, DecidableEq

/-- A test of what surrounds a place. -/
inductive Assertion where
  | lineStart
  | lineEnd
  | textStart
  | textEnd
  | wordBoundary
  | notWordBoundary
  | wordStart
  | wordEnd
  | wordStartHalf
  | wordEndHalf
  deriving Repr, DecidableEq

/-- A class with an escape of its own. -/
inductive ShortClass where
  | digit
  | space
  | word
  deriving Repr, DecidableEq

/-- A class of ASCII characters with a name. -/
inductive NamedClass where
  | alnum
  | alpha
  | ascii
  | blank
  | cntrl
  | digit
  | graph
  | lower
  | print
  | punct
  | space
  | upper
  | word
  | xdigit
  deriving Repr, DecidableEq

/-- A character property as it is written: a name, or a name and a value. -/
inductive PropertyName where
  | single (name : String)
  | valued (name value : String)
  deriving Repr, DecidableEq

/-- How two classes are combined. -/
inductive SetOperator where
  | intersection
  | difference
  | symmetricDifference
  deriving Repr, DecidableEq

/-- A set of characters between brackets. -/
inductive ClassSet where
  | empty
  | literal (value : Literal)
  | range (first last : Literal)
  | named (kind : NamedClass) (negated : Bool)
  | short (kind : ShortClass) (negated : Bool)
  | property (name : PropertyName) (negated : Bool)
  /-- A set between brackets of its own. -/
  | bracketed (negated : Bool) (set : ClassSet)
  | union (items : List ClassSet)
  | combined (operator : SetOperator) (left right : ClassSet)

/-- What a group is for besides holding its contents together. -/
inductive GroupKind where
  | captured (name : Option String)
  | plain (flags : FlagChange)
  deriving Repr, DecidableEq

/-- A pattern. -/
inductive Expr where
  | empty
  | flags (change : FlagChange)
  | literal (value : Literal)
  | dot
  | assertion (kind : Assertion)
  | short (kind : ShortClass) (negated : Bool)
  | property (name : PropertyName) (negated : Bool)
  | bracketed (negated : Bool) (set : ClassSet)
  /-- The body, at least `min` times, and at most `max` times if there is a limit. -/
  | repetition (body : Expr) (min : Nat) (max : Option Nat) (greedy : Bool)
  | group (kind : GroupKind) (body : Expr)
  | alternation (branches : List Expr)
  | concat (parts : List Expr)

namespace NamedClass

def all : List NamedClass :=
  [.alnum, .alpha, .ascii, .blank, .cntrl, .digit, .graph, .lower, .print, .punct, .space, .upper,
    .word, .xdigit]

def name : NamedClass → String
  | .alnum => "alnum"
  | .alpha => "alpha"
  | .ascii => "ascii"
  | .blank => "blank"
  | .cntrl => "cntrl"
  | .digit => "digit"
  | .graph => "graph"
  | .lower => "lower"
  | .print => "print"
  | .punct => "punct"
  | .space => "space"
  | .upper => "upper"
  | .word => "word"
  | .xdigit => "xdigit"

def ofName? (name : String) : Option NamedClass :=
  all.find? (·.name == name)

end NamedClass

namespace ClassSet

def ofItems : List ClassSet → ClassSet
  | [] => .empty
  | [item] => item
  | items => .union items

mutual

/-- How deeply a set nests brackets, unions and operators. -/
def depth : ClassSet → Nat
  | .bracketed _ set => depth set + 1
  | .union items => depthOfList items + 1
  | .combined _ left right => max (depth left) (depth right) + 1
  | _ => 0

def depthOfList : List ClassSet → Nat
  | [] => 0
  | set :: rest => max (depth set) (depthOfList rest)

end

end ClassSet

namespace Expr

def ofParts : List Expr → Expr
  | [] => .empty
  | [part] => part
  | parts => .concat parts

mutual

/-- How deeply a pattern nests. Characters, classes with an escape, assertions and directives
do not count. -/
def depth : Expr → Nat
  | .bracketed _ set => set.depth + 1
  | .repetition body _ _ _ => depth body + 1
  | .group _ body => depth body + 1
  | .alternation branches => depthOfList branches + 1
  | .concat parts => depthOfList parts + 1
  | _ => 0

def depthOfList : List Expr → Nat
  | [] => 0
  | expr :: rest => max (depth expr) (depthOfList rest)

end

mutual

/-- Whether the pattern matches the empty text at its only place, where the text starts and ends
and there is no word. -/
def matchesEmpty : Expr → Bool
  | .empty => true
  | .flags _ => true
  | .literal _ => false
  | .dot => false
  | .assertion kind =>
    match kind with
    | .lineStart | .lineEnd | .textStart | .textEnd | .notWordBoundary | .wordStartHalf
    | .wordEndHalf => true
    | .wordBoundary | .wordStart | .wordEnd => false
  | .short _ _ => false
  | .property _ _ => false
  | .bracketed _ _ => false
  | .repetition body min _ _ => min == 0 || matchesEmpty body
  | .group _ body => matchesEmpty body
  | .alternation branches => someMatchesEmpty branches
  | .concat parts => allMatchEmpty parts

/-- Whether one of the patterns matches the empty text. -/
def someMatchesEmpty : List Expr → Bool
  | [] => false
  | expr :: rest => matchesEmpty expr || someMatchesEmpty rest

/-- Whether all the patterns match the empty text. -/
def allMatchEmpty : List Expr → Bool
  | [] => true
  | expr :: rest => matchesEmpty expr && allMatchEmpty rest

end

end Expr

end Pattern

end SchemaEvolution
