import SchemaEvolution.Pattern.Branches
import SchemaEvolution.Pattern.Restrictiveness

/-!
# Comparing patterns by their text

A few shapes of a pattern and its successor are decided from the text: patterns that match
everything, an anchor more or less around the same body, and a set of branches that grew or
shrank. What the text alone does not tell, whether a pattern is valid and whether it matches the
empty string, is a parameter.
-/

namespace SchemaEvolution

namespace Pattern

/-- Tells of each pattern whether it matches the empty string; none if it is no valid
pattern. -/
abbrev EmptyMatch := String → Option Bool

/-- A pattern's body between its anchors. -/
structure Anchored where
  atStart : Bool
  atEnd : Bool
  body : List Char
  deriving Repr, DecidableEq

namespace Anchored

/-- A text without a dollar sign that ends it, and whether there was one. A single backslash
before it makes it part of the text, unless another comes before that. -/
def splitEnd (text : List Char) : Bool × List Char :=
  let escaped := ['\\', '$'].isSuffixOf text && !(['\\', '\\', '$'].isSuffixOf text)
  match stripLast? '$' text with
  | some body => if escaped then (false, text) else (true, body)
  | none => (false, text)

/-- The pattern's body, and whether an anchor stands before and after it. -/
def ofPattern (pattern : List Char) : Anchored :=
  let (atStart, rest) :=
    match pattern with
    | '^' :: rest => (true, rest)
    | text => (false, text)
  let (atEnd, body) := splitEnd rest
  { atStart, atEnd, body }

def text (parts : Anchored) : List Char :=
  (if parts.atStart then ['^'] else []) ++ parts.body ++ (if parts.atEnd then ['$'] else [])

/-- The relation of two patterns with the same body: an anchor less allows more. -/
def compare? (old new : Anchored) : Option Restrictiveness :=
  let dropped := (old.atStart && !new.atStart) || (old.atEnd && !new.atEnd)
  let added := (!old.atStart && new.atStart) || (!old.atEnd && new.atEnd)
  match dropped, added with
  | true, false => some .looser
  | false, true => some .stricter
  | false, false => some .equivalent
  | true, true => none

/-- The branches of the body. Between anchors only the branches within a group count, as an
anchor belongs to the branch beside it. -/
def branches? (parts : Anchored) : Option (List (List Char)) :=
  match unwrapGroup? parts.body with
  | some inner => some (branches inner)
  | none => if parts.atStart || parts.atEnd then none else some (branches parts.body)

end Anchored

/-- Whether a text has another one somewhere inside it. -/
def hasInfix (part : List Char) : List Char → Bool
  | [] => part.isEmpty
  | c :: rest => part.isPrefixOf (c :: rest) || hasInfix part rest

/-- Texts that may make a pattern depend on what surrounds a match. -/
def assertions : List (List Char) :=
  [['^'], ['$'], ['\\', 'b'], ['\\', 'B'], ['\\', 'A'], ['\\', 'z'], ['(', '?', '=']]

/-- Whether a pattern that does or does not match the empty string matches every string: a search
that may find nothing anywhere, and asks for nothing around it, always succeeds. -/
def matchesEverything (pattern : List Char) (matchesEmpty : Bool) : Bool :=
  !(assertions.any (hasInfix · pattern)) && matchesEmpty

/-- The relation of two sets of branches. -/
def compareBranches? (old new : List (List Char)) : Option Restrictiveness :=
  let kept := old.all (new.contains ·)
  let covered := new.all (old.contains ·)
  match kept, covered with
  | true, true => some .equivalent
  | true, false => some .looser
  | false, true => some .stricter
  | false, false => none

/-- The relation of two patterns neither of which matches everything. -/
def compareParts? (old new : Anchored) : Option Restrictiveness :=
  if old.body = new.body then old.compare? new
  else if old.atStart != new.atStart || old.atEnd != new.atEnd then none
  else do compareBranches? (← old.branches?) (← new.branches?)

/-- The relation of two patterns as far as their text tells. -/
def compare? (emptyMatch : EmptyMatch) : PatternComparator := fun old new =>
  if old = new then some .equivalent
  else
    match emptyMatch old, emptyMatch new with
    | some oldEmpty, some newEmpty =>
      match matchesEverything old.toList oldEmpty, matchesEverything new.toList newEmpty with
      | true, true => some .equivalent
      | false, true => some .looser
      | true, false => some .stricter
      | false, false =>
        compareParts? (.ofPattern old.toList) (.ofPattern new.toList)
    | _, _ => none

end Pattern

end SchemaEvolution
