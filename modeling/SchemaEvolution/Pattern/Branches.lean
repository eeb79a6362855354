/-!
# Branches of a pattern

A scan of a pattern's text that knows escapes, classes and groups, and with it the cut of a
pattern at the bars that stand in no group and no class.
-/

namespace SchemaEvolution

namespace Pattern

/-- What a scan of a pattern knows at one place: how many groups are open, whether the next
character is escaped, and whether the place is inside a class. -/
structure Scan where
  depth : Int := 0
  escaped : Bool := false
  inClass : Bool := false
  deriving Repr, DecidableEq

namespace Scan

def start : Scan := {}

def next (scan : Scan) (c : Char) : Scan :=
  if scan.escaped then { scan with escaped := false }
  else if c = '\\' then { scan with escaped := true }
  else if scan.inClass then
    if c = ']' then { scan with inClass := false } else scan
  else if c = '[' then { scan with inClass := true }
  else if c = '(' then { scan with depth := scan.depth + 1 }
  else if c = ')' then { scan with depth := scan.depth - 1 }
  else scan

/-- Whether a character here is a bar between branches. -/
def cutsAt (scan : Scan) (c : Char) : Bool :=
  c == '|' && !scan.escaped && !scan.inClass && scan.depth == 0

end Scan

/-- Whether every group that is opened is closed, and none is closed that was not opened. -/
def isBalancedFrom (scan : Scan) : List Char → Bool
  | [] => scan.depth == 0
  | c :: rest =>
    let next := scan.next c
    !(next.depth < 0) && isBalancedFrom next rest

/-- Whether every group opened in a text is also closed within it. -/
def isBalanced (text : List Char) : Bool := isBalancedFrom .start text

/-- The text cut at the bars between branches, going on from a state of the scan. -/
def branchesFrom (scan : Scan) : List Char → List (List Char)
  | [] => [[]]
  | c :: rest =>
    let branches := branchesFrom (scan.next c) rest
    if scan.cutsAt c then [] :: branches
    else
      match branches with
      | [] => [[c]]
      | first :: others => (c :: first) :: others

/-- The branches of a pattern: its text cut at the bars that stand in no group and no class. -/
def branches (text : List Char) : List (List Char) := branchesFrom .start text

/-- The text without a character at its end, if it ends so. -/
def stripLast? (c : Char) (text : List Char) : Option (List Char) :=
  if text.getLast? = some c then some text.dropLast else none

/-- What stands inside a pattern that is one group, captured or not. -/
def unwrapGroup? : List Char → Option (List Char)
  | '(' :: rest =>
    match stripLast? ')' rest with
    | none => none
    | some inner =>
      if !isBalanced inner then none
      else
        match inner with
        | '?' :: ':' :: inner => some inner
        | '?' :: _ => none
        | inner => some inner
  | _ => none

end Pattern

end SchemaEvolution
