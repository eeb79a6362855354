import SchemaEvolution.Pattern.EmptyMatch
import SchemaEvolution.Pattern.Footprint

/-! # The comparison that the program runs

The program compares patterns by their text, and takes a pattern for too large to be compiled if
the bytes of its automaton are estimated beyond a limit.
-/

namespace SchemaEvolution

namespace Pattern

/-- The greatest number of bytes of an automaton. -/
def maxFootprint : Nat := 10 * Nat.pow 2 20

/-- The bytes that every automaton takes: the start of a search, the marks of a match, and the
match itself. -/
def baseFootprint : Nat := 7 * stateBytes

def Expr.isEstimatedSmall : SizeTest := fun expr =>
  baseFootprint + expr.footprint {} ≤ maxFootprint

/-- The relation of two patterns as far as their text tells. -/
def bestEffort : PatternComparator := compare? (emptyMatch Expr.isEstimatedSmall)

end Pattern

end SchemaEvolution
