import SchemaEvolution.Pattern.Comparison
import SchemaEvolution.Pattern.Parser
import SchemaEvolution.Pattern.Settings

/-! # Valid patterns

A valid pattern is well formed, keeps the rules of its settings, and is not too large to be
compiled. Of a valid pattern the comparison asks whether it matches the empty string. How large a
pattern is when it is compiled is the matter of the engine that does so, and a parameter here.
-/

namespace SchemaEvolution

namespace Pattern

/-- Tells of each pattern whether it is small enough to be compiled. -/
abbrev SizeTest := Expr → Bool

/-- The pattern that a text denotes, if it is a valid one. -/
def Expr.ofText? (fits : SizeTest) (text : String) : Option Expr := do
  let expr ← Expr.parse? text.toList
  if expr.isSound {} && fits expr then return expr else none

/-- Whether a pattern matches the empty string; none if it is no valid pattern. -/
def emptyMatch (fits : SizeTest) : EmptyMatch := fun text =>
  (Expr.ofText? fits text).map Expr.matchesEmpty

end Pattern

end SchemaEvolution
