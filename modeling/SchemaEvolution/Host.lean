import SchemaEvolution.Pattern.Comparison
import SchemaEvolution.Source

/-!
# Hosts

The program reads and writes files, fetches documents and tries patterns on a machine whose inner
workings it does not know. What it gets to see of the machine depends on the state that this is in,
and writing a file changes the state.
-/

namespace SchemaEvolution

/-- What a program finds around it. -/
structure Surroundings extends Reach where
  emptyMatch : Pattern.EmptyMatch

/-- A machine with its states. -/
structure Host (State : Type) where
  surroundings : State → Surroundings
  /-- Writes a text to a path: whether that succeeds, and the state that it leaves either way. -/
  write : State → String → String → Bool × State

end SchemaEvolution
