import Mathlib
import SchemaEvolution.Pattern.Comparison

/-! # Comparing patterns the other way round

The comparison of two patterns goes through its cases in one order, and each of them treats the two
patterns alike. So back from the new pattern to the old one it takes the same case, and answers the
converse.
-/

namespace SchemaEvolution

/-- How the old pattern relates to the new one. -/
def Restrictiveness.converse : Restrictiveness → Restrictiveness
  | .looser => .stricter
  | .stricter => .looser
  | .equivalent => .equivalent

@[simp] theorem Restrictiveness.converse_converse (relation : Restrictiveness) :
    relation.converse.converse = relation := by
  cases relation <;> rfl

namespace Pattern

open Restrictiveness

theorem Anchored.compare?_converse (old new : Anchored) :
    new.compare? old = (old.compare? new).map converse := by
  unfold Anchored.compare?
  cases old.atStart <;> cases old.atEnd <;> cases new.atStart <;> cases new.atEnd <;> rfl

theorem compareBranches?_converse (old new : List (List Char)) :
    compareBranches? new old = (compareBranches? old new).map converse := by
  unfold compareBranches?
  cases old.all (new.contains ·) <;> cases new.all (old.contains ·) <;> rfl

theorem compareParts?_converse (old new : Anchored) :
    compareParts? new old = (compareParts? old new).map converse := by
  unfold compareParts?
  by_cases same : old.body = new.body
  · rw [if_pos same, if_pos same.symm, Anchored.compare?_converse]
  rw [if_neg same, if_neg (Ne.symm same), bne_comm, bne_comm (a := new.atEnd)]
  split
  · rfl
  · cases old.branches? with
    | none => cases new.branches? <;> rfl
    | some before =>
        cases new.branches? with
        | none => rfl
        | some after => exact compareBranches?_converse before after

/-- Whatever tells which patterns are valid and match the empty string, going back answers the
converse: looser and stricter change places, and what is equivalent or cannot be told stays so. -/
theorem compare?_converse (emptyMatch : EmptyMatch) (old new : String) :
    compare? emptyMatch new old = (compare? emptyMatch old new).map converse := by
  unfold compare?
  by_cases same : old = new
  · rw [if_pos same, if_pos same.symm]
    rfl
  rw [if_neg same, if_neg (Ne.symm same)]
  cases emptyMatch old with
  | none => cases emptyMatch new <;> rfl
  | some before =>
      cases emptyMatch new with
      | none => rfl
      | some after =>
          dsimp only
          cases matchesEverything old.toList before <;> cases matchesEverything new.toList after
          case false.false => exact compareParts?_converse _ _
          all_goals rfl

end Pattern

end SchemaEvolution
