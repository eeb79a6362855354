import Mathlib
import SchemaEvolution.Proofs.Classification
import SchemaEvolution.Proofs.Mirror
import SchemaEvolution.Proofs.Pattern.Converse
import SchemaEvolution.Pattern.EmptyMatch

/-! # The rule of a change and of its reverse

The rules often read one of the two values only: whether a flag is true now, whether a limit went
up, whether a place lets less pass. Such a rule tells a change from its reverse because the walk
reports no change between values that agree there. Divisors and patterns, which are compared by a
function of their own, are the exceptions.
-/

namespace SchemaEvolution

namespace Divisibility

theorem pair_swap (a b : Option Nat) :
    (do return (← b, ← a)) = (do return (← a, ← b) : Option (Nat × Nat)).map Prod.swap := by
  cases a <;> cases b <;> rfl

theorem scaledPair?_swap (old new factor : Nat) :
    scaledPair? new old factor = (scaledPair? old new factor).map Prod.swap := by
  exact pair_swap (scaledWhole? old factor) (scaledWhole? new factor)

theorem wholePair?_swap (old new : Nat) :
    wholePair? new old = (wholePair? old new).map Prod.swap := by
  unfold wholePair?
  simp only [scaledPair?_swap old new, List.map_findSome?, Function.comp_def]

theorem direction_comm {old new : Int} (forth : direction old new ≠ .multiple)
    (back : direction new old ≠ .multiple) : direction new old = direction old new := by
  unfold direction at *
  rw [Bool.or_comm (decide (new ≤ 0))] at *
  by_cases signs : (decide (old ≤ 0) || decide (new ≤ 0)) = true
  · rw [if_pos signs, if_pos signs]
  rw [if_neg signs] at forth back
  rw [if_neg signs, if_neg signs]
  have apart : ¬isMultiple old.toNat new.toNat = true := fun multiple => forth (if_pos multiple)
  have apart' : ¬isMultiple new.toNat old.toNat = true := fun multiple => back (if_pos multiple)
  rw [if_neg apart, if_neg apart', wholePair?_swap]
  generalize wholePair? old.toNat new.toNat = pair
  cases pair with
  | none => rfl
  | some pair =>
      dsimp only [Option.map_some, Prod.swap]
      rw [Nat.gcd_comm]

end Divisibility

namespace Direction

/-- The direction of the way back, where that has another one. -/
def opposite : Direction → Direction
  | .added => .removed
  | .removed => .added
  | .increased => .decreased
  | .decreased => .increased
  | .tightened => .loosened
  | .loosened => .tightened
  | direction => direction

@[simp] theorem ofKind_mirror (kind : ChangeKind) :
    ofKind kind.mirror = (ofKind kind).opposite := by
  cases kind <;> rfl

theorem tightenedIf_not (tighter : Bool) :
    tightenedIf (!tighter) = (tightenedIf tighter).opposite := by
  cases tighter <;> rfl

theorem ofLimits_swap (old new : Json) : ofLimits new old = (ofLimits old new).opposite := by
  cases old <;> cases new <;> try rfl
  rename_i before after
  simp only [ofLimits]
  split_ifs <;> first | rfl | omega

theorem ofDivisors_comm {old new : Json} (forth : ofDivisors old new ≠ .multiple)
    (back : ofDivisors new old ≠ .multiple) : ofDivisors new old = ofDivisors old new := by
  cases old <;> cases new <;> try rfl
  exact Divisibility.direction_comm forth back

end Direction

namespace RuleEngine

variable {engine : RuleEngine}

/-- The row of the way back. -/
abbrev opposite : RuleCategory × Direction → RuleCategory × Direction :=
  Prod.map id Direction.opposite

theorem tightenedIf_swap (category : RuleCategory) {before after : Bool} (apart : before ≠ after) :
    (category, Direction.tightenedIf before) =
      opposite (category, Direction.tightenedIf after) := by
  have turned : before = !after := by
    cases before <;> cases after <;> first | rfl | exact absurd rfl apart
  rw [turned, Direction.tightenedIf_not]
  rfl

theorem bound_rule_swap (bound : Bound) {old new : Json} (differs : old.equivalent new = false) :
    bound.rule new old = opposite (bound.rule old new) := by
  cases old <;> cases new
  case bool.bool before after =>
    apply tightenedIf_swap
    rintro rfl
    cases before <;> cases differs
  all_goals
    exact congrArg (bound.category, ·) (Direction.ofLimits_swap _ _)

theorem opennessRule?_swap {a b : SubSchema} (ha : a.Accepted) (hb : b.Accepted)
    (apart : a.openness ≠ b.openness) :
    opennessRule? b.toJson a.toJson = (opennessRule? a.toJson b.toJson).map opposite := by
  rw [opennessRule?, opennessRule?, SubSchema.openness?_toJson ha, SubSchema.openness?_toJson hb]
  refine congrArg some (tightenedIf_swap _ fun same => ?_)
  rw [decide_eq_decide] at same
  omega

theorem memberRule?_mirror (keyword : Keyword) (kind : ChangeKind) :
    memberRule? keyword kind.mirror = (memberRule? keyword kind).map opposite := by
  cases keyword <;> first | rfl | simp [memberRule?]

theorem value_swap {keyword : Keyword} {old new : Json} {before after : Facets}
    (former : before.valueOf keyword = some old) (latter : after.valueOf keyword = some new)
    (differs : old.equivalent new = false)
    (plain : keyword ≠ .multipleOf ∧ keyword ≠ .pattern) :
    engine.modifiedRule? keyword new old =
      (engine.modifiedRule? keyword old new).map opposite := by
  cases keyword
  case multipleOf => exact absurd rfl plain.1
  case pattern => exact absurd rfl plain.2
  case uniqueItems =>
    cases former
    cases latter
    refine congrArg some (tightenedIf_swap _ fun same => ?_)
    cases now : before.uniqueItems <;> cases later : after.uniqueItems <;>
      simp_all [isTrue, Json.equivalent, Json.same]
  case maximum | exclusiveMaximum | minimum | exclusiveMinimum | maxLength | minLength | maxItems
      | minItems | maxContains | minContains | maxProperties | minProperties =>
    exact congrArg some (bound_rule_swap _ differs)
  case type | format => rfl
  case enum | items | prefixItems | contains | properties | required | additionalProperties
      | dependentRequired => cases former
  all_goals rfl

theorem modifiedRule?_swap {keyword : Keyword} {old new : Json} (turns : keyword.Turns old new)
    (plain : keyword ≠ .multipleOf ∧ keyword ≠ .pattern) :
    engine.modifiedRule? keyword new old =
      (engine.modifiedRule? keyword old new).map opposite := by
  cases turns with
  | value former latter differs => exact value_swap former latter differs plain
  | demand now =>
      refine congrArg some (tightenedIf_swap _ ?_)
      cases now <;> decide
  | spread ha =>
      simp only [modifiedRule?, SubSchema.elements?_toJson ha]
      rfl
  | merged hb =>
      simp only [modifiedRule?, SubSchema.elements?_toJson hb]
      rfl
  | place holds ha hb apart =>
      have moved := opennessRule?_swap ha hb apart
      simp only [Keyword.places, List.mem_cons, List.not_mem_nil, or_false] at holds
      rcases holds with rfl | rfl | rfl | rfl | rfl
      · simpa only [modifiedRule?, SubSchema.elements?_toJson ha, SubSchema.elements?_toJson hb,
          bne_self_eq_false, Bool.false_eq_true, if_false] using moved
      all_goals exact moved

/-- A change of one of the shapes and its reverse fall under opposite rows, or under none, unless a
divisor or a pattern takes the place of another. -/
theorem rule?_mirror_of_shape {change : Change} (shape : change.Shape)
    (plain : change.kind = .modified → change.keyword ≠ .multipleOf ∧ change.keyword ≠ .pattern) :
    engine.rule? change.mirror = (engine.rule? change).map opposite := by
  cases recognized : change.keyword.isRecognized with
  | false =>
      obtain ⟨name, named⟩ : ∃ name, change.keyword = .other name := by
        cases named : change.keyword with
        | other name => exact ⟨name, rfl⟩
        | _ => simp [named, Keyword.isRecognized] at recognized
      have back : change.mirror.keyword = .other name := named
      rw [rule?_other named, rule?_other back]
      split_ifs with declared
      · exact congrArg (fun way => some (RuleCategory.metadata, way)) (Direction.ofKind_mirror change.kind)
      · rfl
  | true =>
      cases describes : change.keyword.isMetadata with
      | true =>
          have back : change.mirror.keyword.isMetadata = true := describes
          rw [rule?_metadata describes, rule?_metadata back]
          exact congrArg (fun way => some (RuleCategory.metadata, way)) (Direction.ofKind_mirror change.kind)
      | false =>
          have back : change.mirror.keyword.isRecognized = true := recognized
          rw [rule?_of_constrains recognized describes, rule?_of_constrains back describes]
          cases shape with
          | modified path turns => exact modifiedRule?_swap turns (plain rfl)
          | memberAdded path holds value => exact memberRule?_mirror _ .added
          | memberRemoved path holds value => exact memberRule?_mirror _ .removed
          | added | removed | propertyAdded | propertyRemoved => rfl

end RuleEngine

theorem Keyword.Turns.exists_patterns {old new : Json} (turns : Keyword.Turns .pattern old new) :
    ∃ p q, old = .string p ∧ new = .string q := by
  generalize named : Keyword.pattern = keyword at turns
  cases turns with
  | value former latter differs =>
      subst named
      obtain ⟨p, _, rfl⟩ := Option.map_eq_some_iff.mp former
      obtain ⟨q, _, rfl⟩ := Option.map_eq_some_iff.mp latter
      exact ⟨p, q, rfl, rfl⟩
  | place holds =>
      subst named
      cases (by decide : Keyword.pattern ∉ Keyword.places) holds
  | _ => cases named

/-- A change of the walk and its reverse fall under the same category in opposite directions, or both
under none, whatever further keywords describe. Where a divisor takes the place of another and
neither is a multiple of the other, both fall under the same row. Where a pattern takes the place of
another, both count as tighter if the two cannot be compared, both as looser if they are equivalent,
and one each way otherwise. -/
theorem rule?_mirror {a b : Json} {old new : Node} (ha : a.Distinct) (hb : b.Distinct)
    (ho : Node.decode a = .ok old) (hn : Node.decode b = .ok new) (engine : RuleEngine)
    {change : Change} (member : change ∈ old.diff new) :
    ((change.kind = .modified → change.keyword ≠ .multipleOf ∧ change.keyword ≠ .pattern) →
      engine.rule? change.mirror =
        (engine.rule? change).map (Prod.map id Direction.opposite)) ∧
    (change.kind = .modified → change.keyword = .multipleOf →
      engine.rule? change ≠ some (.multipleOf, .multiple) →
      engine.rule? change.mirror ≠ some (.multipleOf, .multiple) →
      engine.rule? change.mirror = engine.rule? change) ∧
    (change.kind = .modified → change.keyword = .pattern →
      ∀ emptyMatch, engine.patterns = Pattern.compare? emptyMatch →
      ∃ p q, change.oldValue = some (.string p) ∧ change.newValue = some (.string q) ∧
        (Pattern.compare? emptyMatch p q = none →
          engine.rule? change = some (.pattern, .tightened) ∧
          engine.rule? change.mirror = some (.pattern, .tightened)) ∧
        (Pattern.compare? emptyMatch p q = some .equivalent →
          engine.rule? change = some (.pattern, .loosened) ∧
          engine.rule? change.mirror = some (.pattern, .loosened)) ∧
        (∀ relation, Pattern.compare? emptyMatch p q = some relation → relation ≠ .equivalent →
          engine.rule? change.mirror =
            (engine.rule? change).map (Prod.map id Direction.opposite))) := by
  have shape := Diff.shape_of_mem_diff (Node.accepted_of_decode ha ho)
    (Node.accepted_of_decode hb hn) member
  refine ⟨RuleEngine.rule?_mirror_of_shape shape, ?_, ?_⟩
  · intro turned divides forth back
    obtain ⟨path, keyword, x, y, _, rfl⟩ := shape.exists_turns turned
    cases divides
    have moved (p q : Json) : engine.rule? (.modified path .multipleOf p q) =
        some (.multipleOf, .ofDivisors p q) := rfl
    rw [Change.mirror_modified, moved, ne_eq, Option.some.injEq, Prod.mk.injEq] at back
    rw [moved, ne_eq, Option.some.injEq, Prod.mk.injEq] at forth
    rw [Change.mirror_modified, moved, moved, Direction.ofDivisors_comm]
    · exact fun same => forth ⟨rfl, same⟩
    · exact fun same => back ⟨rfl, same⟩
  · intro turned about emptyMatch compared
    obtain ⟨path, keyword, x, y, turns, rfl⟩ := shape.exists_turns turned
    cases about
    obtain ⟨p, q, rfl, rfl⟩ := turns.exists_patterns
    have moved (r s : String) : engine.rule? (.modified path .pattern (.string r) (.string s)) =
        some (.pattern, .ofPatterns (Pattern.compare? emptyMatch r s)) := by
      rw [← compared]
      rfl
    have back := Pattern.compare?_converse emptyMatch p q
    refine ⟨p, q, rfl, rfl, ?_⟩
    rw [Change.mirror_modified, moved, moved, back]
    refine ⟨?undecided, ?equivalent, ?other⟩
    case undecided =>
      intro unknown
      rw [unknown]
      exact ⟨rfl, rfl⟩
    case equivalent =>
      intro same
      rw [same]
      exact ⟨rfl, rfl⟩
    case other =>
      intro relation found apart
      rw [found]
      cases relation with
      | equivalent => exact absurd rfl apart
      | looser | stricter => rfl

/-- Whatever tells which patterns are valid and match the empty string: back from the new pattern to
the old one, looser and stricter change places and the other answers stay. So the rules call both ways
a loosening exactly where the patterns count as equivalent. -/
theorem pattern_rule?_converse (emptyMatch : Pattern.EmptyMatch) (annotations : NameSet)
    (path : Path) (p q : String) :
    Pattern.compare? emptyMatch q p =
      (Pattern.compare? emptyMatch p q).map Restrictiveness.converse ∧
    let engine : RuleEngine := { patterns := Pattern.compare? emptyMatch, annotations }
    let row (old new : String) := engine.rule? (.modified path .pattern (.string old) (.string new))
    (row p q = some (.pattern, .loosened) ∧ row q p = some (.pattern, .loosened) ↔
      Pattern.compare? emptyMatch p q = some .equivalent) := by
  have back := Pattern.compare?_converse emptyMatch p q
  refine ⟨back, ?_⟩
  intro engine row
  have told (old new : String) :
      row old new = some (.pattern, .ofPatterns (Pattern.compare? emptyMatch old new)) := rfl
  rw [told, told, back]
  cases Pattern.compare? emptyMatch p q with
  | none => decide
  | some relation => cases relation <;> decide

def measured (limit divisor : UInt64) (pattern : String) : Json :=
  .object [("maximum", .number (.ofCount limit)), ("multipleOf", .number (.ofCount divisor)),
    ("pattern", .string pattern)]

theorem decode_measured (limit divisor : UInt64) (pattern : String) :
    ∃ node, Node.decode (measured limit divisor pattern) = .ok node ∧ node.types = none ∧
      node.valueOf .maximum = some (.number (.ofCount limit)) ∧
      node.valueOf .multipleOf = some (.number (.ofCount divisor)) ∧
      node.valueOf .pattern = some (.string pattern) :=
  ⟨_, rfl, rfl, rfl, rfl, rfl⟩

/-- A limit goes down and back up, two divisors share a factor both ways, and a pattern gains a
branch and loses it. -/
theorem rule?_mirror_measured :
    let emptyMatch := Pattern.emptyMatch fun _ => true
    let engine : RuleEngine := { patterns := Pattern.compare? emptyMatch }
    let limit := Change.modified [] .maximum (.number (.ofCount 5)) (.number (.ofCount 3))
    let divisor := Change.modified [] .multipleOf (.number (.ofCount 4)) (.number (.ofCount 6))
    let pattern := Change.modified [] .pattern (.string "red") (.string "red|blue")
    ∃ old new, Node.decode (measured 5 4 "red") = .ok old ∧
      Node.decode (measured 3 6 "red|blue") = .ok new ∧
      limit ∈ old.diff new ∧ divisor ∈ old.diff new ∧ pattern ∈ old.diff new ∧
      engine.rule? limit.mirror = (engine.rule? limit).map (Prod.map id Direction.opposite) ∧
      engine.rule? divisor.mirror = engine.rule? divisor ∧
      engine.rule? pattern.mirror =
        (engine.rule? pattern).map (Prod.map id Direction.opposite) := by
  intro emptyMatch engine limit divisor pattern
  obtain ⟨old, ho, untyped, oldLimit, oldDivisor, oldPattern⟩ := decode_measured 5 4 "red"
  obtain ⟨new, hn, _, newLimit, newDivisor, newPattern⟩ := decode_measured 3 6 "red|blue"
  have ha : (measured 5 4 "red").Distinct := by decide
  have hb : (measured 3 6 "red|blue").Distinct := by decide
  have considered (keyword : Keyword) : Diff.Considers old new keyword := by
    intro kind _ _
    refine ⟨fun before _ found _ => ?_, .inl ?_⟩
    · cases untyped.symm.trans found
    · rw [Facets.constrains, untyped]
  have told {keyword : Keyword} {a b : Json} (scalar : keyword.IsScalar)
      (former : old.valueOf keyword = some a) (latter : new.valueOf keyword = some b)
      (differs : a.equivalent b = false) : .modified [] keyword a b ∈ old.diff new := by
    have turned := Diff.turned_mem_diff (.here old new) (Node.accepted_of_decode ha ho) scalar
      (considered keyword)
    rw [former, latter] at turned
    exact turned differs
  have limitTold : limit ∈ old.diff new :=
    told (.inl (by decide)) oldLimit newLimit (by decide +kernel)
  have divisorTold : divisor ∈ old.diff new :=
    told (.inl (by decide)) oldDivisor newDivisor (by decide +kernel)
  have patternTold : pattern ∈ old.diff new :=
    told (.inl (by decide)) oldPattern newPattern (by decide)
  refine ⟨old, new, ho, hn, limitTold, divisorTold, patternTold, ?_, ?_, ?_⟩
  · exact (rule?_mirror ha hb ho hn engine limitTold).1 fun _ => by decide
  · exact (rule?_mirror ha hb ho hn engine divisorTold).2.1 rfl rfl (by decide +kernel)
      (by decide +kernel)
  · obtain ⟨p, q, former, latter, _, _, other⟩ :=
      (rule?_mirror ha hb ho hn engine patternTold).2.2 rfl rfl emptyMatch rfl
    cases former
    cases latter
    exact other .looser (by decide +kernel) (by decide)

/-- Where a divisor appears or disappears, neither way has a multiple, and the rows are not the same:
they are those of any keyword that comes and goes. -/
theorem rule?_mirror_divisor_added :
    ∃ old new change, Node.decode (.object []) = .ok old ∧
      Node.decode (.object [("multipleOf", .number (.ofCount 2))]) = .ok new ∧
      change ∈ old.diff new ∧ change.keyword = .multipleOf ∧
      ∀ engine : RuleEngine,
        engine.rule? change = some (.validation, .added) ∧
        engine.rule? change.mirror = some (.validation, .removed) := by
  refine ⟨_, _, .added [] .multipleOf (.number (.ofCount 2)), rfl, rfl, ?_, rfl,
    fun engine => ⟨rfl, rfl⟩⟩
  exact List.mem_singleton.mpr rfl

end SchemaEvolution
