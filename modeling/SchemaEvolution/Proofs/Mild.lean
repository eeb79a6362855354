import Mathlib
import SchemaEvolution.Release
import SchemaEvolution.Proofs.Findings
import SchemaEvolution.Proofs.Shapes

/-! # Mild changes

A change is mild if its rule makes it an addition at most. In a release that is an addition at most
every change is mild, and few changes of constraints are.
-/

namespace SchemaEvolution

namespace Severity

theorem le_max_left (a b : Severity) : a ≤ max a b := by
  unfold max
  split
  · assumption
  · exact Nat.le_refl _

theorem le_max_right (a b : Severity) : b ≤ max a b := by
  unfold max
  split
  · exact Nat.le_refl _
  · exact Nat.le_of_not_le ‹_›

theorem le_trans {a b c : Severity} (hab : a ≤ b) (hbc : b ≤ c) : a ≤ c := Nat.le_trans hab hbc

theorem le_reduce {severity : Severity} {severities : List Severity}
    (listed : severity ∈ severities) : severity ≤ reduce severities := by
  induction severities with
  | nil => cases listed
  | cons first rest ih =>
      rcases List.mem_cons.mp listed with rfl | listed
      · exact le_max_left _ _
      · exact le_trans (ih listed) (le_max_right _ _)

end Severity

/-- The second limit lies further out than the first one, as doubles. -/
def Bound.Recedes : Bound → Number → Number → Prop
  | .upper, m, n => m.signedUnits < n.signedUnits
  | .lower, m, n => n.signedUnits < m.signedUnits

namespace RuleEngine

def severity? (engine : RuleEngine) (change : Change) : Option Severity :=
  match change.property with
  | some context =>
    PropertyRule.severity? change.kind context.required context.additionalProperties
  | none => (engine.rule? change).bind fun row => KeywordRule.severity? row.1 row.2

theorem classify_eq_ok_iff {engine : RuleEngine} {change : Change} {severity : Severity} :
    engine.classify change = .ok severity ↔ engine.severity? change = some severity := by
  unfold classify severity?
  cases change.property with
  | some context =>
      dsimp only
      split <;> simp [*]
  | none =>
      dsimp only
      split <;> simp [*]

/-- The change has a rule, by which it is an addition at most. -/
def Mild (engine : RuleEngine) (change : Change) : Prop :=
  ∃ severity, engine.classify change = .ok severity ∧ severity ≤ .addition

/-- The row makes a change an addition at most. -/
def isLoose (row : RuleCategory × Direction) : Bool :=
  (KeywordRule.severity? row.1 row.2).any (· ≤ .addition)

section Mild

variable {engine : RuleEngine} {path : Path} {keyword : Keyword} {old new value : Json}

theorem mild_iff {change : Change} :
    engine.Mild change ↔ (engine.severity? change).any (· ≤ .addition) = true := by
  simp only [Mild, classify_eq_ok_iff, Option.any_eq_true, decide_eq_true_eq]

theorem mild_under (steps : Path) (change : Change) :
    engine.Mild (change.under steps) ↔ engine.Mild change := by
  rw [mild_iff, mild_iff]
  rfl

theorem mild_iff_rule {change : Change} (plain : change.property = none) :
    engine.Mild change ↔ ∃ row, engine.rule? change = some row ∧ isLoose row = true := by
  rw [mild_iff, severity?, plain]
  cases engine.rule? change <;> simp [isLoose]

/-- A constraint that came is not mild. -/
theorem not_mild_added (recognized : keyword.isRecognized = true)
    (constrains : keyword.isMetadata = false) : ¬engine.Mild (.added path keyword value) := by
  rw [mild_iff_rule rfl]
  have rule : engine.rule? (.added path keyword value) = some (.validation, .added) := by
    cases keyword <;> first | rfl | exact absurd constrains (by decide) | cases recognized
  rintro ⟨row, found, loose⟩
  cases rule.symm.trans found
  exact absurd loose (by decide)

theorem mild_modified_iff (recognized : keyword.isRecognized = true)
    (constrains : keyword.isMetadata = false) :
    engine.Mild (.modified path keyword old new) ↔
      ∃ row, engine.modifiedRule? keyword old new = some row ∧ isLoose row = true := by
  rw [mild_iff_rule rfl]
  have rule : engine.rule? (.modified path keyword old new) =
      engine.modifiedRule? keyword old new := by
    cases keyword <;> first | rfl | exact absurd constrains (by decide) | cases recognized
  rw [rule]

theorem not_mild_type : ¬engine.Mild (.modified path .type old new) := by
  rw [mild_modified_iff rfl rfl]
  rintro ⟨_, ⟨⟩, loose⟩
  exact absurd loose (by decide)

/-- A flag that is told only when it comes on, `required` or `uniqueItems`, is not mild then. -/
theorem not_mild_flag (flag : keyword = .required ∨ keyword = .uniqueItems) :
    ¬engine.Mild (.modified path keyword old (.bool true)) := by
  rcases flag with rfl | rfl
  all_goals
    rw [mild_modified_iff rfl rfl]
    rintro ⟨_, ⟨⟩, loose⟩
    exact absurd loose (by decide)

theorem not_mild_option : ¬engine.Mild (.memberRemoved path .enum value) := by
  rw [mild_iff_rule rfl]
  rintro ⟨_, ⟨⟩, loose⟩
  exact absurd loose (show ¬isLoose (.enumOption, .removed) = true by decide)

/-- A pair of `dependentRequired` or a position that came is not mild. -/
theorem not_mild_memberAdded
    (member : keyword ∈ [Keyword.dependentRequired, .items, .prefixItems]) :
    ¬engine.Mild (.memberAdded path keyword value) := by
  simp only [List.mem_cons, List.not_mem_nil, or_false] at member
  rw [mild_iff_rule rfl]
  rintro ⟨row, found, loose⟩
  rcases member with rfl | rfl | rfl <;> cases found
  · exact absurd loose (show ¬isLoose (.dependency, .added) = true by decide)
  all_goals exact absurd loose (show ¬isLoose (.position, .added) = true by decide)

theorem openness_le (h : ∃ row, opennessRule? old new = some row ∧ isLoose row = true) :
    ∃ before after, openness? old = some before ∧ openness? new = some after ∧
      before ≤ after := by
  obtain ⟨row, found, loose⟩ := h
  simp only [opennessRule?, Option.bind_eq_bind, Option.bind_eq_some_iff, pure,
    Option.some.injEq] at found
  obtain ⟨after, hnew, before, hold, rfl⟩ := found
  refine ⟨before, after, hold, hnew, ?_⟩
  by_contra closed
  rw [decide_eq_true (not_le.mp closed)] at loose
  exact absurd loose (by decide)

theorem openness_le_of_mild (place : keyword ∈ Keyword.places)
    (mild : engine.Mild (.modified path keyword old new)) :
    ∃ before after, openness? old = some before ∧ openness? new = some after ∧
      before ≤ after := by
  simp only [Keyword.places, List.mem_cons, List.not_mem_nil, or_false] at place
  rcases place with rfl | rfl | rfl | rfl | rfl
  · obtain ⟨row, found, loose⟩ := (mild_modified_iff rfl rfl).mp mild
    simp only [modifiedRule?] at found
    split at found
    · cases found
      exact absurd loose (by decide)
    · exact openness_le ⟨row, found, loose⟩
  all_goals exact openness_le ((mild_modified_iff rfl rfl).mp mild)

/-- A bound moves by the row of its side. -/
theorem isLoose_of_mild_bound {bound : Bound} (limits : keyword.bound? = some bound)
    (mild : engine.Mild (.modified path keyword old new)) :
    isLoose (bound.rule old new) = true := by
  have recognized : keyword.isRecognized = true := by
    cases keyword <;> first | rfl | cases limits
  have constrains : keyword.isMetadata = false := by
    cases keyword <;> first | rfl | cases limits
  have rule : engine.modifiedRule? keyword old new = some (bound.rule old new) := by
    cases keyword <;> cases limits <;> rfl
  obtain ⟨row, found, loose⟩ := (mild_modified_iff recognized constrains).mp mild
  cases rule.symm.trans found
  exact loose

theorem recedes_of_isLoose {bound : Bound}
    (loose : isLoose (bound.category, .ofLimits old new) = true) :
    ∃ m n, old = .number m ∧ new = .number n ∧ bound.Recedes m n := by
  unfold Direction.ofLimits at loose
  split at loose
  · rename_i m n
    refine ⟨m, n, rfl, rfl, ?_⟩
    split_ifs at loose <;> cases bound <;> first | assumption | exact absurd loose (by decide)
  · cases bound <;> exact absurd loose (by decide)

/-- A bound may only move to where it admits more: a limit further out, or a flag that is off. -/
theorem bound_of_mild {bound : Bound} (limits : keyword.bound? = some bound)
    (mild : engine.Mild (.modified path keyword old new)) :
    (∃ m n, old = .number m ∧ new = .number n ∧ bound.Recedes m n) ∨ new = .bool false := by
  have loose := isLoose_of_mild_bound limits mild
  unfold Bound.rule at loose
  split at loose
  · rename_i after
    cases after with
    | false => exact .inr rfl
    | true => exact absurd loose (by decide)
  · exact .inl (recedes_of_isLoose loose)

theorem recedes_of_mild {bound : Bound} {m n : Number} (limits : keyword.bound? = some bound)
    (mild : engine.Mild (.modified path keyword (.number m) (.number n))) :
    bound.Recedes m n := by
  obtain ⟨_, _, ⟨⟩, ⟨⟩, recedes⟩ | ⟨⟨⟩⟩ := bound_of_mild limits mild
  exact recedes

/-- A property may come where no other one was allowed, and if it is not required. -/
theorem context_of_mild_added {schema : Json} {context : PropertyContext}
    (mild : engine.Mild (.propertyAdded path schema context)) :
    context.required = false ∧ context.additionalProperties = .notAllowed := by
  obtain ⟨required, extra⟩ := context
  have loose : (PropertyRule.severity? .added required extra).any (· ≤ .addition) = true :=
    mild_iff.mp mild
  cases required <;> cases extra <;> first | exact ⟨rfl, rfl⟩ | exact absurd loose (by decide)

/-- A property may go where other ones are allowed. -/
theorem context_of_mild_removed {schema : Json} {context : PropertyContext}
    (mild : engine.Mild (.propertyRemoved path schema context)) :
    context.additionalProperties ≠ .notAllowed := by
  obtain ⟨required, extra⟩ := context
  have loose : (PropertyRule.severity? .removed required extra).any (· ≤ .addition) = true :=
    mild_iff.mp mild
  rintro rfl
  cases required <;> exact absurd loose (by decide)

end Mild

section Rating

variable {engine : RuleEngine} {changes : List Change} {classified : List ClassifiedChange}

/-- The entry is the change, with the severity that the rules give it. -/
def Rates (engine : RuleEngine) (change : Change) (entry : ClassifiedChange) : Prop :=
  entry.change = change ∧ engine.classify change = .ok entry.severity

theorem classifyAll_eq_ok_iff :
    engine.classifyAll changes = .ok classified ↔
      List.Forall₂ engine.Rates changes classified := by
  have each (change : Change) (entry : ClassifiedChange) :
      (do return { change, severity := ← engine.classify change }) =
        (.ok entry : Except UnclassifiedError ClassifiedChange) ↔ engine.Rates change entry := by
    rw [bind_eq_ok_iff]
    constructor
    · rintro ⟨severity, ok, same⟩
      cases same
      exact ⟨rfl, ok⟩
    · rintro ⟨rfl, ok⟩
      exact ⟨_, ok, rfl⟩
  rw [classifyAll, mapM_eq_ok_iff]
  exact ⟨.imp fun change entry => (each change entry).mp,
    .imp fun change entry => (each change entry).mpr⟩

theorem mem_severities_iff (rated : List.Forall₂ engine.Rates changes classified)
    {severity : Severity} :
    severity ∈ classified.map (·.severity) ↔
      ∃ change ∈ changes, engine.classify change = .ok severity := by
  induction rated with
  | nil => simp
  | cons first _ ih =>
      obtain ⟨rfl, ok⟩ := first
      simp [ih, ok, eq_comm]

theorem mem_of_classifyAll (h : engine.classifyAll changes = .ok classified) {change : Change}
    (listed : change ∈ changes) :
    ∃ entry ∈ classified, engine.classify change = .ok entry.severity := by
  have rated := classifyAll_eq_ok_iff.mp h
  clear h
  induction rated with
  | nil => cases listed
  | cons first _ ih =>
      rcases List.mem_cons.mp listed with rfl | listed
      · exact ⟨_, List.mem_cons_self, first.2⟩
      · obtain ⟨other, member, found⟩ := ih listed
        exact ⟨other, List.mem_cons_of_mem _ member, found⟩

end Rating

end RuleEngine

namespace Release

theorem mapError_eq_ok_iff {ε δ α : Type} {outcome : Except ε α} {f : ε → δ} {result : α} :
    outcome.mapError f = .ok result ↔ outcome = .ok result := by
  cases outcome <;> simp [Except.mapError]

theorem mapError_eq_error_iff {ε δ α : Type} {outcome : Except ε α} {f : ε → δ} {e : δ} :
    outcome.mapError f = .error e ↔ ∃ cause, outcome = .error cause ∧ f cause = e := by
  cases outcome <;> simp [Except.mapError]

theorem exists_of_any {outcome : Except CompareError Release} {test : Release → Bool}
    (passes : outcome.toOption.any test = true) :
    ∃ release, outcome = .ok release ∧ test release = true := by
  cases outcome with
  | error _ => cases passes
  | ok release => exact ⟨release, rfl, passes⟩

theorem exists_of_severity {outcome : Except CompareError Release} {severity : Severity}
    (passes : (outcome.toOption.any fun release => release.severity == severity) = true) :
    ∃ release, outcome = .ok release ∧ release.severity = severity := by
  obtain ⟨release, same, test⟩ := exists_of_any passes
  exact ⟨release, same, beq_iff_eq.mp test⟩

/-- In a release that is an addition at most every change is mild. -/
theorem mild_of_compare {engine : RuleEngine} {old new : Json} {current : Version}
    {release : Release} (h : compare engine old new current = .ok release)
    (mild : release.severity = .none ∨ release.severity = .addition) :
    ∃ before after, Node.decode old = .ok before ∧ Node.decode new = .ok after ∧
      ∀ change ∈ before.diff after, engine.Mild change := by
  simp only [compare, bind_eq_ok_iff, decodeSide, mapError_eq_ok_iff, pure, Except.pure,
    Except.ok.injEq] at h
  obtain ⟨before, ho, after, hn, classified, found, next, _, rfl⟩ := h
  refine ⟨before, after, ho, hn, fun change listed => ?_⟩
  obtain ⟨entry, member, severity⟩ := RuleEngine.mem_of_classifyAll found listed
  refine ⟨entry.severity, severity, ?_⟩
  have below : entry.severity ≤ Severity.reduce (classified.map (·.severity)) :=
    Severity.le_reduce (List.mem_map_of_mem member)
  refine Severity.le_trans below ?_
  dsimp only at mild
  rcases mild with same | same <;> rw [same] <;> decide

end Release

end SchemaEvolution
