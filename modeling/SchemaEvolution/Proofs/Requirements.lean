import Mathlib
import SchemaEvolution.Proofs.EmptyDiff
import SchemaEvolution.Proofs.Mild
import SchemaEvolution.Proofs.Visits
import SchemaEvolution.Pattern.BestEffort

/-! # Names that come to be required

A name that the new schema requires and the old one did not is told by a change of `required`, or by
its coming or going as a property. The change of a property that comes counts that the new side
requires it. The change of one that goes counts only that the old side did not, so that it is no more
than an addition where other properties pass, although values without the name are no longer valid.
-/

namespace SchemaEvolution

namespace Diff

variable {old new : Node} {name : String}

theorem member_mem_findings (compared : Compared old new .object) {finding : Finding}
    (found : finding ∈ memberFindings old new) : finding ∈ findings old new := by
  obtain ⟨sameTypes, applied⟩ := compared_iff.mp compared
  rw [findings, if_neg sameTypes, familyFindings, if_pos applied]
  exact List.mem_append_right _ (List.mem_append_right _ found)

theorem demand_mem_diff (compared : Compared old new .object)
    (same : NameTable.has name old.properties = NameTable.has name new.properties)
    (entered : name ∈ new.required) (absent : name ∉ old.required) :
    .modified [.property name] .required (.bool false) (.bool true) ∈ old.diff new := by
  apply told_mem_diff
  apply member_mem_findings compared
  have told : .modified [.property name] .required (.bool false) (.bool true) ∈
      required [] old new := by
    refine List.mem_map.mpr ⟨name, ?_, ?_⟩
    · simp [mem_requiredFlips, same, entered, absent]
    · simp [entered]
  simp [memberFindings, change_mem_told, told]

theorem propertyAdded_mem_diff (compared : Compared old new .object)
    (before : NameTable.has name old.properties = false)
    (after : NameTable.has name new.properties = true) :
    ∃ schema, .propertyAdded [.property name] schema
      { required := new.required.contains name, additionalProperties := old.extraProperties } ∈
        old.diff new := by
  obtain ⟨sub, found⟩ := Option.isSome_iff_exists.mp after
  have missing := Option.not_isSome_iff_eq_none.mp (Bool.eq_false_iff.mp before)
  refine ⟨sub.toJson, told_mem_diff (member_mem_findings compared ?_)⟩
  have told : .change (.propertyAdded [.property name] sub.toJson
      { required := new.required.contains name, additionalProperties := old.extraProperties }) ∈
        propertyFindings old new (name, sub) := by
    simp [propertyFindings, missing]
  simp only [memberFindings, List.mem_append, List.mem_flatMap]
  exact .inl (.inl (.inl ⟨_, NameTable.mem_of_get? found, told⟩))

theorem propertyRemoved_mem_diff (compared : Compared old new .object)
    (before : NameTable.has name old.properties = true)
    (after : NameTable.has name new.properties = false) :
    ∃ schema, .propertyRemoved [.property name] schema
      { required := old.required.contains name, additionalProperties := new.extraProperties } ∈
        old.diff new := by
  obtain ⟨sub, found⟩ := Option.isSome_iff_exists.mp before
  refine ⟨sub.toJson, told_mem_diff (member_mem_findings compared ?_)⟩
  have told : .propertyRemoved [.property name] sub.toJson
      { required := old.required.contains name, additionalProperties := new.extraProperties } ∈
        removedProperties [] old new := by
    refine List.mem_map.mpr ⟨(name, sub), ?_, rfl⟩
    exact List.mem_filter.mpr ⟨NameTable.mem_of_get? found, by simp [after]⟩
  simp only [memberFindings, List.mem_append]
  exact .inl (.inl (.inr (change_mem_told.mpr (List.mem_append_left _ told))))

theorem sameTypes_of_mild {engine : RuleEngine}
    (mild : ∀ change ∈ old.diff new, engine.Mild change) :
    ∀ before after, old.types = some before → new.types = some after → before = after := by
  intro before after ho hn
  by_contra different
  have turned : Differs (old.valueOf .type) (new.valueOf .type) := by
    simp [Facets.valueOf, ho, hn, Differs, typesToJson_equivalent, different, ← Bool.not_eq_true]
  have told : .turned [] .type (old.valueOf .type) (new.valueOf .type) ∈ old.diff new := by
    apply told_mem_diff
    have scalar : Keyword.IsScalar .type := .inl (by decide)
    refine (change_mem_findings scalar).mpr ⟨?_, mem_ofValues.mpr ⟨turned, rfl⟩⟩
    simp [Considers, Change.turned, Keyword.family?]
  have isMild := mild _ told
  simp only [Facets.valueOf, ho, hn, Option.map_some] at isMild
  exact RuleEngine.not_mild_type isMild

end Diff

/-- The new schema does not list a property of the old one any more, but lets it pass. -/
def Node.Releases (old new : Node) (name : String) : Prop :=
  NameTable.has name old.properties = true ∧ NameTable.has name new.properties = false ∧
    new.extraProperties ≠ .notAllowed

instance (old new : Node) (name : String) : Decidable (old.Releases new name) :=
  inferInstanceAs (Decidable (_ ∧ _ ∧ _))

/-- Between two documents that denote schemas of which one says something of objects, a release is a
revision at least if a name came to be required, unless the name is that of a property that the new
schema releases. -/
theorem revision_le_of_required {a b : Json} {old new : Node} (ho : Node.decode a = .ok old)
    (hn : Node.decode b = .ok new)
    (object : old.constrains .object = true ∨ new.constrains .object = true) {name : String}
    (entered : name ∈ new.required) (absent : name ∉ old.required)
    (kept : ¬old.Releases new name) {engine : RuleEngine} {version : Version} {release : Release}
    (compared : Release.compare engine a b version = .ok release) :
    .revision ≤ release.severity := by
  by_contra below
  have least : release.severity = .none ∨ release.severity = .addition := by
    cases severity : release.severity with
    | none => exact .inl rfl
    | addition => exact .inr rfl
    | revision | model =>
        rw [severity] at below
        exact absurd (by decide) below
  obtain ⟨before, after, decoded, decoded', mild⟩ := Release.mild_of_compare compared least
  cases ho.symm.trans decoded
  cases hn.symm.trans decoded'
  have walked : Diff.Compared old new .object := ⟨Diff.sameTypes_of_mild mild, object⟩
  cases listed : NameTable.has name old.properties <;>
    cases listed' : NameTable.has name new.properties
  case false.false | true.true =>
    have told := Diff.demand_mem_diff walked (listed.trans listed'.symm) entered absent
    exact RuleEngine.not_mild_flag (.inl rfl) (mild _ told)
  case false.true =>
    obtain ⟨schema, told⟩ := Diff.propertyAdded_mem_diff walked listed listed'
    have optional := (RuleEngine.context_of_mild_added (mild _ told)).1
    simp [entered] at optional
  case true.false =>
    obtain ⟨schema, told⟩ := Diff.propertyRemoved_mem_diff walked listed listed'
    have passes := RuleEngine.context_of_mild_removed (mild _ told)
    exact kept ⟨listed, listed', passes⟩

/-- A name that comes to be required with its property. -/
theorem revision_le_of_required_new :
    ∃ release, Release.compare { patterns := Pattern.bestEffort } (.object [])
        (.object [("properties", .object [("a", .object [])]),
          ("required", .array [.string "a"])]) ⟨1, 0, 0⟩ = .ok release ∧
      .revision ≤ release.severity := by
  have outcome : ((Release.compare { patterns := Pattern.bestEffort } (.object [])
      (.object [("properties", .object [("a", .object [])]),
        ("required", .array [.string "a"])]) ⟨1, 0, 0⟩).toOption.any fun _ => true) = true := by
    decide +kernel
  obtain ⟨release, compared, -⟩ := Release.exists_of_any outcome
  refine ⟨release, compared, ?_⟩
  refine @revision_le_of_required _ _ _ _ rfl rfl (.inr ?family) "a" ?entered ?absent ?kept _ _ _
    compared
  all_goals decide

/-- A property may go when its name comes to be required: the release is an addition, although a
value without the name is not valid any more. -/
theorem addition_of_required_released :
    ∃ old new release,
      Node.decode (.object [("properties", .object [("a", .object [])])]) = .ok old ∧
      Node.decode (.object [("required", .array [.string "a"])]) = .ok new ∧
      old.constrains .object = true ∧ "a" ∈ new.required ∧ "a" ∉ old.required ∧
      Release.compare { patterns := Pattern.bestEffort }
        (.object [("properties", .object [("a", .object [])])])
        (.object [("required", .array [.string "a"])]) ⟨1, 0, 0⟩ = .ok release ∧
      ¬Severity.revision ≤ release.severity := by
  have outcome : ((Release.compare { patterns := Pattern.bestEffort }
      (.object [("properties", .object [("a", .object [])])])
      (.object [("required", .array [.string "a"])]) ⟨1, 0, 0⟩).toOption.any fun release =>
        release.severity == .addition) = true := by
    decide +kernel
  obtain ⟨release, compared, severity⟩ := Release.exists_of_any outcome
  refine ⟨_, _, release, rfl, rfl, by decide, by decide, by decide, compared, ?_⟩
  rw [beq_iff_eq.mp severity]
  decide

end SchemaEvolution
