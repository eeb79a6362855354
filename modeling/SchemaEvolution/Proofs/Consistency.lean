import Mathlib
import SchemaEvolution.Proofs.EmptyDiff
import SchemaEvolution.Proofs.Verdicts

/-! # Fields of a change

Whoever tells or rates a change looks at some of its fields and takes the others for granted: that a
member that did not come went, that a property that was not removed came, that two places compared
by what they let pass do not let pass the same. The walk keeps all of it, so no reader of a change
has a case that is decided by an accident.
-/

namespace SchemaEvolution

/-- The fields of a change agree with each other, and with the two schemas that it lies between. -/
structure Change.Consistent (old new : Node) (change : Change) : Prop where
  added : change.kind = .added → change.oldValue = none ∧ change.newValue.isSome = true
  removed : change.kind = .removed → change.oldValue.isSome = true ∧ change.newValue = none
  modified : change.kind = .modified →
    ∃ a b, change.oldValue = some a ∧ change.newValue = some b ∧ a.equivalent b = false
  /-- What decides how far it reaches is told of a property that comes or goes, and of no other. -/
  property : change.property.isSome = true ↔
    change.keyword = .properties ∧ change.kind ≠ .modified
  member : change.scope = .member →
    change.kind ≠ .modified ∧ change.keyword ∈ Keyword.memberwise
  /-- A name comes to be required or optional as the new one of two walked schemas has it. -/
  demand : change.keyword = .required → change.kind = .modified ∧
    ∃ path x y name now, Diff.Visits old new path x y ∧ change.path = path ++ [.property name] ∧
      change.oldValue = some (.bool !now) ∧ change.newValue = some (.bool now) ∧
      (name ∈ y.required ↔ now = true) ∧ (name ∈ x.required ↔ now = false)
  /-- A place turns into one that lets more or less pass: nothing, something or everything. -/
  place : change.kind = .modified → change.keyword ∈ Keyword.places →
    ∀ a b, change.oldValue = some a → change.newValue = some b →
      (change.keyword = .items → a.elements? = none ∧ b.elements? = none) →
      ∃ r s, openness? a = some r ∧ openness? b = some s ∧ r ≠ s
  /-- A bound turns into another double, or from or into a flag that is on. -/
  bound : change.kind = .modified → change.keyword.bound? ≠ none →
    ∀ a b, change.oldValue = some a → change.newValue = some b →
      (∃ m n, a = .number m ∧ b = .number n ∧ m.signedUnits ≠ n.signedUnits) ∨
        (∃ m, a = .number m ∧ b = .bool true) ∨ ∃ n, a = .bool true ∧ b = .number n

namespace Facets

theorem number_or_true_of_exclusive {exclusive : Option Exclusive} {value : Json}
    (found : effectiveExclusive exclusive = some value) :
    (∃ n, value = .number n) ∨ value = .bool true := by
  rcases exclusive with _ | (n | (_ | _)) <;> cases found
  · exact .inl ⟨n, rfl⟩
  · exact .inr rfl

theorem number_or_true_of_bound {facets : Facets} {keyword : Keyword} {value : Json}
    (bound : keyword.bound? ≠ none) (found : facets.valueOf keyword = some value) :
    (∃ n, value = .number n) ∨ value = .bool true := by
  cases keyword <;> try exact absurd rfl bound
  case exclusiveMaximum | exclusiveMinimum => exact number_or_true_of_exclusive found
  all_goals
    obtain ⟨n, _, rfl⟩ := Option.map_eq_some_iff.mp found
    exact .inl ⟨_, rfl⟩

end Facets

namespace Keyword.Turns

variable {keyword : Keyword} {old new : Json}

theorem differs (turns : keyword.Turns old new) : old.equivalent new = false := by
  have apart {a b : Json} (unlike : ¬a.Akin b) : a.equivalent b = false :=
    Bool.eq_false_iff.mpr fun same => unlike (Json.akin_of_equivalent same)
  cases turns with
  | value former latter differs => exact differs
  | demand now => cases now <;> rfl
  | place holds ha hb different =>
      refine apart fun akin => different ?_
      have same := RuleEngine.openness?_akin akin
      rw [SubSchema.openness?_toJson ha, SubSchema.openness?_toJson hb] at same
      exact Option.some.inj same
  | spread ha =>
      refine apart fun akin => ?_
      have same := RuleEngine.elements?_akin akin
      rw [SubSchema.elements?_toJson ha] at same
      cases same
  | merged hb =>
      refine apart fun akin => ?_
      have same := RuleEngine.elements?_akin akin
      rw [SubSchema.elements?_toJson hb] at same
      cases same

/-- Two places that are not both arrays turn only into one that lets more or less pass. -/
theorem openness (turns : keyword.Turns old new) (holds : keyword ∈ Keyword.places)
    (plain : keyword = .items → old.elements? = none ∧ new.elements? = none) :
    ∃ r s, openness? old = some r ∧ openness? new = some s ∧ r ≠ s := by
  cases turns with
  | value former =>
      simp only [Keyword.places, List.mem_cons, List.not_mem_nil, or_false] at holds
      rcases holds with rfl | rfl | rfl | rfl | rfl <;> cases former
  | demand now => simp [Keyword.places] at holds
  | place _ ha hb different =>
      exact ⟨_, _, SubSchema.openness?_toJson ha, SubSchema.openness?_toJson hb, different⟩
  | spread => simp [Items.toJson, Json.elements?] at plain
  | merged => simp [Items.toJson, Json.elements?] at plain

theorem bound (turns : keyword.Turns old new) (limits : keyword.bound? ≠ none) :
    (∃ m n, old = .number m ∧ new = .number n ∧ m.signedUnits ≠ n.signedUnits) ∨
      (∃ m, old = .number m ∧ new = .bool true) ∨ ∃ n, old = .bool true ∧ new = .number n := by
  cases turns with
  | value former latter differs =>
      rcases Facets.number_or_true_of_bound limits former with ⟨m, rfl⟩ | rfl <;>
        rcases Facets.number_or_true_of_bound limits latter with ⟨n, rfl⟩ | rfl
      · exact .inl ⟨m, n, rfl, rfl, by simpa [Json.equivalent] using differs⟩
      · exact .inr (.inl ⟨m, rfl, rfl⟩)
      · exact .inr (.inr ⟨n, rfl, rfl⟩)
      · cases differs
  | place holds =>
      simp only [Keyword.places, List.mem_cons, List.not_mem_nil, or_false] at holds
      rcases holds with rfl | rfl | rfl | rfl | rfl <;> exact absurd rfl limits
  | demand | spread | merged => exact absurd rfl limits

end Keyword.Turns

namespace Change.Shape

variable {change : Change} (shape : change.Shape)

include shape

theorem added_values (kind : change.kind = .added) :
    change.oldValue = none ∧ change.newValue.isSome = true := by
  cases shape with
  | added | memberAdded | propertyAdded => exact ⟨rfl, rfl⟩
  | _ => cases kind

theorem removed_values (kind : change.kind = .removed) :
    change.oldValue.isSome = true ∧ change.newValue = none := by
  cases shape with
  | removed | memberRemoved | propertyRemoved => exact ⟨rfl, rfl⟩
  | _ => cases kind

theorem keyword_of_property (context : change.property.isSome = true) :
    change.keyword = .properties ∧ change.kind ≠ .modified := by
  cases shape with
  | propertyAdded | propertyRemoved => exact ⟨rfl, nofun⟩
  | _ => cases context

theorem keyword_of_member (scope : change.scope = .member) :
    change.kind ≠ .modified ∧ change.keyword ∈ Keyword.memberwise := by
  cases shape with
  | memberAdded path holds value | memberRemoved path holds value => exact ⟨nofun, holds⟩
  | _ => cases scope

end Change.Shape

namespace Diff

variable {old new : Node}

section Level

variable {x y : Node} {told : Change}

theorem change_mem_members (found : .change told ∈ findings x y)
    (about : told.keyword = .properties ∨ told.keyword = .required) :
    .change told ∈ memberFindings x y := by
  have options : told ∉ enumeration [] x.enumeration y.enumeration := fun member => by
    simp [keyword_of_mem_enumeration member] at about
  have elements : .change told ∉ elementFindings x y := fun member => by
    have listed := keyword_of_mem_elementFindings member
    rcases about with about | about <;> simp [about] at listed
  simp only [findings, familyFindings, shared, List.mem_append, List.mem_ite_nil_left,
    List.mem_ite_nil_right, change_mem_told, mem_scalars, mem_extensions, mem_family, options,
    elements, or_false, and_false] at found
  rw [mem_scalar .type, mem_scalar .format] at found
  rcases about with about | about <;>
    simp [about, Keyword.metadata, Keyword.numericScalars, Keyword.stringScalars,
      Keyword.arrayScalars, Keyword.objectScalars] at found
  · exact found.2.2
  · exact found.2.2

theorem kind_of_mem_slotFindings {place nested : Path} {keyword : Keyword} {a b : SubSchema}
    (found : .change told ∈ slotFindings place nested keyword a b) : told.kind = .modified := by
  rcases a with p | a <;> rcases b with q | b <;> simp only [slotFindings] at found
  · split at found
    · cases found
    · cases List.mem_singleton.mp found; rfl
  · cases List.mem_singleton.mp found; rfl
  · cases List.mem_singleton.mp found; rfl
  · cases List.mem_singleton.mp found

theorem property_isSome_of_told (found : .change told ∈ memberFindings x y)
    (about : told.keyword = .properties) (turned : told.kind ≠ .modified) :
    told.property.isSome = true := by
  simp only [memberFindings, List.mem_append, List.mem_flatMap, change_mem_told] at found
  rcases found with ((⟨entry, _, found⟩ | found | found) | found) | found
  · unfold propertyFindings at found
    split at found
    · exact absurd (kind_of_mem_slotFindings found) turned
    · cases List.mem_singleton.mp found
      rfl
  · obtain ⟨_, _, rfl⟩ := List.mem_map.mp found
    rfl
  · obtain ⟨_, _, rfl⟩ := List.mem_map.mp found
    cases about
  · cases (keyword_of_mem_slotFindings found).symm.trans about
  · simp only [dependentRequired, List.mem_append, List.mem_map] at found
    rcases found with ⟨_, _, rfl⟩ | ⟨_, _, rfl⟩ <;> cases about

theorem demand_of_told (found : .change told ∈ memberFindings x y)
    (about : told.keyword = .required) :
    ∃ name now, told = .modified [.property name] .required (.bool !now) (.bool now) ∧
      (name ∈ y.required ↔ now = true) ∧ (name ∈ x.required ↔ now = false) := by
  simp only [memberFindings, List.mem_append, List.mem_flatMap, change_mem_told] at found
  rcases found with ((⟨entry, _, found⟩ | found | found) | found) | found
  · cases (keyword_of_mem_propertyFindings found).symm.trans about
  · obtain ⟨_, _, rfl⟩ := List.mem_map.mp found
    cases about
  · obtain ⟨name, flips, rfl⟩ := List.mem_map.mp found
    have differ := mem_requiredFlips.mp (List.mem_of_mem_filter flips)
    refine ⟨name, y.required.contains name, rfl, by simp, ?_⟩
    by_cases before : name ∈ x.required <;> by_cases after : name ∈ y.required <;>
      simp [before, after] at differ ⊢
  · cases (keyword_of_mem_slotFindings found).symm.trans about
  · simp only [dependentRequired, List.mem_append, List.mem_map] at found
    rcases found with ⟨_, _, rfl⟩ | ⟨_, _, rfl⟩ <;> cases about

end Level

theorem consistent_of_told {path : Path} {x y : Node} {told : Change} (ho : old.Accepted)
    (hn : new.Accepted) (visits : Visits old new path x y) (found : .change told ∈ findings x y) :
    (told.under path).Consistent old new := by
  obtain ⟨hx, hy⟩ := visits.accepted ho hn
  have shape : told.Shape := shaped_findings hx hy _ found
  have among (about : told.keyword = .properties ∨ told.keyword = .required) :=
    change_mem_members found about
  constructor
  case added => exact shape.added_values
  case removed => exact shape.removed_values
  case modified =>
    intro turned
    obtain ⟨_, _, a, b, turns, rfl⟩ := shape.exists_turns turned
    exact ⟨a, b, rfl, rfl, turns.differs⟩
  case property =>
    refine ⟨shape.keyword_of_property, ?_⟩
    rintro ⟨about, turned⟩
    show told.property.isSome = true
    exact property_isSome_of_told (among (.inl about)) about turned
  case member => exact shape.keyword_of_member
  case demand =>
    intro about
    obtain ⟨name, now, rfl, after, before⟩ := demand_of_told (among (.inr about)) about
    exact ⟨rfl, path, x, y, name, now, visits, rfl, rfl, rfl, after, before⟩
  case place =>
    intro turned holds a b former latter plain
    obtain ⟨_, _, _, _, turns, rfl⟩ := shape.exists_turns turned
    cases former
    cases latter
    exact turns.openness holds plain
  case bound =>
    intro turned limits a b former latter
    obtain ⟨_, _, _, _, turns, rfl⟩ := shape.exists_turns turned
    cases former
    cases latter
    exact turns.bound limits

end Diff

/-- Between any two documents that denote schemas, the fields of every change agree. -/
theorem consistent_of_mem_diff {a b : Json} {old new : Node} (ha : a.Distinct) (hb : b.Distinct)
    (ho : Node.decode a = .ok old) (hn : Node.decode b = .ok new) {change : Change}
    (member : change ∈ old.diff new) : change.Consistent old new := by
  obtain ⟨path, x, y, told, visits, found, rfl⟩ := Diff.told_of_mem_diff member
  exact Diff.consistent_of_told (Node.accepted_of_decode ha ho) (Node.accepted_of_decode hb hn)
    visits found

def noted (note : Bool) (required : List String) : Json :=
  .object [("items", .object [("properties", .object [("note", .bool note)]),
    ("required", .array (required.map .string))])]

/-- A note is no longer possible and required all the same, and both changes read well. -/
theorem consistent_of_mem_diff_noted :
    let refusal := Change.modified [.subSchema .items, .property "note"] .properties (.bool true)
      (.bool false)
    let demand := Change.modified [.subSchema .items, .property "note"] .required (.bool false)
      (.bool true)
    ∃ old new, Node.decode (noted true []) = .ok old ∧
      Node.decode (noted false ["note"]) = .ok new ∧ old.diff new = [refusal, demand] ∧
      refusal.Consistent old new ∧ demand.Consistent old new := by
  intro refusal demand
  have changes : ∃ old new, Node.decode (noted true []) = .ok old ∧
      Node.decode (noted false ["note"]) = .ok new ∧ old.diff new = [refusal, demand] :=
    ⟨_, _, rfl, rfl, rfl⟩
  obtain ⟨old, new, ho, hn, told⟩ := changes
  have ha : (noted true []).Distinct := by decide
  have hb : (noted false ["note"]).Distinct := by decide
  exact ⟨old, new, ho, hn, told,
    consistent_of_mem_diff ha hb ho hn (told ▸ List.mem_cons_self),
    consistent_of_mem_diff ha hb ho hn (told ▸ List.mem_cons_of_mem _ List.mem_cons_self)⟩

end SchemaEvolution
