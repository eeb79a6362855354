import Mathlib
import SchemaEvolution.Record
import SchemaEvolution.Proofs.Releases

/-! # Records repeat no name

The members of a record have different names, and the values in it come from two documents that
repeat none. Its text therefore denotes the record.
-/

namespace SchemaEvolution

/-- The members may stand side by side, and under the names that are listed. -/
structure MembersAmong (names : List String) (members : List (String × Json)) : Prop where
  listed : (NameTable.names members).Sublist names
  distinct : ∀ member ∈ members, member.2.Distinct

namespace MembersAmong

variable {names others : List String} {members further : List (String × Json)}

theorem append (h : MembersAmong names members) (h' : MembersAmong others further) :
    MembersAmong (names ++ others) (members ++ further) := by
  refine ⟨?_, List.forall_mem_append.mpr ⟨h.distinct, h'.distinct⟩⟩
  rw [NameTable.names, List.map_append]
  exact h.listed.append h'.listed

theorem single (name : String) {value : Json} (distinct : value.Distinct) :
    MembersAmong [name] [(name, value)] :=
  ⟨.refl _, List.forall_mem_singleton.mpr distinct⟩

theorem optional (name : String) {value : Option Json} (distinct : ∀ v ∈ value, v.Distinct) :
    MembersAmong [name] (optionalMember name value) := by
  cases value with
  | none => exact ⟨List.nil_sublist _, List.forall_mem_nil _⟩
  | some v => exact single name (distinct v rfl)

theorem object (h : MembersAmong names members) (nodup : names.Nodup) :
    (Json.object members).Distinct :=
  .object (h.listed.nodup nodup) h.distinct

end MembersAmong

theorem PropertyContext.distinct_toJson (context : PropertyContext) : context.toJson.Distinct := by
  have required := MembersAmong.single "required" (.bool context.required)
  have properties := MembersAmong.single "additional_properties"
    (.string context.additionalProperties.name)
  exact (required.append properties).object (by decide)

theorem ClassifiedChange.distinct_toJson {entry : ClassifiedChange} (shape : entry.change.Shape) :
    entry.toJson.Distinct := by
  obtain ⟨before, after⟩ := shape.distinct
  have context : ∀ v ∈ entry.change.property.map PropertyContext.toJson, v.Distinct := by
    intro v same
    obtain ⟨context, _, rfl⟩ := Option.map_eq_some_iff.mp same
    exact context.distinct_toJson
  have place := (MembersAmong.single "path" (.string entry.change.path.text)).append <|
    (MembersAmong.single "kind" (.string entry.change.kind.name)).append <|
    (MembersAmong.single "keyword" (.string entry.change.keyword.name)).append <|
    MembersAmong.single "scope" (.string entry.change.scope.name)
  have values := (place.append (.optional "old_value" before)).append (.optional "new_value" after)
  have members := (values.append (.optional "property" context)).append
    (.single "severity" (.string entry.severity.name))
  exact members.object (by decide)

namespace Release

variable {engine : RuleEngine} {old new : Json} {version : Version} {release : Release}

/-- No object in the record of a release repeats a name. -/
theorem distinct_toJson (ho : old.Distinct) (hn : new.Distinct)
    (compared : compare engine old new version = .ok release) : release.toJson.Distinct := by
  obtain ⟨before, after, decoded, decoded', classified, _⟩ := compare_eq_ok_iff.mp compared
  have rated := RuleEngine.classifyAll_eq_ok_iff.mp classified
  have changes : (Json.array (release.changes.map ClassifiedChange.toJson)).Distinct := by
    refine .array fun value listed => ?_
    obtain ⟨entry, member, rfl⟩ := List.mem_map.mp listed
    obtain ⟨change, found, same, _⟩ := exists_of_forall₂ rated member
    apply ClassifiedChange.distinct_toJson
    rw [same]
    exact Diff.shape_of_mem_diff (Node.accepted_of_decode ho decoded)
      (Node.accepted_of_decode hn decoded') found
  have members := (MembersAmong.single "previous" (.string release.previous.text)).append <|
    (MembersAmong.single "next" (.string release.next.text)).append <|
    (MembersAmong.single "severity" (.string release.severity.name)).append <|
    MembersAmong.single "changes" changes
  exact members.object (by decide)

end Release

end SchemaEvolution
