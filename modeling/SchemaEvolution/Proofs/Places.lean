import Mathlib
import SchemaEvolution.Proofs.Reading

/-! # Places for schemas in a document

The values of a document that stand in the place of a schema, at any depth. The schemas below a
decoded schema are read from such values, so what holds everywhere in a document holds all the way
down.
-/

namespace SchemaEvolution

/-- The values in the argument of a keyword that stand in the place of a schema. -/
def Keyword.schemas : Keyword → Json → List Json
  | .items, .array slots | .prefixItems, .array slots => slots
  | .items, schema | .contains, schema | .additionalProperties, schema => [schema]
  | .properties, .object table => table.map (·.2)
  | _, _ => []

namespace Json

/-- A value stands in a document in the place of a schema. -/
inductive SchemaIn : Json → Json → Prop where
  | here (document : Json) : SchemaIn document document
  | inside {members : List (String × Json)} {member : String × Json} {inner schema : Json}
      (listed : member ∈ members) (held : inner ∈ (Keyword.ofName member.1).schemas member.2)
      (rest : SchemaIn inner schema) : SchemaIn (.object members) schema

/-- The keywords of every schema in the document have the property. -/
def Everywhere (P : List (String × Json) → Prop) (document : Json) : Prop :=
  ∀ members, SchemaIn document (.object members) → P members

section Everywhere

variable {P : List (String × Json) → Prop}

theorem everywhere_object_iff {members : List (String × Json)} :
    (object members).Everywhere P ↔ P members ∧ ∀ member ∈ members,
      ∀ inner ∈ (Keyword.ofName member.1).schemas member.2, inner.Everywhere P := by
  constructor
  · intro h
    refine ⟨h members (.here _), ?_⟩
    intro member listed inner held schema place
    exact h schema (.inside listed held place)
  · rintro ⟨here, below⟩ schema place
    cases place with
    | here => exact here
    | inside listed held rest => exact below _ listed _ held schema rest

theorem everywhere_bool (allowed : Bool) : (bool allowed).Everywhere P := by
  rintro members ⟨⟩

end Everywhere

end Json

namespace Node

theorem ReadFrom.schemas_of_below {node child : Node} {members : List (String × Json)}
    (read : node.ReadFrom members) (below : child.Below node) :
    ∃ (keyword : Keyword) (argument : Json), keyword.isRecognized = true ∧
      NameTable.get? keyword.name members = some argument ∧
      child.source ∈ keyword.schemas argument := by
  obtain ⟨inner, source⟩ : ∃ inner, child.source = .object inner := by
    obtain ⟨inner, read⟩ := ReadFrom.of_accepted (read.accepted.below below)
    exact ⟨inner, read.source⟩
  rcases mem_subSchemas_iff.mp below with ⟨items, found, member⟩ | ⟨slots, found, member⟩ | found |
    ⟨⟨name, sub⟩, member, same⟩ | same
  · have argument := read.items
    rw [found] at argument
    refine ⟨.items, _, rfl, argument.symm, ?_⟩
    cases items with
    | single sub =>
        cases List.mem_singleton.mp member
        simp [Items.toJson, SubSchema.toJson, source, Keyword.schemas]
    | tuple slots => exact List.mem_map_of_mem member
  · have argument := read.prefixItems
    rw [found] at argument
    exact ⟨.prefixItems, _, rfl, argument.symm, List.mem_map_of_mem member⟩
  · have argument := read.contains
    rw [found] at argument
    exact ⟨.contains, _, rfl, argument.symm, List.mem_singleton.mpr rfl⟩
  · cases same
    rcases read.properties with ⟨_, empty⟩ | ⟨schemas, argument, same⟩
    · simp [empty] at member
    · have inner := same name
      rw [(NameTable.get?_eq_some_iff read.accepted.properties_ordered.nodup).mpr member] at inner
      exact ⟨.properties, _, rfl, argument,
        List.mem_map_of_mem (NameTable.mem_of_get? inner.symm)⟩
  · have argument := read.additionalProperties
    rw [← same, SubSchema.toJson] at argument
    cases found : NameTable.get? "additionalProperties" members with
    | none => simp [found, source] at argument
    | some schema =>
        rw [found] at argument
        cases argument
        exact ⟨.additionalProperties, _, rfl, found, List.mem_singleton.mpr rfl⟩

/-- What holds everywhere in the document of a schema holds everywhere in those below it. -/
theorem Accepted.everywhere_below {P : List (String × Json) → Prop} {node child : Node}
    (accepted : node.Accepted) (below : child.Below node) (h : node.source.Everywhere P) :
    child.source.Everywhere P := by
  obtain ⟨members, read⟩ := ReadFrom.of_accepted accepted
  obtain ⟨keyword, argument, recognized, found, held⟩ := read.schemas_of_below below
  rw [read.source, Json.everywhere_object_iff] at h
  rw [← Keyword.ofName_name recognized] at held
  exact h.2 _ (NameTable.mem_of_get? found) _ held

end Node

end SchemaEvolution
