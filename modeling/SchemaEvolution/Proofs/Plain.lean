import Mathlib
import SchemaEvolution.Proofs.Admission

/-! # Plain documents

The documents that speak of kinds, options, sizes and members only, and what is known of the schemas
they denote.
-/

namespace SchemaEvolution

namespace Json

/-- Whether the value is a whole number of at most 53 bits. -/
def isSmall : Json → Bool
  | .number (.integer n _) => decide (n < 2 ^ 53)
  | _ => false

/-- The value is a natural number of at most 53 bits. -/
def IsCount (limit : Json) : Prop :=
  ∃ n : Nat, ∃ bounded, limit = .number (.integer n bounded) ∧ n < 2 ^ 53

/-- The keywords of a schema list every name that they require as a property. -/
def ListsRequired (members : List (String × Json)) : Prop :=
  ∀ name ∈ (NameTable.get? "required" members).elim [] names, listsProperty members name = true

instance (members : List (String × Json)) : Decidable (ListsRequired members) :=
  inferInstanceAs (Decidable (∀ name ∈ _, _))

end Json

namespace Keyword

/-- Whether a plain document may have the keyword with that argument. -/
def isPlain : Keyword → Json → Bool
  | .type, _ | .enum, _ | .uniqueItems, _ | .properties, _ | .required, _
  | .dependentRequired, _ => true
  | .maxLength, limit | .minLength, limit | .maxItems, limit | .minItems, limit
  | .maxProperties, limit | .minProperties, limit => limit.isSmall
  | .items, argument => argument.elements?.isNone
  | .additionalProperties, argument => argument.bool?.isSome
  | keyword, _ => keyword.isMetadata

theorem isSmall_of_isPlain {keyword : Keyword} {limit : Json} (count : keyword ∈ counts)
    (plain : keyword.isPlain limit = true) : limit.isSmall = true := by
  simp only [counts, List.mem_cons, List.not_mem_nil, or_false] at count
  rcases count with rfl | rfl | rfl | rfl | rfl | rfl | rfl | rfl <;>
    first | exact plain | cases plain

end Keyword

/-- The keywords of a schema are plain. -/
def Json.IsPlain (members : List (String × Json)) : Prop :=
  ∀ member ∈ members, (Keyword.ofName member.1).isPlain member.2 = true

instance (members : List (String × Json)) : Decidable (Json.IsPlain members) :=
  inferInstanceAs (Decidable (∀ member ∈ members, _))

section Fragment

variable {p : Keyword → Json → Bool} {members : List (String × Json)}
  (h : ∀ member ∈ members, p (Keyword.ofName member.1) member.2 = true)

include h

theorem Json.argument_of_all {keyword : Keyword} (recognized : keyword.isRecognized = true)
    {argument : Json} (found : NameTable.get? keyword.name members = some argument) :
    p keyword argument = true := by
  have here := h _ (NameTable.mem_of_get? found)
  rwa [Keyword.ofName_name recognized] at here

theorem Json.get?_eq_none_of_all {keyword : Keyword} (recognized : keyword.isRecognized = true)
    (never : ∀ argument, p keyword argument = false) :
    NameTable.get? keyword.name members = none := by
  cases found : NameTable.get? keyword.name members with
  | none => rfl
  | some argument => exact absurd (argument_of_all h recognized found) (by simp [never])

end Fragment

/-- What is known of a schema that was read from plain keywords. -/
structure Node.Plain (node : Node) : Prop where
  counts : ∀ keyword ∈ Keyword.counts, ∀ limit, node.valueOf keyword = some limit → limit.IsCount
  items : ∀ slots, node.items ≠ some (.tuple slots)
  additionalProperties : ∃ allowed, node.additionalProperties = .flag allowed

theorem Facets.exists_count {facets : Facets} {keyword : Keyword} (count : keyword ∈ Keyword.counts)
    {limit : Json} (h : facets.valueOf keyword = some limit) :
    ∃ n, limit = .number (.ofCount n) := by
  have mapped {field : Option UInt64} (same : valueOf.count field = some limit) :
      ∃ n, limit = .number (.ofCount n) := by
    obtain ⟨n, _, rfl⟩ := Option.map_eq_some_iff.mp same
    exact ⟨n, rfl⟩
  simp only [Keyword.counts, List.mem_cons, List.not_mem_nil, or_false] at count
  rcases count with rfl | rfl | rfl | rfl | rfl | rfl | rfl | rfl <;> exact mapped h

namespace Node.ReadFrom

open Json

variable {node : Node} {members : List (String × Json)} (read : node.ReadFrom members)

include read

theorem isCount_of_small {keyword : Keyword} (count : keyword ∈ Keyword.counts)
    (small : ∀ argument, NameTable.get? keyword.name members = some argument →
      argument.isSmall = true) {limit : Json} (found : node.valueOf keyword = some limit) :
    limit.IsCount := by
  obtain ⟨n, rfl⟩ := Facets.exists_count count found
  rw [read.valueOf_count count] at found
  have bound := small _ found
  simp only [Number.ofCount, isSmall, decide_eq_true_eq] at bound
  exact ⟨n.toNat, _, rfl, by exact_mod_cast bound⟩

theorem plain (h : IsPlain members) : node.Plain where
  counts := fun _ count _ => read.isCount_of_small count fun _ held =>
    Keyword.isSmall_of_isPlain count (argument_of_all h (Keyword.isRecognized_of_count count) held)
  items := by
    intro slots found
    have argument := read.items
    rw [found] at argument
    cases @argument_of_all _ _ h .items rfl _ argument.symm
  additionalProperties := by
    have argument := read.additionalProperties
    cases extra : node.additionalProperties with
    | flag allowed => exact ⟨allowed, rfl⟩
    | schema child =>
        have below := below_of_additionalProperties extra
        obtain ⟨inner, read⟩ := of_accepted (read.accepted.below below)
        rw [extra, SubSchema.toJson, read.source] at argument
        cases found : NameTable.get? "additionalProperties" members with
        | none => simp [found] at argument
        | some schema =>
            rw [found] at argument
            cases argument
            cases @argument_of_all _ _ h .additionalProperties rfl _ found

/-- A value is valid against a plain document exactly if its schema admits it. -/
theorem validates_iff_admits_of_plain (h : IsPlain members) {value : Json} :
    (Json.object members).validates value = true ↔ node.Admits value := by
  refine read.validates_iff_admits (fun elements found => ?_)
    (@get?_eq_none_of_all _ _ h .prefixItems rfl fun _ => rfl)
    (@get?_eq_none_of_all _ _ h .contains rfl fun _ => rfl)
  cases @argument_of_all _ _ h .items rfl _ found

theorem required_listed (h : ListsRequired members) :
    ∀ name ∈ node.required, NameTable.has name node.properties = true := by
  intro name member
  rcases read.required with ⟨_, empty⟩ | ⟨names, found, same⟩
  · simp [empty] at member
  · rw [same, NameSet.mem_ofList, ← names_strings names] at member
    rw [← read.listsProperty_eq]
    exact h name (by rwa [found])

end Node.ReadFrom

end SchemaEvolution
