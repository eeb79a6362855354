import Mathlib
import SchemaEvolution.Proofs.Plain

/-! # What is asked of the elements of an array

The keywords for elements look at each other: `items` speaks of the positions that `prefixItems`
leaves, and how many elements may match `contains` is said beside it. A document that speaks of
arrays is told from its schema field by field all the same.
-/

namespace SchemaEvolution

/-- So many elements may match the schema of `contains`: at least one unless the schema says
otherwise. -/
structure Node.AdmitsMatches (node : Node) (count : Nat) : Prop where
  least : node.minContains = none → 1 ≤ count
  limits : ∀ keyword ∈ [Keyword.minContains, .maxContains], ∀ limit,
    node.valueOf keyword = some limit → keyword.admitsSize count limit = true

/-- What a schema that speaks of arrays asks of a value, field by field. -/
structure Node.AdmitsElements (node : Node) (value : Json) : Prop
    extends node.AdmitsAlone value where
  prefixItems : ∀ slots, node.prefixItems = some slots →
    Json.validatesEach (slots.map SubSchema.toJson) value.elements = true
  items : ∀ sub, node.items = some (.single sub) →
    ∀ e ∈ value.elements.drop node.prefixSize, sub.toJson.validates e = true
  contains : ∀ sub, node.contains = some sub → value.elements?.isSome = true →
    node.AdmitsMatches (value.elements.countP sub.toJson.validates)

namespace Json

section Keywords

variable {siblings : List (String × Json)} {value : Json}

theorem meetsAll_prefixItems {schemas : List Json} :
    meetsAll siblings value [(Keyword.prefixItems.name, .array schemas)] =
      validatesEach schemas value.elements := by
  rw [meetsAll.eq_def]
  simp only [@Keyword.ofName_name .prefixItems rfl, meetsAll, Bool.and_true]

theorem meetsAll_contains {schema : Json} :
    meetsAll siblings value [(Keyword.contains.name, schema)] =
      (value.elements?.isNone ||
        admitsMatches siblings (value.elements.countP schema.validates)) := by
  rw [meetsAll.eq_def]
  simp only [@Keyword.ofName_name .contains rfl, meetsAll, Bool.and_true]

end Keywords

end Json

namespace Keyword

/-- Whether a document that speaks of arrays may have the keyword with that argument. -/
def isElementwise : Keyword → Json → Bool
  | .type, _ | .enum, _ | .prefixItems, _ | .contains, _ | .uniqueItems, _ => true
  | .items, argument => argument.elements?.isNone
  | .maxItems, limit | .minItems, limit | .maxContains, limit | .minContains, limit =>
    limit.isSmall
  | keyword, _ => keyword.isMetadata

theorem isSmall_of_isElementwise {keyword : Keyword} {limit : Json} (count : keyword ∈ counts)
    (elementwise : keyword.isElementwise limit = true) : limit.isSmall = true := by
  simp only [counts, List.mem_cons, List.not_mem_nil, or_false] at count
  rcases count with rfl | rfl | rfl | rfl | rfl | rfl | rfl | rfl <;>
    first | exact elementwise | cases elementwise

end Keyword

/-- The keywords of a schema speak of arrays. -/
def Json.IsElementwise (members : List (String × Json)) : Prop :=
  ∀ member ∈ members, (Keyword.ofName member.1).isElementwise member.2 = true

instance (members : List (String × Json)) : Decidable (Json.IsElementwise members) :=
  inferInstanceAs (Decidable (∀ member ∈ members, _))

/-- What is known of a schema that was read from keywords that speak of arrays. -/
structure Node.Elementwise (node : Node) : Prop where
  counts : ∀ keyword ∈ Keyword.counts, ∀ limit, node.valueOf keyword = some limit → limit.IsCount
  items : ∀ slots, node.items ≠ some (.tuple slots)

namespace Node.ReadFrom

open Json

variable {node : Node} {members : List (String × Json)} (read : node.ReadFrom members)
  {value : Json}

include read

theorem asks_prefixItems :
    Asks members value .prefixItems ↔ ∀ slots, node.prefixItems = some slots →
      validatesEach (slots.map SubSchema.toJson) value.elements = true := by
  rw [Asks, ← show _ = NameTable.get? Keyword.prefixItems.name members from read.prefixItems]
  cases node.prefixItems with
  | none => simp
  | some slots => simp only [Option.map_some, Option.some.injEq, forall_eq', meetsAll_prefixItems]

theorem admitsMatches_iff (count : Nat) :
    admitsMatches members count = true ↔ node.AdmitsMatches count := by
  have fewest : NameTable.get? "minContains" members = node.valueOf .minContains :=
    (@valueOf_count _ _ read .minContains (by decide)).symm
  have most : NameTable.get? "maxContains" members = node.valueOf .maxContains :=
    (@valueOf_count _ _ read .maxContains (by decide)).symm
  have default : node.valueOf .minContains = none ↔ node.minContains = none :=
    Option.map_eq_none_iff
  rw [admitsMatches, fewest, most, Bool.and_eq_true]
  constructor
  · rintro ⟨least, greatest⟩
    refine ⟨fun absent => ?_, ?_⟩
    · rw [default.mpr absent] at least
      exact of_decide_eq_true least
    · simp only [List.forall_mem_cons, List.not_mem_nil, false_imp_iff, implies_true, and_true]
      constructor <;> intro limit found
      · rwa [found] at least
      · rwa [found] at greatest
  · intro h
    constructor
    · cases found : node.valueOf .minContains with
      | none => exact decide_eq_true (h.least (default.mp found))
      | some limit => exact h.limits .minContains (by decide) limit found
    · cases found : node.valueOf .maxContains with
      | none => rfl
      | some limit => exact h.limits .maxContains (by decide) limit found

theorem asks_contains :
    Asks members value .contains ↔ ∀ sub, node.contains = some sub →
      value.elements?.isSome = true →
        node.AdmitsMatches (value.elements.countP sub.toJson.validates) := by
  rw [Asks, ← show _ = NameTable.get? Keyword.contains.name members from read.contains]
  cases node.contains with
  | none => simp
  | some sub =>
      simp only [Option.map_some, Option.some.injEq, forall_eq', meetsAll_contains,
        Bool.or_eq_true, read.admitsMatches_iff]
      cases value.elements? <;> simp

theorem elementwise (h : IsElementwise members) : node.Elementwise where
  counts := fun _ count _ => read.isCount_of_small count fun _ held =>
    Keyword.isSmall_of_isElementwise count
      (argument_of_all h (Keyword.isRecognized_of_count count) held)
  items := by
    intro slots found
    have argument := read.items
    rw [found] at argument
    cases @argument_of_all _ _ h .items rfl _ argument.symm

/-- A value is valid against a document that speaks of arrays exactly if its schema admits it. -/
theorem validates_iff_admitsElements (h : IsElementwise members) :
    (Json.object members).validates value = true ↔ node.AdmitsElements value := by
  have single (elements : List Json) :
      NameTable.get? "items" members ≠ some (.array elements) := fun found => by
    cases @argument_of_all _ _ h .items rfl _ found
  rw [validates_iff_asks read.distinct.names]
  constructor
  · intro h
    exact {
      toAdmitsAlone := read.admitsAlone_iff.mpr fun keyword alone =>
        h keyword (Keyword.isRecognized_of_alone alone)
      prefixItems := read.asks_prefixItems.mp (h .prefixItems rfl)
      items := (read.asks_items single).mp (h .items rfl)
      contains := read.asks_contains.mp (h .contains rfl) }
  · intro admits keyword recognized
    by_cases alone : keyword ∈ Keyword.alone
    · exact read.admitsAlone_iff.mp admits.toAdmitsAlone keyword alone
    cases keyword <;> try exact absurd (by decide) alone
    case prefixItems => exact read.asks_prefixItems.mpr admits.prefixItems
    case items => exact (read.asks_items single).mpr admits.items
    case contains => exact read.asks_contains.mpr admits.contains
    case properties | additionalProperties | required | dependentRequired =>
      intro argument found
      cases argument_of_all h rfl found
    case other => cases recognized
    all_goals exact fun argument _ => meetsAll_plain rfl (by decide) argument

end Node.ReadFrom

end SchemaEvolution
