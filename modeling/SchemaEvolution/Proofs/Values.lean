import Mathlib
import SchemaEvolution.Proofs.Reading

/-! # What is compared as one value

Every keyword that is compared as one value has there what its member of the document says, but
for the flags that say nothing.
-/

namespace SchemaEvolution

namespace Keyword

/-- The value that the walk compares, where the document has that argument for the keyword, or
none. -/
def compared : Keyword → Option Json → Option Json
  | .exclusiveMaximum, some (.bool false) | .exclusiveMinimum, some (.bool false) => none
  | .uniqueItems, argument => some (argument.getD (.bool false))
  | .type, _ | .enum, _ | .items, _ | .prefixItems, _ | .contains, _ | .properties, _
  | .required, _ | .additionalProperties, _ | .dependentRequired, _ => none
  | _, argument => argument

end Keyword

namespace Decode

section Facet

variable {facets next : Facets} {place : Pointer} {keyword other : Keyword} {argument : Json}

theorem facets_of_metadata (describes : other.isMetadata = true)
    (h : facet facets place other argument = .ok next) :
    next = { facets with metadata := (other, argument) :: facets.metadata } := by
  cases other <;> try cases describes
  all_goals
    obtain ⟨_, _, same⟩ := bind_eq_ok_iff.mp h
    exact (Except.ok.inj same).symm

theorem valueOf_metadata (describes : keyword.isMetadata = true) :
    facets.valueOf keyword = facets.metadata.lookup keyword := by
  cases keyword <;> first | rfl | cases describes

theorem valueOf_of_ne (h : facet facets place other argument = .ok next) (ne : other ≠ keyword) :
    next.valueOf keyword = facets.valueOf keyword := by
  by_cases describes : other.isMetadata = true
  · obtain rfl := facets_of_metadata describes h
    by_cases also : keyword.isMetadata = true
    · rw [valueOf_metadata also, valueOf_metadata also, List.lookup_cons,
        beq_eq_false_iff_ne.mpr ne.symm]
    · cases keyword <;> first | rfl | exact absurd rfl also
  · cases other <;> try exact absurd rfl describes
    all_goals
      simp only [facet, bind_eq_ok_iff, pure, Except.pure, Except.ok.injEq] at h
    case other name =>
      subst h
      cases keyword <;> try rfl
      exact NameTable.get?_put_of_ne (fun same => ne (congrArg Keyword.other same.symm)) _ _
    all_goals first
      | subst h
      | obtain ⟨_, _, rfl⟩ := h
      | obtain ⟨_, _, _, _, rfl⟩ := h
    all_goals cases keyword <;> first | rfl | exact absurd rfl ne

theorem Reads.valueOf_of_ne {node after : Node} (h : Reads place node other argument after)
    (ne : other ≠ keyword) : after.valueOf keyword = node.valueOf keyword := by
  cases h with
  | facet _ decoded => exact Decode.valueOf_of_ne decoded ne
  | _ => rfl

theorem valueOf_of_facet (h : facet facets place keyword argument = .ok next)
    (ne : keyword ≠ .type) (plain : keyword ∉ Keyword.structural) :
    next.valueOf keyword = keyword.compared (some argument) := by
  by_cases describes : keyword.isMetadata = true
  · obtain rfl := facets_of_metadata describes h
    rw [valueOf_metadata describes, List.lookup_cons_self]
    cases keyword <;> first | rfl | cases describes
  by_cases count : keyword ∈ Keyword.counts
  · rw [valueOf_of_count count h]
    simp only [Keyword.counts, List.mem_cons, List.not_mem_nil, or_false] at count
    rcases count with rfl | rfl | rfl | rfl | rfl | rfl | rfl | rfl <;> rfl
  cases keyword <;> try first | exact absurd rfl describes | exact absurd (by decide) count
  all_goals
    simp only [facet, bind_eq_ok_iff, pure, Except.pure, Except.ok.injEq, expect_eq_ok_iff] at h
  case type => exact absurd rfl ne
  case items | prefixItems | contains | properties | additionalProperties =>
    exact absurd (by decide) plain
  case enum | required =>
    obtain ⟨_, _, rfl⟩ := h
    rfl
  case dependentRequired =>
    obtain ⟨_, _, _, _, rfl⟩ := h
    rfl
  case other name =>
    subst h
    exact NameTable.get?_put_self _ _ _
  case exclusiveMaximum | exclusiveMinimum =>
    obtain ⟨_, found, rfl⟩ := h
    cases argument <;> cases found
    case bool strict => cases strict <;> rfl
    case number => rfl
  all_goals
    obtain ⟨_, found, rfl⟩ := h
    cases argument <;> cases found
    rfl

end Facet

end Decode

namespace Node.ReadFrom

variable {node : Node} {members : List (String × Json)} (read : node.ReadFrom members)

include read

/-- The value of a keyword is what the document says of it. -/
theorem valueOf {keyword : Keyword} (named : Keyword.ofName keyword.name = keyword)
    (ne : keyword ≠ .type) :
    node.valueOf keyword = keyword.compared (NameTable.get? keyword.name members) := by
  obtain ⟨place, decoded⟩ := read.decoded
  rcases Decode.part_of_keywords (fun node => node.valueOf keyword) keyword named
    (fun step different => step.valueOf_of_ne different) decoded read.distinct.names with
    ⟨absent, kept⟩ | ⟨argument, place, before, after, found, step, kept⟩
  · rw [absent, kept]
    cases keyword <;> rfl
  · rw [found, kept]
    by_cases plain : keyword ∈ Keyword.structural
    · simp only [Keyword.structural, List.mem_cons, List.not_mem_nil, or_false] at plain
      rcases plain with rfl | rfl | rfl | rfl | rfl <;> rfl
    · exact Decode.valueOf_of_facet (step.facets plain) ne plain

/-- A name of a recognized keyword is never kept as one that is not recognized. -/
theorem valueOf_other {name : String} (recognized : Keyword.ofName name ≠ .other name) :
    node.valueOf (.other name) = none := by
  obtain ⟨place, decoded⟩ := read.decoded
  refine Decode.keywords_invariant (P := fun node => node.valueOf (.other name) = none)
    (fun place node key argument next member step start => ?_) decoded rfl
  rw [step.valueOf_of_ne, start]
  intro same
  have named : key = name := (Keyword.name_ofName key).symm.trans (congrArg Keyword.name same)
  exact recognized (named ▸ same)

end Node.ReadFrom

/-- Two schemas have related values for every keyword if they do for the types and for what their
documents say of a recognized keyword or of a name that is none. -/
theorem Node.rel_valueOf {R : Option Json → Option Json → Prop} {a b : Node}
    {as bs : List (String × Json)} (left : a.ReadFrom as) (right : b.ReadFrom bs)
    (types : R (a.valueOf .type) (b.valueOf .type)) (none : R none none)
    (named : ∀ keyword : Keyword, Keyword.ofName keyword.name = keyword →
      R (keyword.compared (NameTable.get? keyword.name as))
        (keyword.compared (NameTable.get? keyword.name bs)))
    (keyword : Keyword) : R (a.valueOf keyword) (b.valueOf keyword) := by
  by_cases isType : keyword = .type
  · exact isType ▸ types
  by_cases known : Keyword.ofName keyword.name = keyword
  · rw [left.valueOf known isType, right.valueOf known isType]
    exact named keyword known
  · cases keyword with
    | other name =>
        have unknown : Keyword.ofName name ≠ .other name := known
        rw [left.valueOf_other unknown, right.valueOf_other unknown]
        exact none
    | _ => exact absurd rfl known

end SchemaEvolution
