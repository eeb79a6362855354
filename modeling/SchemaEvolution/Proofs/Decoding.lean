import Mathlib
import SchemaEvolution.Schema.Decode
import SchemaEvolution.Proofs.JsonEquality
import SchemaEvolution.Proofs.NodeTree

/-! # Decoded schemas

Decoding reads one keyword of a document after the other. What one keyword may do to the schema
so far is said once, and every property of decoded schemas is kept by it.
-/

namespace SchemaEvolution

section Outcomes

variable {ε α β : Type} {outcome : Except ε α} {next : α → Except ε β} {f : α → β} {result : β}
  {e : ε}

theorem bind_eq_ok_iff :
    outcome >>= next = .ok result ↔ ∃ a, outcome = .ok a ∧ next a = .ok result := by
  cases outcome with
  | error e => simp [bind, Except.bind]
  | ok a => simp [bind, Except.bind]

theorem map_eq_ok_iff : f <$> outcome = .ok result ↔ ∃ a, outcome = .ok a ∧ f a = result := by
  cases outcome with
  | error e => simp [Functor.map, Except.map]
  | ok a => simp [Functor.map, Except.map]

theorem bind_eq_error_iff :
    outcome >>= next = .error e ↔ outcome = .error e ∨ ∃ a, outcome = .ok a ∧ next a = .error e := by
  cases outcome with
  | error cause => simp [bind, Except.bind]
  | ok a => simp [bind, Except.bind]

theorem error_of_return (h : (do return f (← outcome)) = .error e) : outcome = .error e := by
  rcases bind_eq_error_iff.mp h with failed | ⟨_, _, result⟩
  · exact failed
  · cases result

theorem map_eq_error_iff : f <$> outcome = .error e ↔ outcome = .error e := by
  cases outcome with
  | error cause => simp [Functor.map, Except.map]
  | ok a => simp [Functor.map, Except.map]

theorem mapM_eq_ok_iff {step : α → Except ε β} {list : List α} {results : List β} :
    list.mapM step = .ok results ↔ List.Forall₂ (fun a b => step a = .ok b) list results := by
  induction list generalizing results with
  | nil => cases results <;> simp [pure, Except.pure]
  | cons a rest ih =>
      simp only [List.mapM_cons, bind_eq_ok_iff, ih, pure, Except.pure, Except.ok.injEq]
      constructor
      · rintro ⟨b, first, others, further, rfl⟩
        exact .cons first further
      · rintro (_ | ⟨first, further⟩)
        exact ⟨_, first, _, further, rfl⟩

theorem mem_of_mapM {step : α → Except ε β} {list : List α} {results : List β}
    (h : list.mapM step = .ok results) (b : β) : b ∈ results ↔ ∃ a ∈ list, step a = .ok b := by
  have each := mapM_eq_ok_iff.mp h
  clear h
  induction each with
  | nil => simp
  | cons first _ ih => simp [ih, first, eq_comm]

end Outcomes

namespace Keyword

/-- The keywords that hold schemas. -/
def structural : List Keyword :=
  [.items, .prefixItems, .contains, .properties, .additionalProperties]

end Keyword

namespace Decode

/-- What reading a keyword may do to the schema so far. -/
inductive Reads (place : Pointer) (node : Node) (keyword : Keyword) (value : Json) : Node → Prop
  where
  | tuple {elements : List Json} {read : List SubSchema} (holds : keyword = .items)
      (shape : value = .array elements) (decoded : slots place 0 elements = .ok read) :
      Reads place node keyword value { node with items := some (.tuple read) }
  | single {read : SubSchema} (holds : keyword = .items) (shape : ∀ es, value ≠ .array es)
      (decoded : subSchema place value = .ok read) :
      Reads place node keyword value { node with items := some (.single read) }
  | prefixItems {elements : List Json} {read : List SubSchema} (holds : keyword = .prefixItems)
      (shape : value = .array elements) (decoded : slots place 0 elements = .ok read) :
      Reads place node keyword value { node with prefixItems := some read }
  | contains {read : SubSchema} (holds : keyword = .contains)
      (decoded : subSchema place value = .ok read) :
      Reads place node keyword value { node with contains := some read }
  | properties {members : List (String × Json)} {read : List (String × SubSchema)}
      (holds : keyword = .properties) (shape : value = .object members)
      (decoded : properties place [] members = .ok read) :
      Reads place node keyword value { node with properties := read }
  | additionalProperties {read : SubSchema} (holds : keyword = .additionalProperties)
      (decoded : subSchema place value = .ok read) :
      Reads place node keyword value { node with additionalProperties := read }
  | facet {facets : Facets} (holds : keyword ∉ Keyword.structural)
      (decoded : facet node.toFacets place keyword value = .ok facets) :
      Reads place node keyword value { node with toFacets := facets }

theorem reads_of_keywords {place : Pointer} {node result : Node} {key : String} {value : Json}
    {rest : List (String × Json)}
    (h : keywords place node ((key, value) :: rest) = .ok result) :
    ∃ next, Reads (place ++ [key]) node (Keyword.ofName key) value next ∧
      keywords place next rest = .ok result := by
  rw [keywords.eq_def] at h
  simp only at h
  generalize Keyword.ofName key = keyword at h ⊢
  by_cases holds : keyword ∈ Keyword.structural
  · simp only [Keyword.structural, List.mem_cons, List.not_mem_nil, or_false] at holds
    rcases holds with rfl | rfl | rfl | rfl | rfl
    · cases value with
      | array elements =>
          simp only [bind_eq_ok_iff, Except.ok.injEq, exists_eq_left'] at h
          obtain ⟨read, decoded, rest⟩ := h
          exact ⟨_, .tuple rfl rfl decoded, rest⟩
      | _ =>
          simp only [bind_eq_ok_iff, Except.ok.injEq, exists_eq_left'] at h
          obtain ⟨read, decoded, rest⟩ := h
          exact ⟨_, .single rfl (by simp) decoded, rest⟩
    · cases value with
      | array elements =>
          simp only [bind_eq_ok_iff, Except.ok.injEq, exists_eq_left'] at h
          obtain ⟨read, decoded, rest⟩ := h
          exact ⟨_, .prefixItems rfl rfl decoded, rest⟩
      | _ => simp [bind_eq_ok_iff] at h
    · simp only [bind_eq_ok_iff, Except.ok.injEq, exists_eq_left'] at h
      obtain ⟨read, decoded, rest⟩ := h
      exact ⟨_, .contains rfl decoded, rest⟩
    · cases value with
      | object members =>
          simp only [bind_eq_ok_iff, Except.ok.injEq, exists_eq_left'] at h
          obtain ⟨read, decoded, rest⟩ := h
          exact ⟨_, .properties rfl rfl decoded, rest⟩
      | _ => simp [bind_eq_ok_iff] at h
    · simp only [bind_eq_ok_iff, Except.ok.injEq, exists_eq_left'] at h
      obtain ⟨read, decoded, rest⟩ := h
      exact ⟨_, .additionalProperties rfl decoded, rest⟩
  · cases keyword
    case items | prefixItems | contains | properties | additionalProperties =>
      exact absurd (by decide) holds
    all_goals
      simp only [bind_eq_ok_iff, Except.ok.injEq, exists_eq_left'] at h
      obtain ⟨facets, decoded, rest⟩ := h
      exact ⟨_, .facet holds decoded, rest⟩

/-- What holds of the schema so far, and what no keyword destroys, holds of the whole schema. -/
theorem keywords_invariant {P : Node → Prop} {members : List (String × Json)}
    (step : ∀ place node key value next, (key, value) ∈ members →
      Reads place node (Keyword.ofName key) value next → P node → P next)
    {place : Pointer} {node result : Node} (h : keywords place node members = .ok result)
    (start : P node) : P result := by
  induction members generalizing node with
  | nil =>
      rw [keywords] at h
      cases h
      exact start
  | cons member rest ih =>
      obtain ⟨key, value⟩ := member
      obtain ⟨next, read, h⟩ := reads_of_keywords h
      refine ih (fun place node key value next inside => ?_) h
        (step _ node key value next List.mem_cons_self read start)
      exact step place node key value next (List.mem_cons_of_mem _ inside)

section Tables

variable {α β ε : Type} (read : String → α → Except ε β)

/-- Reads the value of each member into a table. -/
def readTable (table : List (String × β)) : List (String × α) → Except ε (List (String × β))
  | [] => .ok table
  | (name, value) :: rest => do
    let found ← read name value
    readTable (NameTable.put name found table) rest

variable {read} {table result : List (String × β)} {members : List (String × α)}

theorem readTable_ordered (h : readTable read table members = .ok result)
    (start : NameTable.Ordered table) : NameTable.Ordered result := by
  induction members generalizing table with
  | nil => cases h; exact start
  | cons member rest ih =>
      obtain ⟨found, _, h⟩ := bind_eq_ok_iff.mp h
      exact ih h (start.put member.1 found)

theorem readTable_get? (h : readTable read table members = .ok result)
    (distinct : (NameTable.names members).Nodup) (name : String) :
    (NameTable.get? name members = none ∧
      NameTable.get? name result = NameTable.get? name table) ∨
    ∃ value found, NameTable.get? name members = some value ∧ read name value = .ok found ∧
      NameTable.get? name result = some found := by
  induction members generalizing table with
  | nil => cases h; exact .inl ⟨rfl, rfl⟩
  | cons member rest ih =>
      obtain ⟨first, value⟩ := member
      obtain ⟨found, decoded, h⟩ := bind_eq_ok_iff.mp h
      obtain ⟨absent, others⟩ := List.nodup_cons.mp distinct
      by_cases same : name = first
      · subst same
        rcases ih h others with ⟨_, held⟩ | ⟨_, _, later, _⟩
        · rw [NameTable.get?_put_self] at held
          exact .inr ⟨value, found, by simp [NameTable.get?], decoded, held⟩
        · have listed := NameTable.has_iff.mp (Option.isSome_iff_exists.mpr ⟨_, later⟩)
          exact absurd listed absent
      · simpa [NameTable.get?, same, NameTable.get?_put_of_ne same] using ih h others

end Tables

theorem properties_eq_readTable (place : Pointer) (table : List (String × SubSchema))
    (members : List (String × Json)) :
    properties place table members =
      readTable (fun name value => subSchema (place ++ [name]) value) table members := by
  induction members generalizing table with
  | nil => rw [properties]; rfl
  | cons member rest ih =>
      rw [properties.eq_def]
      simp only [readTable, ih]

theorem nameSets_eq_readTable (place : Pointer) (table : List (String × NameSet))
    (members : List (String × Json)) :
    nameSets place table members =
      readTable (fun name value => nameSet (place ++ [name]) .dependentRequired value) table
        members := by
  induction members generalizing table with
  | nil => rfl
  | cons member rest ih => simp only [nameSets, readTable, ih]

/-- A value denotes a sub-schema, at some place of a larger document. -/
def Denotes (value : Json) (sub : SubSchema) : Prop := ∃ place, subSchema place value = .ok sub

theorem expect_eq_ok_iff {α : Type} {read : Json → Option α} {shape : Shape} {place : Pointer}
    {keyword : Keyword} {value : Json} {found : α} :
    expect read shape place keyword value = .ok found ↔ read value = some found := by
  unfold expect
  cases read value <;> simp

theorem expect_elements {shape : Shape} {place : Pointer} {keyword : Keyword} {value : Json}
    {elements : List Json} (h : expect Json.elements? shape place keyword value = .ok elements) :
    value = .array elements := by
  have found := expect_eq_ok_iff.mp h
  cases value <;> simp_all [Json.elements?]

theorem denotes_of_slots {place : Pointer} {index : Nat} {elements : List Json}
    {read : List SubSchema} (h : slots place index elements = .ok read) :
    List.Forall₂ Denotes elements read := by
  induction elements generalizing index read with
  | nil =>
      rw [slots] at h
      cases h
      exact .nil
  | cons value rest ih =>
      rw [slots.eq_def] at h
      simp only [bind_eq_ok_iff] at h
      obtain ⟨first, decoded, others, h, result⟩ := h
      cases result
      exact .cons ⟨_, decoded⟩ (ih h)

end Decode

namespace Facets

/-- What holds of the facets of every decoded schema: sets are in order, and no object inside a
kept value repeats a name. -/
structure Regular (facets : Facets) : Prop where
  types : ∀ types, facets.types = some types → InstanceType.setOf types = types
  enumeration : ∀ options, facets.enumeration = some options → ∀ o ∈ options, o.Distinct
  required : NameSet.Ordered facets.required
  metadata : ∀ entry ∈ facets.metadata, entry.2.Distinct
  extensions : ∀ entry ∈ facets.extensions, entry.2.Distinct

theorem setOf_setOf (types : List InstanceType) :
    InstanceType.setOf (InstanceType.setOf types) = InstanceType.setOf types := by
  simp [InstanceType.setOf, InstanceType.mem_all]

theorem setOf_of_types {place : Pointer} {value : Json} {types : List InstanceType}
    (h : Decode.types place value = .ok types) : InstanceType.setOf types = types := by
  cases value with
  | array names =>
      obtain ⟨read, _, rfl⟩ := map_eq_ok_iff.mp h
      exact setOf_setOf read
  | string name =>
      obtain ⟨type, _, rfl⟩ := map_eq_ok_iff.mp h
      cases type <;> rfl
  | _ => cases h

theorem ordered_of_nameSet {place : Pointer} {keyword : Keyword} {value : Json} {names : NameSet}
    (h : Decode.nameSet place keyword value = .ok names) : NameSet.Ordered names := by
  obtain ⟨_, _, h⟩ := bind_eq_ok_iff.mp h
  obtain ⟨read, _, result⟩ := bind_eq_ok_iff.mp h
  cases result
  exact NameSet.ordered_ofList read

theorem Regular.blank (source : Json) : Regular (Node.blank source).toFacets where
  types _ h := by cases h
  enumeration _ h := by cases h
  required := List.Pairwise.nil
  metadata _ h := by cases h
  extensions _ h := by cases h

theorem Regular.facet {facets next : Facets} {place : Pointer} {keyword : Keyword} {value : Json}
    (regular : Regular facets) (distinct : value.Distinct)
    (h : Decode.facet facets place keyword value = .ok next) : Regular next := by
  obtain ⟨types, enumeration, required, metadata, extensions⟩ := regular
  have keep (entry : Keyword × Json) (h : entry.2 = value) :
      ∀ other ∈ entry :: facets.metadata, other.2.Distinct :=
    List.forall_mem_cons.mpr ⟨h ▸ distinct, metadata⟩
  cases keyword <;>
    simp only [Decode.facet, bind_eq_ok_iff, pure, Except.pure, Except.ok.injEq] at h
  case type =>
    obtain ⟨read, decoded, rfl⟩ := h
    exact ⟨fun _ same => Option.some_inj.mp same ▸ setOf_of_types decoded, enumeration, required,
      metadata, extensions⟩
  case enum =>
    obtain ⟨read, decoded, rfl⟩ := h
    refine ⟨types, fun options same => ?_, required, metadata, extensions⟩
    cases same
    exact (Decode.expect_elements decoded ▸ distinct).elements
  case required =>
    obtain ⟨read, decoded, rfl⟩ := h
    exact ⟨types, enumeration, ordered_of_nameSet decoded, metadata, extensions⟩
  case dependentRequired =>
    obtain ⟨_, _, _, _, rfl⟩ := h
    exact ⟨types, enumeration, required, metadata, extensions⟩
  case other =>
    subst h
    refine ⟨types, enumeration, required, metadata, fun entry member => ?_⟩
    rcases NameTable.mem_put member with rfl | member
    · exact distinct
    · exact extensions entry member
  case items | prefixItems | contains | properties | additionalProperties =>
    subst h
    exact ⟨types, enumeration, required, metadata, extensions⟩
  case title | description | default | deprecated | readOnly | writeOnly | examples | id | comment =>
    obtain ⟨_, _, rfl⟩ := h
    exact ⟨types, enumeration, required, keep _ rfl, extensions⟩
  all_goals
    obtain ⟨_, _, rfl⟩ := h
    exact ⟨types, enumeration, required, metadata, extensions⟩

theorem distinct_typesToJson (types : List InstanceType) : (typesToJson types).Distinct := by
  have names : ∀ e ∈ types.map fun type => Json.string type.name, e.Distinct := by
    intro e member
    obtain ⟨type, _, rfl⟩ := List.mem_map.mp member
    exact .string _
  rcases types with _ | ⟨type, _ | ⟨second, rest⟩⟩
  · exact .array names
  · exact .string _
  · exact .array names

theorem distinct_effectiveExclusive {exclusive : Option Exclusive} {value : Json}
    (h : effectiveExclusive exclusive = some value) : value.Distinct := by
  rcases exclusive with _ | (n | (_ | _)) <;> cases h <;> constructor

theorem Regular.valueOf {facets : Facets} (regular : Regular facets) {keyword : Keyword}
    {value : Json} (h : facets.valueOf keyword = some value) : value.Distinct := by
  cases keyword <;>
    simp only [Facets.valueOf, Facets.valueOf.count, Option.map_eq_some_iff, reduceCtorEq] at h
  case type =>
    obtain ⟨types, _, rfl⟩ := h
    exact distinct_typesToJson types
  case uniqueItems =>
    cases h
    exact .bool _
  case exclusiveMaximum | exclusiveMinimum => exact distinct_effectiveExclusive h
  case other name => exact regular.extensions _ (NameTable.mem_of_get? h)
  case title | description | default | deprecated | readOnly | writeOnly | examples | id | comment =>
    obtain ⟨before, after, split, _⟩ := List.lookup_eq_some_iff.mp h
    exact regular.metadata _ (split ▸ List.mem_append_right before List.mem_cons_self)
  case format | pattern =>
    obtain ⟨_, _, rfl⟩ := h
    exact .string _
  all_goals
    obtain ⟨_, _, rfl⟩ := h
    exact .number _

end Facets

/-- The schema is what a document denotes, or a part of one. -/
inductive Node.Accepted : Node → Prop where
  | intro {place : Pointer} {members : List (String × Json)} {node : Node}
      (distinct : (Json.object members).Distinct)
      (decoded : Decode.keywords place (.blank (.object members)) members = .ok node) :
      Accepted node

/-- The boolean or schema is what a document denotes, or a part of one. -/
def SubSchema.Accepted : SubSchema → Prop
  | .flag _ => True
  | .schema node => node.Accepted

theorem Decode.Denotes.accepted {value : Json} {sub : SubSchema} (h : Denotes value sub)
    (distinct : value.Distinct) : sub.Accepted := by
  obtain ⟨place, h⟩ := h
  cases value with
  | bool => rw [Decode.subSchema] at h; cases h; trivial
  | object members =>
      rw [Decode.subSchema] at h
      obtain ⟨node, decoded, rfl⟩ := map_eq_ok_iff.mp h
      exact .intro distinct decoded
  | _ => simp [Decode.subSchema] at h

theorem Decode.accepted_of_slots {place : Pointer} {index : Nat} {elements : List Json}
    {read : List SubSchema} (h : slots place index elements = .ok read)
    (distinct : ∀ e ∈ elements, e.Distinct) : ∀ sub ∈ read, sub.Accepted := by
  have denoted := denotes_of_slots h
  clear h
  induction denoted with
  | nil => simp
  | cons first _ ih =>
      obtain ⟨head, tail⟩ := List.forall_mem_cons.mp distinct
      exact List.forall_mem_cons.mpr ⟨first.accepted head, ih tail⟩

theorem Decode.accepted_of_properties {place : Pointer} {members : List (String × Json)}
    {read : List (String × SubSchema)} (h : properties place [] members = .ok read)
    (distinct : (Json.object members).Distinct) : ∀ entry ∈ read, entry.2.Accepted := by
  rw [properties_eq_readTable] at h
  intro entry member
  have ordered : (NameTable.names read).Nodup := (readTable_ordered h List.Pairwise.nil).nodup
  have held := (NameTable.get?_eq_some_iff ordered).mpr (show (entry.1, entry.2) ∈ read from member)
  rcases readTable_get? h distinct.names entry.1 with ⟨_, empty⟩ | ⟨value, sub, found, decoded, same⟩
  · rw [held] at empty
    cases empty
  · rw [held] at same
    cases same
    exact Denotes.accepted ⟨_, decoded⟩ (distinct.member (NameTable.mem_of_get? found))

namespace Node

theorem accepted_of_decode {document : Json} {node : Node} (distinct : document.Distinct)
    (h : decode document = .ok node) : node.Accepted := by
  cases document with
  | object members => exact .intro distinct h
  | _ => cases h

theorem Accepted.regular {node : Node} (h : node.Accepted) : node.toFacets.Regular := by
  obtain ⟨distinct, decoded⟩ := h
  refine Decode.keywords_invariant (P := fun node => node.toFacets.Regular)
    (fun place node key value next member read start => ?_) decoded (.blank _)
  cases read with
  | facet holds decoded => exact start.facet (distinct.member member) decoded
  | _ => exact start

theorem Accepted.properties_ordered {node : Node} (h : node.Accepted) :
    NameTable.Ordered node.properties := by
  obtain ⟨distinct, decoded⟩ := h
  refine Decode.keywords_invariant (P := fun node => NameTable.Ordered node.properties)
    (fun place node key value next member read start => ?_) decoded List.Pairwise.nil
  cases read with
  | properties holds shape decoded =>
      rw [Decode.properties_eq_readTable] at decoded
      exact Decode.readTable_ordered decoded List.Pairwise.nil
  | _ => exact start

/-- Every schema of an accepted one is accepted. -/
theorem Accepted.subSchemas {node : Node} (h : node.Accepted) :
    ∀ sub ∈ node.subSchemas, sub.Accepted := by
  obtain ⟨distinct, decoded⟩ := h
  refine Decode.keywords_invariant (P := fun node => ∀ sub ∈ node.subSchemas, sub.Accepted)
    (fun place node key value next member read start => ?_) decoded ?_
  · rw [forall_subSchemas_iff] at start ⊢
    obtain ⟨items, prefixItems, contains, properties, additional⟩ := start
    have shape := distinct.member member
    cases read with
    | tuple _ isArray decoded =>
        subst isArray
        refine ⟨fun _ same => ?_, prefixItems, contains, properties, additional⟩
        cases same
        exact Decode.accepted_of_slots decoded shape.elements
    | single _ _ decoded =>
        refine ⟨fun _ same => ?_, prefixItems, contains, properties, additional⟩
        cases same
        exact List.forall_mem_singleton.mpr (Decode.Denotes.accepted ⟨_, decoded⟩ shape)
    | prefixItems _ isArray decoded =>
        subst isArray
        refine ⟨items, fun _ same => ?_, contains, properties, additional⟩
        cases same
        exact Decode.accepted_of_slots decoded shape.elements
    | contains _ decoded =>
        refine ⟨items, prefixItems, fun _ same => ?_, properties, additional⟩
        cases same
        exact Decode.Denotes.accepted ⟨_, decoded⟩ shape
    | properties _ isObject decoded =>
        subst isObject
        exact ⟨items, prefixItems, contains, Decode.accepted_of_properties decoded shape, additional⟩
    | additionalProperties _ decoded =>
        exact ⟨items, prefixItems, contains, properties,
          Decode.Denotes.accepted ⟨_, decoded⟩ shape⟩
    | facet _ _ => exact ⟨items, prefixItems, contains, properties, additional⟩
  · rw [forall_subSchemas_iff]
    simp [blank, SubSchema.Accepted]

theorem Accepted.below {node child : Node} (h : node.Accepted) (below : child.Below node) :
    child.Accepted :=
  h.subSchemas _ below

end Node

end SchemaEvolution
