import Mathlib
import SchemaEvolution.Proofs.Decoding

/-! # What a keyword leaves in a schema

Every field of a decoded schema comes from the one member of its document that is named for it, or
has its default where the document has no such member.
-/

namespace SchemaEvolution

namespace Keyword

/-- The keywords whose value is a count. -/
def counts : List Keyword :=
  [.maxLength, .minLength, .maxItems, .minItems, .maxContains, .minContains, .maxProperties,
    .minProperties]

theorem isRecognized_of_count {keyword : Keyword} (count : keyword ∈ counts) :
    keyword.isRecognized = true :=
  (show ∀ keyword ∈ counts, keyword.isRecognized = true by decide) keyword count

theorem isMetadata_of_count {keyword : Keyword} (count : keyword ∈ counts) :
    keyword.isMetadata = false :=
  (show ∀ keyword ∈ counts, keyword.isMetadata = false by decide) keyword count

theorem not_structural_of_count {keyword : Keyword} (count : keyword ∈ counts) :
    keyword ∉ structural :=
  (show ∀ keyword ∈ counts, keyword ∉ structural by decide) keyword count

theorem ofName_name {keyword : Keyword} (recognized : keyword.isRecognized = true) :
    ofName keyword.name = keyword := by
  cases keyword <;> first | rfl | cases recognized

theorem name_ofName (key : String) : (ofName key).name = key := by
  unfold ofName
  split
  · rename_i found
    have named := List.find?_some found
    exact beq_iff_eq.mp named
  · rfl

theorem ofName_eq_iff {key : String} {keyword : Keyword}
    (named : ofName keyword.name = keyword) : ofName key = keyword ↔ key = keyword.name :=
  ⟨fun same => same ▸ (name_ofName key).symm, fun same => same ▸ named⟩

end Keyword

namespace Decode

/-- A part of the schema that no other keyword touches is what its keyword leaves there. -/
theorem part_of_keywords {β : Type} (part : Node → β) (keyword : Keyword)
    (named : Keyword.ofName keyword.name = keyword)
    (keeps : ∀ {place node other argument next}, Reads place node other argument next →
      other ≠ keyword → part next = part node)
    {place : Pointer} {node result : Node} {members : List (String × Json)}
    (h : keywords place node members = .ok result) (distinct : (NameTable.names members).Nodup) :
    (NameTable.get? keyword.name members = none ∧ part result = part node) ∨
      ∃ argument inner before after, NameTable.get? keyword.name members = some argument ∧
        Reads inner before keyword argument after ∧ part result = part after := by
  induction members generalizing node with
  | nil =>
      rw [keywords] at h
      cases h
      exact .inl ⟨rfl, rfl⟩
  | cons member rest ih =>
      obtain ⟨key, argument⟩ := member
      obtain ⟨next, read, further⟩ := reads_of_keywords h
      obtain ⟨absent, others⟩ := List.nodup_cons.mp distinct
      by_cases same : key = keyword.name
      · subst same
        rw [named] at read
        rcases ih further others with ⟨_, kept⟩ | ⟨_, _, _, _, later, _⟩
        · exact .inr ⟨argument, _, node, next, by simp [NameTable.get?], read, kept⟩
        · exact absurd (List.mem_map_of_mem (NameTable.mem_of_get? later)) absent
      · have other : Keyword.ofName key ≠ keyword := fun eq =>
          same ((Keyword.ofName_eq_iff named).mp eq)
        rw [← keeps read other, NameTable.get?, if_neg (Ne.symm same)]
        exact ih further others

end Decode

/-- The second facets differ from the first ones in the keyword only. -/
structure Facets.SameBut (keyword : Keyword) (facets next : Facets) : Prop where
  source : next.source = facets.source
  types : keyword ≠ .type → next.types = facets.types
  enumeration : keyword ≠ .enum → next.enumeration = facets.enumeration
  maxLength : keyword ≠ .maxLength → next.maxLength = facets.maxLength
  minLength : keyword ≠ .minLength → next.minLength = facets.minLength
  maxItems : keyword ≠ .maxItems → next.maxItems = facets.maxItems
  minItems : keyword ≠ .minItems → next.minItems = facets.minItems
  maxContains : keyword ≠ .maxContains → next.maxContains = facets.maxContains
  minContains : keyword ≠ .minContains → next.minContains = facets.minContains
  uniqueItems : keyword ≠ .uniqueItems → next.uniqueItems = facets.uniqueItems
  required : keyword ≠ .required → next.required = facets.required
  maxProperties : keyword ≠ .maxProperties → next.maxProperties = facets.maxProperties
  minProperties : keyword ≠ .minProperties → next.minProperties = facets.minProperties
  dependentRequired :
    keyword ≠ .dependentRequired → next.dependentRequired = facets.dependentRequired

/-- The second schema differs from the first one in the keyword only. -/
structure Node.SameBut (keyword : Keyword) (node next : Node) : Prop where
  facets : node.toFacets.SameBut keyword next.toFacets
  items : keyword ≠ .items → next.items = node.items
  prefixItems : keyword ≠ .prefixItems → next.prefixItems = node.prefixItems
  contains : keyword ≠ .contains → next.contains = node.contains
  properties : keyword ≠ .properties → next.properties = node.properties
  additionalProperties :
    keyword ≠ .additionalProperties → next.additionalProperties = node.additionalProperties

theorem Facets.SameBut.refl (keyword : Keyword) (facets : Facets) :
    facets.SameBut keyword facets := by
  constructor <;> first | rfl | exact fun _ => rfl

theorem Facets.SameBut.valueOf {keyword other : Keyword} {facets next : Facets}
    (h : facets.SameBut keyword next) (count : other ∈ Keyword.counts) (ne : keyword ≠ other) :
    next.valueOf other = facets.valueOf other := by
  simp only [Keyword.counts, List.mem_cons, List.not_mem_nil, or_false] at count
  rcases count with rfl | rfl | rfl | rfl | rfl | rfl | rfl | rfl
  · exact congrArg Facets.valueOf.count (h.maxLength ne)
  · exact congrArg Facets.valueOf.count (h.minLength ne)
  · exact congrArg Facets.valueOf.count (h.maxItems ne)
  · exact congrArg Facets.valueOf.count (h.minItems ne)
  · exact congrArg Facets.valueOf.count (h.maxContains ne)
  · exact congrArg Facets.valueOf.count (h.minContains ne)
  · exact congrArg Facets.valueOf.count (h.maxProperties ne)
  · exact congrArg Facets.valueOf.count (h.minProperties ne)

namespace Decode

theorem facet_sameBut {facets next : Facets} {place : Pointer} {keyword : Keyword}
    {argument : Json} (h : facet facets place keyword argument = .ok next) :
    facets.SameBut keyword next := by
  cases keyword <;>
    simp only [facet, bind_eq_ok_iff, pure, Except.pure, Except.ok.injEq] at h
  all_goals first
    | subst h
    | obtain ⟨_, _, rfl⟩ := h
    | obtain ⟨_, _, _, _, rfl⟩ := h
  all_goals constructor <;> first | rfl | exact fun _ => rfl | exact fun ne => absurd rfl ne

theorem Reads.sameBut {place : Pointer} {node next : Node} {keyword : Keyword} {argument : Json}
    (h : Reads place node keyword argument next) : node.SameBut keyword next := by
  cases h with
  | facet holds decoded =>
      refine ⟨facet_sameBut decoded, ?_, ?_, ?_, ?_, ?_⟩ <;> exact fun _ => rfl
  | tuple holds | single holds | prefixItems holds | contains holds | properties holds
  | additionalProperties holds =>
      subst holds
      refine ⟨.refl _ _, ?_, ?_, ?_, ?_, ?_⟩ <;>
        first | exact fun _ => rfl | exact fun ne => absurd rfl ne

theorem Reads.facets {place : Pointer} {node next : Node} {keyword : Keyword} {argument : Json}
    (h : Reads place node keyword argument next) (plain : keyword ∉ Keyword.structural) :
    Decode.facet node.toFacets place keyword argument = .ok next.toFacets := by
  cases h with
  | facet _ decoded => exact decoded
  | tuple holds | single holds | prefixItems holds | contains holds | properties holds
  | additionalProperties holds => exact absurd (by subst holds; decide) plain

theorem source_of_keywords {place : Pointer} {members : List (String × Json)} {node : Node}
    (h : keywords place (.blank (.object members)) members = .ok node) :
    node.source = .object members :=
  keywords_invariant (P := fun node => node.source = .object members)
    (fun _ _ _ _ _ _ read start => read.sameBut.facets.source.trans start) h rfl

theorem toJson_of_subSchema {place : Pointer} {value : Json} {sub : SubSchema}
    (h : subSchema place value = .ok sub) : sub.toJson = value := by
  cases value with
  | bool => rw [subSchema] at h; cases h; rfl
  | object members =>
      rw [subSchema] at h
      obtain ⟨node, decoded, rfl⟩ := map_eq_ok_iff.mp h
      exact source_of_keywords decoded
  | _ => simp [subSchema] at h

theorem toJson_of_slots {place : Pointer} {index : Nat} {elements : List Json}
    {read : List SubSchema} (h : slots place index elements = .ok read) :
    read.map SubSchema.toJson = elements := by
  have denoted := denotes_of_slots h
  clear h
  induction denoted with
  | nil => rfl
  | cons first _ ih =>
      obtain ⟨_, decoded⟩ := first
      rw [List.map_cons, toJson_of_subSchema decoded, ih]

theorem strings_of_mapM {shape : Shape} {place : Pointer} {keyword : Keyword}
    {elements : List Json} {names : List String}
    (h : elements.mapM (expect Json.string? shape place keyword) = .ok names) :
    elements = names.map .string := by
  have each := mapM_eq_ok_iff.mp h
  clear h
  induction each with
  | nil => rfl
  | @cons element name _ _ found _ ih =>
      have isString := expect_eq_ok_iff.mp found
      cases element <;> cases isString
      rw [List.map_cons, ih]

theorem nameSet_eq_ok {place : Pointer} {keyword : Keyword} {argument : Json} {read : NameSet}
    (h : nameSet place keyword argument = .ok read) :
    ∃ names, argument = .array (names.map .string) ∧ read = NameSet.ofList names := by
  obtain ⟨elements, found, h⟩ := bind_eq_ok_iff.mp h
  obtain ⟨names, found', result⟩ := bind_eq_ok_iff.mp h
  cases result
  exact ⟨names, strings_of_mapM found' ▸ expect_elements found, rfl⟩

theorem number_of_count? {argument : Json} {n : UInt64} (h : count? argument = some n) :
    argument = .number (.ofCount n) := by
  obtain ⟨number, isNumber, found⟩ := Option.bind_eq_some_iff.mp h
  cases argument <;> cases isNumber
  cases number with
  | double x => cases found
  | integer value bounded =>
      simp only [Number.count?] at found
      split at found
      · rename_i nonnegative
        cases found
        obtain ⟨_, below⟩ := bounded
        have kept : (UInt64.ofNat value.toNat).toNat = value.toNat := by
          rw [UInt64.toNat_ofNat']
          omega
        simp only [Number.ofCount, kept, Int.toNat_of_nonneg nonnegative]
      · cases found

theorem valueOf_of_count {facets next : Facets} {place : Pointer} {keyword : Keyword}
    {argument : Json} (count : keyword ∈ Keyword.counts)
    (h : facet facets place keyword argument = .ok next) :
    next.valueOf keyword = some argument := by
  simp only [Keyword.counts, List.mem_cons, List.not_mem_nil, or_false] at count
  rcases count with rfl | rfl | rfl | rfl | rfl | rfl | rfl | rfl <;>
    simp only [facet, bind_eq_ok_iff, pure, Except.pure, Except.ok.injEq, expect_eq_ok_iff] at h <;>
    obtain ⟨n, found, rfl⟩ := h <;>
    exact congrArg some (number_of_count? found).symm

end Decode

/-- The schema was read from the members of an object that repeats no name. -/
structure Node.ReadFrom (node : Node) (members : List (String × Json)) : Prop where
  distinct : (Json.object members).Distinct
  decoded : ∃ place, Decode.keywords place (.blank (.object members)) members = .ok node

namespace Node.ReadFrom

theorem of_accepted {node : Node} (h : node.Accepted) : ∃ members, node.ReadFrom members := by
  obtain ⟨distinct, decoded⟩ := h
  exact ⟨_, distinct, _, decoded⟩

variable {node : Node} {members : List (String × Json)} (read : node.ReadFrom members)

include read

theorem accepted : node.Accepted := by
  obtain ⟨place, decoded⟩ := read.decoded
  exact .intro read.distinct decoded

theorem source : node.source = .object members := by
  obtain ⟨place, decoded⟩ := read.decoded
  exact Decode.source_of_keywords decoded

theorem part {β : Type} (part : Node → β) (keyword : Keyword)
    (recognized : keyword.isRecognized = true)
    (keeps : ∀ {before after other}, before.SameBut other after → other ≠ keyword →
      part after = part before) :
    (NameTable.get? keyword.name members = none ∧
        part node = part (.blank (.object members))) ∨
      ∃ argument place before after, NameTable.get? keyword.name members = some argument ∧
        Decode.Reads place before keyword argument after ∧ part node = part after := by
  obtain ⟨place, decoded⟩ := read.decoded
  exact Decode.part_of_keywords part keyword (Keyword.ofName_name recognized)
    (fun step => keeps step.sameBut) decoded read.distinct.names

theorem valueOf_count {keyword : Keyword} (count : keyword ∈ Keyword.counts) :
    node.valueOf keyword = NameTable.get? keyword.name members := by
  rcases read.part (fun node => node.valueOf keyword) keyword
    (Keyword.isRecognized_of_count count) (fun same ne => same.facets.valueOf count ne) with
    ⟨absent, kept⟩ | ⟨argument, place, before, after, found, step, kept⟩
  · rw [absent, kept]
    simp only [Keyword.counts, List.mem_cons, List.not_mem_nil, or_false] at count
    rcases count with rfl | rfl | rfl | rfl | rfl | rfl | rfl | rfl <;> rfl
  · rw [found, kept]
    exact Decode.valueOf_of_count count (step.facets (Keyword.not_structural_of_count count))

theorem types :
    Option.Rel (fun argument types => ∃ place, Decode.types place argument = .ok types)
      (NameTable.get? "type" members) node.types := by
  rcases read.part (fun node => node.types) .type rfl (fun same ne => same.facets.types ne) with
    ⟨absent, kept⟩ | ⟨argument, place, before, after, found, step, kept⟩
  · rw [show NameTable.get? "type" members = none from absent, kept]
    exact .none
  · rw [show NameTable.get? "type" members = some argument from found, kept]
    obtain ⟨types, decoded, same⟩ := bind_eq_ok_iff.mp (step.facets (by decide))
    rw [← congrArg Facets.types (Except.ok.inj same)]
    exact .some ⟨place, decoded⟩

theorem enumeration :
    Option.Rel (fun argument options => argument = .array options)
      (NameTable.get? "enum" members) node.enumeration := by
  rcases read.part (fun node => node.enumeration) .enum rfl
    (fun same ne => same.facets.enumeration ne) with
    ⟨absent, kept⟩ | ⟨argument, place, before, after, found, step, kept⟩
  · rw [show NameTable.get? "enum" members = none from absent, kept]
    exact .none
  · rw [show NameTable.get? "enum" members = some argument from found, kept]
    obtain ⟨options, decoded, same⟩ := bind_eq_ok_iff.mp (step.facets (by decide))
    rw [← congrArg Facets.enumeration (Except.ok.inj same)]
    exact .some (Decode.expect_elements decoded)

theorem uniqueItems :
    (NameTable.get? "uniqueItems" members).getD (.bool false) = .bool node.uniqueItems := by
  rcases read.part (fun node => node.uniqueItems) .uniqueItems rfl
    (fun same ne => same.facets.uniqueItems ne) with
    ⟨absent, kept⟩ | ⟨argument, place, before, after, found, step, kept⟩
  · rw [show NameTable.get? "uniqueItems" members = none from absent, kept]
    rfl
  · rw [show NameTable.get? "uniqueItems" members = some argument from found, kept]
    obtain ⟨unique, decoded, same⟩ := bind_eq_ok_iff.mp (step.facets (by decide))
    rw [← congrArg Facets.uniqueItems (Except.ok.inj same)]
    have isBool := Decode.expect_eq_ok_iff.mp decoded
    cases argument <;> cases isBool
    rfl

theorem required :
    (NameTable.get? "required" members = none ∧ node.required = []) ∨
      ∃ names, NameTable.get? "required" members = some (.array (names.map .string)) ∧
        node.required = NameSet.ofList names := by
  rcases read.part (fun node => node.required) .required rfl
    (fun same ne => same.facets.required ne) with
    ⟨absent, kept⟩ | ⟨argument, place, before, after, found, step, kept⟩
  · exact .inl ⟨absent, kept⟩
  · obtain ⟨required, decoded, same⟩ := bind_eq_ok_iff.mp (step.facets (by decide))
    obtain ⟨names, rfl, rfl⟩ := Decode.nameSet_eq_ok decoded
    exact .inr ⟨names, found, kept.trans (congrArg Facets.required (Except.ok.inj same)).symm⟩

theorem dependentRequired :
    (NameTable.get? "dependentRequired" members = none ∧ node.dependentRequired = []) ∨
      ∃ table, NameTable.get? "dependentRequired" members = some (.object table) ∧
        NameTable.Ordered node.dependentRequired ∧ ∀ name,
          Option.Rel (fun argument required => ∃ names, argument = .array (names.map .string) ∧
            required = NameSet.ofList names)
            (NameTable.get? name table) (NameTable.get? name node.dependentRequired) := by
  rcases read.part (fun node => node.dependentRequired) .dependentRequired rfl
    (fun same ne => same.facets.dependentRequired ne) with
    ⟨absent, kept⟩ | ⟨argument, place, before, after, found, step, kept⟩
  · exact .inl ⟨absent, kept⟩
  · obtain ⟨table, isObject, h⟩ := bind_eq_ok_iff.mp (step.facets (by decide))
    obtain ⟨result, decoded, same⟩ := bind_eq_ok_iff.mp h
    have isObject := Decode.expect_eq_ok_iff.mp isObject
    cases argument <;> cases isObject
    have whole : node.dependentRequired = result :=
      kept.trans (congrArg Facets.dependentRequired (Except.ok.inj same)).symm
    rw [Decode.nameSets_eq_readTable] at decoded
    refine .inr ⟨table, found, ?_, fun name => ?_⟩
    · exact whole ▸ Decode.readTable_ordered decoded List.Pairwise.nil
    · rw [whole]
      have distinct := (read.distinct.member (NameTable.mem_of_get? found)).names
      rcases Decode.readTable_get? decoded distinct name with
        ⟨absent, empty⟩ | ⟨value, required, listed, decoded, held⟩
      · rw [absent, empty]
        exact .none
      · rw [listed, held]
        exact .some (Decode.nameSet_eq_ok decoded)

theorem items : node.items.map Items.toJson = NameTable.get? "items" members := by
  rcases read.part (fun node => node.items) .items rfl (fun same ne => same.items ne) with
    ⟨absent, kept⟩ | ⟨argument, place, before, after, found, step, kept⟩
  · rw [show NameTable.get? "items" members = none from absent, kept]
    rfl
  · rw [show NameTable.get? "items" members = some argument from found, kept]
    cases step with
    | tuple _ isArray decoded =>
        subst isArray
        exact congrArg (fun elements => some (Json.array elements)) (Decode.toJson_of_slots decoded)
    | single _ _ decoded => exact congrArg some (Decode.toJson_of_subSchema decoded)
    | prefixItems holds | contains holds | properties holds | additionalProperties holds =>
        cases holds
    | facet holds => exact absurd (by decide) holds

theorem prefixItems :
    node.prefixItems.map (fun slots => Json.array (slots.map SubSchema.toJson)) =
      NameTable.get? "prefixItems" members := by
  rcases read.part (fun node => node.prefixItems) .prefixItems rfl
    (fun same ne => same.prefixItems ne) with
    ⟨absent, kept⟩ | ⟨argument, place, before, after, found, step, kept⟩
  · rw [show NameTable.get? "prefixItems" members = none from absent, kept]
    rfl
  · rw [show NameTable.get? "prefixItems" members = some argument from found, kept]
    cases step with
    | prefixItems _ isArray decoded =>
        subst isArray
        exact congrArg (fun elements => some (Json.array elements)) (Decode.toJson_of_slots decoded)
    | tuple holds | single holds | contains holds | properties holds
    | additionalProperties holds => cases holds
    | facet holds => exact absurd (by decide) holds

theorem contains :
    node.contains.map SubSchema.toJson = NameTable.get? "contains" members := by
  rcases read.part (fun node => node.contains) .contains rfl (fun same ne => same.contains ne) with
    ⟨absent, kept⟩ | ⟨argument, place, before, after, found, step, kept⟩
  · rw [show NameTable.get? "contains" members = none from absent, kept]
    rfl
  · rw [show NameTable.get? "contains" members = some argument from found, kept]
    cases step with
    | contains _ decoded => exact congrArg some (Decode.toJson_of_subSchema decoded)
    | tuple holds | single holds | prefixItems holds | properties holds
    | additionalProperties holds => cases holds
    | facet holds => exact absurd (by decide) holds

theorem properties :
    (NameTable.get? "properties" members = none ∧ node.properties = []) ∨
      ∃ schemas, NameTable.get? "properties" members = some (.object schemas) ∧
        ∀ name, (NameTable.get? name node.properties).map SubSchema.toJson =
          NameTable.get? name schemas := by
  rcases read.part (fun node => node.properties) .properties rfl
    (fun same ne => same.properties ne) with
    ⟨absent, kept⟩ | ⟨argument, place, before, after, found, step, kept⟩
  · exact .inl ⟨absent, kept⟩
  · cases step with
    | @properties schemas _ _ isObject decoded =>
        subst isObject
        refine .inr ⟨schemas, found, fun name => ?_⟩
        rw [kept]
        rw [Decode.properties_eq_readTable] at decoded
        have distinct := (read.distinct.member (NameTable.mem_of_get? found)).names
        rcases Decode.readTable_get? decoded distinct name with
          ⟨absent, empty⟩ | ⟨value, sub, listed, decoded, held⟩
        · rw [absent, empty]
          rfl
        · rw [listed, held]
          exact congrArg some (Decode.toJson_of_subSchema decoded)
    | tuple holds | single holds | prefixItems holds | contains holds
    | additionalProperties holds => cases holds
    | facet holds => exact absurd (by decide) holds

theorem additionalProperties :
    node.additionalProperties.toJson =
      (NameTable.get? "additionalProperties" members).getD (.bool true) := by
  rcases read.part (fun node => node.additionalProperties) .additionalProperties rfl
    (fun same ne => same.additionalProperties ne) with
    ⟨absent, kept⟩ | ⟨argument, place, before, after, found, step, kept⟩
  · rw [show NameTable.get? "additionalProperties" members = none from absent, kept]
    rfl
  · rw [show NameTable.get? "additionalProperties" members = some argument from found, kept]
    cases step with
    | additionalProperties _ decoded => exact Decode.toJson_of_subSchema decoded
    | tuple holds | single holds | prefixItems holds | contains holds
    | properties holds => cases holds
    | facet holds => exact absurd (by decide) holds

end Node.ReadFrom

theorem Node.source_of_decode {document : Json} {node : Node} (h : decode document = .ok node) :
    node.source = document := by
  cases document with
  | object members => exact Decode.source_of_keywords h
  | _ => cases h

end SchemaEvolution
