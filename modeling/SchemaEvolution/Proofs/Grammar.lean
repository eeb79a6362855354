import Mathlib
import SchemaEvolution.Proofs.Reading

/-! # Which documents are schemas

What a value denotes does not depend on the place it stands at, and whether the value of a keyword
can be read depends neither on the place nor on the keywords read before. A document therefore
denotes a schema exactly if each of its keywords has a value that can be read, in whatever order
they stand, and a schema is known from its document.
-/

namespace SchemaEvolution

section Exists

variable {ε α β : Type} {outcome : Except ε α} {f : α → β}

theorem exists_bind_pure_iff :
    (∃ b, (do let a ← outcome; pure (f a)) = .ok b) ↔ ∃ a, outcome = .ok a := by
  simp [bind_eq_ok_iff, pure, Except.pure]

theorem exists_map_iff : (∃ b, f <$> outcome = .ok b) ↔ ∃ a, outcome = .ok a := by
  simp [map_eq_ok_iff]

theorem exists_mapM_iff {step : α → Except ε β} {list : List α} :
    (∃ results, list.mapM step = .ok results) ↔ ∀ a ∈ list, ∃ b, step a = .ok b := by
  simp only [mapM_eq_ok_iff]
  induction list with
  | nil => simp
  | cons a rest ih =>
      rw [List.forall_mem_cons, ← ih]
      constructor
      · rintro ⟨_, _ | ⟨first, others⟩⟩
        exact ⟨⟨_, first⟩, _, others⟩
      · rintro ⟨⟨_, first⟩, _, others⟩
        exact ⟨_, .cons first others⟩

end Exists

namespace Json

def isTypeName : Json → Bool
  | .string name => (InstanceType.ofName? name).isSome
  | _ => false

def isNameList : Json → Bool
  | .array elements => elements.all (·.string?.isSome)
  | _ => false

end Json

/-- The value has the shape that a keyword without schemas requires. -/
def Keyword.takes : Keyword → Json → Bool
  | .type, .array names => names.all Json.isTypeName
  | .type, value => value.isTypeName
  | .enum, value | .examples, value => value.elements?.isSome
  | .format, value | .pattern, value | .title, value | .description, value | .id, value
  | .comment, value => value.string?.isSome
  | .maximum, value | .minimum, value | .multipleOf, value => value.number?.isSome
  | .exclusiveMaximum, value | .exclusiveMinimum, value => (Decode.exclusive? value).isSome
  | .maxLength, value | .minLength, value | .maxItems, value | .minItems, value
  | .maxContains, value | .minContains, value | .maxProperties, value | .minProperties, value =>
    (Decode.count? value).isSome
  | .uniqueItems, value | .deprecated, value | .readOnly, value | .writeOnly, value =>
    value.bool?.isSome
  | .required, value => value.isNameList
  | .dependentRequired, .object members => members.all (·.2.isNameList)
  | .dependentRequired, _ => false
  | .default, _ | .other _, _ => true
  | .items, _ | .prefixItems, _ | .contains, _ | .properties, _ | .additionalProperties, _ => true

namespace Decode

section Shapes

variable {place : Pointer} {keyword : Keyword} {value : Json}

theorem exists_expect_iff {α : Type} {read : Json → Option α} {shape : Shape} :
    (∃ found, expect read shape place keyword value = .ok found) ↔ (read value).isSome = true := by
  simp only [expect_eq_ok_iff, Option.isSome_iff_exists]

theorem exists_typeName_iff :
    (∃ type, typeName place value = .ok type) ↔ value.isTypeName = true := by
  cases value with
  | string name =>
      cases named : InstanceType.ofName? name <;> simp [typeName, named, Json.isTypeName]
  | _ => simp [typeName, Json.isTypeName]

theorem exists_types_iff :
    (∃ read, types place value = .ok read) ↔ Keyword.type.takes value = true := by
  cases value with
  | array names =>
      simp only [types, exists_map_iff, exists_mapM_iff, exists_typeName_iff, Keyword.takes,
        List.all_eq_true]
  | string name => simp only [types, exists_map_iff, exists_typeName_iff, Keyword.takes]
  | _ => simp [types, Keyword.takes, Json.isTypeName]

theorem exists_nameSet_iff :
    (∃ names, nameSet place keyword value = .ok names) ↔ value.isNameList = true := by
  cases value with
  | array elements =>
      refine Iff.trans (exists_bind_pure_iff.trans exists_mapM_iff) ?_
      simp only [exists_expect_iff, Json.isNameList, List.all_eq_true]
  | _ => simp [nameSet, expect, Json.elements?, Json.isNameList, bind_eq_ok_iff]

theorem exists_readTable_iff {α β ε : Type} {read : String → α → Except ε β}
    {table : List (String × β)} {members : List (String × α)} :
    (∃ result, readTable read table members = .ok result) ↔
      ∀ m ∈ members, ∃ found, read m.1 m.2 = .ok found := by
  induction members generalizing table with
  | nil => simp [readTable]
  | cons member rest ih =>
      obtain ⟨name, value⟩ := member
      simp only [readTable, bind_eq_ok_iff, List.forall_mem_cons]
      constructor
      · rintro ⟨result, found, here, further⟩
        exact ⟨⟨found, here⟩, ih.mp ⟨result, further⟩⟩
      · rintro ⟨⟨found, here⟩, others⟩
        obtain ⟨result, further⟩ := ih.mpr others
        exact ⟨result, found, here, further⟩

theorem exists_checkMetadata_iff (describes : keyword.isMetadata = true) :
    (∃ done, checkMetadata place keyword value = .ok done) ↔ keyword.takes value = true := by
  cases keyword <;> try cases describes
  all_goals
    cases value <;> simp [checkMetadata, metadataShape, Keyword.takes, Json.string?, Json.bool?,
      Json.elements?]

theorem exists_facet_iff (place : Pointer) (facets : Facets) :
    (∃ next, facet facets place keyword value = .ok next) ↔ keyword.takes value = true := by
  cases keyword with
  | type => exact exists_bind_pure_iff.trans exists_types_iff
  | required => exact exists_bind_pure_iff.trans exists_nameSet_iff
  | dependentRequired =>
      cases value with
      | object members =>
          refine Iff.trans exists_bind_pure_iff ?_
          simp only [nameSets_eq_readTable, exists_readTable_iff, exists_nameSet_iff, Keyword.takes,
            List.all_eq_true]
      | _ => simp [facet, expect, Json.members?, Keyword.takes, bind_eq_ok_iff]
  | items | prefixItems | contains | properties | additionalProperties | other =>
      simp [facet, Keyword.takes]
  | title | description | default | deprecated | readOnly | writeOnly | examples | id | comment =>
      exact exists_bind_pure_iff.trans (exists_checkMetadata_iff rfl)
  | _ => exact exists_bind_pure_iff.trans exists_expect_iff

end Shapes

/-- What is read does not depend on the place. -/
def Placeless {α : Type} (read : Pointer → Except DecodeError α) : Prop :=
  ∀ here there result, read here = .ok result → read there = .ok result

namespace Placeless

variable {α β : Type} {read : Pointer → Except DecodeError α}

theorem const (outcome : Except DecodeError α) : Placeless fun _ => outcome :=
  fun _ _ _ h => h

theorem bind {next : α → Pointer → Except DecodeError β} (first : Placeless read)
    (others : ∀ a, Placeless (next a)) :
    Placeless fun place => read place >>= fun a => next a place := by
  intro here there result h
  obtain ⟨a, found, h⟩ := bind_eq_ok_iff.mp h
  exact bind_eq_ok_iff.mpr ⟨a, first here there a found, others a here there result h⟩

theorem map {f : α → β} (h : Placeless read) : Placeless fun place => f <$> read place := by
  intro here there result found
  obtain ⟨a, found, same⟩ := map_eq_ok_iff.mp found
  exact map_eq_ok_iff.mpr ⟨a, h here there a found, same⟩

theorem mapM {step : Pointer → α → Except DecodeError β} {list : List α}
    (h : ∀ a ∈ list, Placeless fun place => step place a) :
    Placeless fun place => list.mapM (step place) := by
  intro here there results found
  rw [mapM_eq_ok_iff] at found ⊢
  exact forall₂_of_mem found fun a member b _ read => h a member here there b read

theorem readTable {step : Pointer → String → α → Except DecodeError β}
    {table : List (String × β)} {members : List (String × α)}
    (h : ∀ m ∈ members, Placeless fun place => step place m.1 m.2) :
    Placeless fun place => Decode.readTable (step place) table members := by
  induction members generalizing table with
  | nil => exact const _
  | cons member rest ih =>
      obtain ⟨first, others⟩ := List.forall_mem_cons.mp h
      exact bind first fun _ => ih others

theorem at_member {step : Pointer → Except DecodeError α} (h : Placeless step) (name : String) :
    Placeless fun place => step (place ++ [name]) :=
  fun here there => h (here ++ [name]) (there ++ [name])

variable (keyword : Keyword) (value : Json)

theorem expect (read : Json → Option α) (shape : Shape) :
    Placeless fun place => Decode.expect read shape place keyword value := by
  intro here there found h
  rw [expect_eq_ok_iff] at h ⊢
  exact h

theorem typeName : Placeless fun place => Decode.typeName place value := by
  intro here there type h
  cases value with
  | string name => cases named : InstanceType.ofName? name <;> simp_all [Decode.typeName]
  | _ => cases h

theorem types : Placeless fun place => Decode.types place value := by
  cases value with
  | array names => exact map (mapM fun name _ => typeName name)
  | string name => exact map (typeName (.string name))
  | _ => exact fun _ _ _ h => by cases h

theorem nameSet : Placeless fun place => Decode.nameSet place keyword value :=
  bind (expect keyword value _ _) fun _ =>
    bind (mapM fun e _ => expect keyword e _ _) fun _ => const _

theorem nameSets (members : List (String × Json)) :
    Placeless fun place => Decode.nameSets place [] members := by
  simp only [nameSets_eq_readTable]
  exact readTable fun m _ => (nameSet .dependentRequired m.2).at_member m.1

theorem checkMetadata : Placeless fun place => Decode.checkMetadata place keyword value := by
  intro here there result h
  unfold Decode.checkMetadata at h ⊢
  split at h <;> simp_all

theorem facet (facets : Facets) :
    Placeless fun place => Decode.facet facets place keyword value := by
  cases keyword with
  | type => exact bind (types value) fun _ => const _
  | required => exact bind (nameSet .required value) fun _ => const _
  | dependentRequired =>
      exact bind (expect _ _ _ _) fun members => bind (nameSets members) fun _ => const _
  | items | prefixItems | contains | properties | additionalProperties | other => exact const _
  | title | description | default | deprecated | readOnly | writeOnly | examples | id | comment =>
      exact bind (checkMetadata _ _) fun _ => const _
  | _ => exact bind (expect _ _ _ _) fun _ => const _

end Placeless

/-- The other direction of `reads_of_keywords`. -/
theorem keywords_of_reads {place : Pointer} {node next : Node} {key : String} {value : Json}
    {rest : List (String × Json)}
    (h : Reads (place ++ [key]) node (Keyword.ofName key) value next) :
    keywords place node ((key, value) :: rest) = keywords place next rest := by
  rw [keywords.eq_def]
  simp only
  generalize Keyword.ofName key = keyword at h ⊢
  cases h with
  | tuple holds shape decoded | prefixItems holds shape decoded | properties holds shape decoded =>
      subst holds shape
      simp only [decoded]
      rfl
  | contains holds decoded | additionalProperties holds decoded =>
      subst holds
      simp only [decoded]
      rfl
  | single holds shape decoded =>
      subst holds
      cases value with
      | array elements => exact absurd rfl (shape elements)
      | _ =>
          simp only [decoded]
          rfl
  | facet holds decoded =>
      cases keyword
      case items | prefixItems | contains | properties | additionalProperties =>
        exact absurd (by decide) holds
      all_goals
        simp only [decoded]
        rfl

theorem keywords_cons_iff {place : Pointer} {node result : Node} {key : String} {value : Json}
    {rest : List (String × Json)} :
    keywords place node ((key, value) :: rest) = .ok result ↔
      ∃ next, Reads (place ++ [key]) node (Keyword.ofName key) value next ∧
        keywords place next rest = .ok result :=
  ⟨reads_of_keywords, fun ⟨_, read, h⟩ => (keywords_of_reads read).trans h⟩

section Places

/-- The value denotes the same at every place. -/
def Steady (value : Json) : Prop := Placeless fun place => subSchema place value

theorem slots_anywhere {elements : List Json} (steady : ∀ e ∈ elements, Steady e)
    {here there : Pointer} {index other : Nat} {read : List SubSchema}
    (h : slots here index elements = .ok read) : slots there other elements = .ok read := by
  induction elements generalizing index other read with
  | nil =>
      rw [slots] at h ⊢
      exact h
  | cons value rest ih =>
      obtain ⟨first, others⟩ := List.forall_mem_cons.mp steady
      rw [slots.eq_def] at h ⊢
      simp only [bind_eq_ok_iff] at h ⊢
      obtain ⟨sub, decoded, subs, further, result⟩ := h
      exact ⟨sub, first _ _ _ decoded, subs, ih others further, result⟩

theorem properties_anywhere {members : List (String × Json)}
    (steady : ∀ m ∈ members, Steady m.2) : Placeless fun place => properties place [] members := by
  simp only [properties_eq_readTable]
  exact Placeless.readTable fun m listed => (steady m listed).at_member m.1

theorem Reads.anywhere {here : Pointer} {node next : Node} {keyword : Keyword} {value : Json}
    (steady : value.Inside Steady) (there : Pointer)
    (h : Reads here node keyword value next) : Reads there node keyword value next := by
  cases h with
  | tuple holds shape decoded =>
      exact .tuple holds shape (slots_anywhere (steady.elements _ shape) decoded)
  | single holds shape decoded => exact .single holds shape (steady.own _ _ _ decoded)
  | prefixItems holds shape decoded =>
      exact .prefixItems holds shape (slots_anywhere (steady.elements _ shape) decoded)
  | contains holds decoded => exact .contains holds (steady.own _ _ _ decoded)
  | properties holds shape decoded =>
      exact .properties holds shape (properties_anywhere (steady.members _ shape) _ _ _ decoded)
  | additionalProperties holds decoded =>
      exact .additionalProperties holds (steady.own _ _ _ decoded)
  | facet holds decoded => exact .facet holds (Placeless.facet keyword value _ _ _ _ decoded)

theorem keywords_anywhere {members : List (String × Json)}
    (steady : ∀ m ∈ members, m.2.Inside Steady) {here there : Pointer} {node result : Node}
    (h : keywords here node members = .ok result) : keywords there node members = .ok result := by
  induction members generalizing node with
  | nil =>
      rw [keywords] at h ⊢
      exact h
  | cons member rest ih =>
      obtain ⟨first, others⟩ := List.forall_mem_cons.mp steady
      obtain ⟨next, read, further⟩ := keywords_cons_iff.mp h
      exact keywords_cons_iff.mpr ⟨next, read.anywhere first _, ih others further⟩

theorem steady_inside (value : Json) : value.Inside Steady := by
  refine Json.rec_inside (fun value inside => ?_) value
  cases value with
  | bool allowed => exact fun _ _ _ h => h
  | object members =>
      intro here there sub h
      simp only [subSchema] at h ⊢
      obtain ⟨node, decoded, rfl⟩ := map_eq_ok_iff.mp h
      exact map_eq_ok_iff.mpr ⟨node, keywords_anywhere (inside members rfl) decoded, rfl⟩
  | _ =>
      intro here there sub h
      cases h

theorem subSchema_anywhere {value : Json} {sub : SubSchema} {here : Pointer} (there : Pointer)
    (h : subSchema here value = .ok sub) : subSchema there value = .ok sub :=
  (steady_inside value).own here there sub h

theorem keywords_at_any {members : List (String × Json)} {node result : Node} {here : Pointer}
    (there : Pointer) (h : keywords here node members = .ok result) :
    keywords there node members = .ok result :=
  keywords_anywhere (fun m _ => steady_inside m.2) h

end Places

/-- The value of a keyword can be read. -/
def Readable (keyword : Keyword) (value : Json) : Prop :=
  ∃ place node next, Reads place node keyword value next

def IsSchema (value : Json) : Prop := ∃ sub, Denotes value sub

section Grammar

variable {place : Pointer} {keyword : Keyword} {value : Json} {members : List (String × Json)}

theorem Readable.reads (h : Readable keyword value) (place : Pointer) (node : Node) :
    ∃ next, Reads place node keyword value next := by
  obtain ⟨here, before, after, h⟩ := h
  cases h.anywhere (steady_inside value) place with
  | tuple holds shape decoded => exact ⟨_, .tuple holds shape decoded⟩
  | single holds shape decoded => exact ⟨_, .single holds shape decoded⟩
  | prefixItems holds shape decoded => exact ⟨_, .prefixItems holds shape decoded⟩
  | contains holds decoded => exact ⟨_, .contains holds decoded⟩
  | properties holds shape decoded => exact ⟨_, .properties holds shape decoded⟩
  | additionalProperties holds decoded => exact ⟨_, .additionalProperties holds decoded⟩
  | facet holds decoded =>
      obtain ⟨facets, read⟩ := (exists_facet_iff place node.toFacets).mpr
        ((exists_facet_iff _ _).mp ⟨_, decoded⟩)
      exact ⟨_, .facet holds read⟩

/-- The keywords of a document are read exactly if each can be, in whatever order they stand. -/
theorem exists_keywords_iff (place : Pointer) (node : Node) :
    (∃ result, keywords place node members = .ok result) ↔
      ∀ m ∈ members, Readable (Keyword.ofName m.1) m.2 := by
  induction members generalizing node with
  | nil => simp [keywords]
  | cons member rest ih =>
      obtain ⟨key, value⟩ := member
      simp only [keywords_cons_iff, List.forall_mem_cons]
      constructor
      · rintro ⟨result, next, read, further⟩
        exact ⟨⟨_, _, _, read⟩, (ih _).mp ⟨result, further⟩⟩
      · rintro ⟨readable, others⟩
        obtain ⟨next, read⟩ := readable.reads (place ++ [key]) node
        obtain ⟨result, further⟩ := (ih _).mpr others
        exact ⟨result, next, read, further⟩

theorem isSchema_iff : IsSchema value ↔ (∃ allowed, value = .bool allowed) ∨
    ∃ members, value = .object members ∧ ∀ m ∈ members, Readable (Keyword.ofName m.1) m.2 := by
  cases value with
  | bool allowed => simp [IsSchema, Denotes, subSchema]
  | object members =>
      simp only [IsSchema, Denotes, subSchema, reduceCtorEq, exists_false, false_or,
        Json.object.injEq, exists_eq_left', ← exists_keywords_iff [] (.blank (.object members))]
      constructor
      · rintro ⟨sub, place, h⟩
        obtain ⟨node, decoded, _⟩ := map_eq_ok_iff.mp h
        exact ⟨node, keywords_at_any _ decoded⟩
      · rintro ⟨node, decoded⟩
        exact ⟨.schema node, [], map_eq_ok_iff.mpr ⟨node, decoded, rfl⟩⟩
  | _ => simp [IsSchema, Denotes, subSchema]

theorem exists_slots_iff (place : Pointer) (index : Nat) {elements : List Json} :
    (∃ read, slots place index elements = .ok read) ↔ ∀ e ∈ elements, IsSchema e := by
  induction elements generalizing index with
  | nil => simp [slots]
  | cons e rest ih =>
      rw [slots.eq_def, List.forall_mem_cons, ← ih (index + 1)]
      simp only [bind_eq_ok_iff]
      constructor
      · rintro ⟨_, sub, decoded, subs, further, _⟩
        exact ⟨⟨sub, _, decoded⟩, subs, further⟩
      · rintro ⟨⟨sub, here, decoded⟩, subs, further⟩
        exact ⟨_, sub, subSchema_anywhere _ decoded, subs, further, rfl⟩

theorem exists_properties_iff (place : Pointer) :
    (∃ table, properties place [] members = .ok table) ↔ ∀ m ∈ members, IsSchema m.2 := by
  simp only [properties_eq_readTable, exists_readTable_iff]
  refine forall₂_congr fun m _ => ⟨fun ⟨sub, decoded⟩ => ⟨sub, _, decoded⟩, ?_⟩
  rintro ⟨sub, here, decoded⟩
  exact ⟨sub, subSchema_anywhere _ decoded⟩

theorem readable_iff_takes (plain : keyword ∉ Keyword.structural) :
    Readable keyword value ↔ keyword.takes value = true := by
  constructor
  · rintro ⟨place, node, next, read⟩
    exact (exists_facet_iff _ _).mp ⟨_, read.facets plain⟩
  · intro takes
    obtain ⟨facets, read⟩ := (exists_facet_iff [] (Node.blank value).toFacets).mpr takes
    exact ⟨_, _, _, .facet plain read⟩

theorem readable_items : Readable .items value ↔
    (∃ elements, value = .array elements ∧ ∀ e ∈ elements, IsSchema e) ∨ IsSchema value := by
  constructor
  · rintro ⟨place, node, next, read⟩
    cases read with
    | tuple _ shape decoded => exact .inl ⟨_, shape, (exists_slots_iff _ _).mp ⟨_, decoded⟩⟩
    | single _ _ decoded => exact .inr ⟨_, _, decoded⟩
    | prefixItems holds | contains holds | properties holds | additionalProperties holds =>
        cases holds
    | facet holds => exact absurd (by decide) holds
  · rintro (⟨elements, rfl, each⟩ | ⟨sub, place, decoded⟩)
    · obtain ⟨read, decoded⟩ := (exists_slots_iff [] 0).mpr each
      exact ⟨[], .blank .null, _, .tuple rfl rfl decoded⟩
    · refine ⟨place, .blank .null, _, .single rfl ?_ decoded⟩
      rintro elements rfl
      cases decoded

theorem readable_prefixItems : Readable .prefixItems value ↔
    ∃ elements, value = .array elements ∧ ∀ e ∈ elements, IsSchema e := by
  constructor
  · rintro ⟨place, node, next, read⟩
    cases read with
    | prefixItems _ shape decoded => exact ⟨_, shape, (exists_slots_iff _ _).mp ⟨_, decoded⟩⟩
    | tuple holds | single holds | contains holds | properties holds | additionalProperties holds =>
        cases holds
    | facet holds => exact absurd (by decide) holds
  · rintro ⟨elements, rfl, each⟩
    obtain ⟨read, decoded⟩ := (exists_slots_iff [] 0).mpr each
    exact ⟨[], .blank .null, _, .prefixItems rfl rfl decoded⟩

theorem readable_properties : Readable .properties value ↔
    ∃ members, value = .object members ∧ ∀ m ∈ members, IsSchema m.2 := by
  constructor
  · rintro ⟨place, node, next, read⟩
    cases read with
    | properties _ shape decoded => exact ⟨_, shape, (exists_properties_iff _).mp ⟨_, decoded⟩⟩
    | tuple holds | single holds | prefixItems holds | contains holds
    | additionalProperties holds => cases holds
    | facet holds => exact absurd (by decide) holds
  · rintro ⟨members, rfl, each⟩
    obtain ⟨read, decoded⟩ := (exists_properties_iff []).mpr each
    exact ⟨[], .blank .null, _, .properties rfl rfl decoded⟩

theorem readable_contains : Readable .contains value ↔ IsSchema value := by
  constructor
  · rintro ⟨place, node, next, read⟩
    cases read with
    | contains _ decoded => exact ⟨_, _, decoded⟩
    | tuple holds | single holds | prefixItems holds | properties holds
    | additionalProperties holds => cases holds
    | facet holds => exact absurd (by decide) holds
  · rintro ⟨sub, place, decoded⟩
    exact ⟨place, .blank .null, _, .contains rfl decoded⟩

theorem readable_additionalProperties :
    Readable .additionalProperties value ↔ IsSchema value := by
  constructor
  · rintro ⟨place, node, next, read⟩
    cases read with
    | additionalProperties _ decoded => exact ⟨_, _, decoded⟩
    | tuple holds | single holds | prefixItems holds | properties holds | contains holds =>
        cases holds
    | facet holds => exact absurd (by decide) holds
  · rintro ⟨sub, place, decoded⟩
    exact ⟨place, .blank .null, _, .additionalProperties rfl decoded⟩

theorem readable_array_iff {elements : List Json}
    (holds : keyword = .items ∨ keyword = .prefixItems) :
    Readable keyword (.array elements) ↔ ∀ e ∈ elements, IsSchema e := by
  have noSchema : ¬IsSchema (.array elements) := by simp [isSchema_iff]
  rcases holds with rfl | rfl
  · simp [readable_items, noSchema]
  · simp [readable_prefixItems]

theorem readable_single_iff
    (holds : keyword = .items ∨ keyword = .contains ∨ keyword = .additionalProperties)
    (noArray : value.elements? = none) : Readable keyword value ↔ IsSchema value := by
  rcases holds with rfl | rfl | rfl
  · rw [readable_items, or_iff_right]
    rintro ⟨elements, rfl, _⟩
    cases noArray
  · exact readable_contains
  · exact readable_additionalProperties

end Grammar

end Decode

/-- A document denotes a schema exactly if it is an object of keywords that can be read. -/
theorem Node.exists_decode_iff {document : Json} :
    (∃ node, decode document = .ok node) ↔ ∃ members, document = .object members ∧
      ∀ m ∈ members, Decode.Readable (Keyword.ofName m.1) m.2 := by
  cases document with
  | object members =>
      simp only [decode, Decode.exists_keywords_iff, Json.object.injEq, exists_eq_left']
  | _ => simp [decode]

/-- A schema is known from its document. -/
theorem Node.Accepted.eq_of_source {a b : Node} (ha : a.Accepted) (hb : b.Accepted)
    (same : a.source = b.source) : a = b := by
  obtain ⟨_, decoded⟩ := ha
  obtain ⟨_, decoded'⟩ := hb
  rw [Decode.source_of_keywords decoded, Decode.source_of_keywords decoded'] at same
  cases same
  exact Except.ok.inj ((Decode.keywords_at_any _ decoded).symm.trans decoded')

end SchemaEvolution
