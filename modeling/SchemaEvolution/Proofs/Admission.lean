import Mathlib
import SchemaEvolution.Diff
import SchemaEvolution.Proofs.Places
import SchemaEvolution.Proofs.Validity

/-! # What a decoded schema admits

Validity against a document, told from the schema that the document denotes: field by field, with
the schemas below by their own documents.
-/

namespace SchemaEvolution

namespace Json

section Keywords

variable {siblings members : List (String × Json)} {value : Json}

theorem meetsAll_cons (member : String × Json) (rest : List (String × Json)) :
    meetsAll siblings value (member :: rest) =
      (meetsAll siblings value [member] && meetsAll siblings value rest) := by
  obtain ⟨key, argument⟩ := member
  rw [meetsAll.eq_def, meetsAll.eq_def siblings value [(key, argument)]]
  simp only [meetsAll, Bool.and_true]

theorem meetsAll_iff {keywords : List (String × Json)} :
    meetsAll siblings value keywords = true ↔
      ∀ member ∈ keywords, meetsAll siblings value [member] = true := by
  induction keywords with
  | nil => simp [meetsAll]
  | cons member rest ih => rw [meetsAll_cons, Bool.and_eq_true, ih, List.forall_mem_cons]

/-- The value meets the keyword, if the schema has it. -/
def Asks (members : List (String × Json)) (value : Json) (keyword : Keyword) : Prop :=
  ∀ argument, NameTable.get? keyword.name members = some argument →
    meetsAll members value [(keyword.name, argument)] = true

theorem meetsAll_plain {keyword : Keyword} (recognized : keyword.isRecognized = true)
    (plain : keyword ∉ Keyword.structural) (argument : Json) :
    meetsAll siblings value [(keyword.name, argument)] = keyword.meets argument value := by
  rw [meetsAll.eq_def]
  simp only [Keyword.ofName_name recognized, meetsAll, Bool.and_true]
  cases keyword <;> first | rfl | exact absurd (by decide) plain

theorem validates_iff_asks (distinct : (NameTable.names members).Nodup) :
    (Json.object members).validates value = true ↔
      ∀ keyword : Keyword, keyword.isRecognized = true → Asks members value keyword := by
  rw [validates, meetsAll_iff]
  constructor
  · intro h keyword _ argument found
    exact h _ (NameTable.mem_of_get? found)
  · rintro h ⟨key, argument⟩ member
    by_cases recognized : (Keyword.ofName key).isRecognized = true
    · have name := (Keyword.name_ofName key).symm
      have found := (NameTable.get?_eq_some_iff distinct).mpr member
      rw [name] at found ⊢
      exact h _ recognized argument found
    · rw [meetsAll.eq_def]
      simp only [meetsAll, Bool.and_true]
      generalize Keyword.ofName key = keyword at recognized
      cases keyword with
      | other name => simp [Keyword.meets, Keyword.measure?]
      | _ => exact absurd rfl recognized

theorem validatesMembers_iff {schemas : List (String × Json)} :
    validatesMembers schemas value = true ↔
      ∀ entry ∈ schemas, ∀ inner, value.member? entry.1 = some inner →
        entry.2.validates inner = true := by
  induction schemas with
  | nil => simp [validatesMembers]
  | cons entry rest ih =>
      obtain ⟨name, schema⟩ := entry
      rw [validatesMembers, Bool.and_eq_true, ih, List.forall_mem_cons]
      refine and_congr_left fun _ => ?_
      cases value.member? name <;> simp

theorem meetsAll_items {schema : Json} (single : ∀ elements, schema ≠ .array elements) :
    meetsAll siblings value [(Keyword.items.name, schema)] =
      (value.elements.drop (prefixLength siblings)).all fun e => validates schema e := by
  rw [meetsAll.eq_def]
  simp only [@Keyword.ofName_name .items rfl, meetsAll, Bool.and_true]

theorem meetsAll_properties {schemas : List (String × Json)} :
    meetsAll siblings value [(Keyword.properties.name, .object schemas)] =
      validatesMembers schemas value := by
  rw [meetsAll.eq_def]
  simp only [@Keyword.ofName_name .properties rfl, meetsAll, Bool.and_true]

theorem meetsAll_additionalProperties {schema : Json} :
    meetsAll siblings value [(Keyword.additionalProperties.name, schema)] =
      value.members.all fun m => listsProperty siblings m.1 || validates schema m.2 := by
  rw [meetsAll.eq_def]
  simp only [@Keyword.ofName_name .additionalProperties rfl, meetsAll, Bool.and_true]

end Keywords

end Json

/-- The keywords that look at no other keyword and at no schema. -/
def Keyword.alone : List Keyword := .type :: .enum :: .uniqueItems :: counts

theorem Keyword.isRecognized_of_alone {keyword : Keyword} (h : keyword ∈ alone) :
    keyword.isRecognized = true :=
  (show ∀ keyword ∈ alone, keyword.isRecognized = true by decide) keyword h

/-- What these keywords ask of a value. -/
structure Node.AdmitsAlone (node : Node) (value : Json) : Prop where
  types : ∀ types, node.types = some types → ∃ type ∈ types, type.describes value = true
  enumeration : ∀ options, node.enumeration = some options →
    ∃ option ∈ options, option.equivalent value = true
  counts : ∀ keyword ∈ Keyword.counts, ∀ limit size, node.valueOf keyword = some limit →
    keyword.measure? value = some size → keyword.admitsSize size limit = true
  uniqueItems : node.uniqueItems = true → value.hasUniqueElements = true

/-- What a schema asks of a value, field by field. -/
structure Node.Admits (node : Node) (value : Json) : Prop extends node.AdmitsAlone value where
  items : ∀ sub, node.items = some (.single sub) →
    ∀ e ∈ value.elements, sub.toJson.validates e = true
  properties : ∀ name sub, NameTable.get? name node.properties = some sub →
    ∀ inner, value.member? name = some inner → sub.toJson.validates inner = true
  required : value.members?.isSome = true → ∀ name ∈ node.required, value.has name = true
  additionalProperties : ∀ m ∈ value.members, NameTable.has m.1 node.properties = true ∨
    node.additionalProperties.toJson.validates m.2 = true
  dependentRequired : ∀ pair ∈ Diff.dependentPairs node.dependentRequired,
    value.has pair.1 = true → value.has pair.2 = true

/-- The number of positions that have a schema of their own. -/
def Node.prefixSize (node : Node) : Nat := (node.prefixItems.getD []).length

theorem Decode.typeName_eq_ok {place : Pointer} {value : Json} {type : InstanceType} :
    typeName place value = .ok type ↔
      ∃ name, value = .string name ∧ InstanceType.ofName? name = some type := by
  cases value with
  | string name =>
      rw [typeName]
      cases named : InstanceType.ofName? name <;> simp [named]
  | _ => simp [typeName]

theorem Decode.mem_types {place : Pointer} {argument : Json} {types : List InstanceType}
    (h : Decode.types place argument = .ok types) (type : InstanceType) :
    type ∈ types ↔ ∃ name ∈ argument.names, InstanceType.ofName? name = some type := by
  cases argument with
  | string name =>
      obtain ⟨read, found, rfl⟩ := map_eq_ok_iff.mp h
      obtain ⟨_, ⟨⟩, named⟩ := typeName_eq_ok.mp found
      simp [Json.names, named, eq_comm]
  | array elements =>
      obtain ⟨read, found, rfl⟩ := map_eq_ok_iff.mp h
      simp only [InstanceType.mem_setOf, mem_of_mapM found, typeName_eq_ok, Json.names,
        List.mem_filterMap]
      constructor
      · rintro ⟨_, listed, name, rfl, named⟩
        exact ⟨name, ⟨_, listed, rfl⟩, named⟩
      · rintro ⟨name, ⟨element, listed, isString⟩, named⟩
        cases element <;> cases isString
        exact ⟨_, listed, name, rfl, named⟩
  | _ => cases h

theorem Json.names_strings (names : List String) :
    (Json.array (names.map .string)).names = names := by
  rw [Json.names, List.filterMap_map]
  exact List.filterMap_some

theorem Keyword.meets_count {keyword : Keyword} (count : keyword ∈ counts) {limit value : Json} :
    keyword.meets limit value = true ↔
      ∀ size, keyword.measure? value = some size → keyword.admitsSize size limit = true := by
  simp only [counts, List.mem_cons, List.not_mem_nil, or_false] at count
  rcases count with rfl | rfl | rfl | rfl | rfl | rfl | rfl | rfl
  all_goals
    simp only [meets]
    split <;> simp [*]

theorem Diff.mem_dependentPairs {table : List (String × NameSet)} {pair : String × String} :
    pair ∈ dependentPairs table ↔ ∃ names, (pair.1, names) ∈ table ∧ pair.2 ∈ names := by
  obtain ⟨name, other⟩ := pair
  simp [dependentPairs]

namespace Node.ReadFrom

open Json

variable {node : Node} {members : List (String × Json)} (read : node.ReadFrom members)
  {value : Json}

include read

theorem any_types_iff (p : InstanceType → Bool) :
    (∀ argument, NameTable.get? "type" members = some argument →
      (argument.names.any fun name => (InstanceType.ofName? name).any p) = true) ↔
      ∀ types, node.types = some types → ∃ type ∈ types, p type = true := by
  have rel := read.types
  generalize NameTable.get? "type" members = argument at rel ⊢
  generalize node.types = types at rel ⊢
  cases rel with
  | none => simp
  | @some argument types decoded =>
      obtain ⟨place, decoded⟩ := decoded
      simp only [Option.some.injEq, forall_eq', List.any_eq_true, Option.any_eq_true,
        Decode.mem_types decoded]
      constructor
      · rintro ⟨name, listed, type, named, holds⟩
        exact ⟨type, ⟨name, listed, named⟩, holds⟩
      · rintro ⟨type, ⟨name, listed, named⟩, holds⟩
        exact ⟨name, listed, type, named, holds⟩

theorem asks_type :
    Asks members value .type ↔
      ∀ types, node.types = some types → ∃ type ∈ types, type.describes value = true := by
  rw [← read.any_types_iff (·.describes value)]
  refine forall_congr' fun argument => imp_congr_right fun _ => ?_
  rw [meetsAll_plain rfl (by decide), Keyword.meets]

theorem asks_enum :
    Asks members value .enum ↔ ∀ options, node.enumeration = some options →
      ∃ option ∈ options, option.equivalent value = true := by
  have rel := read.enumeration
  rw [Asks, show Keyword.enum.name = "enum" from rfl]
  generalize NameTable.get? "enum" members = argument at rel ⊢
  generalize node.enumeration = options at rel ⊢
  cases rel with
  | none => simp
  | some same =>
      subst same
      simp only [Option.some.injEq, forall_eq']
      rw [show "enum" = Keyword.enum.name from rfl, meetsAll_plain rfl (by decide), Keyword.meets]
      simp [Json.elements, Json.elements?]

theorem asks_count {keyword : Keyword} (count : keyword ∈ Keyword.counts) :
    Asks members value keyword ↔ ∀ limit size, node.valueOf keyword = some limit →
      keyword.measure? value = some size → keyword.admitsSize size limit = true := by
  rw [Asks, read.valueOf_count count]
  refine forall_congr' fun limit => ?_
  rw [meetsAll_plain (Keyword.isRecognized_of_count count) (Keyword.not_structural_of_count count),
    Keyword.meets_count count]
  exact ⟨fun h size found => h found size, fun h found size => h size found⟩

theorem asks_uniqueItems :
    Asks members value .uniqueItems ↔
      (node.uniqueItems = true → value.hasUniqueElements = true) := by
  have flag := read.uniqueItems
  rw [Asks, show Keyword.uniqueItems.name = "uniqueItems" from rfl]
  cases found : NameTable.get? "uniqueItems" members with
  | none =>
      rw [found] at flag
      cases unique : node.uniqueItems
      · simp
      · rw [unique] at flag
        cases flag
  | some argument =>
      rw [found] at flag
      cases (show argument = .bool node.uniqueItems from flag)
      simp only [Option.some.injEq, forall_eq']
      rw [show "uniqueItems" = Keyword.uniqueItems.name from rfl, meetsAll_plain rfl (by decide),
        Keyword.meets]
      cases node.uniqueItems <;> simp [Json.same]

theorem asks_required :
    Asks members value .required ↔
      (value.members?.isSome = true → ∀ name ∈ node.required, value.has name = true) := by
  rw [Asks, show Keyword.required.name = "required" from rfl]
  rcases read.required with ⟨absent, empty⟩ | ⟨names, found, same⟩
  · simp [absent, empty]
  · simp only [found, same, Option.some.injEq, forall_eq']
    rw [show "required" = Keyword.required.name from rfl, meetsAll_plain rfl (by decide),
      Keyword.meets, Json.names_strings]
    cases value.members? <;> simp

theorem asks_dependentRequired :
    Asks members value .dependentRequired ↔
      ∀ pair ∈ Diff.dependentPairs node.dependentRequired,
        value.has pair.1 = true → value.has pair.2 = true := by
  rw [Asks, show Keyword.dependentRequired.name = "dependentRequired" from rfl]
  rcases read.dependentRequired with ⟨absent, empty⟩ | ⟨table, found, ordered, each⟩
  · simp [absent, empty, Diff.dependentPairs]
  · have distinct := (read.distinct.member (NameTable.mem_of_get? found)).names
    simp only [found, Option.some.injEq, forall_eq']
    rw [show "dependentRequired" = Keyword.dependentRequired.name from rfl,
      meetsAll_plain rfl (by decide), Keyword.meets]
    simp only [Json.members, Json.members?, Option.getD_some, List.all_eq_true, Bool.or_eq_true,
      Bool.not_eq_true', Diff.mem_dependentPairs]
    constructor
    · rintro h ⟨name, other⟩ ⟨required, listed, needed⟩ present
      have rel := each name
      rw [(NameTable.get?_eq_some_iff ordered.nodup).mpr listed] at rel
      cases held : NameTable.get? name table with
      | none => rw [held] at rel; cases rel
      | some argument =>
          rw [held, Option.rel_some_some] at rel
          obtain ⟨names, rfl, rfl⟩ := rel
          rcases h _ (NameTable.mem_of_get? held) with absent | all
          · exact absurd present (by simp [absent])
          · rw [Json.names_strings] at all
            exact all other (NameSet.mem_ofList.mp needed)
    · rintro h ⟨name, argument⟩ member
      have rel := each name
      rw [(NameTable.get?_eq_some_iff distinct).mpr member] at rel
      cases held : NameTable.get? name node.dependentRequired with
      | none => rw [held] at rel; cases rel
      | some required =>
          rw [held, Option.rel_some_some] at rel
          obtain ⟨names, rfl, rfl⟩ := rel
          rw [Json.names_strings]
          by_cases present : value.has name = true
          · refine .inr fun other listed => ?_
            exact h (name, other)
              ⟨_, NameTable.mem_of_get? held, NameSet.mem_ofList.mpr listed⟩ present
          · exact .inl (Bool.eq_false_iff.mpr present)

theorem prefixLength_eq : prefixLength members = node.prefixSize := by
  rw [prefixLength, Node.prefixSize, show "prefixItems" = Keyword.prefixItems.name from rfl,
    ← show _ = NameTable.get? Keyword.prefixItems.name members from read.prefixItems]
  cases node.prefixItems <;> simp [Json.elements, Json.elements?]

theorem asks_items (single : ∀ elements, NameTable.get? "items" members ≠ some (.array elements)) :
    Asks members value .items ↔ ∀ sub, node.items = some (.single sub) →
      ∀ e ∈ value.elements.drop node.prefixSize, sub.toJson.validates e = true := by
  have same := read.items
  rw [Asks, show Keyword.items.name = "items" from rfl, ← same, ← read.prefixLength_eq]
  rw [← same] at single
  generalize node.items = items at single ⊢
  rcases items with _ | (sub | slots)
  · simp
  · simp only [Option.map_some, Option.some.injEq, forall_eq', Items.single.injEq]
    rw [show "items" = Keyword.items.name from rfl,
      meetsAll_items fun elements array => single elements (congrArg some array)]
    simp [Items.toJson]
  · exact absurd rfl (single _)

theorem prefixSize_eq_zero (noPrefix : NameTable.get? "prefixItems" members = none) :
    node.prefixSize = 0 := by
  rw [← read.prefixLength_eq, prefixLength, noPrefix]

theorem asks_properties :
    Asks members value .properties ↔
      ∀ name sub, NameTable.get? name node.properties = some sub →
        ∀ inner, value.member? name = some inner → sub.toJson.validates inner = true := by
  rw [Asks, show Keyword.properties.name = "properties" from rfl]
  rcases read.properties with ⟨absent, empty⟩ | ⟨schemas, found, same⟩
  · simp [absent, empty, NameTable.get?]
  · have distinct := (read.distinct.member (NameTable.mem_of_get? found)).names
    simp only [found, Option.some.injEq, forall_eq']
    rw [show "properties" = Keyword.properties.name from rfl, meetsAll_properties,
      validatesMembers_iff]
    constructor
    · intro h name sub held inner present
      have listed := same name
      rw [held] at listed
      exact h _ (NameTable.mem_of_get? listed.symm) inner present
    · rintro h ⟨name, schema⟩ member inner present
      have listed := same name
      rw [(NameTable.get?_eq_some_iff distinct).mpr member] at listed
      obtain ⟨sub, held, rfl⟩ := Option.map_eq_some_iff.mp listed
      exact h name sub held inner present

theorem listsProperty_eq (name : String) :
    listsProperty members name = NameTable.has name node.properties := by
  rw [listsProperty]
  rcases read.properties with ⟨absent, empty⟩ | ⟨schemas, found, same⟩
  · rw [absent, empty]
    rfl
  · rw [found]
    simp only [Json.has, Json.member?, ← same, Option.isSome_map, NameTable.has]

theorem asks_additionalProperties :
    Asks members value .additionalProperties ↔
      ∀ m ∈ value.members, NameTable.has m.1 node.properties = true ∨
        node.additionalProperties.toJson.validates m.2 = true := by
  rw [read.additionalProperties, Asks,
    show Keyword.additionalProperties.name = "additionalProperties" from rfl]
  cases NameTable.get? "additionalProperties" members with
  | none => simp [validates]
  | some schema =>
      simp only [Option.some.injEq, forall_eq', Option.getD_some]
      rw [show "additionalProperties" = Keyword.additionalProperties.name from rfl,
        meetsAll_additionalProperties]
      simp only [List.all_eq_true, Bool.or_eq_true, read.listsProperty_eq]

theorem admitsAlone_iff :
    node.AdmitsAlone value ↔ ∀ keyword ∈ Keyword.alone, Asks members value keyword := by
  rw [Keyword.alone, List.forall_mem_cons, List.forall_mem_cons, List.forall_mem_cons,
    read.asks_type, read.asks_enum, read.asks_uniqueItems]
  constructor
  · intro h
    refine ⟨h.types, h.enumeration, h.uniqueItems, fun keyword count => ?_⟩
    exact (read.asks_count count).mpr (h.counts keyword count)
  · rintro ⟨types, enumeration, uniqueItems, counts⟩
    refine ⟨types, enumeration, fun keyword count => ?_, uniqueItems⟩
    exact (read.asks_count count).mp (counts keyword count)

/-- A value is valid against a document exactly if its schema admits it, where `items` is one schema
and no keyword speaks of some elements only. -/
theorem validates_iff_admits
    (single : ∀ elements, NameTable.get? "items" members ≠ some (.array elements))
    (noPrefix : NameTable.get? "prefixItems" members = none)
    (noContains : NameTable.get? "contains" members = none) :
    (Json.object members).validates value = true ↔ node.Admits value := by
  have items := @asks_items _ _ read value single
  rw [read.prefixSize_eq_zero noPrefix, List.drop_zero] at items
  rw [validates_iff_asks read.distinct.names]
  constructor
  · intro h
    exact {
      toAdmitsAlone := read.admitsAlone_iff.mpr fun keyword alone =>
        h keyword (Keyword.isRecognized_of_alone alone)
      items := items.mp (h .items rfl)
      properties := read.asks_properties.mp (h .properties rfl)
      required := read.asks_required.mp (h .required rfl)
      additionalProperties := read.asks_additionalProperties.mp (h .additionalProperties rfl)
      dependentRequired := read.asks_dependentRequired.mp (h .dependentRequired rfl) }
  · intro h keyword recognized
    by_cases alone : keyword ∈ Keyword.alone
    · exact read.admitsAlone_iff.mp h.toAdmitsAlone keyword alone
    cases keyword <;> try exact absurd (by decide) alone
    case items => exact items.mpr h.items
    case prefixItems =>
      intro argument found
      cases noPrefix.symm.trans found
    case contains =>
      intro argument found
      cases noContains.symm.trans found
    case properties => exact read.asks_properties.mpr h.properties
    case required => exact read.asks_required.mpr h.required
    case additionalProperties => exact read.asks_additionalProperties.mpr h.additionalProperties
    case dependentRequired => exact read.asks_dependentRequired.mpr h.dependentRequired
    case other => cases recognized
    all_goals exact fun argument _ => meetsAll_plain rfl (by decide) argument

end Node.ReadFrom

end SchemaEvolution
