import Mathlib
import SchemaEvolution.Proofs.Values
import SchemaEvolution.Proofs.Grammar

/-! # The grammar of schema documents

The form of a key's value is told by the name of the key alone, and a value fits its form by what it
is and by what stands inside it. A document denotes a schema exactly if it fits the form of a
document: decoding neither accepts a value of a wrong form nor refuses one that fits.
-/

namespace SchemaEvolution

/-- What a value in a document has to be. -/
inductive Form where
  /-- An object in which each key holds a value of its form. -/
  | document
  /-- A sub-schema: a boolean or a document. -/
  | schema
  | schemaList
  | schemaTable
  /-- A sub-schema, or a list of them. -/
  | schemaOrList
  | typeName
  /-- The name of a type, or a list of them. -/
  | typeNames
  | text
  | textList
  | textListTable
  | number
  | numberOrFlag
  /-- A whole number from zero on, up to the greatest that 64 bits hold. -/
  | count
  | flag
  | list
  | anything
  deriving Repr, DecidableEq

namespace Form

/-- The names of the types. -/
def knownTypes : List String :=
  ["null", "boolean", "object", "array", "number", "integer", "string"]

/-- The form of the value of a key. A default may be anything, and so may what a key that is not
recognized holds. -/
def ofKey : String → Form
  | "type" => .typeNames
  | "format" | "pattern" | "title" | "description" | "$id" | "$comment" => .text
  | "maximum" | "minimum" | "multipleOf" => .number
  | "exclusiveMaximum" | "exclusiveMinimum" => .numberOrFlag
  | "maxLength" | "minLength" | "maxItems" | "minItems" | "maxContains" | "minContains"
  | "maxProperties" | "minProperties" => .count
  | "uniqueItems" | "deprecated" | "readOnly" | "writeOnly" => .flag
  | "enum" | "examples" => .list
  | "required" => .textList
  | "dependentRequired" => .textListTable
  | "properties" => .schemaTable
  | "prefixItems" => .schemaList
  | "items" => .schemaOrList
  | "contains" | "additionalProperties" => .schema
  | _ => .anything

end Form

inductive Fits : Form → Json → Prop where
  | document {members : List (String × Json)} (keys : ∀ m ∈ members, Fits (.ofKey m.1) m.2) :
      Fits .document (.object members)
  | always (allowed : Bool) : Fits .schema (.bool allowed)
  | schema {value : Json} (inner : Fits .document value) : Fits .schema value
  | schemaList {elements : List Json} (each : ∀ e ∈ elements, Fits .schema e) :
      Fits .schemaList (.array elements)
  | schemaTable {members : List (String × Json)} (each : ∀ m ∈ members, Fits .schema m.2) :
      Fits .schemaTable (.object members)
  | single {value : Json} (inner : Fits .schema value) : Fits .schemaOrList value
  | several {value : Json} (inner : Fits .schemaList value) : Fits .schemaOrList value
  | typeName {name : String} (known : name ∈ Form.knownTypes) : Fits .typeName (.string name)
  | oneType {value : Json} (inner : Fits .typeName value) : Fits .typeNames value
  | types {elements : List Json} (each : ∀ e ∈ elements, Fits .typeName e) :
      Fits .typeNames (.array elements)
  | text (s : String) : Fits .text (.string s)
  | textList {elements : List Json} (each : ∀ e ∈ elements, Fits .text e) :
      Fits .textList (.array elements)
  | textListTable {members : List (String × Json)} (each : ∀ m ∈ members, Fits .textList m.2) :
      Fits .textListTable (.object members)
  | number (n : Number) : Fits .number (.number n)
  | limit (n : Number) : Fits .numberOrFlag (.number n)
  | strict (b : Bool) : Fits .numberOrFlag (.bool b)
  | count {n : Int} (bounded : Number.IsWord n) (nonnegative : 0 ≤ n) :
      Fits .count (.number (.integer n bounded))
  | flag (b : Bool) : Fits .flag (.bool b)
  | list (elements : List Json) : Fits .list (.array elements)
  | anything (value : Json) : Fits .anything value

theorem Form.ofKey_of_unknown {key : String} (unknown : Keyword.ofName key = .other key) :
    ofKey key = .anything := by
  unfold ofKey
  split <;> first | rfl | exact absurd unknown (by decide)

namespace Fits

variable {value : Json}

theorem document_iff {members : List (String × Json)} :
    Fits .document (.object members) ↔ ∀ m ∈ members, Fits (.ofKey m.1) m.2 :=
  ⟨fun h => by cases h with | document keys => exact keys, .document⟩

theorem schema_iff : Fits .schema value ↔
    (∃ allowed, value = .bool allowed) ∨ Fits .document value := by
  constructor
  · intro h
    cases h with
    | always allowed => exact .inl ⟨allowed, rfl⟩
    | schema inner => exact .inr inner
  · rintro (⟨allowed, rfl⟩ | inner)
    · exact .always allowed
    · exact .schema inner

theorem text_iff : Fits .text value ↔ value.string?.isSome = true := by
  constructor
  · rintro ⟨⟩
    rfl
  · cases value with
    | string s => exact fun _ => .text s
    | _ =>
        intro h
        cases h

theorem number_iff : Fits .number value ↔ value.number?.isSome = true := by
  constructor
  · rintro ⟨⟩
    rfl
  · cases value with
    | number n => exact fun _ => .number n
    | _ =>
        intro h
        cases h

theorem numberOrFlag_iff :
    Fits .numberOrFlag value ↔ (Decode.exclusive? value).isSome = true := by
  constructor
  · rintro ⟨⟩ <;> rfl
  · cases value with
    | number n => exact fun _ => .limit n
    | bool b => exact fun _ => .strict b
    | _ =>
        intro h
        cases h

theorem flag_iff : Fits .flag value ↔ value.bool?.isSome = true := by
  constructor
  · rintro ⟨⟩
    rfl
  · cases value with
    | bool b => exact fun _ => .flag b
    | _ =>
        intro h
        cases h

theorem list_iff : Fits .list value ↔ value.elements?.isSome = true := by
  constructor
  · rintro ⟨⟩
    rfl
  · cases value with
    | array elements => exact fun _ => .list elements
    | _ =>
        intro h
        cases h

theorem count_iff : Fits .count value ↔ (Decode.count? value).isSome = true := by
  constructor
  · rintro ⟨⟩
    simp [Decode.count?, Json.number?, Number.count?, *]
  · intro h
    obtain ⟨n, found⟩ := Option.isSome_iff_exists.mp h
    rw [Decode.number_of_count? found]
    exact .count _ (Int.natCast_nonneg _)

theorem typeName_iff : Fits .typeName value ↔ value.isTypeName = true := by
  have known (name : String) :
      name ∈ Form.knownTypes ↔ (InstanceType.ofName? name).isSome = true := by
    have names : Form.knownTypes = InstanceType.all.map InstanceType.name := rfl
    simp [names, InstanceType.ofName?, List.find?_isSome]
  cases value with
  | string name =>
      rw [Json.isTypeName, ← known]
      exact ⟨fun h => by cases h with | typeName known => exact known, .typeName⟩
  | _ => constructor <;> intro h <;> cases h

theorem typeNames_iff : Fits .typeNames value ↔ Keyword.type.takes value = true := by
  have noList {elements : List Json} : ¬Fits .typeName (.array elements) := by
    intro h
    cases h
  cases value with
  | array elements =>
      rw [Keyword.takes, List.all_eq_true]
      constructor
      · intro h e member
        cases h with
        | oneType inner => exact absurd inner noList
        | types each => exact typeName_iff.mp (each e member)
      · intro each
        exact .types fun e member => typeName_iff.mpr (each e member)
  | _ =>
      simp only [Keyword.takes, ← typeName_iff]
      exact ⟨fun h => by cases h with | oneType inner => exact inner, .oneType⟩

theorem textList_iff : Fits .textList value ↔ value.isNameList = true := by
  cases value with
  | array elements =>
      simp only [Json.isNameList, List.all_eq_true, ← text_iff]
      exact ⟨fun h => by cases h with | textList each => exact each, .textList⟩
  | _ => constructor <;> intro h <;> cases h

theorem textListTable_iff :
    Fits .textListTable value ↔ Keyword.dependentRequired.takes value = true := by
  cases value with
  | object members =>
      simp only [Keyword.takes, List.all_eq_true, ← textList_iff]
      exact ⟨fun h => by cases h with | textListTable each => exact each, .textListTable⟩
  | _ => constructor <;> intro h <;> cases h

theorem takes_iff {keyword : Keyword} (named : Keyword.ofName keyword.name = keyword)
    (plain : keyword ∉ Keyword.structural) :
    Fits (.ofKey keyword.name) value ↔ keyword.takes value = true := by
  cases keyword with
  | items | prefixItems | contains | properties | additionalProperties =>
      exact absurd (by decide) plain
  | type => exact typeNames_iff
  | enum | examples => exact list_iff
  | format | pattern | title | description | id | comment => exact text_iff
  | maximum | minimum | multipleOf => exact number_iff
  | exclusiveMaximum | exclusiveMinimum => exact numberOrFlag_iff
  | maxLength | minLength | maxItems | minItems | maxContains | minContains | maxProperties
  | minProperties => exact count_iff
  | uniqueItems | deprecated | readOnly | writeOnly => exact flag_iff
  | required => exact textList_iff
  | dependentRequired => exact textListTable_iff
  | default => exact iff_of_true (.anything value) rfl
  | other key =>
      refine iff_of_true ?_ rfl
      have unknown : Keyword.ofName key = .other key := named
      change Fits (.ofKey key) value
      rw [Form.ofKey_of_unknown unknown]
      exact .anything value

theorem schemaList_iff {elements : List Json} :
    Fits .schemaList (.array elements) ↔ ∀ e ∈ elements, Fits .schema e :=
  ⟨fun h => by cases h with | schemaList each => exact each, .schemaList⟩

theorem schemaTable_iff {members : List (String × Json)} :
    Fits .schemaTable (.object members) ↔ ∀ m ∈ members, Fits .schema m.2 :=
  ⟨fun h => by cases h with | schemaTable each => exact each, .schemaTable⟩

theorem schemaOrList_iff :
    Fits .schemaOrList value ↔ Fits .schemaList value ∨ Fits .schema value := by
  constructor
  · intro h
    cases h with
    | single inner => exact .inr inner
    | several inner => exact .inl inner
  · rintro (inner | inner)
    · exact .several inner
    · exact .single inner

/-- A key is read exactly if its value fits, where this holds of the schemas inside the value. -/
theorem readable_iff (inner : value.Inside fun v => Decode.IsSchema v ↔ Fits .schema v)
    (key : String) : Decode.Readable (Keyword.ofName key) value ↔ Fits (.ofKey key) value := by
  obtain ⟨own, elements, members⟩ := inner
  have schemas : (∃ es, value = .array es ∧ ∀ e ∈ es, Decode.IsSchema e) ↔
      Fits .schemaList value := by
    cases value with
    | array es => simpa [schemaList_iff] using forall₂_congr (elements es rfl)
    | _ => exact iff_of_false (by simp) fun h => by cases h
  have named : (Keyword.ofName key).name = key := Keyword.name_ofName key
  generalize known : Keyword.ofName key = keyword at named
  subst named
  by_cases plain : keyword ∈ Keyword.structural
  · simp only [Keyword.structural, List.mem_cons, List.not_mem_nil, or_false] at plain
    rcases plain with rfl | rfl | rfl | rfl | rfl
    · rw [Decode.readable_items, schemas, own]
      exact schemaOrList_iff.symm
    · rw [Decode.readable_prefixItems]
      exact schemas
    · rw [Decode.readable_contains]
      exact own
    · rw [Decode.readable_properties]
      change _ ↔ Fits .schemaTable value
      cases value with
      | object ms => simpa using (forall₂_congr (members ms rfl)).trans schemaTable_iff.symm
      | _ => exact iff_of_false (by simp) fun h => by cases h
    · rw [Decode.readable_additionalProperties]
      exact own
  · rw [Decode.readable_iff_takes plain, takes_iff known plain]

theorem isSchema_iff_inside (value : Json) :
    value.Inside fun v => Decode.IsSchema v ↔ Fits .schema v := by
  refine Json.rec_inside (fun value inside => ?_) value
  rw [Decode.isSchema_iff, schema_iff]
  refine or_congr_right ?_
  cases value with
  | object members =>
      simp only [Json.object.injEq, exists_eq_left', document_iff]
      exact forall₂_congr fun m member => readable_iff (inside members rfl m member) m.1
  | _ => exact iff_of_false (by simp) fun h => by cases h

end Fits

/-- A document denotes a schema exactly if it is an object in which each key that is recognized
holds a value of its form: a name of a type or a list of them, a text, a number, a flag or a limit,
a count that fits a word, a flag, a list, a list of names or a table of such lists, a sub-schema, a
list or a table of them, or one or several. Where a sub-schema stands, at any depth, it is a
boolean or such an object again; nothing is asked of what a default or a key that is not recognized
holds. -/
theorem Node.decodes_iff_fits (document : Json) :
    (∃ node, decode document = .ok node) ↔ Fits .document document := by
  rw [exists_decode_iff]
  cases document with
  | object members =>
      simp only [Json.object.injEq, exists_eq_left', Fits.document_iff]
      exact forall₂_congr fun m _ => Fits.readable_iff (Fits.isSchema_iff_inside m.2) m.1
  | _ => exact iff_of_false (by simp) fun h => by cases h

end SchemaEvolution
