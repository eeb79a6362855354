import Mathlib
import SchemaEvolution.Proofs.Classification
import SchemaEvolution.Proofs.Forms
import SchemaEvolution.Proofs.Pointers

/-! # Where decoding fails

Decoding stops at the first value of a wrong form, in the order of the document and depth first. Its
error tells a place that leads to that value, or to the list in which it is an element.
-/

namespace SchemaEvolution

namespace Json

/-- What stands at the first place ends before what stands at the second one begins, in the order of
the document and depth first. -/
inductive Precedes : Json → Pointer → Pointer → Prop where
  | beside {value : Json} {token other : String} (place later : Pointer)
      (earlier : other ∈ (value.children.map (·.1)).takeWhile (· ≠ token)) :
      Precedes value (other :: place) (token :: later)
  | inside {value child : Json} {token : String} {place later : Pointer}
      (found : value.child? token = some child) (rest : Precedes child place later) :
      Precedes value (token :: place) (token :: later)

end Json

namespace Form

/-- The form of what a token leads to from a value of the form. -/
def inner : Form → Json → String → Form
  | .document, _, key | .schema, _, key => .ofKey key
  | .schemaList, _, _ | .schemaTable, _, _ | .schemaOrList, .array _, _ => .schema
  | .schemaOrList, _, key => .ofKey key
  | .typeNames, _, _ => .typeName
  | .textList, _, _ => .text
  | .textListTable, _, _ => .textList
  | _, _, _ => .anything

def along (form : Form) (value : Json) : Pointer → Form
  | [] => form
  | token :: rest =>
    match value.child? token with
    | some child => (form.inner value token).along child rest
    | none => .anything

end Form

namespace DecodeError

/-- What the error says of the value that is at fault. -/
def Tells : DecodeError → Json → Prop
  | .notASchema _ actual, value | .invalidKeyword _ _ _ actual, value => actual = value.kind
  | .unknownType _ name, value => value = .string name

/-- What the error says of the value at its place. -/
def Describes : DecodeError → Json → Prop
  | .notASchema _ actual, value =>
    value.members? = none ∧ value.bool? = none ∧ actual = value.kind
  | .invalidKeyword _ keyword _ actual, value =>
    actual = value.kind ∨ keyword ∈ [.type, .required, .dependentRequired] ∧
      ∃ elements, value = .array elements ∧ ∃ e ∈ elements, actual = e.kind
  | .unknownType _ name, value =>
    name ∉ Form.knownTypes ∧
      (value = .string name ∨ ∃ elements, value = .array elements ∧ .string name ∈ elements)

end DecodeError

/-- The error comes from a value of that form at that place: it is about the value itself, about one
of its elements, or about something inside it. What comes before the fault fits. -/
inductive Fault : Form → Json → Pointer → DecodeError → Prop where
  | own {form : Form} {value : Json} {place : Pointer} {error : DecodeError}
      (told : error.place = place) (tells : error.Tells value) (describes : error.Describes value)
      (bad : ¬Fits form value) : Fault form value place error
  | element {form : Form} {value child : Json} {place : Pointer} {error : DecodeError}
      {index : Nat} {before after : List (String × Json)}
      (split : value.children = before ++ (Pointer.positionToken index, child) :: after)
      (earlier : ∀ m ∈ before, Fits (form.inner value m.1) m.2)
      (told : error.place = place) (tells : error.Tells child) (describes : error.Describes value)
      (bad : ¬Fits (form.inner value (Pointer.positionToken index)) child) :
      Fault form value place error
  | inside {form : Form} {value child : Json} {place : Pointer} {error : DecodeError}
      {token : String} {before after : List (String × Json)}
      (split : value.children = before ++ (token, child) :: after)
      (earlier : ∀ m ∈ before, Fits (form.inner value m.1) m.2)
      (rest : Fault (form.inner value token) child (place ++ [token]) error) :
      Fault form value place error

namespace Decode

variable {place : Pointer} {keyword : Keyword} {value : Json} {error : DecodeError}

theorem expect_eq_error_iff {α : Type} {read : Json → Option α} {shape : Shape} :
    expect read shape place keyword value = .error error ↔
      read value = none ∧ error = .invalidKeyword place keyword shape value.kind := by
  unfold expect
  cases read value <;> simp [eq_comm]

theorem readTable_eq_error {α β ε : Type} {read : String → α → Except ε β}
    {table : List (String × β)} {members : List (String × α)} {e : ε}
    (h : readTable read table members = .error e) :
    ∃ before name value after, members = before ++ (name, value) :: after ∧
      (∀ m ∈ before, ∃ found, read m.1 m.2 = .ok found) ∧ read name value = .error e := by
  induction members generalizing table with
  | nil => cases h
  | cons member rest ih =>
      obtain ⟨name, value⟩ := member
      rcases bind_eq_error_iff.mp h with failed | ⟨found, ok, further⟩
      · exact ⟨[], name, value, rest, rfl, List.forall_mem_nil _, failed⟩
      · obtain ⟨before, name', value', after, rfl, earlier, failed⟩ := ih further
        exact ⟨(name, value) :: before, name', value', after, rfl,
          List.forall_mem_cons.mpr ⟨⟨found, ok⟩, earlier⟩, failed⟩

theorem slots_eq_error {index : Nat} {elements : List Json}
    (h : slots place index elements = .error error) :
    ∃ before value after, elements = before ++ value :: after ∧ (∀ e ∈ before, IsSchema e) ∧
      subSchema (place ++ [Pointer.positionToken (index + before.length)]) value =
        .error error := by
  induction elements generalizing index with
  | nil =>
      rw [slots] at h
      cases h
  | cons value rest ih =>
      rw [slots.eq_def] at h
      rcases bind_eq_error_iff.mp h with failed | ⟨sub, decoded, h⟩
      · exact ⟨[], value, rest, rfl, List.forall_mem_nil _, failed⟩
      · obtain ⟨before, value', after, rfl, earlier, failed⟩ := ih (error_of_return h)
        refine ⟨value :: before, value', after, rfl,
          List.forall_mem_cons.mpr ⟨⟨sub, _, decoded⟩, earlier⟩, ?_⟩
        rwa [List.length_cons, ← Nat.add_right_comm, Nat.add_assoc] at *

theorem typeName_eq_error (h : typeName place value = .error error) :
    ¬Fits .typeName value ∧
      ((∃ name, value = .string name ∧ error = .unknownType place name) ∨
        error = .invalidKeyword place .type .string value.kind) := by
  have bad : ¬Fits .typeName value := by
    intro fits
    obtain ⟨type, ok⟩ : ∃ type, typeName place value = .ok type :=
      exists_typeName_iff.mpr (Fits.typeName_iff.mp fits)
    cases h.symm.trans ok
  cases value with
  | string name =>
      rw [typeName] at h
      split at h <;> cases h
      exact ⟨bad, .inl ⟨name, rfl, rfl⟩⟩
  | _ =>
      cases h
      exact ⟨bad, .inr rfl⟩

end Decode

namespace Json

theorem children_array (before : List Json) (e : Json) (after : List Json) :
    ∃ earlier later, (array (before ++ e :: after)).children =
      earlier ++ (Pointer.positionToken before.length, e) :: later ∧
        ∀ m ∈ earlier, m.2 ∈ before := by
  refine ⟨before.mapIdx fun index e => (Pointer.positionToken index, e),
    after.mapIdx fun index e => (Pointer.positionToken (index + 1 + before.length), e), ?_, ?_⟩
  · rw [children, List.mapIdx_append, List.mapIdx_cons, Nat.zero_add]
  · intro m listed
    obtain ⟨index, inside, rfl⟩ := List.mem_mapIdx.mp listed
    exact List.getElem_mem inside

end Json

namespace Fault

variable {form child : Form} {place : Pointer} {error : DecodeError} {value e : Json}
  {before after : List Json}

theorem of_element (lists : ∀ elements token, form.inner (.array elements) token = child)
    (earlier : ∀ x ∈ before, Fits child x) (told : error.place = place) (tells : error.Tells e)
    (describes : error.Describes (.array (before ++ e :: after))) (bad : ¬Fits child e) :
    Fault form (.array (before ++ e :: after)) place error := by
  obtain ⟨first, last, split, each⟩ := Json.children_array before e after
  refine .element split (fun m listed => ?_) told tells describes ?_
  · rw [lists]
    exact earlier m.2 (each m listed)
  · rwa [lists]

theorem of_inside (lists : ∀ elements token, form.inner (.array elements) token = child)
    (earlier : ∀ x ∈ before, Fits child x)
    (rest : Fault child e (place ++ [Pointer.positionToken before.length]) error) :
    Fault form (.array (before ++ e :: after)) place error := by
  obtain ⟨first, last, split, each⟩ := Json.children_array before e after
  refine .inside split (fun m listed => ?_) ?_
  · rw [lists]
    exact earlier m.2 (each m listed)
  · rwa [lists]

theorem of_shape {keyword : Keyword} {shape : Shape}
    (h : error = .invalidKeyword place keyword shape value.kind) (bad : ¬Fits form value) :
    Fault form value place error := by
  subst h
  exact .own rfl rfl (.inl rfl) bad

theorem of_types (h : Decode.types place value = .error error) :
    Fault .typeNames value place error := by
  have bad : ¬Fits .typeNames value := by
    intro fits
    obtain ⟨types, ok⟩ : ∃ types, Decode.types place value = .ok types :=
      Decode.exists_types_iff.mpr (Fits.typeNames_iff.mp fits)
    cases h.symm.trans ok
  cases value with
  | array names =>
      obtain ⟨before, e, after, rfl, earlier, failed⟩ :=
        mapM_eq_error_iff.mp (map_eq_error_iff.mp h)
      obtain ⟨unfit, cause⟩ := Decode.typeName_eq_error failed
      refine of_element (fun _ _ => rfl) (fun x listed => ?_) ?_ ?_ ?_ unfit
      · exact Fits.typeName_iff.mpr (Decode.exists_typeName_iff.mp (earlier x listed))
      · rcases cause with ⟨name, _, rfl⟩ | rfl <;> rfl
      · rcases cause with ⟨name, rfl, rfl⟩ | rfl <;> rfl
      · rcases cause with ⟨name, rfl, rfl⟩ | rfl
        · exact ⟨fun known => unfit (.typeName known), .inr ⟨_, rfl, by simp⟩⟩
        · exact .inr ⟨by simp, _, rfl, e, by simp, rfl⟩
  | string name =>
      obtain ⟨unfit, cause⟩ := Decode.typeName_eq_error (map_eq_error_iff.mp h)
      rcases cause with ⟨name', same, rfl⟩ | rfl
      · cases same
        exact .own rfl rfl ⟨fun known => unfit (.typeName known), .inl rfl⟩ bad
      · exact of_shape rfl bad
  | _ =>
      cases h
      exact of_shape rfl bad

theorem of_nameSet {keyword : Keyword} (lists : keyword ∈ [.type, .required, .dependentRequired])
    (h : Decode.nameSet place keyword value = .error error) :
    Fault .textList value place error := by
  rcases bind_eq_error_iff.mp h with failed | ⟨elements, found, h⟩
  · obtain ⟨none, cause⟩ := Decode.expect_eq_error_iff.mp failed
    refine of_shape cause fun fits => ?_
    cases fits
    cases none
  · obtain rfl := Decode.expect_elements found
    obtain ⟨before, e, after, rfl, earlier, failed⟩ := mapM_eq_error_iff.mp (error_of_return h)
    obtain ⟨none, rfl⟩ := Decode.expect_eq_error_iff.mp failed
    refine of_element (fun _ _ => rfl) (fun x listed => ?_) rfl rfl ?_ ?_
    · exact Fits.text_iff.mpr (Decode.exists_expect_iff.mp (earlier x listed))
    · exact .inr ⟨lists, _, rfl, e, by simp, rfl⟩
    · rw [Fits.text_iff, none]
      exact Bool.false_ne_true

theorem of_nameSets {members : List (String × Json)}
    (h : Decode.nameSets place [] members = .error error) :
    Fault .textListTable (.object members) place error := by
  rw [Decode.nameSets_eq_readTable] at h
  obtain ⟨before, name, value, after, rfl, earlier, failed⟩ := Decode.readTable_eq_error h
  refine .inside rfl (fun m listed => ?_) (of_nameSet (by decide) failed)
  exact Fits.textList_iff.mpr (Decode.exists_nameSet_iff.mp (earlier m listed))

theorem of_facet {facets : Facets} {key : String} (plain : Keyword.ofName key ∉ Keyword.structural)
    (h : Decode.facet facets place (Keyword.ofName key) value = .error error) :
    Fault (.ofKey key) value place error := by
  have named : (Keyword.ofName key).name = key := Keyword.name_ofName key
  have bad : ¬Fits (.ofKey key) value := by
    rw [← Fits.readable_iff (Fits.isSchema_iff_inside value), Decode.readable_iff_takes plain,
      ← Decode.exists_facet_iff place facets]
    rintro ⟨next, ok⟩
    cases h.symm.trans ok
  generalize Keyword.ofName key = keyword at *
  subst named
  have shaped {α : Type} {read : Json → Option α} {shape : Shape} {f : α → Facets}
      (h : (do return f (← Decode.expect read shape place keyword value)) = .error error) :
      Fault (.ofKey keyword.name) value place error :=
    of_shape (Decode.expect_eq_error_iff.mp (error_of_return h)).2 bad
  cases keyword with
  | items | prefixItems | contains | properties | additionalProperties =>
      exact absurd (by decide) plain
  | other name => cases h
  | type => exact of_types (error_of_return h)
  | required => exact of_nameSet (by decide) (error_of_return h)
  | dependentRequired =>
      rcases bind_eq_error_iff.mp h with failed | ⟨members, found, h⟩
      · exact of_shape (Decode.expect_eq_error_iff.mp failed).2 bad
      · have isObject := Decode.expect_eq_ok_iff.mp found
        cases value <;> cases isObject
        exact of_nameSets (error_of_return h)
  | title | description | default | deprecated | readOnly | writeOnly | examples | id | comment =>
      have failed := error_of_return h
      unfold Decode.checkMetadata at failed
      split at failed <;> cases failed
      exact of_shape rfl bad
  | _ => exact shaped h

end Fault

namespace Decode

/-- Why the value of a keyword cannot be read. -/
inductive Refuses (place : Pointer) (keyword : Keyword) (value : Json) : DecodeError → Prop where
  | slot {elements : List Json} {error : DecodeError}
      (holds : keyword = .items ∨ keyword = .prefixItems) (shape : value = .array elements)
      (failed : slots place 0 elements = .error error) : Refuses place keyword value error
  | schema {error : DecodeError}
      (holds : keyword = .items ∧ value.elements? = none ∨ keyword = .contains ∨
        keyword = .additionalProperties)
      (failed : subSchema place value = .error error) : Refuses place keyword value error
  | property {members : List (String × Json)} {error : DecodeError} (holds : keyword = .properties)
      (shape : value = .object members) (failed : properties place [] members = .error error) :
      Refuses place keyword value error
  | noList (holds : keyword = .prefixItems) (shape : value.elements? = none) :
      Refuses place keyword value (.invalidKeyword place .prefixItems .array value.kind)
  | noTable (holds : keyword = .properties) (shape : value.members? = none) :
      Refuses place keyword value (.invalidKeyword place .properties .object value.kind)
  | facet {facets : Facets} {error : DecodeError} (holds : keyword ∉ Keyword.structural)
      (failed : facet facets place keyword value = .error error) : Refuses place keyword value error

/-- A keyword that cannot be read ends the reading. -/
theorem refuses_of_keywords {place : Pointer} {node : Node} {key : String} {value : Json}
    {rest : List (String × Json)} {error : DecodeError}
    (h : keywords place node ((key, value) :: rest) = .error error)
    (unreadable : ¬Readable (Keyword.ofName key) value) :
    Refuses (place ++ [key]) (Keyword.ofName key) value error := by
  rw [keywords.eq_def] at h
  simp only at h
  generalize Keyword.ofName key = keyword at h unreadable ⊢
  -- What fails is a part of the reading: the step after it would make the keyword readable.
  have unread {next : Node} (read : Reads (place ++ [key]) node keyword value next) : False :=
    unreadable ⟨_, _, _, read⟩
  by_cases holds : keyword ∈ Keyword.structural
  · simp only [Keyword.structural, List.mem_cons, List.not_mem_nil, or_false] at holds
    rcases holds with rfl | rfl | rfl | rfl | rfl
    · cases value with
      | array elements =>
          rcases bind_eq_error_iff.mp h with failed | ⟨read, decoded, _⟩
          · exact .slot (.inl rfl) rfl failed
          · exact (unread (.tuple rfl rfl decoded)).elim
      | _ =>
          rcases bind_eq_error_iff.mp h with failed | ⟨read, decoded, _⟩
          · exact .schema (.inl ⟨rfl, rfl⟩) failed
          · exact (unread (.single rfl (by simp) decoded)).elim
    · cases value with
      | array elements =>
          rcases bind_eq_error_iff.mp h with failed | ⟨read, decoded, _⟩
          · exact .slot (.inr rfl) rfl failed
          · exact (unread (.prefixItems rfl rfl decoded)).elim
      | _ =>
          cases h
          exact .noList rfl rfl
    · rcases bind_eq_error_iff.mp h with failed | ⟨read, decoded, _⟩
      · exact .schema (.inr (.inl rfl)) failed
      · exact (unread (.contains rfl decoded)).elim
    · cases value with
      | object members =>
          rcases bind_eq_error_iff.mp h with failed | ⟨read, decoded, _⟩
          · exact .property rfl rfl failed
          · exact (unread (.properties rfl rfl decoded)).elim
      | _ =>
          cases h
          exact .noTable rfl rfl
    · rcases bind_eq_error_iff.mp h with failed | ⟨read, decoded, _⟩
      · exact .schema (.inr (.inr rfl)) failed
      · exact (unread (.additionalProperties rfl decoded)).elim
  · cases keyword
    case items | prefixItems | contains | properties | additionalProperties =>
      exact absurd (by decide) holds
    all_goals
      rcases bind_eq_error_iff.mp h with failed | ⟨facets, decoded, _⟩
      · exact .facet holds failed
      · exact (unread (.facet holds decoded)).elim

/-- Keywords are read in order, up to the first one that cannot be read. -/
theorem keywords_eq_error {place : Pointer} {node : Node} {members : List (String × Json)}
    {error : DecodeError} (h : keywords place node members = .error error) :
    ∃ before key value after, members = before ++ (key, value) :: after ∧
      (∀ m ∈ before, Readable (Keyword.ofName m.1) m.2) ∧
      Refuses (place ++ [key]) (Keyword.ofName key) value error := by
  induction members generalizing node with
  | nil =>
      rw [keywords] at h
      cases h
  | cons member rest ih =>
      obtain ⟨key, value⟩ := member
      by_cases readable : Readable (Keyword.ofName key) value
      · obtain ⟨next, read⟩ := readable.reads (place ++ [key]) node
        rw [keywords_of_reads read] at h
        obtain ⟨before, key', value', after, rfl, earlier, refuses⟩ := ih h
        exact ⟨(key, value) :: before, key', value', after, rfl,
          List.forall_mem_cons.mpr ⟨readable, earlier⟩, refuses⟩
      · exact ⟨[], key, value, rest, rfl, List.forall_mem_nil _, refuses_of_keywords h readable⟩

end Decode

/-- Where a value cannot be read as a sub-schema, it is at fault. -/
def Decode.Faulty (value : Json) : Prop :=
  ∀ place error, subSchema place value = .error error → Fault .schema value place error

namespace Fault

variable {form : Form} {place : Pointer} {error : DecodeError} {value : Json}

theorem of_slots {elements : List Json}
    (lists : ∀ elements token, form.inner (.array elements) token = .schema)
    (faulty : ∀ e ∈ elements, Decode.Faulty e)
    (h : Decode.slots place 0 elements = .error error) :
    Fault form (.array elements) place error := by
  obtain ⟨before, e, after, rfl, earlier, failed⟩ := Decode.slots_eq_error h
  rw [Nat.zero_add] at failed
  refine of_inside lists (fun x listed => ?_) (faulty e (by simp) _ _ failed)
  exact (Fits.isSchema_iff_inside x).own.mp (earlier x listed)

theorem of_properties {members : List (String × Json)}
    (faulty : ∀ m ∈ members, Decode.Faulty m.2)
    (h : Decode.properties place [] members = .error error) :
    Fault .schemaTable (.object members) place error := by
  rw [Decode.properties_eq_readTable] at h
  obtain ⟨before, name, value, after, rfl, earlier, failed⟩ := Decode.readTable_eq_error h
  refine .inside rfl (fun m listed => ?_) (faulty (name, value) (by simp) _ _ failed)
  obtain ⟨sub, decoded⟩ := earlier m listed
  exact (Fits.isSchema_iff_inside m.2).own.mp ⟨sub, _, decoded⟩

theorem single (h : Fault .schema value place error) (noList : value.elements? = none) :
    Fault .schemaOrList value place error := by
  have same (token : String) : Form.inner .schemaOrList value token = .ofKey token := by
    cases value <;> first | rfl | cases noList
  cases h with
  | own told tells describes bad =>
      refine .own told tells describes fun fits => ?_
      rcases Fits.schemaOrList_iff.mp fits with fits | fits
      · cases fits
        cases noList
      · exact bad fits
  | element split earlier told tells describes bad =>
      refine .element split (fun m listed => ?_) told tells describes ?_
      · rw [same]
        exact earlier m listed
      · rwa [same]
  | inside split earlier rest =>
      refine .inside split (fun m listed => ?_) ?_
      · rw [same]
        exact earlier m listed
      · rwa [same]

theorem of_refuses {key : String} (faulty : value.Inside Decode.Faulty)
    (h : Decode.Refuses place (Keyword.ofName key) value error) :
    Fault (.ofKey key) value place error := by
  have named : (Keyword.ofName key).name = key := Keyword.name_ofName key
  cases h with
  | facet holds failed => exact of_facet holds failed
  | slot holds shape failed =>
      subst shape
      rcases holds with same | same <;> rw [same] at named <;> subst named
      · exact of_slots (fun _ _ => rfl) (faulty.elements _ rfl) failed
      · exact of_slots (fun _ _ => rfl) (faulty.elements _ rfl) failed
  | schema holds failed =>
      have own := faulty.own _ _ failed
      rcases holds with ⟨same, noList⟩ | same | same <;> rw [same] at named <;> subst named
      · exact own.single noList
      · exact own
      · exact own
  | property holds shape failed =>
      subst shape
      rw [holds] at named
      subst named
      exact of_properties (faulty.members _ rfl) failed
  | noList holds shape =>
      rw [holds] at named
      subst named
      refine of_shape rfl fun fits => ?_
      cases (show Fits .schemaList value from fits)
      cases shape
  | noTable holds shape =>
      rw [holds] at named
      subst named
      refine of_shape rfl fun fits => ?_
      cases (show Fits .schemaTable value from fits)
      cases shape

theorem of_keywords {members : List (String × Json)} {node : Node}
    (faulty : ∀ m ∈ members, m.2.Inside Decode.Faulty)
    (h : Decode.keywords place node members = .error error) :
    ∃ before key value after, members = before ++ (key, value) :: after ∧
      (∀ m ∈ before, Fits (.ofKey m.1) m.2) ∧
      Fault (.ofKey key) value (place ++ [key]) error := by
  obtain ⟨before, key, value, after, rfl, earlier, refuses⟩ := Decode.keywords_eq_error h
  refine ⟨before, key, value, after, rfl, fun m listed => ?_, ?_⟩
  · exact (Fits.readable_iff (Fits.isSchema_iff_inside m.2) m.1).mp (earlier m listed)
  · exact of_refuses (faulty (key, value) (by simp)) refuses

theorem faulty_inside (value : Json) : value.Inside Decode.Faulty := by
  refine Json.rec_inside (fun value inside place error h => ?_) value
  have unfit : value.members? = none → value.bool? = none → ¬Fits .schema value := by
    intro noObject noFlag fits
    cases fits with
    | always => cases noFlag
    | schema inner =>
        cases inner
        cases noObject
  cases value with
  | bool allowed =>
      rw [Decode.subSchema] at h
      cases h
  | object members =>
      rw [Decode.subSchema, map_eq_error_iff] at h
      obtain ⟨before, key, value, after, rfl, earlier, fault⟩ := of_keywords (inside members rfl) h
      exact .inside rfl earlier fault
  | _ =>
      cases h
      exact .own rfl rfl ⟨rfl, rfl, rfl⟩ (unfit rfl rfl)

theorem ne_anything (h : Fault form value place error) : form ≠ .anything := by
  induction h with
  | own _ _ _ bad =>
      rintro rfl
      exact bad (.anything _)
  | element _ _ _ _ _ bad =>
      rintro rfl
      exact bad (.anything _)
  | inside _ _ _ ih =>
      rintro rfl
      exact ih rfl

end Fault

section First

variable {form : Form} {value child : Json} {token : String}

/-- What fits has only children that fit. -/
theorem Fits.of_child (h : Fits form value) (found : value.child? token = some child) :
    Fits (form.inner value token) child := by
  have element {elements : List Json} (found : (Json.array elements).child? token = some child) :
      child ∈ elements := by
    obtain ⟨index, _, there⟩ := Option.bind_eq_some_iff.mp found
    exact List.mem_of_getElem? there
  induction h with
  | document keys => exact keys _ (NameTable.mem_of_get? found)
  | schema inner =>
      cases inner with
      | document keys => exact keys _ (NameTable.mem_of_get? found)
  | schemaList each | types each | textList each => exact each _ (element found)
  | schemaTable each | textListTable each => exact each _ (NameTable.mem_of_get? found)
  | single inner =>
      cases inner with
      | always => cases found
      | schema inner =>
          cases inner with
          | document keys => exact keys _ (NameTable.mem_of_get? found)
  | several inner =>
      cases inner with
      | schemaList each => exact each _ (element found)
  | oneType inner =>
      cases inner
      cases found
  | always | typeName | text | number | limit | strict | count | flag => cases found
  | list | anything => exact .anything _

theorem Fits.resolve {place : Pointer} {inner : Json} (h : Fits form value)
    (found : value.resolve? place = some inner) : Fits (form.along value place) inner := by
  induction place generalizing form value with
  | nil =>
      cases found
      exact h
  | cons token rest ih =>
      obtain ⟨child, there, further⟩ := Option.bind_eq_some_iff.mp found
      rw [Form.along, there]
      exact ih (h.of_child there) further

/-- At the place stands the first value, in the order of the document and depth first, that does not
fit. -/
structure FirstMisfit (form : Form) (document : Json) (place : Pointer) (value : Json) : Prop where
  found : document.resolve? place = some value
  unfit : ¬Fits (form.along document place) value
  first : ∀ earlier other, document.Precedes earlier place →
    document.resolve? earlier = some other → Fits (form.along document earlier) other

theorem FirstMisfit.here (unfit : ¬Fits form value) : FirstMisfit form value [] value where
  found := rfl
  unfit := unfit
  first _ _ precedes := by cases precedes

theorem mem_of_mem_takeWhile {α : Type} [DecidableEq α] {before after : List α} {a b : α}
    (h : b ∈ (before ++ a :: after).takeWhile (· ≠ a)) : b ∈ before := by
  induction before with
  | nil => simp at h
  | cons first rest ih =>
      rw [List.cons_append, List.takeWhile_cons] at h
      split at h
      · rcases List.mem_cons.mp h with rfl | h
        · exact List.mem_cons_self
        · exact List.mem_cons_of_mem _ (ih h)
      · cases h

theorem FirstMisfit.below {before after : List (String × Json)} {place : Pointer} {misfit : Json}
    (distinct : value.Distinct) (split : value.children = before ++ (token, child) :: after)
    (earlier : ∀ m ∈ before, Fits (form.inner value m.1) m.2)
    (rest : FirstMisfit (form.inner value token) child place misfit) :
    FirstMisfit form value (token :: place) misfit := by
  have there : value.child? token = some child :=
    Json.child?_of_mem_children distinct (by simp [split])
  refine ⟨?_, ?_, fun place' other precedes found => ?_⟩
  · rw [Json.resolve?, there]
    exact rest.found
  · rw [Form.along, there]
    exact rest.unfit
  · cases precedes with
    | beside place' _ listed =>
        obtain ⟨sibling, reached, inside⟩ := Option.bind_eq_some_iff.mp found
        rw [split, List.map_append, List.map_cons] at listed
        obtain ⟨m, member, rfl⟩ := List.mem_map.mp (mem_of_mem_takeWhile listed)
        have same := Json.child?_of_mem_children distinct
          (show (m.1, m.2) ∈ value.children by simp [split, member])
        rw [reached] at same
        cases same
        rw [Form.along, reached]
        exact (earlier m member).resolve inside
    | inside reached precedes =>
        cases there.symm.trans reached
        rw [Json.resolve?, there] at found
        rw [Form.along, there]
        exact rest.first _ other precedes found

/-- The place that an error tells leads to a value of which it speaks, and the first value that does
not fit is that one or one of its elements. -/
theorem Fault.traced {place : Pointer} {error : DecodeError} (h : Fault form value place error)
    (distinct : value.Distinct) :
    ∃ told inner offset misfit, error.place = place ++ told ∧
      value.resolve? told = some inner ∧ error.Describes inner ∧
      (offset = [] ∨ ∃ index, offset = [Pointer.positionToken index]) ∧
      FirstMisfit form value (told ++ offset) misfit ∧ error.Tells misfit := by
  induction h with
  | own told tells describes bad =>
      exact ⟨[], _, [], _, by rw [told, List.append_nil], rfl, describes, .inl rfl, .here bad,
        tells⟩
  | element split earlier told tells describes bad =>
      exact ⟨[], _, [_], _, by rw [told, List.append_nil], rfl, describes, .inr ⟨_, rfl⟩,
        .below distinct split earlier (.here bad), tells⟩
  | @inside form value child place error token before after split earlier rest ih =>
      have listed : (token, child) ∈ value.children := by simp [split]
      have there := Json.child?_of_mem_children distinct listed
      obtain ⟨told, inner, offset, misfit, same, found, describes, offsets, first, tells⟩ :=
        ih (distinct.child listed)
      refine ⟨token :: told, inner, offset, misfit, ?_, ?_, describes, offsets,
        first.below distinct split earlier, tells⟩
      · rw [same, List.append_assoc, List.singleton_append]
      · rw [Json.resolve?, there]
        exact found

end First

/-- Where a document cannot be decoded, the error leads to its first fault. If the text of the
place is that of the root, the document is no object, and the error says so. Otherwise the text
reads as a pointer that leads to a value in the document of which the error speaks: no object and
no boolean where a schema is missing, a value of the kind that is told or a list with an element of
that kind, a text that names no type or a list with that text. The fault is that value or one of
its elements, and nothing that ends before it in the document is of a wrong form. -/
theorem Node.fault_of_decode {document : Json} {error : DecodeError} (distinct : document.Distinct)
    (failed : decode document = .error error) :
    (error.place.text = "/" →
      (∃ actual, error = .notASchema [] actual) ∧ document.members? = none) ∧
    (error.place.text ≠ "/" → ∃ pointer value, Pointer.ofText? error.place.text = some pointer ∧
      document.resolve? pointer = some value ∧ error.Describes value) ∧
    ∃ fault value,
      (fault = error.place ∨ ∃ index, fault = error.place ++ [Pointer.positionToken index]) ∧
      FirstMisfit .document document fault value ∧ error.Tells value := by
  rw [ne_eq, Pointer.text_eq_root_iff]
  cases document with
  | object members =>
      obtain ⟨before, key, value, after, rfl, earlier, fault⟩ :=
        Fault.of_keywords (fun m _ => Fault.faulty_inside m.2) failed
      have listed : (key, value) ∈ before ++ (key, value) :: after := by simp
      obtain ⟨told, inner, offset, misfit, same, found, describes, offsets, first, tells⟩ :=
        fault.traced (distinct.child listed)
      -- An empty key may hold anything, so that no fault is told where the root is.
      have named : key ≠ "" := by
        rintro rfl
        exact fault.ne_anything rfl
      have place : error.place = key :: told := same
      rw [place]
      refine ⟨fun root => ?_, fun _ => ?_, key :: (told ++ offset), misfit, ?_,
        first.below distinct rfl earlier, tells⟩
      · simp [named] at root
      · refine ⟨_, inner, Pointer.ofText?_text (List.cons_ne_nil _ _), ?_, describes⟩
        rw [Json.resolve?, Json.child?_of_mem_children distinct listed]
        exact found
      · rcases offsets with rfl | ⟨index, rfl⟩
        · exact .inl (by rw [List.append_nil])
        · exact .inr ⟨index, rfl⟩
  | _ =>
      cases failed
      refine ⟨fun _ => ⟨⟨_, rfl⟩, rfl⟩, fun below => absurd (.inl rfl) below,
        [], _, .inl rfl, .here fun fits => ?_, rfl⟩
      cases fits

/-- A slash in the name of a property is escaped in the place of an error, and an error about a name
in a list leads to the list. -/
theorem Node.fault_of_decode_unknown_type :
    let list : Json := .array [.string "string", .string "strin"]
    let document : Json :=
      .object [("properties", .object [("a/b", .object [("type", list)])]), ("title", .null)]
    let error : DecodeError := .unknownType ["properties", "a/b", "type"] "strin"
    document.Distinct ∧ decode document = .error error ∧
      error.place.text = "/properties/a~1b/type" ∧
      (∃ pointer value, Pointer.ofText? error.place.text = some pointer ∧
        document.resolve? pointer = some value ∧ error.Describes value) ∧
      ∃ fault value,
        (fault = error.place ∨ ∃ index, fault = error.place ++ [Pointer.positionToken index]) ∧
        FirstMisfit .document document fault value ∧ error.Tells value := by
  intro list document error
  have distinct : document.Distinct := by decide
  have failed : decode document = .error error := rfl
  have text : error.place.text = "/properties/a~1b/type" := by decide
  obtain ⟨_, reads, first⟩ := fault_of_decode distinct failed
  exact ⟨distinct, failed, text, reads (by simp [text]), first⟩

end SchemaEvolution
