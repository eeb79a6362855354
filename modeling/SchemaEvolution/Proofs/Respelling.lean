import Mathlib
import SchemaEvolution.Proofs.Spelling
import SchemaEvolution.Proofs.Twins
import SchemaEvolution.Proofs.Values

/-! # Spellings of one schema

Documents whose keywords say the same denote twins, so a schema may be spelled in any way before it
is compared: the spellings have no difference, and a release between two documents has the severity,
the next version and the error of a release between any spellings of them.
-/

namespace SchemaEvolution

theorem Json.mem_names_iff {argument : Json} {name : String} :
    name ∈ argument.names ↔ .string name ∈ argument.entries := by
  cases argument with
  | array elements =>
      simp only [Json.names, Json.entries, List.mem_filterMap]
      constructor
      · rintro ⟨element, listed, isString⟩
        cases element <;> cases isString
        exact listed
      · exact fun listed => ⟨_, listed, rfl⟩
  | _ => simp [Json.names, Json.entries]

theorem Json.SameEntries.mem_names {u v : Json} (h : u.SameEntries v) (name : String) :
    name ∈ u.names ↔ name ∈ v.names := by
  obtain ⟨same⟩ := h
  rw [mem_names_iff, mem_names_iff]
  exact same (.string name)

theorem Diff.mem_dependentPairs_iff {table : List (String × NameSet)}
    (ordered : NameTable.Ordered table) {pair : String × String} :
    pair ∈ dependentPairs table ↔
      ∃ names, NameTable.get? pair.1 table = some names ∧ pair.2 ∈ names := by
  simp only [mem_dependentPairs, NameTable.get?_eq_some_iff ordered.nodup]

namespace Keyword

theorem ofName_name_of_compound {keyword : Keyword} (held : keyword ∈ Keyword.type :: compound) :
    ofName keyword.name = keyword :=
  (show ∀ keyword ∈ Keyword.type :: compound, ofName keyword.name = keyword by decide) keyword held

theorem compared_of_compound {keyword : Keyword} (held : keyword ∈ Keyword.type :: compound)
    (argument : Option Json) : keyword.compared argument = none := by
  simp only [compound, List.mem_cons, List.not_mem_nil, or_false] at held
  rcases held with rfl | rfl | rfl | rfl | rfl | rfl | rfl | rfl | rfl <;> rfl

theorem agree_compared (keyword : Keyword) {argument other : Option Json}
    (h : Option.Rel Json.Reordered argument other)
    (distinct : ∀ value, argument = some value → value.Distinct) :
    Json.Agree (keyword.compared argument) (keyword.compared other) := by
  cases h with
  | none =>
      cases keyword <;> first | exact .none | exact .some rfl
  | @some u v reordered =>
      have equal := reordered.equivalent (distinct u rfl)
      cases keyword
      case exclusiveMaximum | exclusiveMinimum =>
        cases u with
        | bool strict =>
            cases reordered
            cases strict
            · exact .none
            · exact .some equal
        | array | object => cases reordered <;> exact .some equal
        | _ =>
            cases reordered
            exact .some equal
      all_goals first | exact .none | exact .some equal

end Keyword

namespace Node

namespace ReadFrom

variable {node : Node} {members : List (String × Json)} (read : node.ReadFrom members)

include read

theorem readable {keyword : Keyword} (named : Keyword.ofName keyword.name = keyword)
    {argument : Json} (found : NameTable.get? keyword.name members = some argument) :
    Decode.Readable keyword argument := by
  obtain ⟨place, decoded⟩ := read.decoded
  have each := (Decode.exists_keywords_iff _ _).mp ⟨_, decoded⟩ _ (NameTable.mem_of_get? found)
  rwa [named] at each

theorem respells_self {S : Json → Json → Prop} (own : ∀ u, Decode.IsSchema u → S u u)
    {keyword : Keyword} (named : Keyword.ofName keyword.name = keyword) :
    Option.Rel (keyword.Respells S) (NameTable.get? keyword.name members)
      (NameTable.get? keyword.name members) :=
  optionRel_refl fun _ found =>
    .refl (read.readable named found) ⟨own _, fun _ _ _ _ => own _, fun _ _ _ _ => own _⟩

theorem constrains_of_declared {kind : Family}
    (declared : ∀ argument, NameTable.get? "type" members = some argument →
      (argument.names.any fun name =>
        (InstanceType.ofName? name).bind InstanceType.family? == some kind) = true) :
    node.constrains kind = true := by
  have types := read.types
  unfold Facets.constrains
  generalize NameTable.get? "type" members = argument, node.types = types at types declared
  cases types with
  | none => rfl
  | some decoded =>
      obtain ⟨place, decoded⟩ := decoded
      obtain ⟨name, named, same⟩ := List.any_eq_true.mp (declared _ rfl)
      obtain ⟨type, known, constrained⟩ := Option.bind_eq_some_iff.mp (beq_iff_eq.mp same)
      have listed := (Decode.mem_types decoded type).mpr ⟨name, named, known⟩
      simp only [Bool.or_eq_true, List.any_eq_true]
      exact .inr ⟨type, listed, by simp [constrained]⟩

end ReadFrom

variable {S : Json → Json → Prop} {a b : Node} {as bs : List (String × Json)}
  (left : a.ReadFrom as) (right : b.ReadFrom bs)
  (same : ∀ keyword ∈ Keyword.type :: Keyword.compound,
    Option.Rel (keyword.Respells S) (NameTable.get? keyword.name as)
      (NameTable.get? keyword.name bs))

include left right same

theorem types_of_respells : a.types = b.types := by
  rw [Diff.types_eq_iff left.accepted.regular right.accepted.regular]
  refine optionRel_square (same .type (by decide)) left.types right.types ?_
  rintro u v s t _ _ respells ⟨_, ha⟩ ⟨_, hb⟩ type
  simp only [Decode.mem_types ha, Decode.mem_types hb, Json.mem_names_iff,
    Keyword.respells_type respells]

theorem enumeration_of_respells : Option.Rel Facets.SameOptions a.enumeration b.enumeration := by
  refine optionRel_square (same .enum (by decide)) left.enumeration right.enumeration ?_
  rintro _ _ options options' found found' respells rfl rfl
  obtain ⟨_, _, ⟨⟩, ⟨⟩, kept, known⟩ := Keyword.respells_enum respells
  have before := left.accepted.regular.enumeration _ found
  have after := right.accepted.regular.enumeration _ found'
  refine ⟨fun x member => ?_, fun y member => ?_⟩
  · obtain ⟨y, listed, reordered⟩ := kept x member
    exact ⟨y, listed, Json.equivalent_symm (before x member) (after y listed)
      (reordered.equivalent (before x member))⟩
  · obtain ⟨x, listed, reordered⟩ := known y member
    exact ⟨x, listed, reordered.equivalent (before x listed)⟩

/-- The values of all keywords agree if those do that the documents leave to be compared. -/
theorem values_of_compared
    (each : ∀ keyword : Keyword, Keyword.ofName keyword.name = keyword →
      keyword ∉ Keyword.type :: Keyword.compound →
        Json.Agree (keyword.compared (NameTable.get? keyword.name as))
          (keyword.compared (NameTable.get? keyword.name bs)))
    (keyword : Keyword) : Json.Agree (a.valueOf keyword) (b.valueOf keyword) := by
  refine rel_valueOf left right ?_ .none (fun keyword named => ?_) keyword
  · have types : a.valueOf .type = b.valueOf .type := by
      rw [Facets.valueOf, Facets.valueOf, types_of_respells left right same]
    rw [types]
    exact Facets.agree_refl fun _ => right.accepted.regular.valueOf
  by_cases held : keyword ∈ Keyword.type :: Keyword.compound
  · rw [Keyword.compared_of_compound held, Keyword.compared_of_compound held]
    exact .none
  · exact each keyword named held

theorem required_of_respells (name : String) : name ∈ a.required ↔ name ∈ b.required := by
  have rel := same .required (by decide)
  rw [show Keyword.required.name = "required" from rfl] at rel
  rw [left.required_getD, right.required_getD, NameSet.mem_ofList, NameSet.mem_ofList]
  generalize NameTable.get? "required" as = u, NameTable.get? "required" bs = v at rel
  cases rel with
  | none => rfl
  | some respells => exact (Keyword.respells_required respells).mem_names name

theorem dependentRequired_of_respells (pair : String × String) :
    pair ∈ Diff.dependentPairs a.dependentRequired ↔
      pair ∈ Diff.dependentPairs b.dependentRequired := by
  have rel := same .dependentRequired (by decide)
  rw [show Keyword.dependentRequired.name = "dependentRequired" from rfl] at rel
  obtain ⟨ordered, table, read, each⟩ := left.dependentRequired_getD
  obtain ⟨ordered', table', read', each'⟩ := right.dependentRequired_getD
  have once : (NameTable.names table).Nodup := by
    have empty : (Json.object []).Distinct := by decide
    have distinct := left.distinct_getD empty "dependentRequired"
    exact (read ▸ distinct).names
  have members : Json.Shuffled (fun _ => Json.SameEntries) table table' := by
    generalize NameTable.get? "dependentRequired" as = u,
      NameTable.get? "dependentRequired" bs = v at rel read read'
    cases rel with
    | none =>
        cases read
        cases read'
        exact .nil
    | some respells =>
        obtain ⟨_, _, rfl, rfl, members⟩ := Keyword.respells_dependentRequired respells
        cases read
        cases read'
        exact members
  have names := members.get? once pair.1
  rw [Diff.mem_dependentPairs_iff ordered, Diff.mem_dependentPairs_iff ordered', each, each']
  generalize NameTable.get? pair.1 table = s, NameTable.get? pair.1 table' = t at names
  cases names with
  | none => simp
  | some entries => simp [NameSet.mem_ofList, entries.mem_names pair.2]

variable (forms : ∀ {u v}, S u v → u.SameForm v)

include forms

theorem items_of_respells (flags : ∀ allowed, S (.bool allowed) (.bool allowed)) :
    Option.Rel (Items.Like (Over S)) a.effectiveItems b.effectiveItems := by
  have rel := same .items (by decide)
  rw [show Keyword.items.name = "items" from rfl] at rel
  refine effectiveItems_over left right forms ?_
  generalize NameTable.get? "items" as = u, NameTable.get? "items" bs = v at rel
  cases rel with
  | none => exact .inl (flags true)
  | some respells => exact Keyword.respells_items respells

theorem prefixItems_of_respells :
    Option.Rel (List.Forall₂ (SubSchema.Like (Over S))) a.prefixItems b.prefixItems :=
  prefixItems_over left right forms <|
    optionRel_imp_of_eq (same .prefixItems (by decide)) fun _ _ _ _ => Keyword.respells_prefixItems

theorem contains_of_respells : Option.Rel (SubSchema.Like (Over S)) a.contains b.contains :=
  contains_over left right forms <| optionRel_imp_of_eq (same .contains (by decide)) fun _ _ _ _ =>
    Keyword.respells_contains

theorem additionalProperties_of_respells (flags : ∀ allowed, S (.bool allowed) (.bool allowed)) :
    SubSchema.Like (Over S) a.additionalProperties b.additionalProperties := by
  have rel := same .additionalProperties (by decide)
  rw [show Keyword.additionalProperties.name = "additionalProperties" from rfl] at rel
  refine additionalProperties_over left right forms ?_
  generalize NameTable.get? "additionalProperties" as = u,
    NameTable.get? "additionalProperties" bs = v at rel
  cases rel with
  | none => exact flags true
  | some respells => exact Keyword.respells_additionalProperties respells

theorem properties_of_respells (name : String) :
    Option.Rel (SubSchema.Like (Over S)) (NameTable.get? name a.properties)
      (NameTable.get? name b.properties) := by
  have rel := same .properties (by decide)
  rw [show Keyword.properties.name = "properties" from rfl] at rel
  have distinct : ∀ value, NameTable.get? "properties" as = some value → value.Distinct :=
    fun _ found => left.distinct.member (NameTable.mem_of_get? found)
  refine properties_over left right forms name ?_
  generalize NameTable.get? "properties" as = u, NameTable.get? "properties" bs = v
    at rel distinct
  cases rel with
  | none => exact .none
  | some respells =>
      obtain ⟨_, _, rfl, rfl, members⟩ := Keyword.respells_properties respells
      exact members.get? (distinct _ rfl).names name

/-- Schemas are twins if the keywords that hold several things say the same, and what is compared of
the others agrees. -/
theorem twin_of_compared (flags : ∀ allowed, S (.bool allowed) (.bool allowed))
    (each : ∀ keyword : Keyword, Keyword.ofName keyword.name = keyword →
      keyword ∉ Keyword.type :: Keyword.compound →
        Json.Agree (keyword.compared (NameTable.get? keyword.name as))
          (keyword.compared (NameTable.get? keyword.name bs))) : a.Twin (Node.Over S) b where
  types := types_of_respells left right same
  enumeration := enumeration_of_respells left right same
  values := values_of_compared left right same each
  items := items_of_respells left right same forms flags
  prefixItems := prefixItems_of_respells left right same forms
  contains := contains_of_respells left right same forms
  properties := properties_of_respells left right same forms
  required := required_of_respells left right same
  additionalProperties := additionalProperties_of_respells left right same forms flags
  dependentRequired := dependentRequired_of_respells left right same

omit same in
theorem twin_of_respells
    (same : ∀ keyword : Keyword, Keyword.ofName keyword.name = keyword →
      Option.Rel (keyword.Respells S) (NameTable.get? keyword.name as)
        (NameTable.get? keyword.name bs))
    (flags : ∀ allowed, S (.bool allowed) (.bool allowed)) : a.Twin (Node.Over S) b := by
  refine twin_of_compared left right
    (fun keyword held => same keyword (Keyword.ofName_name_of_compound held)) forms flags
    fun keyword named held => ?_
  refine keyword.agree_compared (optionRel_imp_of_eq (same keyword named) ?_) ?_
  · intro u v _ _ respells
    exact Keyword.respells_of_simple held respells
  · intro u found
    exact left.distinct.member (NameTable.mem_of_get? found)

end Node

section Spellings

variable {a a' b b' : Json} {x x' y y' : Node}

theorem twins_respelled : Node.Twins (Node.Over Json.Respelled) where
  left h := h.left
  right h := h.right
  twin h := by
    obtain ⟨as, left⟩ := Node.ReadFrom.of_accepted h.left
    obtain ⟨bs, right⟩ := Node.ReadFrom.of_accepted h.right
    have step := h.documents.step
    rw [left.source, right.source] at step
    cases step with
    | schema members =>
        refine Node.twin_of_respells left right Json.Respelled.sameForm (fun keyword named => ?_)
          fun allowed => .intro (.flag allowed)
        have held := members.get? left.distinct.names keyword.name
        rwa [named] at held

theorem over_of_respelled (da : a.Distinct) (ha : Node.decode a = .ok x) (h : a.Respelled a')
    (ha' : Node.decode a' = .ok x') : Node.Over Json.Respelled x x' where
  left := Node.accepted_of_decode da ha
  right := Node.accepted_of_decode (h.distinct da) ha'
  documents := by
    rw [Node.source_of_decode ha, Node.source_of_decode ha']
    exact h

/-- Other spellings of documents that denote schemas denote schemas too, which differ in nothing,
and for every rules and version a release between the spellings has the same severity and next
version, or fails with the same error. -/
theorem compare_respelled (da : a.Distinct) (db : b.Distinct) (ha : Node.decode a = .ok x)
    (hb : Node.decode b = .ok y) (respelled : a.Respelled a') (respelled' : b.Respelled b') :
    a'.Distinct ∧ b'.Distinct ∧ ∃ x' y', Node.decode a' = .ok x' ∧ Node.decode b' = .ok y' ∧
      x.diff x' = [] ∧ ∀ engine version,
        (fun release => (release.severity, release.next)) <$> Release.compare engine a' b' version =
          (fun release => (release.severity, release.next)) <$>
            Release.compare engine a b version := by
  obtain ⟨x', ha'⟩ := Node.exists_decode_of_sameForm ha respelled.sameForm respelled.isSchema
  obtain ⟨y', hb'⟩ := Node.exists_decode_of_sameForm hb respelled'.sameForm respelled'.isSchema
  have old := over_of_respelled da ha respelled ha'
  have new := over_of_respelled db hb respelled' hb'
  refine ⟨respelled.distinct da, respelled'.distinct db, x', y', ha', hb',
    Diff.diff_eq_nil_of_twins twins_respelled old, ?_⟩
  intro engine version
  rw [Release.compare_conclude ha hb, Release.compare_conclude ha' hb',
    Diff.verdict_diff_twins twins_respelled old new]

/-- A type in brackets and requirements in another order, twice, before a property comes. -/
theorem compare_respelled_person :
    let old := Json.object [("type", .string "object"),
      ("required", .array [.string "name", .string "age"])]
    let old' := Json.object [("required", .array [.string "age", .string "name", .string "age"]),
      ("type", .array [.string "object"])]
    let new := Json.object [("properties", .object [("name", .bool true), ("age", .object [])])]
    let new' := Json.object [("properties", .object [("age", .object []), ("name", .bool true)])]
    ∃ x y, Node.decode old = .ok x ∧ Node.decode old' = .ok y ∧ x.diff y = [] ∧
      ∀ engine version,
        (fun release => (release.severity, release.next)) <$>
            Release.compare engine old' new' version =
          (fun release => (release.severity, release.next)) <$>
            Release.compare engine old new version := by
  intro old old' new new'
  have first : old.Respelled old' := by
    refine .intro (.schema (@Json.Shuffled.cons _ "type" _ _ _ [("required", _)] [] ?_
      (@Json.Shuffled.cons _ "required" _ _ _ [] [] ?_ .nil)))
    · exact .type (by simp [Json.entries])
    · exact .required (.intro (by simp [or_comm]))
  have second : new.Respelled new' := by
    refine .intro (.schema (@Json.Shuffled.cons _ "properties" _ _ _ [] [] ?_ .nil))
    refine .properties (@Json.Shuffled.cons _ "name" _ _ _ [("age", _)] [] (.intro (.flag true)) ?_)
    exact @Json.Shuffled.cons _ "age" _ _ _ [] [] (.intro (.schema .nil)) .nil
  have distinct : old.Distinct ∧ new.Distinct := by decide
  obtain ⟨-, -, x', y', ha', hb', unchanged, outcome⟩ :=
    compare_respelled distinct.1 distinct.2 rfl rfl first second
  exact ⟨_, x', rfl, ha', unchanged, outcome⟩

end Spellings

end SchemaEvolution
