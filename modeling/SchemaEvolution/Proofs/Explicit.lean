import Mathlib
import SchemaEvolution.Proofs.Copies
import SchemaEvolution.Proofs.Defaults

/-! # Written defaults leave no trace

A schema that writes defaults has no difference to the one that leaves them out. Compared with any
third schema both tell the same changes in the same order, from the same places and with the same
severities; only where a change repeats a schema, the written defaults stand in it.
-/

namespace SchemaEvolution

namespace Node

section Writes

variable {S : Json → Json → Prop} {a b : Node} {as bs : List (String × Json)}
  (left : a.ReadFrom as) (right : b.ReadFrom bs)
  (writes : ∀ keyword : Keyword, Keyword.ofName keyword.name = keyword →
    keyword.Writes S (NameTable.get? keyword.name as) (NameTable.get? keyword.name bs))

include left right writes

theorem types_of_writes : a.types = b.types := by
  have same : NameTable.get? "type" as = NameTable.get? "type" bs :=
    (writes .type rfl).eq_of_required (by decide) (by decide)
  have second := right.types
  rw [← same] at second
  refine optionRel_unique left.types second ?_
  rintro argument types types' ⟨place, decoded⟩ ⟨place', decoded'⟩
  have decoded := Decode.Placeless.types argument place place' types decoded
  exact Except.ok.inj (decoded.symm.trans decoded')

theorem enumeration_of_writes : a.enumeration = b.enumeration := by
  have same : NameTable.get? "enum" as = NameTable.get? "enum" bs :=
    (writes .enum rfl).eq_of_required (by decide) (by decide)
  have second := right.enumeration
  rw [← same] at second
  refine optionRel_unique left.enumeration second ?_
  intro argument options options' listed listed'
  exact Json.array.inj (listed.symm.trans listed')

theorem values_of_writes (keyword : Keyword) : a.valueOf keyword = b.valueOf keyword := by
  refine rel_valueOf left right ?_ rfl (fun keyword named => ?_) keyword
  · rw [Facets.valueOf, Facets.valueOf, types_of_writes left right writes]
  · exact (writes keyword named).compared named

theorem required_of_writes : a.required = b.required := by
  have known : ("required", Json.array []) ∈ Json.defaults := by simp [Json.defaults]
  have held := (writes .required rfl).getD known (.plain (by decide))
  rw [left.required_getD, right.required_getD]
  exact congrArg (fun argument => NameSet.ofList (Json.names argument))
    (Keyword.eq_of_spellsOut (by decide) held)

theorem dependentRequired_of_writes : a.dependentRequired = b.dependentRequired := by
  have known : ("dependentRequired", Json.object []) ∈ Json.defaults := by simp [Json.defaults]
  have held := (writes .dependentRequired rfl).getD known (.plain (by decide))
  have same := Keyword.eq_of_spellsOut (by decide) held
  obtain ⟨ordered, table, read, each⟩ := left.dependentRequired_getD
  obtain ⟨ordered', table', read', each'⟩ := right.dependentRequired_getD
  obtain rfl : table = table' := Json.object.inj (read.symm.trans (same.trans read'))
  have entries := NameTable.forall₂_of_get? ordered ordered' fun name => by
    rw [each, each']
    exact optionRel_refl fun _ _ => Eq.refl _
  exact List.forall₂_eq_eq_eq ▸ entries.imp fun _ _ equal => Prod.ext equal.1 equal.2

variable (forms : ∀ {u v}, S u v → u.SameForm v)
  (flags : ∀ allowed, S (.bool allowed) (.bool allowed))

include forms flags

theorem elements_of_writes : a.ElementsLike (Over S) b where
  items := by
    have known : ("items", Json.bool true) ∈ Json.defaults := by simp [Json.defaults]
    have held := (writes .items rfl).getD known (.schema (.inl rfl) (flags true))
    exact effectiveItems_over left right forms (Keyword.spellsOut_items held)
  prefixItems := by
    have held := (writes .prefixItems rfl).kept_of (by decide)
    exact prefixItems_over left right forms
      (optionRel_imp_of_eq held fun _ _ _ _ => Keyword.spellsOut_prefixItems)
  contains := by
    have held := (writes .contains rfl).kept_of (by decide)
    exact contains_over left right forms
      (optionRel_imp_of_eq held fun _ _ _ _ => Keyword.spellsOut_contains)

omit flags in
theorem properties_of_writes (name : String) :
    Option.Rel (SubSchema.Like (Over S)) (NameTable.get? name a.properties)
      (NameTable.get? name b.properties) := by
  have known : ("properties", Json.object []) ∈ Json.defaults := by simp [Json.defaults]
  have held := (writes .properties rfl).getD known (.properties .nil)
  obtain ⟨schemas, schemas', found, found', members⟩ := Keyword.spellsOut_properties held
  have found' : (NameTable.get? "properties" bs).getD (.object []) = .object schemas' := found'
  have once : (NameTable.names schemas').Nodup := by
    have distinct := right.distinct_getD (Json.distinct_of_defaults known) "properties"
    exact (found' ▸ distinct).names
  refine properties_over left right forms name ?_
  rcases members.get? once name with related | ⟨_, _, known, _⟩
  · rw [show (NameTable.get? "properties" as).getD (.object []) = .object schemas from found,
      found']
    exact related
  · cases known

theorem members_of_writes : a.MembersLike (Over S) b where
  properties := properties_of_writes left right writes forms
  required name := by rw [required_of_writes left right writes]
  additionalProperties := by
    have known : ("additionalProperties", Json.bool true) ∈ Json.defaults := by
      simp [Json.defaults]
    have held := (writes .additionalProperties rfl).getD known
      (.schema (.inr (.inr rfl)) (flags true))
    exact additionalProperties_over left right forms (Keyword.spellsOut_additionalProperties held)
  dependentRequired pair := by rw [dependentRequired_of_writes left right writes]

theorem same_of_writes : a.Same (Over S) b where
  toElementsLike := elements_of_writes left right writes forms flags
  toMembersLike := members_of_writes left right writes forms flags
  types := types_of_writes left right writes
  enumeration := enumeration_of_writes left right writes
  values := values_of_writes left right writes
  table := dependentRequired_of_writes left right writes

end Writes

end Node

/-- What the walk repeats of a keyword is the same, or the schemas inside write some defaults. -/
inductive Keyword.Echoes : Keyword → Json → Json → Prop where
  | same {keyword : Keyword} (value : Json) : Echoes keyword value value
  | schema {keyword : Keyword} {a b : Json} (place : keyword ∈ Keyword.places)
      (written : a.SpelledOut b) : Echoes keyword a b
  | tuple {keyword : Keyword} {as bs : List Json}
      (holds : keyword = .items ∨ keyword = .prefixItems)
      (written : List.Forall₂ Json.SpelledOut as bs) : Echoes keyword (.array as) (.array bs)
  | position {keyword : Keyword} {a b : Json} (index : Nat)
      (holds : keyword = .items ∨ keyword = .prefixItems) (written : a.SpelledOut b) :
      Echoes keyword (.object [("position", .ofPosition index), ("schema", a)])
        (.object [("position", .ofPosition index), ("schema", b)])

theorem Keyword.Echoes.akin {keyword : Keyword} {a b : Json} (h : keyword.Echoes a b) :
    a.Akin b := by
  cases h with
  | same => exact .refl _
  | schema _ written =>
      cases written.sameForm with
      | flag allowed => exact .bool allowed
      | object as bs => exact .object as bs
  | tuple => exact .array _ _
  | position => exact .object _ _

namespace Node

theorem spelledOut_toJson {a b : SubSchema} (h : SubSchema.Like (Over Json.SpelledOut) a b) :
    a.toJson.SpelledOut b.toJson := by
  cases h with
  | flag allowed => exact .intro (.flag allowed)
  | schema inner => exact inner.documents

/-- A schema and the same one with defaults written have the same value for every keyword. -/
theorem copies_spelledOut : Copies Keyword.Echoes (Over Json.SpelledOut) where
  left h := h.left
  right h := h.right
  same h := by
    obtain ⟨as, left⟩ := ReadFrom.of_accepted h.left
    obtain ⟨bs, right⟩ := ReadFrom.of_accepted h.right
    have written := h.documents
    rw [left.source, right.source] at written
    exact same_of_writes left right (fun _ => written.writes) Json.SpelledOut.sameForm
      fun allowed => .intro (.flag allowed)
  echoed :=
    { schema := fun place like => .schema place (spelledOut_toJson like)
      tuple := fun holds like => .tuple holds <| by
        rw [List.forall₂_map_left_iff, List.forall₂_map_right_iff]
        exact like.imp fun _ _ => spelledOut_toJson
      position := fun index holds like => .position index holds (spelledOut_toJson like) }

end Node

section Documents

variable {a a' : Json} {x : Node}

/-- Two lists of changes that tell the same from the same places, up to defaults written in the
schemas that they repeat, and that every rules classify alike. -/
def Change.ToldAlike : List Change → List Change → Prop :=
  List.Forall₂ fun change other => change.Matched Keyword.Echoes other ∧
    ∀ engine : RuleEngine, engine.classify change = engine.classify other

theorem Change.toldAlike_of_copies {R S : Node → Node → Prop}
    (before : Node.Copies Keyword.Echoes R) (after : Node.Copies Keyword.Echoes S)
    {x x' y y' : Node} (old : R x x') (new : S y y') :
    Change.ToldAlike (x.diff y) (x'.diff y') := by
  have matched := Diff.matched_diff
    (fun old new => Diff.paired_findings (fun _ => .same) before after old new) old new
  refine matched.imp fun change other told => ⟨told, fun engine => ?_⟩
  exact engine.classify_akin (told.imp fun _ _ _ => Keyword.Echoes.akin)

/-- A document with defaults written where their keywords are absent, at any schemas inside,
denotes a schema that has no difference to the former one, and compared with any third schema, in
either direction, both tell the same changes in the same order with the same outcome for each. -/
theorem diff_spelledOut (da : a.Distinct) (ha : Node.decode a = .ok x) (written : a.SpelledOut a') :
    a'.Distinct ∧ ∃ x', Node.decode a' = .ok x' ∧ x.diff x' = [] ∧
      ∀ b y, b.Distinct → Node.decode b = .ok y →
        Change.ToldAlike (x.diff y) (x'.diff y) ∧ Change.ToldAlike (y.diff x) (y.diff x') := by
  obtain ⟨x', ha'⟩ := Node.exists_decode_of_sameForm ha written.sameForm written.isSchema
  have distinct := written.distinct da
  have both : Node.Over Json.SpelledOut x x' :=
    { left := Node.accepted_of_decode da ha
      right := Node.accepted_of_decode distinct ha'
      documents := by rwa [Node.source_of_decode ha, Node.source_of_decode ha'] }
  have silent := Diff.diff_eq_nil_of_twins Node.copies_spelledOut.twins both
  refine ⟨distinct, x', ha', silent, fun b y db hb => ?_⟩
  have third : y.Accepted ∧ y = y := ⟨Node.accepted_of_decode db hb, rfl⟩
  exact ⟨Change.toldAlike_of_copies Node.copies_spelledOut (Node.copies_self fun _ => .same) both third,
    Change.toldAlike_of_copies (Node.copies_self fun _ => .same) Node.copies_spelledOut third both⟩

/-- Defaults in the schema of a property and around it, before the property goes. -/
theorem diff_spelledOut_tags :
    let plain := Json.object [("type", .string "object"),
      ("properties", .object [("tags", .object [("type", .string "array")])])]
    let explicit := Json.object [("type", .string "object"), ("required", .array []),
      ("properties", .object [("tags", .object [("items", .bool true),
        ("type", .string "array")])]), ("additionalProperties", .bool true)]
    let third := Json.object [("additionalProperties", .bool false)]
    ∃ x x' y, Node.decode plain = .ok x ∧ Node.decode explicit = .ok x' ∧
      Node.decode third = .ok y ∧ x.diff x' = [] ∧ (x.diff y).length = 3 ∧
      Change.ToldAlike (x.diff y) (x'.diff y) ∧ Change.ToldAlike (y.diff x) (y.diff x') := by
  intro plain explicit third
  have tags : (Json.object [("type", .string "array")]).SpelledOut
      (.object [("items", .bool true), ("type", .string "array")]) := by
    have schema : Decode.IsSchema (.object [("type", .string "array")]) :=
      Decode.isSchema_iff.mpr (.inr (Node.exists_decode_iff.mp ⟨_, rfl⟩))
    exact .write schema (by decide) (by simp [Json.defaults]) (by decide)
  have written : plain.SpelledOut explicit := by
    refine .intro (.schema (.keep (.plain (by decide)) (.write (by simp [Json.defaults])
      (.keep (.properties (.keep tags .nil)) (.write (by simp [Json.defaults]) .nil)))) (by decide))
  have distinct : plain.Distinct ∧ third.Distinct := by decide
  obtain ⟨-, x', ha', silent, alike⟩ := diff_spelledOut distinct.1 rfl written
  obtain ⟨forth, back⟩ := alike third _ distinct.2 rfl
  refine ⟨_, x', _, rfl, ha', rfl, silent, by decide +kernel, forth, back⟩

end Documents

end SchemaEvolution
