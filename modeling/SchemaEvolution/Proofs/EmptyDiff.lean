import Mathlib
import SchemaEvolution.Proofs.Alike
import SchemaEvolution.Proofs.Findings

/-! # When the walk tells nothing

The difference of two schemas is empty exactly if they say the same. One level is silent if no
change is told there and every two schemas that are walked next are in a relation, whichever it is.
-/

namespace SchemaEvolution

namespace Diff

/-- No change is among the findings, and the schemas to walk are in the relation. -/
def Silent (R : Node → Node → Prop) : List Finding → Prop := Settled (fun _ => False) R

section Silent

variable {R : Node → Node → Prop} {left right : List Finding}

@[simp] theorem silent_nil : Silent R [] := settled_nil

@[simp] theorem silent_append : Silent R (left ++ right) ↔ Silent R left ∧ Silent R right :=
  settled_append

@[simp] theorem silent_told {changes : List Change} : Silent R (told changes) ↔ changes = [] :=
  settled_told.trans List.eq_nil_iff_forall_not_mem.symm

@[simp] theorem silent_change {change : Change} {rest : List Finding} :
    ¬Silent R (.change change :: rest) :=
  fun h => (settled_cons.mp h).1

@[simp] theorem silent_descent {steps : Path} {a b : Node} :
    Silent R [.descent steps a b] ↔ R a b :=
  List.forall_mem_singleton

theorem silent_ite {condition : Prop} [Decidable condition] :
    Silent R (if condition then left else []) ↔ (condition → Silent R left) :=
  settled_ite

theorem silent_slot {place nested : Path} {keyword : Keyword} {x y : SubSchema} :
    Silent R (slotFindings place nested keyword x y) ↔ SubSchema.Like R x y := by
  rcases x with p | a <;> rcases y with q | b <;> simp only [slotFindings]
  · split
    · rename_i same
      subst same
      simp [SubSchema.Like.flag]
    · rename_i different
      simp only [silent_change, false_iff]
      rintro ⟨⟩
      exact different rfl
  · simp only [silent_change, false_iff]
    rintro ⟨⟩
  · simp only [silent_change, false_iff]
    rintro ⟨⟩
  · rw [silent_descent]
    refine ⟨.schema, ?_⟩
    intro like
    cases like with
    | schema inner => exact inner

theorem silent_option {α : Type} {keyword : Keyword} {toJson : α → Json}
    {both : α → α → List Finding} {x y : Option α} :
    Silent R (optionFindings keyword toJson both x y) ↔
      Option.Rel (fun a b => Silent R (both a b)) x y := by
  cases x <;> cases y <;> simp [optionFindings]

theorem removedSlots_eq_nil {base : Path} {keyword : Keyword} {index : Nat}
    {slots : List SubSchema} : removedSlots base keyword index slots = [] ↔ slots = [] := by
  cases slots <;> simp [removedSlots]

theorem silent_positions {base : Path} {keyword : Keyword} {index : Nat}
    {as bs : List SubSchema} :
    Silent R (positionFindings base keyword index as bs) ↔
      List.Forall₂ (SubSchema.Like R) as bs := by
  induction bs generalizing as index with
  | nil => simp [positionFindings, removedSlots_eq_nil]
  | cons b bs ih =>
      cases as with
      | nil => simp [positionFindings]
      | cons a as =>
          rw [positionFindings, silent_append, silent_slot, ih, List.forall₂_cons]

theorem silent_items {x y : Items} : Silent R (itemsFindings x y) ↔ Items.Like R x y := by
  rcases x with a | as <;> rcases y with b | bs <;> simp only [itemsFindings]
  · rw [silent_slot]
    refine ⟨.single, ?_⟩
    intro like
    cases like with
    | single inner => exact inner
  · simp only [silent_change, false_iff]
    rintro ⟨⟩
  · simp only [silent_change, false_iff]
    rintro ⟨⟩
  · rw [silent_positions]
    refine ⟨.tuple, ?_⟩
    intro like
    cases like with
    | tuple inner => exact inner

theorem silent_elements {old new : Node} :
    Silent R (elementFindings old new) ↔
      Option.Rel (Items.Like R) old.effectiveItems new.effectiveItems ∧
        Option.Rel (List.Forall₂ (SubSchema.Like R)) old.prefixItems new.prefixItems ∧
        Option.Rel (SubSchema.Like R) old.contains new.contains := by
  simp only [elementFindings, silent_append, silent_option, silent_items, silent_positions,
    silent_slot, and_assoc]

end Silent

section Tables

variable {R : Node → Node → Prop} {old new : Node}

theorem silent_property {entry : String × SubSchema} :
    Silent R (propertyFindings old new entry) ↔
      ∃ a, NameTable.get? entry.1 old.properties = some a ∧ SubSchema.Like R a entry.2 := by
  unfold propertyFindings
  cases NameTable.get? entry.1 old.properties <;> simp [silent_slot]

theorem removedProperties_eq_nil :
    removedProperties [] old new = [] ↔
      ∀ entry ∈ old.properties, NameTable.has entry.1 new.properties = true := by
  simp [removedProperties]

/-- Where both sides list each property once, silence means the same names on both. -/
theorem silent_properties (ho : (NameTable.names old.properties).Nodup)
    (hn : (NameTable.names new.properties).Nodup) :
    Silent R (new.properties.flatMap (propertyFindings old new)) ∧
        removedProperties [] old new = [] ↔
      ∀ name, Option.Rel (SubSchema.Like R) (NameTable.get? name old.properties)
        (NameTable.get? name new.properties) := by
  have present : Silent R (new.properties.flatMap (propertyFindings old new)) ↔
      ∀ entry ∈ new.properties, Silent R (propertyFindings old new entry) := settled_flatMap
  simp only [present, silent_property, removedProperties_eq_nil]
  constructor
  · rintro ⟨present, kept⟩ name
    cases after : NameTable.get? name new.properties with
    | some b =>
        obtain ⟨a, before, like⟩ := present _ (NameTable.mem_of_get? after)
        rw [before]
        exact .some like
    | none =>
        cases before : NameTable.get? name old.properties with
        | none => exact .none
        | some a =>
            have has := kept _ (NameTable.mem_of_get? before)
            simp [NameTable.has, after] at has
  · refine fun alike => ⟨fun entry member => ?_, fun entry member => ?_⟩
    · have rel := alike entry.1
      rw [(NameTable.get?_eq_some_iff hn).mpr member] at rel
      generalize NameTable.get? entry.1 old.properties = before at rel ⊢
      cases rel with
      | some like => exact ⟨_, rfl, like⟩
    · have rel := alike entry.1
      rw [(NameTable.get?_eq_some_iff ho).mpr member] at rel
      rw [NameTable.has]
      generalize NameTable.get? entry.1 new.properties = after at rel ⊢
      cases rel with
      | some like => rfl

theorem mem_requiredFlips {name : String} {old new : NameSet} :
    name ∈ requiredFlips old new ↔ ¬(name ∈ old ↔ name ∈ new) := by
  by_cases before : name ∈ old <;> by_cases after : name ∈ new <;>
    simp [requiredFlips, before, after]

theorem required_eq_nil
    (same : ∀ name, NameTable.has name old.properties = NameTable.has name new.properties) :
    required [] old new = [] ↔ ∀ name, name ∈ old.required ↔ name ∈ new.required := by
  simp only [required, List.map_eq_nil_iff, List.filter_eq_nil_iff, mem_requiredFlips, same]
  simp

theorem dependentRequired_eq_nil {old new : List (String × NameSet)} :
    dependentRequired [] old new = [] ↔
      ∀ pair, pair ∈ dependentPairs old ↔ pair ∈ dependentPairs new := by
  simp only [dependentRequired, List.append_eq_nil_iff, List.map_eq_nil_iff,
    List.filter_eq_nil_iff, Bool.not_eq_true, Bool.not_eq_false', List.contains_iff_mem]
  constructor
  · intro h pair
    exact ⟨h.2 pair, h.1 pair⟩
  · intro h
    exact ⟨fun pair => (h pair).mpr, fun pair => (h pair).mp⟩

end Tables

section Facets

variable {old new : Facets} {path : Path}

theorem ofValues_eq_nil {keyword : Keyword} {x y : Option Json} :
    ofValues path keyword x y = [] ↔ Json.Agree x y := by
  cases x <;> cases y <;> simp [ofValues, Json.Agree]

theorem scalars_eq_nil {keywords : List Keyword} :
    scalars path old new keywords = [] ↔
      ∀ keyword ∈ keywords, Json.Agree (old.valueOf keyword) (new.valueOf keyword) := by
  simp only [scalars, List.flatMap_eq_nil_iff, scalar, ofValues_eq_nil]

theorem extensions_eq_nil :
    extensions path old new = [] ↔
      ∀ name, Json.Agree (old.valueOf (.other name)) (new.valueOf (.other name)) := by
  simp only [extensions, scalars_eq_nil, List.forall_mem_map, NameSet.mem_ofList, List.mem_append]
  refine ⟨fun h name => ?_, fun h name _ => h name⟩
  by_cases listed : name ∈ NameTable.names old.extensions ∨ name ∈ NameTable.names new.extensions
  · exact h name listed
  · obtain ⟨before, after⟩ := not_or.mp listed
    rw [Facets.valueOf, Facets.valueOf, NameTable.get?_eq_none_iff.mpr before,
      NameTable.get?_eq_none_iff.mpr after]
    exact .none

theorem optionsMissing_eq_nil {options others : List Json} :
    optionsMissing options others = [] ↔
      ∀ option ∈ options, ∃ other ∈ others, other.equivalent option = true := by
  simp [optionsMissing]

theorem enumeration_eq_nil {before after : Option (List Json)} :
    enumeration path before after = [] ↔ Option.Rel Facets.SameOptions before after := by
  cases before <;> cases after <;>
    simp [enumeration, optionsMissing_eq_nil, Facets.SameOptions, and_comm]

theorem name_injective {type other : InstanceType} (h : type.name = other.name) :
    type = other := by
  cases type <;> cases other <;> first | rfl | exact absurd h (by decide)

theorem eq_of_same_names {types others : List InstanceType}
    (h : (Json.array (types.map fun type => .string type.name)).same
      (.array (others.map fun type => .string type.name)) = true) : types = others := by
  obtain ⟨_, ⟨⟩, each⟩ := Json.same_array_iff.mp h
  rw [List.forall₂_map_left_iff, List.forall₂_map_right_iff] at each
  refine List.forall₂_eq_eq_eq ▸ each.imp fun type other same => name_injective ?_
  simpa [Json.same] using same

theorem typesToJson_equivalent {types others : List InstanceType} :
    (Facets.typesToJson types).equivalent (Facets.typesToJson others) = true ↔
      types = others := by
  refine ⟨fun h => ?_, ?_⟩
  · rcases types with _ | ⟨x, _ | ⟨x', types⟩⟩ <;> rcases others with _ | ⟨y, _ | ⟨y', others⟩⟩
    case cons.nil.cons.nil =>
      simp only [Facets.typesToJson, Json.equivalent, Json.same, beq_iff_eq] at h
      rw [name_injective h]
    all_goals first
      | exact eq_of_same_names h
      | simp [Facets.typesToJson, Json.equivalent, Json.same] at h
  · rintro rfl
    exact Json.equivalent_refl (Facets.distinct_typesToJson types)

theorem setOf_congr {types others : List InstanceType}
    (same : ∀ type, type ∈ types ↔ type ∈ others) :
    InstanceType.setOf types = InstanceType.setOf others := by
  simp [InstanceType.setOf, same]

theorem types_eq_iff (ho : old.Regular) (hn : new.Regular) :
    old.types = new.types ↔
      Option.Rel (fun s t => ∀ type, type ∈ s ↔ type ∈ t) old.types new.types := by
  constructor
  · intro same
    rw [same]
    exact optionRel_refl fun _ _ _ => Iff.rfl
  · intro rel
    rcases before : old.types with _ | s <;> rcases after : new.types with _ | t <;>
      rw [before, after] at rel
    · cases rel
    · cases rel
    · have same := setOf_congr (Option.rel_some_some.mp rel)
      rw [ho.types s before, hn.types t after] at same
      rw [same]

theorem type_eq_nil :
    scalar path old new .type = [] ↔ old.types = new.types := by
  rw [scalar, ofValues_eq_nil, Json.Agree, Facets.valueOf, Facets.valueOf]
  cases old.types <;> cases new.types <;> simp [typesToJson_equivalent]

theorem format_eq_nil : scalar path old new .format = [] ↔ old.format = new.format := by
  rw [scalar, ofValues_eq_nil, Json.Agree, Facets.valueOf, Facets.valueOf]
  cases old.format <;> cases new.format <;> simp [Json.equivalent, Json.same]

theorem shared_eq_nil (ho : old.Regular) (hn : new.Regular) :
    shared path old new = [] ↔ old.AlikeShared new := by
  simp only [shared, List.append_eq_nil_iff, scalars_eq_nil, extensions_eq_nil, type_eq_nil,
    format_eq_nil, enumeration_eq_nil, types_eq_iff ho hn]
  constructor
  · rintro ⟨⟨⟨⟨metadata, extensions⟩, types⟩, enumeration⟩, format⟩
    exact ⟨types, enumeration, format, metadata, extensions⟩
  · intro h
    exact ⟨⟨⟨⟨h.metadata, h.extensions⟩, h.types⟩, h.enumeration⟩, h.format⟩

end Facets

section Levels

variable {R : Node → Node → Prop} {old new : Node}

theorem family_eq_nil {kind : Family} {keywords : List Keyword}
    (same : ∀ kind, applies old.toFacets new.toFacets kind = old.constrains kind) :
    family [] old.toFacets new.toFacets kind keywords = [] ↔
      old.toFacets.AlikeScalars new.toFacets kind keywords := by
  rw [family, same, Facets.AlikeScalars]
  split <;> simp [*, scalars_eq_nil]

theorem silent_members (ho : (NameTable.names old.properties).Nodup)
    (hn : (NameTable.names new.properties).Nodup) :
    Silent R (memberFindings old new) ↔
      (∀ name, Option.Rel (SubSchema.Like R) (NameTable.get? name old.properties)
        (NameTable.get? name new.properties)) ∧
      (∀ name, name ∈ old.required ↔ name ∈ new.required) ∧
      SubSchema.Like R old.additionalProperties new.additionalProperties ∧
      ∀ pair, pair ∈ dependentPairs old.dependentRequired ↔
        pair ∈ dependentPairs new.dependentRequired := by
  have names (alike : ∀ name, Option.Rel (SubSchema.Like R) (NameTable.get? name old.properties)
      (NameTable.get? name new.properties)) (name : String) :
      NameTable.has name old.properties = NameTable.has name new.properties :=
    optionRel_isSome (alike name)
  simp only [memberFindings, silent_append, silent_told, List.append_eq_nil_iff, silent_slot,
    dependentRequired_eq_nil]
  constructor
  · rintro ⟨⟨⟨present, removed, required⟩, additional⟩, pairs⟩
    have alike := (silent_properties ho hn).mp ⟨present, removed⟩
    exact ⟨alike, (required_eq_nil (names alike)).mp required, additional, pairs⟩
  · rintro ⟨alike, required, additional, pairs⟩
    obtain ⟨present, removed⟩ := (silent_properties ho hn).mpr alike
    exact ⟨⟨⟨present, removed, (required_eq_nil (names alike)).mpr required⟩, additional⟩, pairs⟩

/-- A level is silent exactly if the two schemas say the same there. -/
theorem silent_findings (ho : old.Accepted) (hn : new.Accepted) :
    Silent R (findings old new) ↔ Node.Like R old new := by
  rw [findings, silent_append, silent_told, shared_eq_nil ho.regular hn.regular]
  have families (shared : old.toFacets.AlikeShared new.toFacets) :
      Silent R (if typeChanged old.toFacets new.toFacets = true then []
        else familyFindings old new) ↔ Silent R (familyFindings old new) := by
    have types := (types_eq_iff ho.regular hn.regular).mpr shared.types
    rw [if_neg (not_typeChanged_iff.mpr ?_)]
    rintro before after hb ha
    exact Option.some_inj.mp (hb.symm.trans (types.trans ha))
  have same (shared : old.toFacets.AlikeShared new.toFacets) (kind : Family) :
      applies old.toFacets new.toFacets kind = old.constrains kind := by
    rw [applies, ← Facets.constrains_congr shared, Bool.or_self]
  have members := silent_members (R := R) ho.properties_ordered.nodup hn.properties_ordered.nodup
  constructor
  · rintro ⟨shared, rest⟩
    rw [families shared] at rest
    simp only [familyFindings, silent_append, silent_told, List.append_eq_nil_iff,
      family_eq_nil (same shared), silent_ite, same shared, silent_elements, members] at rest
    obtain ⟨⟨⟨⟨⟨numeric, string⟩, array⟩, elements⟩, object⟩, members⟩ := rest
    exact {
      shared, numeric, string, array, object
      items := fun constrained => (elements constrained).1
      prefixItems := fun constrained => (elements constrained).2.1
      contains := fun constrained => (elements constrained).2.2
      properties := fun constrained => (members constrained).1
      required := fun constrained => (members constrained).2.1
      additionalProperties := fun constrained => (members constrained).2.2.1
      dependentRequired := fun constrained => (members constrained).2.2.2 }
  · intro h
    refine ⟨h.shared, (families h.shared).mpr ?_⟩
    simp only [familyFindings, silent_append, silent_told, List.append_eq_nil_iff,
      family_eq_nil (same h.shared), silent_ite, same h.shared, silent_elements, members]
    exact ⟨⟨⟨⟨⟨h.numeric, h.string⟩, h.array⟩,
      fun constrained => ⟨h.items constrained, h.prefixItems constrained, h.contains constrained⟩⟩,
      h.object⟩, fun constrained => ⟨h.properties constrained, h.required constrained,
        h.additionalProperties constrained, h.dependentRequired constrained⟩⟩

theorem diff_eq_nil_iff_silent :
    old.diff new = [] ↔ Silent (fun a b => a.diff b = []) (findings old new) := by
  simp only [List.eq_nil_iff_forall_not_mem]
  exact forall_diff_iff fun _ _ => Iff.rfl

/-- The walk tells nothing exactly if the two schemas say the same, all the way down. -/
theorem diff_eq_nil_iff (ho : old.Accepted) (hn : new.Accepted) :
    old.diff new = [] ↔ old.Alike new := by
  induction old using Node.rec_strong generalizing new with
  | step old ih =>
      rw [diff_eq_nil_iff_silent, silent_findings ho hn, Node.alike_iff]
      constructor
      · intro h
        apply h.imp
        intro a b ha hb empty
        exact (ih a ha (ho.below ha) (hn.below hb)).mp empty
      · intro h
        apply h.imp
        intro a b ha hb alike
        exact (ih a ha (ho.below ha) (hn.below hb)).mpr alike

end Levels

end Diff

/-- For any documents that denote schemas, the difference of two is empty exactly if they say the
same, which is an equivalence. -/
theorem diff_eq_nil_iff_alike {a b : Json} {x y : Node} (ha : a.Distinct) (hb : b.Distinct)
    (hx : Node.decode a = .ok x) (hy : Node.decode b = .ok y) :
    (x.diff y = [] ↔ x.Alike y) ∧ x.Alike x ∧ (x.Alike y → y.Alike x) ∧
      ∀ z, x.Alike y → y.Alike z → x.Alike z := by
  have hx := Node.accepted_of_decode ha hx
  have hy := Node.accepted_of_decode hb hy
  exact ⟨Diff.diff_eq_nil_iff hx hy, .refl hx, .symm hx hy, fun _ => .trans⟩

/-- Spelling out what holds anyway leaves two documents alike. -/
theorem diff_eq_nil_iff_alike_defaults :
    ∃ x y, Node.decode (.object [("type", .string "array")]) = .ok x ∧
      Node.decode (.object [("type", .array [.string "array"]), ("items", .bool true),
        ("uniqueItems", .bool false), ("maxLength", .number (.ofCount 5))]) = .ok y ∧
      x.Alike y := by
  refine ⟨?_, ?_, ?hx, ?hy, (diff_eq_nil_iff_alike ?_ ?_ ?hx ?hy).1.mp ?_⟩
  case hx | hy => rfl
  all_goals decide

end SchemaEvolution
