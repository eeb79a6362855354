import Mathlib
import SchemaEvolution.Proofs.Decoding
import SchemaEvolution.Proofs.Findings

/-! # The difference the other way round

Going back from the new schema to the old one tells the same changes with what came and what went
exchanged. Most findings are mirrored in place; the options of `enum`, the pairs of
`dependentRequired` and the properties are told in another order.
-/

namespace SchemaEvolution

def ChangeKind.mirror : ChangeKind → ChangeKind
  | .added => .removed
  | .removed => .added
  | .modified => .modified

/-- The change, seen from the other side. What surrounds a property is the same from both. -/
def Change.mirror (change : Change) : Change :=
  { change with
    kind := change.kind.mirror
    oldValue := change.newValue
    newValue := change.oldValue }

section Builders

variable (path : Path) (keyword : Keyword) (old new value : Json) (context : PropertyContext)

@[simp] theorem Change.mirror_added :
    (added path keyword value).mirror = removed path keyword value := rfl

@[simp] theorem Change.mirror_removed :
    (removed path keyword value).mirror = added path keyword value := rfl

@[simp] theorem Change.mirror_modified :
    (modified path keyword old new).mirror = modified path keyword new old := rfl

@[simp] theorem Change.mirror_memberAdded :
    (memberAdded path keyword value).mirror = memberRemoved path keyword value := rfl

@[simp] theorem Change.mirror_memberRemoved :
    (memberRemoved path keyword value).mirror = memberAdded path keyword value := rfl

@[simp] theorem Change.mirror_propertyAdded :
    (propertyAdded path value context).mirror = propertyRemoved path value context := rfl

@[simp] theorem Change.mirror_propertyRemoved :
    (propertyRemoved path value context).mirror = propertyAdded path value context := rfl

@[simp] theorem Change.mirror_mirror (change : Change) : change.mirror.mirror = change := by
  obtain ⟨_, kind, _, _, _, _, _⟩ := change
  cases kind <;> rfl

theorem Change.mirror_under (steps : Path) (change : Change) :
    (change.under steps).mirror = change.mirror.under steps := rfl

end Builders

namespace Diff

def Finding.mirror : Finding → Finding
  | .change told => .change told.mirror
  | .descent steps old new => .descent steps new old

@[simp] theorem map_mirror_told (changes : List Change) :
    (told changes).map Finding.mirror = told (changes.map Change.mirror) := by
  simp [told, Finding.mirror, Function.comp_def]

section Facets

variable {old new : Facets} (ho : old.Regular) (hn : new.Regular) (path : Path)

theorem ofValues_mirror (keyword : Keyword) {old new : Option Json}
    (ho : ∀ v, old = some v → v.Distinct) (hn : ∀ v, new = some v → v.Distinct) :
    ofValues path keyword new old = (ofValues path keyword old new).map Change.mirror := by
  cases old with
  | none => cases new <;> simp [ofValues]
  | some a =>
      cases new with
      | none => simp [ofValues]
      | some b =>
          simp only [ofValues, Json.equivalent_comm (hn b rfl) (ho a rfl)]
          split <;> simp

include ho hn

theorem scalars_mirror (keywords : List Keyword) :
    scalars path new old keywords = (scalars path old new keywords).map Change.mirror := by
  simp only [scalars, List.map_flatMap, scalar]
  congr 1
  funext keyword
  exact ofValues_mirror path keyword (fun _ => ho.valueOf) (fun _ => hn.valueOf)

theorem extensions_mirror :
    extensions path new old = (extensions path old new).map Change.mirror := by
  simp only [extensions]
  rw [NameSet.ofList_append_comm]
  exact scalars_mirror ho hn path _

omit ho hn in
theorem enumeration_mirror (old new : Option (List Json)) :
    (enumeration path new old).Perm ((enumeration path old new).map Change.mirror) := by
  cases old <;> cases new <;> simp [enumeration, Function.comp_def, List.perm_append_comm]

omit ho hn in
theorem dependentRequired_mirror (old new : List (String × NameSet)) :
    (dependentRequired path new old).Perm
      ((dependentRequired path old new).map Change.mirror) := by
  simp [dependentRequired, Function.comp_def, List.perm_append_comm]

theorem shared_mirror :
    (shared path new old).Perm ((shared path old new).map Change.mirror) := by
  have type := scalars_mirror ho hn path [.type]
  have format := scalars_mirror ho hn path [.format]
  simp only [scalars, List.flatMap_cons, List.flatMap_nil, List.append_nil] at type format
  simp only [shared, List.map_append, ← scalars_mirror ho hn, ← extensions_mirror ho hn, ← type,
    ← format]
  exact ((enumeration_mirror path _ _).append_left _).append_right _

omit ho hn in
theorem typeChanged_comm (old new : Facets) : typeChanged new old = typeChanged old new := by
  unfold typeChanged
  cases old.types <;> cases new.types <;> simp [bne_comm]

omit ho hn in
theorem applies_comm (old new : Facets) (kind : Family) :
    applies new old kind = applies old new kind := Bool.or_comm _ _

theorem family_mirror (kind : Family) (keywords : List Keyword) :
    family path new old kind keywords =
      (family path old new kind keywords).map Change.mirror := by
  simp only [family, applies_comm, scalars_mirror ho hn]
  split <;> rfl

end Facets

section Places

theorem slotFindings_mirror (place nested : Path) (keyword : Keyword) (old new : SubSchema) :
    slotFindings place nested keyword new old =
      (slotFindings place nested keyword old new).map Finding.mirror := by
  rcases old with a | a <;> rcases new with b | b <;> simp only [slotFindings, eq_comm]
  · split <;> simp [Finding.mirror]
  all_goals simp [Finding.mirror]

theorem optionFindings_mirror {α : Type} (keyword : Keyword) (toJson : α → Json)
    {both : α → α → List Finding} (mirrored : ∀ a b, both b a = (both a b).map Finding.mirror)
    (old new : Option α) :
    optionFindings keyword toJson both new old =
      (optionFindings keyword toJson both old new).map Finding.mirror := by
  cases old with
  | none => cases new <;> simp [optionFindings, Finding.mirror]
  | some a =>
      cases new with
      | none => simp [optionFindings, Finding.mirror]
      | some b => exact mirrored a b

theorem positionFindings_nil (base : Path) (keyword : Keyword) (index : Nat)
    (new : List SubSchema) :
    positionFindings base keyword index [] new =
      told ((removedSlots base keyword index new).map Change.mirror) := by
  induction new generalizing index with
  | nil => rfl
  | cons b bs ih => simp [positionFindings, removedSlots, ih, told]

theorem positionFindings_mirror (base : Path) (keyword : Keyword) (index : Nat)
    (old new : List SubSchema) :
    positionFindings base keyword index new old =
      (positionFindings base keyword index old new).map Finding.mirror := by
  induction new generalizing old index with
  | nil => rw [positionFindings_nil, positionFindings, map_mirror_told]
  | cons b bs ih =>
      cases old with
      | nil =>
          rw [positionFindings_nil, positionFindings, map_mirror_told]
          simp [Function.comp_def]
      | cons a as =>
          simp only [positionFindings, List.map_append, ← ih, ← slotFindings_mirror]

theorem itemsFindings_mirror (old new : Items) :
    itemsFindings new old = (itemsFindings old new).map Finding.mirror := by
  rcases old with a | as <;> rcases new with b | bs
  · exact slotFindings_mirror _ _ _ a b
  · simp [itemsFindings, Finding.mirror]
  · simp [itemsFindings, Finding.mirror]
  · exact positionFindings_mirror _ _ _ as bs

theorem elementFindings_mirror (old new : Node) :
    elementFindings new old = (elementFindings old new).map Finding.mirror := by
  simp only [elementFindings, List.map_append, ← optionFindings_mirror _ _ itemsFindings_mirror,
    ← optionFindings_mirror _ _ (positionFindings_mirror _ _ _),
    ← optionFindings_mirror _ _ (slotFindings_mirror _ _ _)]

end Places

section Properties

variable {old new : Node}

theorem required_mirror (path : Path) (old new : Node) :
    required path new old = (required path old new).map Change.mirror := by
  have flips : requiredFlips new.required old.required = requiredFlips old.required new.required := by
    simp only [requiredFlips, NameSet.ofList_append_comm new.required, bne_comm]
  simp only [required, flips, List.map_map]
  rw [show (fun name => !(NameTable.has name new.properties != NameTable.has name old.properties)) =
    fun name => !(NameTable.has name old.properties != NameTable.has name new.properties) from
      funext fun name => by rw [bne_comm]]
  refine List.map_congr_left fun name member => ?_
  have flipped : (old.required.contains name != new.required.contains name) = true :=
    (List.mem_filter.mp (List.mem_filter.mp member).1).2
  have opposite : old.required.contains name = !new.required.contains name := by
    simpa [Bool.eq_not] using flipped
  simp only [Function.comp_def, opposite, Bool.not_not, Change.mirror_modified]

def commonProperties (old new : Node) : List (String × SubSchema × SubSchema) :=
  new.properties.filterMap fun entry =>
    (NameTable.get? entry.1 old.properties).map fun a => (entry.1, a, entry.2)

def commonFindings (entry : String × SubSchema × SubSchema) : List Finding :=
  slotFindings [.property entry.1] [.property entry.1] .properties entry.2.1 entry.2.2

def addedProperties (old new : Node) : List Change :=
  (new.properties.filter fun entry => !NameTable.has entry.1 old.properties).map fun entry =>
    .propertyAdded [.property entry.1] entry.2.toJson
      { required := new.required.contains entry.1
        additionalProperties := old.extraProperties }

theorem addedProperties_mirror (old new : Node) :
    (addedProperties old new).map Change.mirror = removedProperties [] new old := by
  simp [addedProperties, removedProperties, Function.comp_def]

theorem propertyFindings_perm (old new : Node) :
    (new.properties.flatMap (propertyFindings old new)).Perm
      ((commonProperties old new).flatMap commonFindings ++ told (addedProperties old new)) := by
  unfold commonProperties addedProperties
  induction new.properties with
  | nil => exact .nil
  | cons entry rest ih =>
      simp only [List.flatMap_cons, List.filterMap_cons, List.filter_cons, propertyFindings,
        NameTable.has]
      cases NameTable.get? entry.1 old.properties with
      | none =>
          simp only [Option.map_none, Option.isSome_none, Bool.not_false, if_true, List.map_cons,
            List.singleton_append]
          exact (ih.cons _).trans List.perm_middle.symm
      | some a =>
          simp only [Option.map_some, Option.isSome_some, Bool.not_true, Bool.false_eq_true,
            if_false, List.flatMap_cons, List.append_assoc]
          exact ih.append_left _

theorem mem_commonProperties (entry : String × SubSchema × SubSchema)
    (distinct : (NameTable.names old.properties).Nodup) :
    entry ∈ commonProperties old new ↔
      (entry.1, entry.2.1) ∈ old.properties ∧ (entry.1, entry.2.2) ∈ new.properties := by
  simp only [commonProperties, List.mem_filterMap, Option.map_eq_some_iff]
  constructor
  · rintro ⟨listed, member, a, found, rfl⟩
    exact ⟨NameTable.mem_of_get? found, member⟩
  · rintro ⟨before, after⟩
    exact ⟨_, after, _, (NameTable.get?_eq_some_iff distinct).mpr before, rfl⟩

theorem commonProperties_nodup (distinct : (NameTable.names new.properties).Nodup) :
    (commonProperties old new).Nodup := by
  refine List.Nodup.filterMap (fun first second entry hf hs => ?_) distinct.of_map
  obtain ⟨_, _, rfl⟩ := Option.map_eq_some_iff.mp hf
  obtain ⟨_, _, same⟩ := Option.map_eq_some_iff.mp hs
  simp only [Prod.mk.injEq] at same
  exact Prod.ext same.1.symm same.2.2.symm

theorem commonProperties_swap (ho : (NameTable.names old.properties).Nodup)
    (hn : (NameTable.names new.properties).Nodup) :
    (commonProperties new old).Perm
      ((commonProperties old new).map fun entry => (entry.1, entry.2.2, entry.2.1)) := by
  refine (List.perm_ext_iff_of_nodup (commonProperties_nodup ho) ?_).mpr fun entry => ?_
  · refine (commonProperties_nodup hn).map fun first second same => ?_
    simp only [Prod.mk.injEq] at same
    exact Prod.ext same.1 (Prod.ext same.2.2 same.2.1)
  · obtain ⟨name, b, a⟩ := entry
    simp only [mem_commonProperties _ hn, List.mem_map, mem_commonProperties _ ho]
    constructor
    · rintro ⟨after, before⟩
      exact ⟨(name, a, b), ⟨before, after⟩, rfl⟩
    · rintro ⟨⟨_, _, _⟩, ⟨before, after⟩, same⟩
      cases same
      exact ⟨after, before⟩

theorem commonFindings_mirror (ho : (NameTable.names old.properties).Nodup)
    (hn : (NameTable.names new.properties).Nodup) :
    ((commonProperties new old).flatMap commonFindings).Perm
      (((commonProperties old new).flatMap commonFindings).map Finding.mirror) := by
  refine ((commonProperties_swap ho hn).flatMap_right _).trans (.of_eq ?_)
  rw [List.flatMap_map, List.map_flatMap]
  refine List.flatMap_congr fun entry _ => ?_
  exact slotFindings_mirror _ _ _ entry.2.1 entry.2.2

theorem memberFindings_mirror (ho : (NameTable.names old.properties).Nodup)
    (hn : (NameTable.names new.properties).Nodup) :
    (memberFindings new old).Perm ((memberFindings old new).map Finding.mirror) := by
  have added : (removedProperties [] old new).map Change.mirror = addedProperties new old := by
    rw [← addedProperties_mirror, List.map_map]
    simp [Function.comp_def]
  have properties :
      (old.properties.flatMap (propertyFindings new old) ++
        told (removedProperties [] new old)).Perm
      ((new.properties.flatMap (propertyFindings old new) ++
        told (removedProperties [] old new)).map Finding.mirror) := by
    refine ((propertyFindings_perm new old).append_right _).trans ?_
    refine List.Perm.trans ?_ (((propertyFindings_perm old new).append_right _).map _).symm
    simp only [List.map_append, map_mirror_told, addedProperties_mirror, added,
      List.append_assoc]
    exact (commonFindings_mirror ho hn).append List.perm_append_comm
  have pairs : (told (dependentRequired [] new.dependentRequired old.dependentRequired)).Perm
      ((told (dependentRequired [] old.dependentRequired new.dependentRequired)).map
        Finding.mirror) := by
    rw [map_mirror_told]
    exact (dependentRequired_mirror [] _ _).map _
  simp only [memberFindings, told_append, List.map_append, map_mirror_told, ← required_mirror,
    ← slotFindings_mirror, ← List.append_assoc] at properties pairs ⊢
  exact ((properties.append_right _).append_right _).append pairs

end Properties

theorem findings_mirror {old new : Node} (ho : old.Accepted) (hn : new.Accepted) :
    (findings new old).Perm ((findings old new).map Finding.mirror) := by
  have shared : (told (shared [] new.toFacets old.toFacets)).Perm
      ((told (shared [] old.toFacets new.toFacets)).map Finding.mirror) := by
    rw [map_mirror_told]
    exact (shared_mirror ho.regular hn.regular []).map _
  have members := memberFindings_mirror ho.properties_ordered.nodup hn.properties_ordered.nodup
  simp only [findings, List.map_append, typeChanged_comm old.toFacets]
  refine shared.append ?_
  split
  · exact .nil
  · simp only [familyFindings, List.map_append, map_mirror_told, applies_comm old.toFacets,
      ← family_mirror ho.regular hn.regular, elementFindings_mirror old new,
      apply_ite (List.map Finding.mirror), List.map_nil]
    refine List.Perm.append_left _ ?_
    split
    · exact members
    · exact .nil

/-- Going back tells the changes of going forth, seen from the other side, in some order. -/
theorem mirror_perm {old new : Node} (ho : old.Accepted) (hn : new.Accepted) :
    (new.diff old).Perm ((old.diff new).map Change.mirror) := by
  induction old, new using joint_induction with
  | step old new ih =>
      rw [diff_eq_findings, diff_eq_findings, List.map_flatMap]
      refine ((findings_mirror ho hn).flatMap_right _).trans ?_
      rw [List.flatMap_map]
      refine List.Perm.flatMap_left _ fun finding member => ?_
      cases finding with
      | change told => exact .refl _
      | descent steps a b =>
          obtain ⟨below, below'⟩ := (descends_of_mem_findings member).below
          have inner := ih steps a b member (ho.below below) (hn.below below')
          simpa [Finding.mirror, Finding.changes, Function.comp_def, Change.mirror_under] using
            inner.map (Change.under steps)

end Diff

/-- For any two documents that denote schemas, going back from the new schema to the old one tells
the changes of going forth with what came and what went exchanged, in some order. -/
theorem diff_mirror {a b : Json} {old new : Node} (ha : a.Distinct) (hb : b.Distinct)
    (ho : Node.decode a = .ok old) (hn : Node.decode b = .ok new) :
    (new.diff old).Perm ((old.diff new).map Change.mirror) :=
  Diff.mirror_perm (Node.accepted_of_decode ha ho) (Node.accepted_of_decode hb hn)

/-- A property and a title that came have gone, seen from the other side. -/
theorem diff_mirror_property :
    ∃ old new, Node.decode (.object [("additionalProperties", .bool false)]) = .ok old ∧
      Node.decode (.object [("title", .string "Person"),
        ("properties", .object [("name", .object [])])]) = .ok new ∧
      (new.diff old).Perm ((old.diff new).map Change.mirror) := by
  refine ⟨?_, ?_, ?ho, ?hn, diff_mirror ?_ ?_ ?ho ?hn⟩
  case ho | hn => rfl
  all_goals decide

end SchemaEvolution
