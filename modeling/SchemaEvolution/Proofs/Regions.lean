import Mathlib
import SchemaEvolution.Proofs.Decoding
import SchemaEvolution.Proofs.Findings

/-! # Where changes are told

The findings at one place tell the changes of whole keywords in regions that do not meet: a keyword
of the place itself, the demand for a property, or everything at a schema further down. So no two
changes of whole keywords share their path and their keyword.
-/

namespace SchemaEvolution

/-- The change concerns a keyword as a whole. -/
def Change.IsWhole (change : Change) : Prop := change.scope = .keyword

instance (change : Change) : Decidable change.IsWhole :=
  inferInstanceAs (Decidable (_ = _))

def Change.spot (change : Change) : Path × Keyword := (change.path, change.keyword)

@[simp] theorem Change.isWhole_under (steps : Path) (change : Change) :
    (change.under steps).IsWhole ↔ change.IsWhole := Iff.rfl

@[simp] theorem Change.spot_under (steps : Path) (change : Change) :
    (change.under steps).spot = (steps ++ change.path, change.keyword) := rfl

namespace Diff

/-- A part of what may be told from a place on. -/
inductive Region where
  /-- A keyword of the place itself. -/
  | here (keyword : Keyword)
  /-- Whether a property is required. -/
  | demand (name : String)
  /-- Anything else at the place where the steps lead, or below it. -/
  | inside (steps : Path)
  deriving DecidableEq

namespace Region

/-- The region of what is told of a keyword at a path. -/
def ofSpot : Path × Keyword → Region
  | ([], keyword) => .here keyword
  | ([.property name], .required) => .demand name
  | (.subSchema outer :: .position index :: _, _) => .inside [.subSchema outer, .position index]
  | (step :: _, _) => .inside [step]

/-- The place of a region in the order in which the findings at one place are told. -/
def rank : Region → Nat
  | .here keyword =>
    match keyword with
    | .other _ => 1
    | .type => 2
    | .enum => 3
    | .format => 4
    | .items => 8
    | .prefixItems => 9
    | .contains => 10
    | .additionalProperties => 14
    | .required => 15
    | keyword =>
      match keyword.family? with
      | some .metadata => 0
      | some .numeric => 5
      | some .string => 6
      | some .array => 7
      | some .object => 11
      | _ => 15
  | .inside (.property _ :: _) => 12
  | .demand _ => 13
  | .inside (.subSchema .items :: _) => 8
  | .inside (.subSchema .prefixItems :: _) => 9
  | .inside (.subSchema .contains :: _) => 10
  | .inside (.subSchema .additionalProperties :: _) => 14
  | .inside _ => 15

end Region

/-- The region in which a finding tells changes of whole keywords. -/
def Finding.region? : Finding → Option Region
  | .change told => if told.IsWhole then some (.ofSpot told.spot) else none
  | .descent steps _ _ => some (.inside steps)

def regions (findings : List Finding) : List Region := findings.filterMap Finding.region?

@[simp] theorem regions_nil : regions [] = [] := rfl

@[simp] theorem regions_append (left right : List Finding) :
    regions (left ++ right) = regions left ++ regions right := List.filterMap_append

theorem mem_regions {region : Region} {findings : List Finding} :
    region ∈ regions findings ↔ ∃ finding ∈ findings, finding.region? = some region :=
  List.mem_filterMap

/-- The regions are all different, and of ranks from `low` to before `high`. -/
structure Separate (low high : Nat) (findings : List Finding) : Prop where
  nodup : (regions findings).Nodup
  ranks : ∀ region ∈ regions findings, low ≤ region.rank ∧ region.rank < high

namespace Separate

variable {low middle high : Nat} {left right : List Finding}

theorem nil : Separate low high [] := ⟨.nil, by simp⟩

theorem append (hl : Separate low middle left) (hr : Separate middle high right)
    (h₁ : low ≤ middle) (h₂ : middle ≤ high) : Separate low high (left ++ right) := by
  refine ⟨?_, fun region member => ?_⟩
  · rw [regions_append]
    refine hl.nodup.append hr.nodup fun region hleft hright => ?_
    have below := (hl.ranks region hleft).2
    have above := (hr.ranks region hright).1
    omega
  · rw [regions_append, List.mem_append] at member
    rcases member with member | member
    · have bounds := hl.ranks region member
      omega
    · have bounds := hr.ranks region member
      omega

theorem ite {condition : Prop} [Decidable condition] (h : Separate low high left) :
    Separate low high (if condition then left else []) := by
  split
  · exact h
  · exact .nil

theorem of_regions_nil (h : regions left = []) : Separate low high left :=
  ⟨by simp [h], by simp [h]⟩

theorem of_sublist (among : List Region) (sub : (regions left).Sublist among)
    (nodup : among.Nodup) (rank : ∀ region ∈ among, region.rank = low) :
    Separate low (low + 1) left :=
  ⟨nodup.sublist sub, fun region member => by
    have same := rank region (sub.subset member)
    omega⟩

end Separate

section Builders

variable (path : Path) (keyword : Keyword) (old new value : Json) (context : PropertyContext)

@[simp] theorem Finding.region?_added :
    (Finding.change (.added path keyword value)).region? = some (.ofSpot (path, keyword)) := rfl

@[simp] theorem Finding.region?_removed :
    (Finding.change (.removed path keyword value)).region? = some (.ofSpot (path, keyword)) := rfl

@[simp] theorem Finding.region?_modified :
    (Finding.change (.modified path keyword old new)).region? = some (.ofSpot (path, keyword)) :=
  rfl

@[simp] theorem Finding.region?_propertyAdded :
    (Finding.change (.propertyAdded path value context)).region? =
      some (.ofSpot (path, .properties)) := rfl

@[simp] theorem Finding.region?_propertyRemoved :
    (Finding.change (.propertyRemoved path value context)).region? =
      some (.ofSpot (path, .properties)) := rfl

@[simp] theorem Finding.region?_memberAdded :
    (Finding.change (.memberAdded path keyword value)).region? = none := rfl

@[simp] theorem Finding.region?_memberRemoved :
    (Finding.change (.memberRemoved path keyword value)).region? = none := rfl

@[simp] theorem Finding.region?_descent (old new : Node) :
    (Finding.descent path old new).region? = some (.inside path) := rfl

@[simp] theorem regions_cons (finding : Finding) (findings : List Finding) :
    regions (finding :: findings) = finding.region?.toList ++ regions findings := by
  rw [regions, List.filterMap_cons]
  cases finding.region? <;> rfl

@[simp] theorem regions_told (changes : List Change) :
    regions (told changes) = changes.filterMap fun change => (Finding.change change).region? := by
  simp [regions, told, List.filterMap_map]

end Builders

section Facets

variable {old new : Facets} {low : Nat}

theorem regions_ofValues (keyword : Keyword) (old new : Option Json) :
    (regions (told (ofValues [] keyword old new))).Sublist [.here keyword] := by
  cases old with
  | none => cases new <;> simp [ofValues, Region.ofSpot]
  | some a =>
      cases new with
      | none => simp [ofValues, Region.ofSpot]
      | some b =>
          simp only [ofValues]
          split <;> simp [Region.ofSpot]

theorem regions_scalars (keywords : List Keyword) :
    (regions (told (scalars [] old new keywords))).Sublist (keywords.map .here) := by
  induction keywords with
  | nil => exact .slnil
  | cons keyword rest ih =>
      simpa [scalars, scalar] using (regions_ofValues keyword _ _).append ih

theorem separate_scalars {keywords : List Keyword} (nodup : keywords.Nodup)
    (rank : ∀ keyword ∈ keywords, (Region.here keyword).rank = low) :
    Separate low (low + 1) (told (scalars [] old new keywords)) :=
  .of_sublist _ (regions_scalars keywords)
    (nodup.map fun _ _ same => Region.here.inj same) (List.forall_mem_map.mpr rank)

theorem separate_family {keywords : List Keyword} {kind : Family} (nodup : keywords.Nodup)
    (rank : ∀ keyword ∈ keywords, (Region.here keyword).rank = low) :
    Separate low (low + 1) (told (family [] old new kind keywords)) := by
  unfold family
  split
  · exact separate_scalars nodup rank
  · exact .nil

theorem separate_enumeration (old new : Option (List Json)) :
    Separate 3 4 (told (enumeration [] old new)) := by
  refine .of_sublist [.here .enum] ?_ (by decide) (by decide)
  cases old <;> cases new <;>
    simp [enumeration, Region.ofSpot, List.filterMap_map, Function.comp_def]

theorem separate_shared : Separate 0 5 (told (shared [] old new)) := by
  have metadata : Separate 0 1 (told (scalars [] old new Keyword.metadata)) :=
    separate_scalars (by decide) (by decide)
  have extensions : Separate 1 2 (told (extensions [] old new)) := by
    refine separate_scalars ?_ (by simp [Region.rank])
    exact (NameSet.ordered_ofList _).nodup.map fun _ _ same => Keyword.other.inj same
  have single (keyword : Keyword) :
      Separate (Region.here keyword).rank ((Region.here keyword).rank + 1)
        (told (scalar [] old new keyword)) :=
    .of_sublist _ (regions_ofValues keyword _ _) (by simp) (by simp)
  have enumeration := separate_enumeration old.enumeration new.enumeration
  simp only [shared, told_append]
  exact (((metadata.append extensions (by decide) (by decide)).append (single .type) (by decide)
    (by decide)).append enumeration (by decide) (by decide)).append (single .format) (by decide)
      (by decide)

end Facets

section Places

/-- A place for a schema tells of itself or leads further, and not both. -/
theorem regions_slotFindings (place nested : Path) (keyword : Keyword) (old new : SubSchema) :
    regions (slotFindings place nested keyword old new) = [] ∨
      regions (slotFindings place nested keyword old new) = [.ofSpot (place, keyword)] ∨
      regions (slotFindings place nested keyword old new) = [.inside nested] := by
  rcases old with a | a <;> rcases new with b | b <;> simp only [slotFindings]
  · split <;> simp
  all_goals simp

theorem regions_slotFindings_self {place : Path} {keyword : Keyword}
    (inside : Region.ofSpot (place, keyword) = .inside place) (old new : SubSchema) :
    (regions (slotFindings place place keyword old new)).Sublist [.inside place] := by
  rcases regions_slotFindings place place keyword old new with same | same | same
  · rw [same]
    exact List.nil_sublist _
  · rw [same, inside]
  · rw [same]

theorem separate_slot (keyword : Keyword) {low : Nat} (here : (Region.here keyword).rank = low)
    (inside : (Region.inside [.subSchema keyword]).rank = low) (old new : SubSchema) :
    Separate low (low + 1) (slotFindings [] [.subSchema keyword] keyword old new) := by
  rcases regions_slotFindings [] [.subSchema keyword] keyword old new with same | same | same
  · exact .of_sublist [] (by rw [same]) .nil (by simp)
  · exact .of_sublist [.here keyword] (by rw [same]; rfl) (by simp) (by simp [here])
  · exact .of_sublist _ (by rw [same]) (by simp) (by simp [inside])

theorem separate_option {α : Type} (keyword : Keyword) (toJson : α → Json)
    {both : α → α → List Finding} {low : Nat} (here : (Region.here keyword).rank = low)
    (inner : ∀ a b, Separate low (low + 1) (both a b)) (old new : Option α) :
    Separate low (low + 1) (optionFindings keyword toJson both old new) := by
  have alone : ∀ region ∈ [Region.here keyword], region.rank = low := by simp [here]
  cases old with
  | none =>
      cases new with
      | none => exact .nil
      | some b => exact .of_sublist _ (by simp [optionFindings, Region.ofSpot]) (by simp) alone
  | some a =>
      cases new with
      | none => exact .of_sublist _ (by simp [optionFindings, Region.ofSpot]) (by simp) alone
      | some b => exact inner a b

theorem regions_removedSlots (base : Path) (keyword : Keyword) (index : Nat)
    (old : List SubSchema) : regions (told (removedSlots base keyword index old)) = [] := by
  induction old generalizing index with
  | nil => rfl
  | cons a as ih =>
      simp only [regions_told] at ih ⊢
      simpa [removedSlots] using ih (index + 1)

theorem regions_positionFindings (outer keyword : Keyword) (index : Nat)
    (old new : List SubSchema) :
    (regions (positionFindings [.subSchema outer] keyword index old new)).Sublist
      ((List.range' index new.length).map fun i => .inside [.subSchema outer, .position i]) := by
  induction new generalizing old index with
  | nil => simp only [positionFindings, regions_removedSlots, List.nil_sublist]
  | cons b bs ih =>
      rw [List.length_cons, List.range'_succ, List.map_cons]
      cases old with
      | nil =>
          rw [positionFindings, regions_cons, Finding.region?_memberAdded]
          exact (ih (index + 1) []).cons _
      | cons a as =>
          rw [positionFindings, regions_append]
          exact (regions_slotFindings_self rfl a b).append (ih (index + 1) as)

theorem separate_positions (outer keyword : Keyword) {low : Nat}
    (inside : ∀ i, (Region.inside [.subSchema outer, .position i]).rank = low) (index : Nat)
    (old new : List SubSchema) :
    Separate low (low + 1) (positionFindings [.subSchema outer] keyword index old new) := by
  refine .of_sublist _ (regions_positionFindings outer keyword index old new) ?_ ?_
  · refine List.Nodup.map (fun i j same => ?_) List.nodup_range'
    simpa using same
  · exact List.forall_mem_map.mpr fun i _ => inside i

theorem separate_items (old new : Items) : Separate 8 9 (itemsFindings old new) := by
  rcases old with a | as <;> rcases new with b | bs
  · exact separate_slot .items rfl rfl a b
  · exact .of_sublist [.here .items] (by simp [itemsFindings, Region.ofSpot]) (by simp)
      (by simp [Region.rank])
  · exact .of_sublist [.here .items] (by simp [itemsFindings, Region.ofSpot]) (by simp)
      (by simp [Region.rank])
  · exact separate_positions .items .items (fun _ => rfl) 0 as bs

theorem separate_elements (old new : Node) : Separate 8 11 (elementFindings old new) := by
  have items := separate_option .items Items.toJson rfl separate_items old.effectiveItems
    new.effectiveItems
  have prefixItems := separate_option .prefixItems (fun slots => (Items.tuple slots).toJson) rfl
    (separate_positions .prefixItems .prefixItems (fun _ => rfl) 0) old.prefixItems
    new.prefixItems
  have contains := separate_option .contains SubSchema.toJson rfl
    (separate_slot .contains rfl rfl) old.contains new.contains
  exact (items.append prefixItems (by decide) (by decide)).append contains (by decide) (by decide)

theorem regions_propertyFindings (old new : Node) (entry : String × SubSchema) :
    (regions (propertyFindings old new entry)).Sublist [.inside [.property entry.1]] := by
  unfold propertyFindings
  cases NameTable.get? entry.1 old.properties with
  | none => simp [Region.ofSpot]
  | some a => exact regions_slotFindings_self rfl a entry.2

theorem regions_presentProperties (old new : Node) (entries : List (String × SubSchema)) :
    (regions (entries.flatMap (propertyFindings old new))).Sublist
      ((NameTable.names entries).map fun name => .inside [.property name]) := by
  induction entries with
  | nil => exact .slnil
  | cons entry rest ih =>
      rw [List.flatMap_cons, regions_append]
      exact (regions_propertyFindings old new entry).append ih

theorem regions_removedProperties (old new : Node) :
    regions (told (removedProperties [] old new)) =
      ((NameTable.names old.properties).filter fun name =>
        !NameTable.has name new.properties).map fun name => .inside [.property name] := by
  simp [removedProperties, NameTable.names, List.filter_map, List.filterMap_map,
    Function.comp_def, Region.ofSpot]

theorem separate_properties {old new : Node} (ho : (NameTable.names old.properties).Nodup)
    (hn : (NameTable.names new.properties).Nodup) :
    Separate 12 13 (new.properties.flatMap (propertyFindings old new) ++
      told (removedProperties [] old new)) := by
  refine .of_sublist ((NameTable.names new.properties ++
    (NameTable.names old.properties).filter fun name => !NameTable.has name new.properties).map
      fun name => .inside [.property name]) ?_ ?_ ?_
  · rw [regions_append, regions_removedProperties, List.map_append]
    exact (regions_presentProperties old new _).append_right _
  · refine (hn.append (ho.filter _) fun name listed absent => ?_).map fun _ _ same => by
      simpa using same
    simp [NameTable.has_iff.mpr listed] at absent
  · exact List.forall_mem_map.mpr fun _ _ => rfl

theorem separate_required (old new : Node) :
    Separate 13 14 (told (required [] old new)) := by
  have same : regions (told (required [] old new)) =
      ((requiredFlips old.required new.required).filter fun name =>
        !(NameTable.has name old.properties != NameTable.has name new.properties)).map
          Region.demand := by
    simp [required, List.filterMap_map, Function.comp_def, Region.ofSpot]
  refine .of_sublist _ (by rw [same]) ?_ (List.forall_mem_map.mpr fun _ _ => rfl)
  refine List.Nodup.map (fun _ _ same => Region.demand.inj same) (List.Nodup.filter _ ?_)
  exact ((NameSet.ordered_ofList _).nodup).filter _

theorem separate_members {old new : Node} (ho : (NameTable.names old.properties).Nodup)
    (hn : (NameTable.names new.properties).Nodup) : Separate 12 15 (memberFindings old new) := by
  have additional := separate_slot .additionalProperties rfl rfl old.additionalProperties
    new.additionalProperties
  have pairs : regions
      (told (dependentRequired [] old.dependentRequired new.dependentRequired)) = [] := by
    simp [dependentRequired, List.filterMap_map, Function.comp_def]
  have settled := ((separate_properties ho hn).append (separate_required old new) (by decide)
    (by decide)).append additional (by decide) (by decide)
  rw [memberFindings, told_append, ← List.append_assoc]
  exact settled.append (.of_regions_nil pairs) (by decide) le_rfl

/-- No two findings at one place tell changes of whole keywords in one region. -/
theorem separate_findings {old new : Node} (ho : (NameTable.names old.properties).Nodup)
    (hn : (NameTable.names new.properties).Nodup) : Separate 0 15 (findings old new) := by
  have numeric : Separate 5 6
      (told (family [] old.toFacets new.toFacets .numeric Keyword.numericScalars)) :=
    separate_family (by decide) (by decide)
  have string : Separate 6 7
      (told (family [] old.toFacets new.toFacets .string Keyword.stringScalars)) :=
    separate_family (by decide) (by decide)
  have array : Separate 7 8
      (told (family [] old.toFacets new.toFacets .array Keyword.arrayScalars)) :=
    separate_family (by decide) (by decide)
  have object : Separate 11 12
      (told (family [] old.toFacets new.toFacets .object Keyword.objectScalars)) :=
    separate_family (by decide) (by decide)
  have families : Separate 5 15 (familyFindings old new) := by
    rw [familyFindings, told_append, told_append]
    exact (((((numeric.append string (by decide) (by decide)).append array (by decide)
      (by decide)).append (separate_elements old new).ite (by decide) (by decide)).append object
        (by decide) (by decide)).append (separate_members ho hn).ite (by decide) (by decide))
  rw [findings]
  refine separate_shared.append ?_ (by decide) (by decide)
  split
  · exact .nil
  · exact families

end Places

section Spots

variable {old new a b : Node} {steps path : Path} {keyword : Keyword}

theorem ofSpot_append (leads : Node.Leads old keyword steps a) {spot : Path × Keyword}
    (ranks : (Region.ofSpot spot).rank < 15) :
    Region.ofSpot (steps ++ spot.1, spot.2) = .inside steps := by
  obtain ⟨path, told⟩ := spot
  cases leads with
  | property listed =>
      rcases path with _ | ⟨step, path⟩
      · cases told <;> first | rfl | simp [Region.ofSpot, Region.rank] at ranks
      · rfl
  | itemsAt | prefixItemsAt => rfl
  | items | contains | additionalProperties =>
      rcases path with _ | ⟨_ | _ | _, path⟩
      · rfl
      · rfl
      · rfl
      · simp [Region.ofSpot, Region.rank] at ranks

/-- Where the changes of whole keywords are told, in order. -/
def spots (changes : List Change) : List (Path × Keyword) :=
  (changes.filter (·.IsWhole)).map Change.spot

theorem mem_spots {spot : Path × Keyword} {changes : List Change} :
    spot ∈ spots changes ↔ ∃ change ∈ changes, change.IsWhole ∧ change.spot = spot := by
  simp [spots, and_assoc]

theorem spots_flatMap (findings : List Finding) :
    spots (findings.flatMap Finding.changes) = findings.flatMap fun f => spots f.changes := by
  simp [spots, List.filter_flatMap, List.map_flatMap]

theorem spots_descent (steps : Path) (a b : Node) :
    spots (Finding.descent steps a b).changes =
      (spots (a.diff b)).map fun spot => (steps ++ spot.1, spot.2) := by
  simp only [spots, Finding.changes, List.filter_map, List.map_map, Function.comp_def,
    Change.isWhole_under, Change.spot_under]
  rfl

theorem region?_of_mem_spots {finding : Finding} {spot : Path × Keyword}
    (found : finding ∈ findings old new) (member : spot ∈ spots finding.changes)
    (inner : ∀ steps a b, .descent steps a b ∈ findings old new →
      ∀ spot ∈ spots (a.diff b), (Region.ofSpot spot).rank < 15) :
    finding.region? = some (.ofSpot spot) := by
  cases finding with
  | change told =>
      obtain ⟨change, listed, whole, rfl⟩ := mem_spots.mp member
      cases List.mem_singleton.mp listed
      exact if_pos whole
  | descent steps a b =>
      rw [spots_descent] at member
      obtain ⟨spot, below, rfl⟩ := List.mem_map.mp member
      obtain ⟨_, _, _, _, leads, _⟩ := descends_of_mem_findings found
      rw [ofSpot_append leads (inner steps a b found spot below)]
      rfl

theorem rank_lt_of_mem_spots (ho : old.Accepted) (hn : new.Accepted) :
    ∀ spot ∈ spots (old.diff new), (Region.ofSpot spot).rank < 15 := by
  induction old, new using joint_induction with
  | step old new ih =>
      intro spot member
      rw [diff_eq_findings, spots_flatMap] at member
      obtain ⟨finding, found, member⟩ := List.mem_flatMap.mp member
      have region := region?_of_mem_spots found member fun steps a b descent => by
        obtain ⟨below, below'⟩ := (descends_of_mem_findings descent).below
        exact ih steps a b descent (ho.below below) (hn.below below')
      have separate := separate_findings ho.properties_ordered.nodup hn.properties_ordered.nodup
      exact (separate.ranks _ (mem_regions.mpr ⟨finding, found, region⟩)).2

/-- No two changes of whole keywords share their path and their keyword. -/
theorem nodup_spots (ho : old.Accepted) (hn : new.Accepted) : (spots (old.diff new)).Nodup := by
  induction old, new using joint_induction with
  | step old new ih =>
      have inner steps (a b : Node) (descent : .descent steps a b ∈ findings old new) :
          a.Accepted ∧ b.Accepted := by
        obtain ⟨below, below'⟩ := (descends_of_mem_findings descent).below
        exact ⟨ho.below below, hn.below below'⟩
      have region {finding spot} (found : finding ∈ findings old new)
          (member : spot ∈ spots finding.changes) : finding.region? = some (.ofSpot spot) :=
        region?_of_mem_spots found member fun steps a b descent =>
          rank_lt_of_mem_spots (inner steps a b descent).1 (inner steps a b descent).2
      rw [diff_eq_findings, spots_flatMap, List.nodup_flatMap]
      refine ⟨fun finding found => ?_, ?_⟩
      · cases finding with
        | change told =>
            rw [spots, Finding.changes, List.filter_singleton]
            cases decide told.IsWhole <;> simp
        | descent steps a b =>
            rw [spots_descent]
            obtain ⟨ha, hb⟩ := inner steps a b found
            refine (ih steps a b found ha hb).map fun first second same => ?_
            simpa [Prod.ext_iff] using same
      · have separate := separate_findings ho.properties_ordered.nodup hn.properties_ordered.nodup
        have distinct := List.pairwise_filterMap.mp separate.nodup
        refine distinct.imp_of_mem fun {first second} hf hs different spot member member' => ?_
        exact different _ (region hf member) _ (region hs member') rfl

end Spots

end Diff

/-- Between any two documents that denote schemas, no two changes of whole keywords share their path
and their keyword. -/
theorem pairwise_spot_diff {a b : Json} {old new : Node} (ha : a.Distinct) (hb : b.Distinct)
    (ho : Node.decode a = .ok old) (hn : Node.decode b = .ok new) :
    (old.diff new).Pairwise fun first second =>
      first.IsWhole → second.IsWhole →
        ¬(first.path = second.path ∧ first.keyword = second.keyword) := by
  have distinct := Diff.nodup_spots (Node.accepted_of_decode ha ho) (Node.accepted_of_decode hb hn)
  rw [Diff.spots, List.Nodup, List.pairwise_map, List.pairwise_filter] at distinct
  refine distinct.imp fun {first second} apart hf hs same => ?_
  exact apart (decide_eq_true hf) (decide_eq_true hs) (Prod.ext same.1 same.2)

def headed (first : Json) (second : Bool) : Json :=
  .object [("items", .array [.object [("items", first)], .bool second])]

/-- The list at the first position changes its `items`, and the second position is a changed member
of the outer one's; the paths keep the two apart. -/
theorem pairwise_spot_diff_headed :
    let inner := Change.added [.subSchema .items, .position 0] .items (.bool false)
    let refusal := Change.modified [.subSchema .items, .position 1] .items (.bool true)
      (.bool false)
    ∃ old new, Node.decode (headed (.bool true) true) = .ok old ∧
      Node.decode (headed (.bool false) false) = .ok new ∧ old.diff new = [inner, refusal] ∧
      ¬(inner.path = refusal.path ∧ inner.keyword = refusal.keyword) := by
  intro inner refusal
  refine ⟨_, _, rfl, rfl, rfl, ?_⟩
  have apart := pairwise_spot_diff (a := headed (.bool true) true)
    (b := headed (.bool false) false) (by decide) (by decide) rfl rfl
  exact List.rel_of_pairwise_cons apart List.mem_cons_self rfl rfl

end SchemaEvolution
