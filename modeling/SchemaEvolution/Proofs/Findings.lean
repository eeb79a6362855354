import Mathlib
import SchemaEvolution.Diff
import SchemaEvolution.Proofs.NodeTree

/-! # One level of the walk

What the walk over two schemas finds at one place: changes that it tells right there, and pairs of
schemas further down that it walks next. The difference of two schemas is the changes of its
findings in their order, so a law of the difference needs the law of one level and an induction
along the schemas.
-/

namespace SchemaEvolution

/-- The change told from further up, at a place from which the steps lead to where it was told. -/
def Change.under (steps : Path) (change : Change) : Change :=
  { change with path := steps ++ change.path }

@[simp] theorem Change.under_nil (change : Change) : change.under [] = change := rfl

@[simp] theorem Change.under_under (outer inner : Path) (change : Change) :
    (change.under inner).under outer = change.under (outer ++ inner) := by
  simp [Change.under]

section Builders

variable (steps path : Path) (keyword : Keyword) (old new value : Json)
  (context : PropertyContext)

@[simp] theorem Change.under_added :
    (added path keyword value).under steps = added (steps ++ path) keyword value := rfl

@[simp] theorem Change.under_removed :
    (removed path keyword value).under steps = removed (steps ++ path) keyword value := rfl

@[simp] theorem Change.under_modified :
    (modified path keyword old new).under steps = modified (steps ++ path) keyword old new := rfl

@[simp] theorem Change.under_memberAdded :
    (memberAdded path keyword value).under steps = memberAdded (steps ++ path) keyword value := rfl

@[simp] theorem Change.under_memberRemoved :
    (memberRemoved path keyword value).under steps =
      memberRemoved (steps ++ path) keyword value := rfl

@[simp] theorem Change.under_propertyAdded :
    (propertyAdded path value context).under steps =
      propertyAdded (steps ++ path) value context := rfl

@[simp] theorem Change.under_propertyRemoved :
    (propertyRemoved path value context).under steps =
      propertyRemoved (steps ++ path) value context := rfl

end Builders

namespace Diff

/-- What the walk finds at a place. -/
inductive Finding where
  /-- A change, its path told from the place. -/
  | change (change : Change)
  /-- Two schemas to walk, where the steps lead from the place. -/
  | descent (steps : Path) (old new : Node)

namespace Finding

def changesAt (path : Path) : Finding → List Change
  | .change told => [told.under path]
  | .descent steps old new => Diff.node (path ++ steps) old new

def changes : Finding → List Change
  | .change told => [told]
  | .descent steps old new => (old.diff new).map (Change.under steps)

end Finding

def told (changes : List Change) : List Finding := changes.map .change

theorem told_append (left right : List Change) : told (left ++ right) = told left ++ told right :=
  List.map_append

@[simp] theorem flatMap_changesAt_told (path : Path) (changes : List Change) :
    (told changes).flatMap (Finding.changesAt path) = changes.map (Change.under path) := by
  induction changes with
  | nil => rfl
  | cons change changes ih => simpa [told, Finding.changesAt] using ih

/-- The findings in a place for a schema. -/
def slotFindings (place nested : Path) (keyword : Keyword) : SubSchema → SubSchema → List Finding
  | .schema a, .schema b => [.descent nested a b]
  | .flag a, .flag b =>
    if a = b then [] else [.change (.modified place keyword (.bool a) (.bool b))]
  | a, b => [.change (.modified place keyword a.toJson b.toJson)]

def optionFindings {α : Type} (keyword : Keyword) (toJson : α → Json)
    (both : α → α → List Finding) : Option α → Option α → List Finding
  | none, none => []
  | none, some b => [.change (.added [] keyword (toJson b))]
  | some a, none => [.change (.removed [] keyword (toJson a))]
  | some a, some b => both a b

def positionFindings (base : Path) (keyword : Keyword) :
    Nat → List SubSchema → List SubSchema → List Finding
  | index, old, [] => told (removedSlots base keyword index old)
  | index, [], b :: bs =>
    .change (.memberAdded base keyword (removedSlots.slotValue index b)) ::
      positionFindings base keyword (index + 1) [] bs
  | index, a :: as, b :: bs =>
    let place := base ++ [.position index]
    slotFindings place place keyword a b ++ positionFindings base keyword (index + 1) as bs

def itemsFindings : Items → Items → List Finding
  | .single a, .single b => slotFindings [] [.subSchema .items] .items a b
  | .tuple as, .tuple bs => positionFindings [.subSchema .items] .items 0 as bs
  | a, b => [.change (.modified [] .items a.toJson b.toJson)]

def elementFindings (old new : Node) : List Finding :=
  optionFindings .items Items.toJson itemsFindings old.effectiveItems new.effectiveItems ++
    optionFindings .prefixItems (fun slots => (Items.tuple slots).toJson)
      (positionFindings [.subSchema .prefixItems] .prefixItems 0) old.prefixItems
      new.prefixItems ++
    optionFindings .contains SubSchema.toJson
      (slotFindings [] [.subSchema .contains] .contains) old.contains new.contains

def propertyFindings (old new : Node) (entry : String × SubSchema) : List Finding :=
  match NameTable.get? entry.1 old.properties with
  | some a => slotFindings [.property entry.1] [.property entry.1] .properties a entry.2
  | none =>
    [.change (.propertyAdded [.property entry.1] entry.2.toJson
      { required := new.required.contains entry.1
        additionalProperties := old.extraProperties })]

def memberFindings (old new : Node) : List Finding :=
  new.properties.flatMap (propertyFindings old new) ++
    told (removedProperties [] old new ++ required [] old new) ++
    slotFindings [] [.subSchema .additionalProperties] .additionalProperties
      old.additionalProperties new.additionalProperties ++
    told (dependentRequired [] old.dependentRequired new.dependentRequired)

def familyFindings (old new : Node) : List Finding :=
  told (family [] old.toFacets new.toFacets .numeric Keyword.numericScalars ++
      family [] old.toFacets new.toFacets .string Keyword.stringScalars ++
      family [] old.toFacets new.toFacets .array Keyword.arrayScalars) ++
    (if applies old.toFacets new.toFacets .array then elementFindings old new else []) ++
    told (family [] old.toFacets new.toFacets .object Keyword.objectScalars) ++
    (if applies old.toFacets new.toFacets .object then memberFindings old new else [])

/-- What the walk finds at two schemas. -/
def findings (old new : Node) : List Finding :=
  told (shared [] old.toFacets new.toFacets) ++
    if typeChanged old.toFacets new.toFacets then [] else familyFindings old new

section Places

/-! Every change is told from the place that is walked. -/

variable (path : Path)

theorem ofValues_at (keyword : Keyword) (old new : Option Json) :
    ofValues path keyword old new = (ofValues [] keyword old new).map (Change.under path) := by
  cases old with
  | none => cases new <;> simp [ofValues]
  | some a =>
      cases new with
      | none => simp [ofValues]
      | some b =>
          simp only [ofValues]
          split <;> simp

theorem scalars_at (old new : Facets) (keywords : List Keyword) :
    scalars path old new keywords =
      (scalars [] old new keywords).map (Change.under path) := by
  simp only [scalars, List.map_flatMap, scalar]
  congr 1
  funext keyword
  exact ofValues_at path keyword _ _

theorem family_at (old new : Facets) (kind : Family) (keywords : List Keyword) :
    family path old new kind keywords =
      (family [] old new kind keywords).map (Change.under path) := by
  unfold family
  split
  · exact scalars_at path old new keywords
  · rfl

theorem enumeration_at (old new : Option (List Json)) :
    enumeration path old new = (enumeration [] old new).map (Change.under path) := by
  cases old <;> cases new <;> simp [enumeration, Function.comp_def]

theorem shared_at (old new : Facets) :
    shared path old new = (shared [] old new).map (Change.under path) := by
  simp only [shared, extensions, scalar, List.map_append, ← scalars_at path,
    ← enumeration_at path, ← ofValues_at path]

theorem removedProperties_at (old new : Node) :
    removedProperties path old new =
      (removedProperties [] old new).map (Change.under path) := by
  simp [removedProperties]

theorem required_at (old new : Node) :
    required path old new = (required [] old new).map (Change.under path) := by
  simp [required]

theorem dependentRequired_at (old new : List (String × NameSet)) :
    dependentRequired path old new =
      (dependentRequired [] old new).map (Change.under path) := by
  simp [dependentRequired, Function.comp_def]

theorem slot_at (place nested : Path) (keyword : Keyword) (old new : SubSchema) :
    slot (path ++ place) (path ++ nested) keyword old new =
      (slotFindings place nested keyword old new).flatMap (Finding.changesAt path) := by
  cases old <;> cases new <;> simp [slot, slotFindings, Finding.changesAt, SubSchema.toJson]
  split <;> simp [Finding.changesAt]

theorem removedSlots_at (base : Path) (keyword : Keyword) (index : Nat) (old : List SubSchema) :
    removedSlots (path ++ base) keyword index old =
      (removedSlots base keyword index old).map (Change.under path) := by
  induction old generalizing index with
  | nil => rfl
  | cons a as ih => simp [removedSlots, ih]

theorem slots_at (base : Path) (keyword : Keyword) (index : Nat) (old new : List SubSchema) :
    slots (path ++ base) keyword index old new =
      (positionFindings base keyword index old new).flatMap (Finding.changesAt path) := by
  induction new generalizing old index with
  | nil => simp only [slots, positionFindings, flatMap_changesAt_told, removedSlots_at path]
  | cons b bs ih =>
      cases old with
      | nil => simpa [slots, positionFindings, Finding.changesAt] using ih (index + 1) []
      | cons a as =>
          simp only [slots, positionFindings, List.flatMap_append, ← ih, ← slot_at,
            List.append_assoc]

theorem subValue_at (keyword : Keyword) (old new : Option SubSchema) :
    subValue path keyword old new =
      (optionFindings keyword SubSchema.toJson (slotFindings [] [.subSchema keyword] keyword)
        old new).flatMap (Finding.changesAt path) := by
  cases old <;> cases new <;> simp [subValue, optionFindings, Finding.changesAt]
  simpa using slot_at path [] [.subSchema keyword] keyword _ _

theorem tupleValue_at (keyword : Keyword) (old new : Option (List SubSchema)) :
    tupleValue path keyword old new =
      (optionFindings keyword (fun slots => (Items.tuple slots).toJson)
        (positionFindings [.subSchema keyword] keyword 0) old new).flatMap
          (Finding.changesAt path) := by
  cases old <;> cases new <;> simp [tupleValue, optionFindings, Finding.changesAt]
  exact slots_at path [.subSchema keyword] keyword 0 _ _

theorem itemsValue_at (old new : Option Items) :
    itemsValue path old new =
      (optionFindings .items Items.toJson itemsFindings old (Items.effective new)).flatMap
        (Finding.changesAt path) := by
  have single (a b : SubSchema) := slot_at path [] [.subSchema .items] .items a b
  have tuple (as bs : List SubSchema) := slots_at path [.subSchema .items] .items 0 as bs
  simp only [List.append_nil] at single
  rcases new with _ | ((_ | _) | b) | bs <;> rcases old with _ | (a | as) <;>
    simp [itemsValue, Items.effective, optionFindings, itemsFindings, Finding.changesAt,
      Items.toJson, single, tuple]

theorem presentProperties_at (old new : Node) (entries : List (String × SubSchema)) :
    presentProperties path old new.required entries =
      (entries.flatMap (propertyFindings old new)).flatMap (Finding.changesAt path) := by
  induction entries with
  | nil => rfl
  | cons entry entries ih =>
      obtain ⟨name, b⟩ := entry
      simp only [presentProperties, List.flatMap_cons, List.flatMap_append, ih]
      congr 1
      simp only [propertyFindings]
      cases NameTable.get? name old.properties with
      | none => simp [Finding.changesAt]
      | some a => simpa using slot_at path [.property name] [.property name] .properties a b

theorem elementFindings_at (old new : Node) :
    itemsValue path old.effectiveItems new.items ++
        tupleValue path .prefixItems old.prefixItems new.prefixItems ++
        subValue path .contains old.contains new.contains =
      (elementFindings old new).flatMap (Finding.changesAt path) := by
  simp only [elementFindings, List.flatMap_append, ← subValue_at, ← tupleValue_at,
    Node.effectiveItems, ← itemsValue_at]

theorem memberFindings_at (old new : Node) :
    presentProperties path old new.required new.properties ++
        removedProperties path old new ++ required path old new ++
        slot path (path ++ [.subSchema .additionalProperties]) .additionalProperties
          old.additionalProperties new.additionalProperties ++
        dependentRequired path old.dependentRequired new.dependentRequired =
      (memberFindings old new).flatMap (Finding.changesAt path) := by
  have additional := slot_at path [] [.subSchema .additionalProperties] .additionalProperties
    old.additionalProperties new.additionalProperties
  rw [List.append_nil] at additional
  simp only [memberFindings, List.flatMap_append, flatMap_changesAt_told, List.map_append,
    ← presentProperties_at, ← removedProperties_at, ← required_at, ← dependentRequired_at,
    additional, List.append_assoc]

/-- The walk at a path tells the changes of its findings there. -/
theorem node_eq_findings (old new : Node) :
    Diff.node path old new = (findings old new).flatMap (Finding.changesAt path) := by
  obtain ⟨facets, items, prefixItems, contains, properties, additional⟩ := new
  simp only [Diff.node, findings, List.flatMap_append, flatMap_changesAt_told, ← shared_at]
  congr 1
  split
  · rfl
  · simp only [familyFindings, List.flatMap_append, flatMap_changesAt_told, List.map_append,
      ← family_at, apply_ite (List.flatMap (Finding.changesAt path)), List.flatMap_nil,
      ← elementFindings_at, ← memberFindings_at]

end Places

/-- The keywords of the family are compared: the two schemas do not declare different types, and
one or the other constrains the family. -/
structure Compared (old new : Node) (kind : Family) : Prop where
  sameTypes : ∀ before after, old.types = some before → new.types = some after → before = after
  constrained : old.constrains kind = true ∨ new.constrains kind = true

theorem not_typeChanged_iff {old new : Facets} :
    ¬typeChanged old new = true ↔
      ∀ before after, old.types = some before → new.types = some after → before = after := by
  unfold typeChanged
  cases old.types <;> cases new.types <;> simp

theorem compared_iff {old new : Node} {kind : Family} :
    Compared old new kind ↔
      ¬typeChanged old.toFacets new.toFacets = true ∧
        applies old.toFacets new.toFacets kind = true := by
  rw [not_typeChanged_iff, applies, Bool.or_eq_true]
  exact ⟨fun h => ⟨h.sameTypes, h.constrained⟩, fun h => ⟨h.1, h.2⟩⟩

section Descents

variable {old new a b : Node} {steps place nested : Path} {keyword : Keyword}

@[simp] theorem descent_mem_told {changes : List Change} :
    .descent steps a b ∈ told changes ↔ False := by
  simp [told]

theorem descent_mem_slotFindings {x y : SubSchema} :
    .descent steps a b ∈ slotFindings place nested keyword x y ↔
      steps = nested ∧ x = .schema a ∧ y = .schema b := by
  rcases x with p | x <;> rcases y with q | y <;> simp only [slotFindings]
  · split <;> simp
  all_goals simp [eq_comm]

theorem descent_mem_optionFindings {α : Type} {toJson : α → Json}
    {both : α → α → List Finding} {x y : Option α} :
    .descent steps a b ∈ optionFindings keyword toJson both x y ↔
      ∃ s t, x = some s ∧ y = some t ∧ .descent steps a b ∈ both s t := by
  cases x <;> cases y <;> simp [optionFindings]

theorem descent_mem_positionFindings {base : Path} {index : Nat} {as bs : List SubSchema} :
    .descent steps a b ∈ positionFindings base keyword index as bs ↔
      ∃ i, steps = base ++ [.position (index + i)] ∧ as[i]? = some (.schema a) ∧
        bs[i]? = some (.schema b) := by
  induction bs generalizing as index with
  | nil => simp [positionFindings]
  | cons y bs ih =>
      cases as with
      | nil => simp [positionFindings, ih]
      | cons x as =>
          simp only [positionFindings, List.mem_append, descent_mem_slotFindings, ih]
          constructor
          · rintro (⟨rfl, rfl, rfl⟩ | ⟨i, rfl, ha, hb⟩)
            · exact ⟨0, by simp⟩
            · exact ⟨i + 1, by simp [ha, hb]; omega⟩
          · rintro ⟨i, rfl, ha, hb⟩
            cases i with
            | zero => simp_all
            | succ i => exact .inr ⟨i, by simp at ha hb ⊢; exact ⟨by omega, ha, hb⟩⟩

theorem descent_mem_itemsFindings {x y : Items} :
    .descent steps a b ∈ itemsFindings x y ↔
      (steps = [.subSchema .items] ∧ x = .single (.schema a) ∧ y = .single (.schema b)) ∨
      ∃ as bs i, x = .tuple as ∧ y = .tuple bs ∧ steps = [.subSchema .items, .position i] ∧
        as[i]? = some (.schema a) ∧ bs[i]? = some (.schema b) := by
  cases x <;> cases y <;>
    simp [itemsFindings, descent_mem_slotFindings, descent_mem_positionFindings]

theorem effective_eq_some_iff {items : Option Items} {value : Items} :
    Items.effective items = some value ↔ items = some value ∧ value ≠ .single (.flag true) := by
  rcases items with _ | ((_ | _) | x) | slots <;> simp [Items.effective] <;> rintro rfl <;> simp

theorem descent_mem_elementFindings :
    .descent steps a b ∈ elementFindings old new ↔
      ∃ keyword : Keyword, keyword.family? = some .array ∧ old.Leads keyword steps a ∧
        new.Leads keyword steps b := by
  simp only [elementFindings, List.mem_append, descent_mem_optionFindings,
    descent_mem_itemsFindings, descent_mem_positionFindings, descent_mem_slotFindings,
    Node.effectiveItems, effective_eq_some_iff]
  constructor
  · rintro ((⟨_, _, ⟨hx, _⟩, ⟨hy, _⟩, ⟨rfl, rfl, rfl⟩ | ⟨as, bs, i, rfl, rfl, rfl, ha, hb⟩⟩ |
      ⟨_, _, hx, hy, i, rfl, ha, hb⟩) | ⟨_, _, hx, hy, rfl, rfl, rfl⟩)
    · exact ⟨.items, rfl, .items hx, .items hy⟩
    · exact ⟨.items, rfl, .itemsAt hx ha, .itemsAt hy hb⟩
    · rw [Nat.zero_add]
      exact ⟨.prefixItems, rfl, .prefixItemsAt hx ha, .prefixItemsAt hy hb⟩
    · exact ⟨.contains, rfl, .contains hx, .contains hy⟩
  · rintro ⟨keyword, inFamily, ha, hb⟩
    cases ha with
    | items hx =>
        cases hb with
        | items hy => exact .inl (.inl ⟨_, _, ⟨hx, by simp⟩, ⟨hy, by simp⟩, .inl ⟨rfl, rfl, rfl⟩⟩)
    | itemsAt hx ha =>
        cases hb with
        | itemsAt hy hb =>
            exact .inl (.inl ⟨_, _, ⟨hx, by simp⟩, ⟨hy, by simp⟩,
              .inr ⟨_, _, _, rfl, rfl, rfl, ha, hb⟩⟩)
    | prefixItemsAt hx ha =>
        cases hb with
        | prefixItemsAt hy hb => exact .inl (.inr ⟨_, _, hx, hy, _, by simp, ha, hb⟩)
    | contains hx =>
        cases hb with
        | contains hy => exact .inr ⟨_, _, hx, hy, rfl, rfl, rfl⟩
    | property | additionalProperties => cases inFamily

theorem descent_mem_propertyFindings {entry : String × SubSchema} :
    .descent steps a b ∈ propertyFindings old new entry ↔
      steps = [.property entry.1] ∧
        NameTable.get? entry.1 old.properties = some (.schema a) ∧ entry.2 = .schema b := by
  unfold propertyFindings
  cases NameTable.get? entry.1 old.properties <;> simp [descent_mem_slotFindings]

theorem leads_of_descent_mem_memberFindings (h : .descent steps a b ∈ memberFindings old new) :
    ∃ keyword : Keyword, keyword.family? = some .object ∧ old.Leads keyword steps a ∧
      new.Leads keyword steps b := by
  simp only [memberFindings, List.mem_append, List.mem_flatMap, descent_mem_told, or_false,
    descent_mem_propertyFindings, descent_mem_slotFindings] at h
  obtain ⟨⟨name, _⟩, member, rfl, found, rfl⟩ | ⟨rfl, hx, hy⟩ := h
  · exact ⟨.properties, rfl, .property (NameTable.mem_of_get? found), .property member⟩
  · exact ⟨.additionalProperties, rfl, .additionalProperties hx, .additionalProperties hy⟩

theorem descent_mem_memberFindings (distinct : (NameTable.names old.properties).Nodup)
    (inFamily : keyword.family? = some .object) (ha : old.Leads keyword steps a)
    (hb : new.Leads keyword steps b) : .descent steps a b ∈ memberFindings old new := by
  simp only [memberFindings, List.mem_append, List.mem_flatMap, descent_mem_told, or_false,
    descent_mem_propertyFindings, descent_mem_slotFindings]
  cases ha with
  | property listed =>
      cases hb with
      | property listed' =>
          exact .inl ⟨_, listed', rfl, (NameTable.get?_eq_some_iff distinct).mpr listed, rfl⟩
  | additionalProperties hx =>
      cases hb with
      | additionalProperties hy => exact .inr ⟨rfl, hx, hy⟩
  | items | itemsAt | prefixItemsAt | contains => cases inFamily

/-- The walk goes on from two schemas to two that the same steps lead to on both sides, through a
keyword of a family that it compares. -/
def Descends (old new : Node) (steps : Path) (a b : Node) : Prop :=
  ∃ keyword kind, keyword.family? = some kind ∧ Compared old new kind ∧
    old.Leads keyword steps a ∧ new.Leads keyword steps b

theorem descends_of_mem_findings (h : .descent steps a b ∈ findings old new) :
    Descends old new steps a b := by
  simp only [findings, List.mem_append, descent_mem_told, false_or] at h
  split at h
  · cases h
  rename_i sameTypes
  simp only [familyFindings, List.mem_append, descent_mem_told, false_or, or_false] at h
  rcases h with h | h <;> split at h <;> try cases h
  · rename_i applied
    obtain ⟨keyword, inFamily, ha, hb⟩ := descent_mem_elementFindings.mp h
    exact ⟨keyword, .array, inFamily, compared_iff.mpr ⟨sameTypes, applied⟩, ha, hb⟩
  · rename_i applied
    obtain ⟨keyword, inFamily, ha, hb⟩ := leads_of_descent_mem_memberFindings h
    exact ⟨keyword, .object, inFamily, compared_iff.mpr ⟨sameTypes, applied⟩, ha, hb⟩

theorem mem_findings_of_descends (distinct : (NameTable.names old.properties).Nodup)
    (h : Descends old new steps a b) : .descent steps a b ∈ findings old new := by
  obtain ⟨keyword, kind, inFamily, compared, ha, hb⟩ := h
  obtain ⟨sameTypes, applied⟩ := compared_iff.mp compared
  rw [findings, if_neg sameTypes]
  simp only [familyFindings, List.mem_append, descent_mem_told, false_or, or_false]
  cases ha with
  | property | additionalProperties =>
      cases inFamily
      rw [if_pos applied]
      exact .inr (descent_mem_memberFindings distinct rfl (by constructor; assumption) hb)
  | items | itemsAt | prefixItemsAt | contains =>
      cases inFamily
      rw [if_pos applied]
      exact .inl (descent_mem_elementFindings.mpr ⟨_, rfl, by constructor <;> assumption, hb⟩)

theorem Descends.below (h : Descends old new steps a b) : a.Below old ∧ b.Below new := by
  obtain ⟨_, _, _, _, ha, hb⟩ := h
  exact ⟨ha.below, hb.below⟩

/-- Induction over two schemas, with a hypothesis for every two that are walked next. -/
theorem joint_induction {motive : Node → Node → Prop}
    (step : ∀ old new, (∀ steps a b, .descent steps a b ∈ findings old new → motive a b) →
      motive old new) (old new : Node) : motive old new := by
  induction new using Node.rec_strong generalizing old with
  | step new ih =>
      refine step old new fun steps a b member => ?_
      exact ih b (descends_of_mem_findings member).below.2 a

end Descents

/-- The walk at a path tells what it tells at the root, told from further up. -/
theorem node_eq_map_under (path : Path) (old new : Node) :
    Diff.node path old new = (old.diff new).map (Change.under path) := by
  induction old, new using joint_induction generalizing path with
  | step old new ih =>
      rw [Node.diff, node_eq_findings path, node_eq_findings [], List.map_flatMap]
      refine List.flatMap_congr fun finding member => ?_
      cases finding with
      | change told => simp [Finding.changesAt]
      | descent steps a b =>
          simp only [Finding.changesAt]
          rw [ih steps a b member, ih steps a b member ([] ++ steps)]
          simp [Function.comp_def]

/-- The difference of two schemas is what the walk finds at their root, in order. -/
theorem diff_eq_findings (old new : Node) :
    old.diff new = (findings old new).flatMap Finding.changes := by
  rw [Node.diff, node_eq_findings]
  refine List.flatMap_congr fun finding _ => ?_
  cases finding with
  | change told => simp [Finding.changesAt, Finding.changes]
  | descent steps a b => simp [Finding.changesAt, Finding.changes, node_eq_map_under steps]

section Settled

variable {P : Change → Prop} {R : Node → Node → Prop}

/-- A change has the property, two schemas to walk are in the relation. -/
def Finding.Fits (P : Change → Prop) (R : Node → Node → Prop) : Finding → Prop
  | .change told => P told
  | .descent _ old new => R old new

/-- Every finding fits. -/
def Settled (P : Change → Prop) (R : Node → Node → Prop) (findings : List Finding) : Prop :=
  ∀ finding ∈ findings, finding.Fits P R

theorem Settled.imp {Q : Change → Prop} {S : Node → Node → Prop} {findings : List Finding}
    (h : Settled P R findings) (told : ∀ change, P change → Q change)
    (walked : ∀ a b, R a b → S a b) : Settled Q S findings := by
  intro finding found
  have fits := h finding found
  cases finding with
  | change c => exact told c fits
  | descent steps a b => exact walked a b fits

@[simp] theorem settled_nil : Settled P R [] := by simp [Settled]

@[simp] theorem settled_cons {finding : Finding} {rest : List Finding} :
    Settled P R (finding :: rest) ↔ finding.Fits P R ∧ Settled P R rest :=
  List.forall_mem_cons

@[simp] theorem settled_append {left right : List Finding} :
    Settled P R (left ++ right) ↔ Settled P R left ∧ Settled P R right :=
  List.forall_mem_append

@[simp] theorem settled_told {changes : List Change} :
    Settled P R (told changes) ↔ ∀ change ∈ changes, P change :=
  List.forall_mem_map

theorem settled_ite {condition : Prop} [Decidable condition] {findings : List Finding} :
    Settled P R (if condition then findings else []) ↔ (condition → Settled P R findings) := by
  split <;> simp [*]

theorem settled_flatMap {α : Type} {f : α → List Finding} {list : List α} :
    Settled P R (list.flatMap f) ↔ ∀ x ∈ list, Settled P R (f x) := by
  simp only [Settled, List.mem_flatMap]
  constructor
  · intro h x listed finding found
    exact h finding ⟨x, listed, found⟩
  · rintro h finding ⟨x, listed, found⟩
    exact h x listed finding found

/-- A property that does not depend on where a change is told from holds of all changes if every
level fits. -/
theorem forall_diff_iff (under : ∀ steps change, P (change.under steps) ↔ P change)
    {old new : Node} :
    (∀ change ∈ old.diff new, P change) ↔
      Settled P (fun a b => ∀ change ∈ a.diff b, P change) (findings old new) := by
  rw [diff_eq_findings, List.forall_mem_flatMap]
  refine forall₂_congr fun finding _ => ?_
  cases finding with
  | change told => exact List.forall_mem_singleton
  | descent steps a b => simp only [Finding.changes, List.forall_mem_map, under, Finding.Fits]

end Settled

end Diff

end SchemaEvolution
