import Mathlib
import SchemaEvolution.Proofs.Reading
import SchemaEvolution.Proofs.Visits

/-! # Shapes of changes

What a change of the walk over two decoded schemas can look like, whatever its path: which keywords
turn from one value into another, and what these values are. No object in them repeats a name.
Whoever reads changes has these cases to cover and no others.
-/

namespace SchemaEvolution

namespace SubSchema

/-- How much the place lets pass: nothing, something, everything. -/
def openness : SubSchema → Nat
  | .flag false => 0
  | .schema _ => 1
  | .flag true => 2

theorem openness?_toJson {sub : SubSchema} (h : sub.Accepted) :
    openness? sub.toJson = some sub.openness := by
  rcases sub with (_ | _) | node
  · rfl
  · rfl
  · obtain ⟨members, read⟩ := Node.ReadFrom.of_accepted h
    simp only [toJson, read.source, openness?, openness]

theorem elements?_toJson {sub : SubSchema} (h : sub.Accepted) : sub.toJson.elements? = none := by
  rcases sub with p | node
  · rfl
  · obtain ⟨members, read⟩ := Node.ReadFrom.of_accepted h
    simp only [toJson, read.source, Json.elements?]

theorem distinct_toJson {sub : SubSchema} (h : sub.Accepted) : sub.toJson.Distinct := by
  rcases sub with p | node
  · exact .bool p
  · obtain ⟨members, read⟩ := Node.ReadFrom.of_accepted h
    rw [toJson, read.source]
    exact read.distinct

end SubSchema

theorem Items.distinct_toJson {items : Items} (h : ∀ sub ∈ items.subSchemas, sub.Accepted) :
    items.toJson.Distinct := by
  rcases items with sub | slots
  · exact SubSchema.distinct_toJson (h sub List.mem_cons_self)
  · refine .array fun value member => ?_
    obtain ⟨sub, listed, rfl⟩ := List.mem_map.mp member
    exact SubSchema.distinct_toJson (h sub listed)

namespace Keyword

/-- The keywords in whose places booleans and schemas stand. -/
def places : List Keyword :=
  [.items, .prefixItems, .contains, .additionalProperties, .properties]

/-- The keywords of which members come and go one by one. -/
def memberwise : List Keyword := [.enum, .dependentRequired, .items, .prefixItems]

end Keyword

/-- The two values that a keyword may turn from and into. -/
inductive Keyword.Turns : Keyword → Json → Json → Prop where
  | value {keyword : Keyword} {old new : Json} {before after : Facets}
      (former : before.valueOf keyword = some old) (latter : after.valueOf keyword = some new)
      (differs : old.equivalent new = false) : Turns keyword old new
  | demand (now : Bool) : Turns .required (.bool !now) (.bool now)
  | place {keyword : Keyword} {a b : SubSchema} (holds : keyword ∈ Keyword.places)
      (ha : a.Accepted) (hb : b.Accepted) (apart : a.openness ≠ b.openness) :
      Turns keyword a.toJson b.toJson
  | spread {a : SubSchema} {bs : List SubSchema} (ha : a.Accepted) :
      Turns .items a.toJson (Items.tuple bs).toJson
  | merged {as : List SubSchema} {b : SubSchema} (hb : b.Accepted) :
      Turns .items (Items.tuple as).toJson b.toJson

namespace Change

/-- What a change may look like. -/
inductive Shape : Change → Prop where
  | added (path : Path) (keyword : Keyword) {value : Json} (distinct : value.Distinct) :
      Shape (.added path keyword value)
  | removed (path : Path) (keyword : Keyword) {value : Json} (distinct : value.Distinct) :
      Shape (.removed path keyword value)
  | modified (path : Path) {keyword : Keyword} {old new : Json} (turns : keyword.Turns old new)
      (before : old.Distinct) (after : new.Distinct) : Shape (.modified path keyword old new)
  | memberAdded (path : Path) {keyword : Keyword} (holds : keyword ∈ Keyword.memberwise)
      {value : Json} (distinct : value.Distinct) : Shape (.memberAdded path keyword value)
  | memberRemoved (path : Path) {keyword : Keyword} (holds : keyword ∈ Keyword.memberwise)
      {value : Json} (distinct : value.Distinct) : Shape (.memberRemoved path keyword value)
  | propertyAdded (path : Path) {schema : Json} (distinct : schema.Distinct)
      (context : PropertyContext) : Shape (.propertyAdded path schema context)
  | propertyRemoved (path : Path) {schema : Json} (distinct : schema.Distinct)
      (context : PropertyContext) : Shape (.propertyRemoved path schema context)

theorem Shape.under {change : Change} (h : change.Shape) (steps : Path) :
    (change.under steps).Shape := by
  cases h with
  | added path keyword distinct => exact .added _ keyword distinct
  | removed path keyword distinct => exact .removed _ keyword distinct
  | modified path turns before after => exact .modified _ turns before after
  | memberAdded path holds distinct => exact .memberAdded _ holds distinct
  | memberRemoved path holds distinct => exact .memberRemoved _ holds distinct
  | propertyAdded path distinct context => exact .propertyAdded _ distinct context
  | propertyRemoved path distinct context => exact .propertyRemoved _ distinct context

/-- No object in the values of a change repeats a name. -/
theorem Shape.distinct {change : Change} (shape : change.Shape) :
    (∀ value ∈ change.oldValue, value.Distinct) ∧ ∀ value ∈ change.newValue, value.Distinct := by
  cases shape with
  | added _ _ distinct | memberAdded _ _ distinct | propertyAdded _ distinct =>
      exact ⟨nofun, fun _ same => Option.some_inj.mp same ▸ distinct⟩
  | removed _ _ distinct | memberRemoved _ _ distinct | propertyRemoved _ distinct =>
      exact ⟨fun _ same => Option.some_inj.mp same ▸ distinct, nofun⟩
  | modified _ _ before after =>
      exact ⟨fun _ same => Option.some_inj.mp same ▸ before,
        fun _ same => Option.some_inj.mp same ▸ after⟩

theorem Shape.exists_turns {change : Change} (shape : change.Shape)
    (turned : change.kind = .modified) :
    ∃ path keyword old new, Keyword.Turns keyword old new ∧
      change = .modified path keyword old new := by
  cases shape with
  | modified path turns _ _ => exact ⟨path, _, _, _, turns, rfl⟩
  | _ => cases turned

end Change

namespace Diff

section Level

/-- The changes among the findings have a shape. -/
abbrev Shaped : List Finding → Prop := Settled Change.Shape fun _ _ => True

variable {old new : Node}

section Facets

variable {path : Path} {before after : Facets} {keyword : Keyword} {change : Change}
  (former : before.Regular) (latter : after.Regular)

include former latter

theorem shape_of_mem_scalar (member : change ∈ scalar path before after keyword) :
    change.Shape := by
  obtain ⟨differs, rfl⟩ := mem_ofValues.mp member
  cases old : before.valueOf keyword with
  | none =>
      cases new : after.valueOf keyword with
      | none =>
          rw [old, new] at differs
          cases differs
      | some b => exact .added path keyword (latter.valueOf new)
  | some a =>
      cases new : after.valueOf keyword with
      | none => exact .removed path keyword (former.valueOf old)
      | some b =>
          rw [old, new] at differs
          exact .modified path (.value old new differs) (former.valueOf old) (latter.valueOf new)

theorem shape_of_mem_scalars {keywords : List Keyword}
    (member : change ∈ scalars path before after keywords) : change.Shape :=
  shape_of_mem_scalar former latter (mem_scalars.mp member).2

theorem shape_of_mem_family {kind : Family} {keywords : List Keyword}
    (member : change ∈ family path before after kind keywords) : change.Shape :=
  shape_of_mem_scalar former latter (mem_family.mp member).2.2

theorem shape_of_mem_enumeration
    (member : change ∈ enumeration path before.enumeration after.enumeration) : change.Shape := by
  have old := former.enumeration
  have new := latter.enumeration
  cases a : before.enumeration <;> cases b : after.enumeration <;>
    simp only [a, b, enumeration, List.mem_append, List.mem_map] at member
  · cases member
  · cases List.mem_singleton.mp member
    exact .added path .enum (.array (new _ b))
  · cases List.mem_singleton.mp member
    exact .removed path .enum (.array (old _ a))
  · rcases member with ⟨option, listed, rfl⟩ | ⟨option, listed, rfl⟩
    · exact .memberAdded path (by decide) (new _ b option (List.mem_of_mem_filter listed))
    · exact .memberRemoved path (by decide) (old _ a option (List.mem_of_mem_filter listed))

theorem shape_of_mem_shared (member : change ∈ shared path before after) : change.Shape := by
  simp only [shared, extensions, List.mem_append] at member
  rcases member with (((member | member) | member) | member) | member
  · exact shape_of_mem_scalars former latter member
  · exact shape_of_mem_scalars former latter member
  · exact shape_of_mem_scalar former latter member
  · exact shape_of_mem_enumeration former latter member
  · exact shape_of_mem_scalar former latter member

end Facets

theorem shaped_slot {place nested : Path} {keyword : Keyword} (holds : keyword ∈ Keyword.places)
    {a b : SubSchema} (ha : a.Accepted) (hb : b.Accepted) :
    Shaped (slotFindings place nested keyword a b) := by
  have turned (apart : a.openness ≠ b.openness) :
      Shaped [.change (.modified place keyword a.toJson b.toJson)] :=
    settled_cons.mpr ⟨.modified place (.place holds ha hb apart) (SubSchema.distinct_toJson ha)
      (SubSchema.distinct_toJson hb), settled_nil⟩
  rcases a with p | a <;> rcases b with q | b
  · simp only [slotFindings]
    split
    · exact settled_nil
    · apply turned
      cases p <;> cases q <;> simp_all [SubSchema.openness]
  · apply turned
    cases p <;> simp [SubSchema.openness]
  · apply turned
    cases q <;> simp [SubSchema.openness]
  · exact settled_cons.mpr ⟨trivial, settled_nil⟩

theorem shaped_option {α : Type} {keyword : Keyword} {toJson : α → Json}
    {both : α → α → List Finding} {a b : Option α} {P : α → Prop}
    (before : ∀ s, a = some s → P s) (after : ∀ t, b = some t → P t)
    (distinct : ∀ s, P s → (toJson s).Distinct) (inner : ∀ s t, P s → P t → Shaped (both s t)) :
    Shaped (optionFindings keyword toJson both a b) := by
  cases a with
  | none =>
      cases b with
      | none => exact settled_nil
      | some t =>
          have value := distinct t (after t rfl)
          exact settled_cons.mpr ⟨.added [] keyword value, settled_nil⟩
  | some s =>
      cases b with
      | none =>
          have value := distinct s (before s rfl)
          exact settled_cons.mpr ⟨.removed [] keyword value, settled_nil⟩
      | some t => exact inner s t (before s rfl) (after t rfl)

theorem distinct_slotValue {index : Nat} {sub : SubSchema} (h : sub.Accepted) :
    (removedSlots.slotValue index sub).Distinct := by
  have names : ["position", "schema"].Nodup := by decide
  refine .object names fun member listed => ?_
  rcases List.mem_cons.mp listed with rfl | listed
  · exact .number _
  · cases List.mem_singleton.mp listed
    exact SubSchema.distinct_toJson h

theorem shaped_positions {base : Path} {keyword : Keyword} (holds : keyword ∈ Keyword.places)
    (memberwise : keyword ∈ Keyword.memberwise) {index : Nat} {as bs : List SubSchema}
    (ha : ∀ a ∈ as, a.Accepted) (hb : ∀ b ∈ bs, b.Accepted) :
    Shaped (positionFindings base keyword index as bs) := by
  induction bs generalizing as index with
  | nil =>
      rw [positionFindings]
      apply settled_told.mpr
      clear hb
      induction as generalizing index with
      | nil => exact List.forall_mem_nil _
      | cons a as ih =>
          obtain ⟨ha, has⟩ := List.forall_mem_cons.mp ha
          exact List.forall_mem_cons.mpr
            ⟨.memberRemoved base memberwise (distinct_slotValue ha), ih has⟩
  | cons b bs ih =>
      obtain ⟨hb, hbs⟩ := List.forall_mem_cons.mp hb
      cases as with
      | nil =>
          exact settled_cons.mpr
            ⟨.memberAdded base memberwise (distinct_slotValue hb), ih (List.forall_mem_nil _) hbs⟩
      | cons a as =>
          obtain ⟨ha, has⟩ := List.forall_mem_cons.mp ha
          exact settled_append.mpr ⟨shaped_slot holds ha hb, ih has hbs⟩

theorem shaped_items {a b : Items} (ha : ∀ sub ∈ a.subSchemas, sub.Accepted)
    (hb : ∀ sub ∈ b.subSchemas, sub.Accepted) : Shaped (itemsFindings a b) := by
  have before := Items.distinct_toJson ha
  have after := Items.distinct_toJson hb
  rcases a with a | as <;> rcases b with b | bs
  · exact shaped_slot (by decide) (ha a List.mem_cons_self) (hb b List.mem_cons_self)
  · have spread : Keyword.Turns .items a.toJson (Items.tuple bs).toJson :=
      .spread (ha a List.mem_cons_self)
    exact settled_cons.mpr ⟨.modified [] spread before after, settled_nil⟩
  · have merged : Keyword.Turns .items (Items.tuple as).toJson b.toJson :=
      .merged (hb b List.mem_cons_self)
    exact settled_cons.mpr ⟨.modified [] merged before after, settled_nil⟩
  · exact shaped_positions (by decide) (by decide) ha hb

theorem shaped_elements (ho : old.Accepted) (hn : new.Accepted) :
    Shaped (elementFindings old new) := by
  have before := Node.forall_subSchemas_iff.mp ho.subSchemas
  have after := Node.forall_subSchemas_iff.mp hn.subSchemas
  refine settled_append.mpr ⟨settled_append.mpr ⟨?items, ?prefixItems⟩, ?contains⟩
  case items =>
    have former := fun items same => before.1 items (effective_eq_some_iff.mp same).1
    have latter := fun items same => after.1 items (effective_eq_some_iff.mp same).1
    exact shaped_option former latter (fun _ => Items.distinct_toJson) fun _ _ => shaped_items
  case prefixItems =>
    have distinct (slots : List SubSchema) (each : ∀ sub ∈ slots, sub.Accepted) :
        (Items.tuple slots).toJson.Distinct := Items.distinct_toJson each
    exact shaped_option before.2.1 after.2.1 distinct fun _ _ =>
      shaped_positions (by decide) (by decide)
  case contains =>
    exact shaped_option before.2.2.1 after.2.2.1 (fun _ => SubSchema.distinct_toJson) fun _ _ =>
      shaped_slot (by decide)

theorem shaped_property (ho : old.Accepted) {entry : String × SubSchema}
    (accepted : entry.2.Accepted) : Shaped (propertyFindings old new entry) := by
  have before := Node.forall_subSchemas_iff.mp ho.subSchemas
  unfold propertyFindings
  cases found : NameTable.get? entry.1 old.properties with
  | none =>
      have value := SubSchema.distinct_toJson accepted
      exact settled_cons.mpr ⟨.propertyAdded _ value _, settled_nil⟩
  | some a =>
      exact shaped_slot (by decide) (before.2.2.2.1 _ (NameTable.mem_of_get? found)) accepted

theorem distinct_pair (pair : String × String) :
    (Json.object [(pair.1, .string pair.2)]).Distinct := by
  refine .object (List.nodup_singleton _) fun member listed => ?_
  cases List.mem_singleton.mp listed
  exact .string _

theorem shaped_members (ho : old.Accepted) (hn : new.Accepted) :
    Shaped (memberFindings old new) := by
  have before := Node.forall_subSchemas_iff.mp ho.subSchemas
  have after := Node.forall_subSchemas_iff.mp hn.subSchemas
  simp only [memberFindings, settled_append, settled_flatMap, settled_told, List.forall_mem_append]
  refine ⟨⟨⟨?present, ?removed, ?demanded⟩, ?additional⟩, ?dependent⟩
  case present =>
    intro entry listed
    exact shaped_property ho (after.2.2.2.1 entry listed)
  case removed =>
    intro change member
    obtain ⟨entry, listed, rfl⟩ := List.mem_map.mp member
    have value := SubSchema.distinct_toJson (before.2.2.2.1 entry (List.mem_of_mem_filter listed))
    exact .propertyRemoved _ value _
  case demanded =>
    intro change member
    obtain ⟨name, _, rfl⟩ := List.mem_map.mp member
    exact .modified _ (.demand _) (.bool _) (.bool _)
  case additional => exact shaped_slot (by decide) before.2.2.2.2 after.2.2.2.2
  case dependent =>
    intro change member
    simp only [dependentRequired, List.mem_append, List.mem_map] at member
    rcases member with ⟨pair, _, rfl⟩ | ⟨pair, _, rfl⟩
    · exact .memberAdded [] (by decide) (distinct_pair pair)
    · exact .memberRemoved [] (by decide) (distinct_pair pair)

theorem shaped_findings (ho : old.Accepted) (hn : new.Accepted) : Shaped (findings old new) := by
  have former := ho.regular
  have latter := hn.regular
  refine settled_append.mpr
    ⟨settled_told.mpr fun _ member => shape_of_mem_shared former latter member, ?_⟩
  split
  · exact settled_nil
  simp only [familyFindings, settled_append, settled_told, settled_ite, List.forall_mem_append]
  refine ⟨⟨⟨⟨⟨?_, ?_⟩, ?_⟩, fun _ => shaped_elements ho hn⟩, ?_⟩, fun _ => shaped_members ho hn⟩
  all_goals
    intro change member
    exact shape_of_mem_family former latter member

end Level

/-- Every change between two accepted schemas has one of the shapes. -/
theorem shape_of_mem_diff {old new : Node} (ho : old.Accepted) (hn : new.Accepted)
    {change : Change} (member : change ∈ old.diff new) : change.Shape := by
  obtain ⟨path, x, y, told, visits, found, rfl⟩ := told_of_mem_diff member
  obtain ⟨hx, hy⟩ := visits.accepted ho hn
  have shape : told.Shape := shaped_findings hx hy _ found
  exact shape.under path

end Diff

end SchemaEvolution
