import Mathlib
import SchemaEvolution.Path
import SchemaEvolution.Schema.Node
import SchemaEvolution.Proofs.Names

/-! # Schemas below a schema

The places of a schema that hold further schemas, as one list, and induction along them.
-/

namespace SchemaEvolution

namespace Items

def subSchemas : Items → List SubSchema
  | .single sub => [sub]
  | .tuple slots => slots

end Items

namespace Node

def subSchemas (node : Node) : List SubSchema :=
  (node.items.map Items.subSchemas).getD [] ++ node.prefixItems.getD [] ++
    node.contains.toList ++ node.properties.map (·.2) ++ [node.additionalProperties]

section Places

variable {node : Node} {sub : SubSchema} {slots : List SubSchema} {name : String}

theorem mem_subSchemas_iff :
    sub ∈ node.subSchemas ↔ (∃ items, node.items = some items ∧ sub ∈ items.subSchemas) ∨
      (∃ slots, node.prefixItems = some slots ∧ sub ∈ slots) ∨ node.contains = some sub ∨
      (∃ entry ∈ node.properties, entry.2 = sub) ∨ sub = node.additionalProperties := by
  cases items : node.items <;> cases prefixItems : node.prefixItems <;>
    simp [subSchemas, items, prefixItems]

theorem forall_subSchemas_iff {P : SubSchema → Prop} :
    (∀ sub ∈ node.subSchemas, P sub) ↔
      (∀ items, node.items = some items → ∀ sub ∈ items.subSchemas, P sub) ∧
      (∀ slots, node.prefixItems = some slots → ∀ sub ∈ slots, P sub) ∧
      (∀ sub, node.contains = some sub → P sub) ∧ (∀ entry ∈ node.properties, P entry.2) ∧
      P node.additionalProperties := by
  simp only [mem_subSchemas_iff]
  grind

theorem mem_subSchemas_of_items {items : Items} (h : node.items = some items)
    (member : sub ∈ items.subSchemas) : sub ∈ node.subSchemas :=
  mem_subSchemas_iff.mpr (.inl ⟨items, h, member⟩)

theorem mem_subSchemas_of_prefixItems (h : node.prefixItems = some slots)
    (member : sub ∈ slots) : sub ∈ node.subSchemas :=
  mem_subSchemas_iff.mpr (.inr (.inl ⟨slots, h, member⟩))

theorem mem_subSchemas_of_contains (h : node.contains = some sub) : sub ∈ node.subSchemas :=
  mem_subSchemas_iff.mpr (.inr (.inr (.inl h)))

theorem mem_subSchemas_of_property (h : (name, sub) ∈ node.properties) :
    sub ∈ node.subSchemas :=
  mem_subSchemas_iff.mpr (.inr (.inr (.inr (.inl ⟨_, h, rfl⟩))))

theorem mem_subSchemas_additionalProperties : node.additionalProperties ∈ node.subSchemas :=
  mem_subSchemas_iff.mpr (.inr (.inr (.inr (.inr rfl))))

end Places

/-- The schema lies right below the other one. -/
def Below (child node : Node) : Prop := .schema child ∈ node.subSchemas

theorem below_of_additionalProperties {node child : Node}
    (h : node.additionalProperties = .schema child) : Below child node := by
  rw [Below, ← h]
  exact mem_subSchemas_additionalProperties

theorem sizeOf_lt_of_mem_subSchemas {sub : SubSchema} {node : Node} (h : sub ∈ node.subSchemas) :
    sizeOf sub < sizeOf node := by
  obtain ⟨facets, items, prefixItems, contains, properties, additional⟩ := node
  simp only [Node.mk.sizeOf_spec]
  rcases mem_subSchemas_iff.mp h with ⟨items, rfl, member⟩ | ⟨slots, rfl, member⟩ | rfl |
    ⟨⟨name, inner⟩, member, rfl⟩ | rfl
  · cases items with
    | single inner =>
        cases List.mem_singleton.mp member
        simp only [Option.some.sizeOf_spec, Items.single.sizeOf_spec]
        omega
    | tuple slots =>
        have smaller := List.sizeOf_lt_of_mem (show sub ∈ slots from member)
        simp only [Option.some.sizeOf_spec, Items.tuple.sizeOf_spec]
        omega
  · have smaller := List.sizeOf_lt_of_mem member
    simp only [Option.some.sizeOf_spec]
    omega
  · simp only [Option.some.sizeOf_spec]
    omega
  · have smaller := List.sizeOf_lt_of_mem member
    simp only [Prod.mk.sizeOf_spec] at smaller
    change sizeOf inner < _
    omega
  · omega

theorem Below.sizeOf_lt {child node : Node} (h : Below child node) :
    sizeOf child < sizeOf node := by
  have smaller := sizeOf_lt_of_mem_subSchemas h
  simp only [SubSchema.schema.sizeOf_spec] at smaller
  omega

/-- Induction over schemas, with a hypothesis for every schema right below. -/
theorem rec_strong {motive : Node → Prop}
    (step : ∀ node, (∀ child, Below child node → motive child) → motive node) (node : Node) :
    motive node :=
  step node fun child _ => rec_strong step child
termination_by sizeOf node
decreasing_by exact Below.sizeOf_lt ‹_›

/-- The steps lead from the schema to a schema right below, through what the keyword holds. -/
inductive Leads (node : Node) : Keyword → Path → Node → Prop where
  | property {name : String} {child : Node}
      (listed : (name, .schema child) ∈ node.properties) :
      Leads node .properties [.property name] child
  | items {child : Node} (found : node.items = some (.single (.schema child))) :
      Leads node .items [.subSchema .items] child
  | itemsAt {slots : List SubSchema} {index : Nat} {child : Node}
      (found : node.items = some (.tuple slots)) (slot : slots[index]? = some (.schema child)) :
      Leads node .items [.subSchema .items, .position index] child
  | prefixItemsAt {slots : List SubSchema} {index : Nat} {child : Node}
      (found : node.prefixItems = some slots) (slot : slots[index]? = some (.schema child)) :
      Leads node .prefixItems [.subSchema .prefixItems, .position index] child
  | contains {child : Node} (found : node.contains = some (.schema child)) :
      Leads node .contains [.subSchema .contains] child
  | additionalProperties {child : Node} (found : node.additionalProperties = .schema child) :
      Leads node .additionalProperties [.subSchema .additionalProperties] child

theorem Leads.below {node child : Node} {keyword : Keyword} {steps : Path}
    (h : Leads node keyword steps child) : Below child node := by
  cases h with
  | property listed => exact mem_subSchemas_of_property listed
  | items found => exact mem_subSchemas_of_items found (List.mem_singleton.mpr rfl)
  | itemsAt found slot => exact mem_subSchemas_of_items found (List.mem_of_getElem? slot)
  | prefixItemsAt found slot =>
      exact mem_subSchemas_of_prefixItems found (List.mem_of_getElem? slot)
  | contains found => exact mem_subSchemas_of_contains found
  | additionalProperties found => exact below_of_additionalProperties found

end Node

end SchemaEvolution
