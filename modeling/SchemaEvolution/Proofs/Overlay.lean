import Mathlib
import SchemaEvolution.Proofs.Admission
import SchemaEvolution.Proofs.Alike
import SchemaEvolution.Proofs.Grammar
import SchemaEvolution.Proofs.Shapes

/-! # Schemas over related documents

Where a relation between documents keeps booleans and objects apart, two decoded schemas have related
schemas in a place as soon as their documents have related values there.
-/

namespace SchemaEvolution

namespace Json

/-- The same boolean, or two objects. -/
inductive SameForm : Json → Json → Prop where
  | flag (allowed : Bool) : SameForm (.bool allowed) (.bool allowed)
  | object (as bs : List (String × Json)) : SameForm (.object as) (.object bs)

theorem SameForm.noArray {a b : Json} (h : SameForm a b) :
    a.elements? = none ∧ b.elements? = none := by
  cases h <;> exact ⟨rfl, rfl⟩

/-- Two lists with related elements at each position. -/
inductive SamePositions (S : Json → Json → Prop) : Json → Json → Prop where
  | intro {as bs : List Json} (elements : List.Forall₂ S as bs) :
      SamePositions S (.array as) (.array bs)

/-- What an object has under a name. -/
def memberOf? (name : String) (value : Json) : Option Json :=
  value.members?.bind (NameTable.get? name)

end Json

theorem Node.exists_decode_of_sameForm {a a' : Json} {x : Node} (decoded : decode a = .ok x)
    (form : a.SameForm a') (schema : Decode.IsSchema a → Decode.IsSchema a') :
    ∃ x', decode a' = .ok x' := by
  obtain ⟨members, rfl, readable⟩ := exists_decode_iff.mp ⟨x, decoded⟩
  have own := schema (Decode.isSchema_iff.mpr (.inr ⟨members, rfl, readable⟩))
  cases form with
  | object _ others =>
      rcases Decode.isSchema_iff.mp own with ⟨_, ⟨⟩⟩ | ⟨_, ⟨⟩, readable'⟩
      exact exists_decode_iff.mpr ⟨others, rfl, readable'⟩

/-- Both schemas are accepted, and their documents are in the relation. -/
structure Node.Over (S : Json → Json → Prop) (a b : Node) : Prop where
  left : a.Accepted
  right : b.Accepted
  documents : S a.source b.source

section Places

variable {S : Json → Json → Prop} (forms : ∀ {u v}, S u v → u.SameForm v)

include forms

theorem SubSchema.like_of_toJson {a b : SubSchema} (ha : a.Accepted) (hb : b.Accepted)
    (h : S a.toJson b.toJson) : SubSchema.Like (Node.Over S) a b := by
  have form := forms h
  cases a with
  | flag allowed =>
      cases b with
      | flag => cases form; exact .flag allowed
      | schema node =>
          obtain ⟨members, read⟩ := Node.ReadFrom.of_accepted hb
          simp only [SubSchema.toJson, read.source] at form
          cases form
  | schema node =>
      cases b with
      | flag =>
          obtain ⟨members, read⟩ := Node.ReadFrom.of_accepted ha
          simp only [SubSchema.toJson, read.source] at form
          cases form
      | schema other => exact .schema ⟨ha, hb, h⟩

theorem slots_like_of_toJson {as bs : List SubSchema} (ha : ∀ a ∈ as, a.Accepted)
    (hb : ∀ b ∈ bs, b.Accepted)
    (h : List.Forall₂ S (as.map SubSchema.toJson) (bs.map SubSchema.toJson)) :
    List.Forall₂ (SubSchema.Like (Node.Over S)) as bs := by
  rw [List.forall₂_map_left_iff, List.forall₂_map_right_iff] at h
  exact forall₂_of_mem h fun a ma b mb related =>
    SubSchema.like_of_toJson forms (ha a ma) (hb b mb) related

theorem Items.like_of_toJson {x y : Items} (hx : ∀ sub ∈ x.subSchemas, sub.Accepted)
    (hy : ∀ sub ∈ y.subSchemas, sub.Accepted)
    (h : S x.toJson y.toJson ∨ x.toJson.SamePositions S y.toJson) :
    Items.Like (Node.Over S) x y := by
  have notArray {sub : SubSchema} (accepted : sub.Accepted) (elements : List Json) :
      sub.toJson ≠ .array elements := by
    intro isArray
    have none := SubSchema.elements?_toJson accepted
    rw [isArray] at none
    cases none
  cases x with
  | single a =>
      have ha : a.Accepted := hx a (List.mem_singleton.mpr rfl)
      rcases h with inner | positions
      · cases y with
        | single b =>
            have hb : b.Accepted := hy b (List.mem_singleton.mpr rfl)
            exact .single (SubSchema.like_of_toJson forms ha hb inner)
        | tuple bs =>
            have form := forms inner
            simp only [Items.toJson] at form
            generalize a.toJson = u at form
            cases form
      · rw [show (Items.single a).toJson = a.toJson from rfl] at positions
        generalize same : a.toJson = u, y.toJson = v at positions
        cases positions
        exact absurd same (notArray ha _)
  | tuple as =>
      rcases h with inner | positions
      · cases forms inner
      · cases y with
        | single b =>
            simp only [Items.toJson] at positions
            generalize same : b.toJson = u at positions
            cases positions
            exact absurd same (notArray (hy b (List.mem_singleton.mpr rfl)) _)
        | tuple bs =>
            cases positions with
            | intro elements => exact .tuple (slots_like_of_toJson forms hx hy elements)

end Places

theorem Items.effective_like {R : Node → Node → Prop} {x y : Items} (like : Items.Like R x y) :
    Option.Rel (Items.Like R) (Items.effective (some x)) (Items.effective (some y)) := by
  cases like with
  | single inner =>
      cases inner with
      | flag allowed =>
          cases allowed
          · exact .some (.single (.flag false))
          · exact .none
      | schema inner => exact .some (.single (.schema inner))
  | tuple inner => exact .some (.tuple inner)

theorem Node.effectiveItems_eq_getD (node : Node) :
    node.effectiveItems = Items.effective (some (node.items.getD (.single (.flag true)))) := by
  unfold Node.effectiveItems
  cases node.items <;> rfl

namespace Node.ReadFrom

/-! Where a keyword is absent, its part of the schema is what a default value would leave there. -/

variable {node : Node} {members : List (String × Json)} (read : node.ReadFrom members)

include read

theorem distinct_getD {default : Json} (known : default.Distinct) (name : String) :
    ((NameTable.get? name members).getD default).Distinct := by
  cases found : NameTable.get? name members with
  | none => exact known
  | some value => exact read.distinct.member (NameTable.mem_of_get? found)

theorem items_getD : (node.items.getD (.single (.flag true))).toJson =
    (NameTable.get? "items" members).getD (.bool true) := by
  rw [← read.items]
  cases node.items <;> rfl

theorem get?_properties (name : String) :
    (NameTable.get? name node.properties).map SubSchema.toJson =
      Json.memberOf? name ((NameTable.get? "properties" members).getD (.object [])) := by
  rcases read.properties with ⟨absent, empty⟩ | ⟨schemas, found, each⟩
  · rw [absent, empty]
    rfl
  · rw [found, each]
    rfl

theorem required_getD : node.required =
    NameSet.ofList ((NameTable.get? "required" members).getD (.array [])).names := by
  rcases read.required with ⟨absent, empty⟩ | ⟨names, found, kept⟩
  · rw [absent, empty]
    rfl
  · rw [found, kept, Option.getD_some, Json.names_strings]

theorem dependentRequired_getD :
    NameTable.Ordered node.dependentRequired ∧ ∃ table,
      (NameTable.get? "dependentRequired" members).getD (.object []) = .object table ∧
        ∀ name, NameTable.get? name node.dependentRequired =
          (NameTable.get? name table).map fun argument => NameSet.ofList argument.names := by
  rcases read.dependentRequired with ⟨absent, empty⟩ | ⟨table, found, ordered, each⟩
  · rw [absent, empty]
    exact ⟨.nil, [], rfl, fun _ => rfl⟩
  · refine ⟨ordered, table, by rw [found, Option.getD_some], fun name => ?_⟩
    have rel := each name
    generalize NameTable.get? name table = u, NameTable.get? name node.dependentRequired = v at rel ⊢
    cases rel with
    | none => rfl
    | some held =>
        obtain ⟨names, rfl, rfl⟩ := held
        rw [Option.map_some, Json.names_strings]

end Node.ReadFrom

namespace Node

variable {S : Json → Json → Prop} {a b : Node} {as bs : List (String × Json)}
  (left : a.ReadFrom as) (right : b.ReadFrom bs) (forms : ∀ {u v}, S u v → u.SameForm v)

include left right forms

/-- The lists of elements are alike if the documents are related there, where no list stands for one
that takes everything. -/
theorem effectiveItems_over
    (h : S ((NameTable.get? "items" as).getD (.bool true))
        ((NameTable.get? "items" bs).getD (.bool true)) ∨
      ((NameTable.get? "items" as).getD (.bool true)).SamePositions S
        ((NameTable.get? "items" bs).getD (.bool true))) :
    Option.Rel (Items.Like (Over S)) a.effectiveItems b.effectiveItems := by
  rw [← left.items_getD, ← right.items_getD] at h
  have accepted {node : Node} (h : node.Accepted) :
      ∀ sub ∈ (node.items.getD (.single (.flag true))).subSchemas, sub.Accepted := by
    intro sub member
    cases found : node.items with
    | none =>
        rw [found] at member
        obtain rfl := List.mem_singleton.mp member
        trivial
    | some items =>
        rw [found] at member
        exact h.subSchemas sub (mem_subSchemas_of_items found member)
  rw [effectiveItems_eq_getD, effectiveItems_eq_getD b]
  exact Items.effective_like
    (Items.like_of_toJson forms (accepted left.accepted) (accepted right.accepted) h)

theorem prefixItems_over (h : Option.Rel (Json.SamePositions S)
    (NameTable.get? "prefixItems" as) (NameTable.get? "prefixItems" bs)) :
    Option.Rel (List.Forall₂ (SubSchema.Like (Over S))) a.prefixItems b.prefixItems := by
  rw [← left.prefixItems, ← right.prefixItems] at h
  refine optionRel_of_map h fun x y found found' related => ?_
  obtain ⟨elements⟩ := related
  refine slots_like_of_toJson forms (fun sub member => ?_) (fun sub member => ?_) elements
  · exact left.accepted.subSchemas sub (mem_subSchemas_of_prefixItems found member)
  · exact right.accepted.subSchemas sub (mem_subSchemas_of_prefixItems found' member)

theorem contains_over (h : Option.Rel S (NameTable.get? "contains" as)
    (NameTable.get? "contains" bs)) :
    Option.Rel (SubSchema.Like (Over S)) a.contains b.contains := by
  rw [← left.contains, ← right.contains] at h
  refine optionRel_of_map h fun x y found found' related => ?_
  refine SubSchema.like_of_toJson forms ?_ ?_ related
  · exact left.accepted.subSchemas x (mem_subSchemas_of_contains found)
  · exact right.accepted.subSchemas y (mem_subSchemas_of_contains found')

theorem additionalProperties_over
    (h : S ((NameTable.get? "additionalProperties" as).getD (.bool true))
      ((NameTable.get? "additionalProperties" bs).getD (.bool true))) :
    SubSchema.Like (Over S) a.additionalProperties b.additionalProperties := by
  rw [← left.additionalProperties, ← right.additionalProperties] at h
  refine SubSchema.like_of_toJson forms ?_ ?_ h
  · exact left.accepted.subSchemas _ mem_subSchemas_additionalProperties
  · exact right.accepted.subSchemas _ mem_subSchemas_additionalProperties

theorem properties_over (name : String)
    (h : Option.Rel S (Json.memberOf? name ((NameTable.get? "properties" as).getD (.object [])))
      (Json.memberOf? name ((NameTable.get? "properties" bs).getD (.object [])))) :
    Option.Rel (SubSchema.Like (Over S)) (NameTable.get? name a.properties)
      (NameTable.get? name b.properties) := by
  rw [← left.get?_properties, ← right.get?_properties] at h
  refine optionRel_of_map h fun x y found found' related => ?_
  refine SubSchema.like_of_toJson forms ?_ ?_ related
  · exact left.accepted.subSchemas x (mem_subSchemas_of_property (NameTable.mem_of_get? found))
  · exact right.accepted.subSchemas y (mem_subSchemas_of_property (NameTable.mem_of_get? found'))

end Node

end SchemaEvolution
