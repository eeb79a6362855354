import Mathlib
import SchemaEvolution.Proofs.Alike
import SchemaEvolution.Proofs.Findings
import SchemaEvolution.Proofs.Shapes

/-! # Two walks side by side

One walk over two schemas and another one over two more find the same in the same order, where the
old schemas hold schemas in one relation and the new schemas hold schemas in another. The changes
match but for the values that they repeat, and the schemas to walk next are in the two relations
again.
-/

namespace SchemaEvolution

/-- The two changes tell the same, but for values that are in the relation of their keyword. -/
structure Change.Matched (V : Keyword → Json → Json → Prop) (change other : Change) : Prop where
  path : change.path = other.path
  kind : change.kind = other.kind
  keyword : change.keyword = other.keyword
  scope : change.scope = other.scope
  oldValue : Option.Rel (V change.keyword) change.oldValue other.oldValue
  newValue : Option.Rel (V change.keyword) change.newValue other.newValue
  property : change.property = other.property

namespace Change

variable {V W : Keyword → Json → Json → Prop} {path : Path} {keyword : Keyword}
  {old new old' new' : Json} {change other : Change}

theorem Matched.refl (h : ∀ keyword value, V keyword value value) (change : Change) :
    change.Matched V change where
  path := rfl
  kind := rfl
  keyword := rfl
  scope := rfl
  oldValue := optionRel_refl fun value _ => h _ value
  newValue := optionRel_refl fun value _ => h _ value
  property := rfl

theorem Matched.imp (h : change.Matched V other)
    (step : ∀ keyword a b, V keyword a b → W keyword a b) : change.Matched W other where
  path := h.path
  kind := h.kind
  keyword := h.keyword
  scope := h.scope
  oldValue := optionRel_imp_of_eq h.oldValue fun a b _ _ => step _ a b
  newValue := optionRel_imp_of_eq h.newValue fun a b _ _ => step _ a b
  property := h.property

theorem Matched.under (h : change.Matched V other) (steps : Path) :
    (change.under steps).Matched V (other.under steps) where
  path := congrArg (steps ++ ·) h.path
  kind := h.kind
  keyword := h.keyword
  scope := h.scope
  oldValue := h.oldValue
  newValue := h.newValue
  property := h.property

theorem matched_added (h : V keyword new new') :
    Matched V (added path keyword new) (added path keyword new') :=
  ⟨rfl, rfl, rfl, rfl, .none, .some h, rfl⟩

theorem matched_removed (h : V keyword old old') :
    Matched V (removed path keyword old) (removed path keyword old') :=
  ⟨rfl, rfl, rfl, rfl, .some h, .none, rfl⟩

theorem matched_modified (ho : V keyword old old') (hn : V keyword new new') :
    Matched V (modified path keyword old new) (modified path keyword old' new') :=
  ⟨rfl, rfl, rfl, rfl, .some ho, .some hn, rfl⟩

theorem matched_memberAdded (h : V keyword new new') :
    Matched V (memberAdded path keyword new) (memberAdded path keyword new') :=
  ⟨rfl, rfl, rfl, rfl, .none, .some h, rfl⟩

theorem matched_memberRemoved (h : V keyword old old') :
    Matched V (memberRemoved path keyword old) (memberRemoved path keyword old') :=
  ⟨rfl, rfl, rfl, rfl, .some h, .none, rfl⟩

theorem matched_propertyAdded (h : V .properties new new') {context context' : PropertyContext}
    (same : context = context') :
    Matched V (propertyAdded path new context) (propertyAdded path new' context') :=
  ⟨rfl, rfl, rfl, rfl, .none, .some h, congrArg some same⟩

theorem matched_propertyRemoved (h : V .properties old old') {context context' : PropertyContext}
    (same : context = context') :
    Matched V (propertyRemoved path old context) (propertyRemoved path old' context') :=
  ⟨rfl, rfl, rfl, rfl, .some h, .none, congrArg some same⟩

end Change

namespace Node.MembersLike

variable {R : Node → Node → Prop} {a b : Node} (h : a.MembersLike R b)

include h

theorem has (name : String) : NameTable.has name a.properties = NameTable.has name b.properties :=
  optionRel_isSome (h.properties name)

theorem extraProperties : a.extraProperties = b.extraProperties := by
  have same := h.additionalProperties
  unfold Node.extraProperties
  generalize a.additionalProperties = x, b.additionalProperties = y at same
  cases same <;> rfl

theorem contains_required (name : String) : a.required.contains name = b.required.contains name :=
  Bool.eq_iff_iff.mpr (by simpa using h.required name)

end Node.MembersLike

/-- The keywords of a family say the same, where schemas further down are in the relation. -/
def Node.LikeIn (R : Node → Node → Prop) (a b : Node) : Family → Prop
  | .core | .metadata => True
  | .numeric => ∀ keyword ∈ Keyword.numericScalars,
    Json.Agree (a.valueOf keyword) (b.valueOf keyword)
  | .string => ∀ keyword ∈ Keyword.stringScalars,
    Json.Agree (a.valueOf keyword) (b.valueOf keyword)
  | .array => (∀ keyword ∈ Keyword.arrayScalars,
    Json.Agree (a.valueOf keyword) (b.valueOf keyword)) ∧ a.ElementsLike R b
  | .object => (∀ keyword ∈ Keyword.objectScalars,
    Json.Agree (a.valueOf keyword) (b.valueOf keyword)) ∧ a.MembersLike R b

theorem Node.Like.likeIn {R : Node → Node → Prop} {a b : Node} (h : a.Like R b) {kind : Family}
    (constrained : a.constrains kind = true) : a.LikeIn R b kind := by
  cases kind with
  | core | metadata => trivial
  | numeric => exact h.numeric constrained
  | string => exact h.string constrained
  | array => exact ⟨h.array constrained, h.elements constrained⟩
  | object => exact ⟨h.object constrained, h.members constrained⟩

theorem Node.LikeIn.imp {R S : Node → Node → Prop} {a b : Node} {kind : Family}
    (h : a.LikeIn R b kind) (step : ∀ x y : Node, x.Below a → y.Below b → R x y → S x y) :
    a.LikeIn S b kind := by
  cases kind with
  | core | metadata => trivial
  | numeric | string => exact h
  | array => exact ⟨h.1, h.2.imp step⟩
  | object => exact ⟨h.1, h.2.imp step⟩

namespace NameTable

variable {α β : Type} {left : List (String × α)} {right : List (String × β)}

theorem forall₂_of_get? {S : α → β → Prop} (hl : Ordered left) (hr : Ordered right)
    (same : ∀ name, Option.Rel S (get? name left) (get? name right)) :
    List.Forall₂ (fun m n => m.1 = n.1 ∧ S m.2 n.2) left right := by
  have names : names left = names right := by
    refine NameSet.Ordered.ext hl hr fun name => ?_
    rw [← has_iff, ← has_iff, has, has, optionRel_isSome (same name)]
  induction left generalizing right with
  | nil =>
      cases right with
      | nil => exact .nil
      | cons => cases names
  | cons m left ih =>
      cases right with
      | nil => cases names
      | cons n right =>
          obtain ⟨first, rest⟩ : m.1 = n.1 ∧ NameTable.names left = NameTable.names right :=
            List.cons_eq_cons.mp names
          have absent : m.1 ∉ NameTable.names left := (List.nodup_cons.mp hl.nodup).1
          refine .cons ⟨first, ?_⟩ (ih hl.of_cons hr.of_cons (fun name => ?_) rest)
          · simpa [get?, first] using same m.1
          · by_cases here : name = m.1
            · have gone : get? name left = none := get?_eq_none_iff.mpr (here ▸ absent)
              have gone' : get? name right = none :=
                get?_eq_none_iff.mpr (here ▸ rest ▸ absent)
              rw [gone, gone']
              exact .none
            · have elsewhere : name ≠ n.1 := first ▸ here
              simpa [get?, here, elsewhere] using same name

end NameTable

/-- What the walk repeats of places that hold schemas in the one relation is in the other one. -/
structure Node.Echoed (V : Keyword → Json → Json → Prop) (R : Node → Node → Prop) : Prop where
  schema : ∀ {keyword : Keyword} {a b : SubSchema}, keyword ∈ Keyword.places →
    SubSchema.Like R a b → V keyword a.toJson b.toJson
  tuple : ∀ {keyword : Keyword} {as bs : List SubSchema},
    keyword = .items ∨ keyword = .prefixItems → List.Forall₂ (SubSchema.Like R) as bs →
    V keyword (Items.tuple as).toJson (Items.tuple bs).toJson
  position : ∀ {keyword : Keyword} {a b : SubSchema} (index : Nat),
    keyword = .items ∨ keyword = .prefixItems → SubSchema.Like R a b →
    V keyword (Diff.removedSlots.slotValue index a) (Diff.removedSlots.slotValue index b)

theorem Node.Echoed.items {V : Keyword → Json → Json → Prop} {R : Node → Node → Prop}
    (echoed : Node.Echoed V R) {a b : Items} (like : Items.Like R a b) :
    V .items a.toJson b.toJson := by
  cases like with
  | single inner => exact echoed.schema (by decide) inner
  | tuple inner => exact echoed.tuple (.inl rfl) inner

namespace Diff

/-- The two findings count alike: changes that match, or schemas in the two relations to walk at one
place. -/
inductive Finding.Matched (V : Keyword → Json → Json → Prop) (R S : Node → Node → Prop) :
    Finding → Finding → Prop where
  | change {told other : Change} (h : told.Matched V other) :
      Matched V R S (.change told) (.change other)
  | descent {steps : Path} {a b a' b' : Node} (old : R a a') (new : S b b') :
      Matched V R S (.descent steps a b) (.descent steps a' b')

/-- The findings of two walks come in pairs that count alike. -/
abbrev Paired (V : Keyword → Json → Json → Prop) (R S : Node → Node → Prop) :
    List Finding → List Finding → Prop :=
  List.Forall₂ (Finding.Matched V R S)

section Pairs

variable {V : Keyword → Json → Json → Prop} {R S : Node → Node → Prop}

theorem paired_told {changes others : List Change}
    (h : List.Forall₂ (Change.Matched V) changes others) :
    Paired V R S (told changes) (told others) := by
  simp only [Paired, told, List.forall₂_map_left_iff, List.forall₂_map_right_iff]
  exact h.imp fun _ _ => .change

theorem paired_change {told other : Change} (h : told.Matched V other) :
    Paired V R S [.change told] [.change other] :=
  .cons (.change h) .nil

theorem paired_option {α : Type} {P Q : α → α → Prop} {keyword : Keyword} {toJson : α → Json}
    {both : α → α → List Finding} {x x' y y' : Option α} (old : Option.Rel P x x')
    (new : Option.Rel Q y y') (before : ∀ {a a'}, P a a' → V keyword (toJson a) (toJson a'))
    (after : ∀ {b b'}, Q b b' → V keyword (toJson b) (toJson b'))
    (paired : ∀ {a a' b b'}, P a a' → Q b b' → Paired V R S (both a b) (both a' b')) :
    Paired V R S (optionFindings keyword toJson both x y)
      (optionFindings keyword toJson both x' y') := by
  cases old with
  | none =>
      cases new with
      | none => exact .nil
      | some new => exact paired_change (Change.matched_added (after new))
  | some old =>
      cases new with
      | none => exact paired_change (Change.matched_removed (before old))
      | some new => exact paired old new

variable (before : Node.Echoed V R) (after : Node.Echoed V S)

include before after

theorem paired_slot {place nested : Path} {keyword : Keyword} (holds : keyword ∈ Keyword.places)
    {a a' b b' : SubSchema} (old : SubSchema.Like R a a') (new : SubSchema.Like S b b') :
    Paired V R S (slotFindings place nested keyword a b)
      (slotFindings place nested keyword a' b') := by
  have turned : Paired V R S [.change (.modified place keyword a.toJson b.toJson)]
      [.change (.modified place keyword a'.toJson b'.toJson)] :=
    paired_change (Change.matched_modified (before.schema holds old) (after.schema holds new))
  cases old with
  | flag =>
      cases new with
      | flag =>
          simp only [slotFindings]
          split
          · exact .nil
          · exact turned
      | schema => exact turned
  | schema old =>
      cases new with
      | flag => exact turned
      | schema new => exact .cons (.descent old new) .nil

theorem paired_positions {base : Path} {keyword : Keyword}
    (holds : keyword = .items ∨ keyword = .prefixItems) {index : Nat}
    {as as' bs bs' : List SubSchema} (old : List.Forall₂ (SubSchema.Like R) as as')
    (new : List.Forall₂ (SubSchema.Like S) bs bs') :
    Paired V R S (positionFindings base keyword index as bs)
      (positionFindings base keyword index as' bs') := by
  have place : keyword ∈ Keyword.places := by
    rcases holds with rfl | rfl <;> decide
  induction new generalizing as as' index with
  | nil =>
      simp only [positionFindings]
      refine paired_told ?_
      induction old generalizing index with
      | nil => exact .nil
      | cons like _ ih =>
          exact .cons (Change.matched_memberRemoved (before.position index holds like)) ih
  | @cons b b' bs bs' head _ ih =>
      cases old with
      | nil =>
          simp only [positionFindings]
          exact .cons (.change (Change.matched_memberAdded (after.position index holds head)))
            (ih .nil)
      | cons first others =>
          simp only [positionFindings]
          exact List.rel_append (paired_slot before after place first head) (ih others)

theorem paired_items {a a' b b' : Items} (old : Items.Like R a a') (new : Items.Like S b b') :
    Paired V R S (itemsFindings a b) (itemsFindings a' b') := by
  have ho := before.items old
  have hn := after.items new
  cases old with
  | single old =>
      cases new with
      | single new => exact paired_slot before after (by decide) old new
      | tuple => exact paired_change (Change.matched_modified ho hn)
  | tuple old =>
      cases new with
      | single => exact paired_change (Change.matched_modified ho hn)
      | tuple new => exact paired_positions before after (.inl rfl) old new

variable {x x' y y' : Node}

theorem paired_elements (old : x.ElementsLike R x') (new : y.ElementsLike S y') :
    Paired V R S (elementFindings x y) (elementFindings x' y') := by
  refine List.rel_append (List.rel_append ?_ ?_) ?_
  · exact paired_option old.items new.items before.items after.items
      (paired_items before after)
  · exact paired_option old.prefixItems new.prefixItems (before.tuple (.inr rfl))
      (after.tuple (.inr rfl)) (paired_positions before after (.inr rfl))
  · exact paired_option old.contains new.contains (before.schema (by decide))
      (after.schema (by decide)) (paired_slot before after (by decide))

variable (old : x.MembersLike R x') (new : y.MembersLike S y')

include old new

theorem paired_property {name : String} {b b' : SubSchema} (like : SubSchema.Like S b b') :
    Paired V R S (propertyFindings x y (name, b)) (propertyFindings x' y' (name, b')) := by
  have place : Keyword.properties ∈ Keyword.places := by decide
  have held := old.properties name
  simp only [propertyFindings]
  generalize NameTable.get? name x.properties = first, NameTable.get? name x'.properties = other
    at held
  cases held with
  | none =>
      refine paired_change (Change.matched_propertyAdded (after.schema place like) ?_)
      rw [new.contains_required, old.extraProperties]
  | some inner => exact paired_slot before after place inner like

theorem paired_properties (hy : y.Accepted) (hy' : y'.Accepted) :
    Paired V R S (y.properties.flatMap (propertyFindings x y))
      (y'.properties.flatMap (propertyFindings x' y')) := by
  have each := NameTable.forall₂_of_get? hy.properties_ordered hy'.properties_ordered
    new.properties
  refine List.rel_flatMap each fun m n same => ?_
  obtain ⟨name, b⟩ := m
  obtain ⟨_, b'⟩ := n
  obtain ⟨rfl, like⟩ := same
  exact paired_property before after old new like

omit after in
theorem matched_removedProperties (hx : x.Accepted) (hx' : x'.Accepted) {path : Path} :
    List.Forall₂ (Change.Matched V) (removedProperties path x y)
      (removedProperties path x' y') := by
  have each := NameTable.forall₂_of_get? hx.properties_ordered hx'.properties_ordered
    old.properties
  unfold removedProperties
  simp only [List.forall₂_map_left_iff, List.forall₂_map_right_iff, new.has, new.extraProperties,
    old.contains_required]
  generalize x.properties = entries, x'.properties = entries' at each
  induction each with
  | nil => exact .nil
  | @cons m n _ _ head _ ih =>
      obtain ⟨name, a⟩ := m
      obtain ⟨_, a'⟩ := n
      obtain ⟨rfl, like⟩ := head
      simp only [List.filter_cons]
      split
      · exact .cons (Change.matched_propertyRemoved (before.schema (by decide) like) rfl) ih
      · exact ih

variable (hx : x.Accepted) (hx' : x'.Accepted) (hy : y.Accepted) (hy' : y'.Accepted)

include hx hx' hy hy'

omit before after in
theorem required_congr {path : Path} : required path x y = required path x' y' := by
  have first : x.required = x'.required :=
    hx.regular.required.ext hx'.regular.required old.required
  have second : y.required = y'.required :=
    hy.regular.required.ext hy'.regular.required new.required
  unfold required
  simp only [first, second, old.has, new.has]

/-- The places of the level that a walk takes in one order on every spelling come in pairs. -/
theorem paired_members (told_refl : ∀ keyword value, V keyword value value) :
    Paired V R S (y.properties.flatMap (propertyFindings x y) ++
        told (removedProperties [] x y ++ required [] x y) ++
        slotFindings [] [.subSchema .additionalProperties] .additionalProperties
          x.additionalProperties y.additionalProperties)
      (y'.properties.flatMap (propertyFindings x' y') ++
        told (removedProperties [] x' y' ++ required [] x' y') ++
        slotFindings [] [.subSchema .additionalProperties] .additionalProperties
          x'.additionalProperties y'.additionalProperties) := by
  refine List.rel_append (List.rel_append (paired_properties before after old new hy hy')
    (paired_told ?_)) ?_
  · refine List.rel_append (matched_removedProperties before old new hx hx') ?_
    rw [required_congr old new hx hx' hy hy']
    exact List.forall₂_same.mpr fun change _ => .refl told_refl change
  · exact paired_slot before after (by decide) old.additionalProperties new.additionalProperties

end Pairs

/-- Where every level comes in pairs, so do the changes of the two walks. -/
theorem matched_diff {V : Keyword → Json → Json → Prop} {R S : Node → Node → Prop}
    (level : ∀ {x x' y y'}, R x x' → S y y' → Paired V R S (findings x y) (findings x' y'))
    {x x' y y' : Node} (old : R x x') (new : S y y') :
    List.Forall₂ (Change.Matched V) (x.diff y) (x'.diff y') := by
  induction x, y using joint_induction generalizing x' y' with
  | step x y ih =>
      rw [diff_eq_findings, diff_eq_findings, List.flatMap_def, List.flatMap_def]
      refine List.rel_flatten ?_
      rw [List.forall₂_map_left_iff, List.forall₂_map_right_iff]
      refine forall₂_of_mem (level old new) fun finding found other _ matched => ?_
      cases matched with
      | change told => exact .cons told .nil
      | @descent steps a b a' b' ha hb =>
          simp only [Finding.changes, List.forall₂_map_left_iff, List.forall₂_map_right_iff]
          exact (ih steps a b found ha hb).imp fun _ _ inner => inner.under steps

end Diff

end SchemaEvolution
