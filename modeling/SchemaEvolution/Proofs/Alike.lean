import Mathlib
import SchemaEvolution.Diff
import SchemaEvolution.Proofs.Decoding

/-! # Schemas that say the same

Two schemas are alike when they constrain values alike, keyword by keyword, as far as their types let
a keyword constrain anything. What a family of keywords says is left open where the types exclude
the family, so likeness is an equivalence only because alike schemas exclude the same families.
-/

namespace SchemaEvolution

section OptionRel

variable {α β γ : Type} {x : Option α} {y : Option β} {z : Option γ}

theorem optionRel_imp_of_eq {R S : α → β → Prop} (h : Option.Rel R x y)
    (step : ∀ a b, x = some a → y = some b → R a b → S a b) : Option.Rel S x y := by
  cases h with
  | none => exact .none
  | some inner => exact .some (step _ _ rfl rfl inner)

theorem optionRel_flip {R : α → β → Prop} {S : β → α → Prop} (h : Option.Rel R x y)
    (step : ∀ a b, x = some a → y = some b → R a b → S b a) : Option.Rel S y x := by
  cases h with
  | none => exact .none
  | some inner => exact .some (step _ _ rfl rfl inner)

theorem optionRel_comp {R : α → β → Prop} {S : β → γ → Prop} {T : α → γ → Prop}
    (hxy : Option.Rel R x y) (hyz : Option.Rel S y z) (step : ∀ a b c, R a b → S b c → T a c) :
    Option.Rel T x z := by
  cases hxy with
  | none => cases hyz; exact .none
  | some first =>
      cases hyz with
      | some second => exact .some (step _ _ _ first second)

theorem optionRel_refl {R : α → α → Prop} {x : Option α} (h : ∀ a, x = some a → R a a) :
    Option.Rel R x x := by
  cases x with
  | none => exact .none
  | some a => exact .some (h a rfl)

theorem optionRel_square {γ δ : Type} {R : α → β → Prop} {P : α → γ → Prop} {Q : β → δ → Prop}
    {S : γ → δ → Prop} {s : Option γ} {t : Option δ} (h : Option.Rel R x y)
    (left : Option.Rel P x s) (right : Option.Rel Q y t)
    (step : ∀ a b c d, s = some c → t = some d → R a b → P a c → Q b d → S c d) :
    Option.Rel S s t := by
  cases h with
  | none =>
      cases left
      cases right
      exact .none
  | some related =>
      cases left with
      | some left =>
          cases right with
          | some right => exact .some (step _ _ _ _ rfl rfl related left right)

theorem optionRel_of_map {γ δ : Type} {R : γ → δ → Prop} {S : α → β → Prop} {f : α → γ} {g : β → δ}
    (h : Option.Rel R (x.map f) (y.map g))
    (step : ∀ a b, x = some a → y = some b → R (f a) (g b) → S a b) : Option.Rel S x y := by
  cases x with
  | none =>
      cases y with
      | none => exact .none
      | some => cases h
  | some a =>
      cases y with
      | none => cases h
      | some b => exact .some (step a b rfl rfl (Option.rel_some_some.mp h))

theorem optionRel_unique {P : α → β → Prop} {s t : Option β} (first : Option.Rel P x s)
    (second : Option.Rel P x t) (determined : ∀ a b c, P a b → P a c → b = c) : s = t := by
  cases first with
  | none =>
      cases second
      rfl
  | some first =>
      cases second with
      | some second => exact congrArg some (determined _ _ _ first second)

theorem optionRel_isSome {R : α → β → Prop} (h : Option.Rel R x y) : x.isSome = y.isSome := by
  cases h <;> rfl

end OptionRel

/-- The same value on both sides, or none on either. -/
def Json.Agree : Option Json → Option Json → Prop := Option.Rel fun a b => a.equivalent b = true

/-- Each option of either side equals one of the other. -/
def Facets.SameOptions (before after : List Json) : Prop :=
  (∀ option ∈ before, ∃ other ∈ after, other.equivalent option = true) ∧
    ∀ option ∈ after, ∃ other ∈ before, other.equivalent option = true

/-- The keywords that apply to every type say the same. -/
structure Facets.AlikeShared (old new : Facets) : Prop where
  types : Option.Rel (fun s t => ∀ type, type ∈ s ↔ type ∈ t) old.types new.types
  enumeration : Option.Rel SameOptions old.enumeration new.enumeration
  format : old.format = new.format
  metadata : ∀ keyword ∈ Keyword.metadata, Json.Agree (old.valueOf keyword) (new.valueOf keyword)
  extensions : ∀ name, Json.Agree (old.valueOf (.other name)) (new.valueOf (.other name))

/-- The keywords of a family with one value say the same, if the types let them constrain. -/
def Facets.AlikeScalars (old new : Facets) (kind : Family) (keywords : List Keyword) : Prop :=
  old.constrains kind = true →
    ∀ keyword ∈ keywords, Json.Agree (old.valueOf keyword) (new.valueOf keyword)

/-- The same boolean, or two schemas in the relation. -/
inductive SubSchema.Like (R : Node → Node → Prop) : SubSchema → SubSchema → Prop where
  | flag (allowed : Bool) : Like R (.flag allowed) (.flag allowed)
  | schema {a b : Node} (inner : R a b) : Like R (.schema a) (.schema b)

/-- The same form of `items`, with places in the relation. -/
inductive Items.Like (R : Node → Node → Prop) : Items → Items → Prop where
  | single {a b : SubSchema} (inner : SubSchema.Like R a b) : Like R (.single a) (.single b)
  | tuple {as bs : List SubSchema} (inner : List.Forall₂ (SubSchema.Like R) as bs) :
      Like R (.tuple as) (.tuple bs)

/-- The keywords that hold schemas for elements say the same, where schemas further down are in the
relation. -/
structure Node.ElementsLike (R : Node → Node → Prop) (a b : Node) : Prop where
  items : Option.Rel (Items.Like R) a.effectiveItems b.effectiveItems
  prefixItems : Option.Rel (List.Forall₂ (SubSchema.Like R)) a.prefixItems b.prefixItems
  contains : Option.Rel (SubSchema.Like R) a.contains b.contains

/-- The keywords about members of objects say the same, where schemas further down are in the
relation. -/
structure Node.MembersLike (R : Node → Node → Prop) (a b : Node) : Prop where
  properties : ∀ name, Option.Rel (SubSchema.Like R) (NameTable.get? name a.properties)
    (NameTable.get? name b.properties)
  required : ∀ name, name ∈ a.required ↔ name ∈ b.required
  additionalProperties : SubSchema.Like R a.additionalProperties b.additionalProperties
  dependentRequired : ∀ pair, pair ∈ Diff.dependentPairs a.dependentRequired ↔
    pair ∈ Diff.dependentPairs b.dependentRequired

/-- Two schemas say the same, where schemas further down are in the relation. -/
structure Node.Like (R : Node → Node → Prop) (old new : Node) : Prop where
  shared : old.toFacets.AlikeShared new.toFacets
  numeric : old.toFacets.AlikeScalars new.toFacets .numeric Keyword.numericScalars
  string : old.toFacets.AlikeScalars new.toFacets .string Keyword.stringScalars
  array : old.toFacets.AlikeScalars new.toFacets .array Keyword.arrayScalars
  items : old.constrains .array = true →
    Option.Rel (Items.Like R) old.effectiveItems new.effectiveItems
  prefixItems : old.constrains .array = true →
    Option.Rel (List.Forall₂ (SubSchema.Like R)) old.prefixItems new.prefixItems
  contains : old.constrains .array = true →
    Option.Rel (SubSchema.Like R) old.contains new.contains
  object : old.toFacets.AlikeScalars new.toFacets .object Keyword.objectScalars
  properties : old.constrains .object = true → ∀ name,
    Option.Rel (SubSchema.Like R) (NameTable.get? name old.properties)
      (NameTable.get? name new.properties)
  required : old.constrains .object = true → ∀ name, name ∈ old.required ↔ name ∈ new.required
  additionalProperties : old.constrains .object = true →
    SubSchema.Like R old.additionalProperties new.additionalProperties
  dependentRequired : old.constrains .object = true → ∀ pair,
    pair ∈ Diff.dependentPairs old.dependentRequired ↔
      pair ∈ Diff.dependentPairs new.dependentRequired

/-- Two schemas say the same, and so do the schemas below them. -/
def Node.Alike (old new : Node) : Prop :=
  Node.Like (fun a b => ∃ _ : a.Below old, Alike a b) old new
termination_by sizeOf old
decreasing_by exact Node.Below.sizeOf_lt ‹_›

namespace Facets

theorem constrains_congr {old new : Facets} (shared : old.AlikeShared new) (kind : Family) :
    old.constrains kind = new.constrains kind := by
  have types := shared.types
  unfold constrains
  generalize old.types = before, new.types = after at types ⊢
  cases types with
  | none => rfl
  | @some s t same =>
      have any : (s.any fun type => type.family? == some kind) =
          t.any fun type => type.family? == some kind :=
        Bool.eq_iff_iff.mpr (by simp [same])
      simp only [any]

/-! ### Values and options -/

theorem agree_refl {value : Option Json} (h : ∀ v, value = some v → v.Distinct) :
    Json.Agree value value :=
  optionRel_refl fun v same => Json.equivalent_refl (h v same)

theorem agree_symm {old new : Option Json} (ho : ∀ v, old = some v → v.Distinct)
    (hn : ∀ v, new = some v → v.Distinct) (h : Json.Agree old new) : Json.Agree new old :=
  optionRel_flip h fun a b ha hb => Json.equivalent_symm (ho a ha) (hn b hb)

theorem agree_trans {a b c : Option Json} (hab : Json.Agree a b) (hbc : Json.Agree b c) :
    Json.Agree a c :=
  optionRel_comp hab hbc fun _ _ _ => Json.equivalent_trans

theorem SameOptions.refl {options : List Json} (distinct : ∀ o ∈ options, o.Distinct) :
    SameOptions options options :=
  ⟨fun o member => ⟨o, member, Json.equivalent_refl (distinct o member)⟩,
    fun o member => ⟨o, member, Json.equivalent_refl (distinct o member)⟩⟩

theorem SameOptions.symm {before after : List Json} (h : SameOptions before after) :
    SameOptions after before := ⟨h.2, h.1⟩

theorem covers_trans {as bs cs : List Json}
    (hab : ∀ a ∈ as, ∃ b ∈ bs, b.equivalent a = true)
    (hbc : ∀ b ∈ bs, ∃ c ∈ cs, c.equivalent b = true) :
    ∀ a ∈ as, ∃ c ∈ cs, c.equivalent a = true := by
  intro a ha
  obtain ⟨b, hb, first⟩ := hab a ha
  obtain ⟨c, hc, second⟩ := hbc b hb
  exact ⟨c, hc, Json.equivalent_trans second first⟩

theorem SameOptions.trans {as bs cs : List Json} (hab : SameOptions as bs)
    (hbc : SameOptions bs cs) : SameOptions as cs :=
  ⟨covers_trans hab.1 hbc.1, covers_trans hbc.2 hab.2⟩

/-! ### Keywords that apply to every type -/

section Shared

variable {a b c : Facets}

theorem AlikeShared.refl (regular : a.Regular) : a.AlikeShared a where
  types := optionRel_refl fun _ _ _ => Iff.rfl
  enumeration := optionRel_refl fun options found => .refl (regular.enumeration options found)
  format := rfl
  metadata _ _ := agree_refl fun _ => regular.valueOf
  extensions _ := agree_refl fun _ => regular.valueOf

theorem AlikeShared.symm (ha : a.Regular) (hb : b.Regular) (h : a.AlikeShared b) :
    b.AlikeShared a where
  types := optionRel_flip h.types fun _ _ _ _ same type => (same type).symm
  enumeration := optionRel_flip h.enumeration fun _ _ _ _ => SameOptions.symm
  format := h.format.symm
  metadata keyword listed :=
    agree_symm (fun _ => ha.valueOf) (fun _ => hb.valueOf) (h.metadata keyword listed)
  extensions name :=
    agree_symm (fun _ => ha.valueOf) (fun _ => hb.valueOf) (h.extensions name)

theorem AlikeShared.trans (hab : a.AlikeShared b) (hbc : b.AlikeShared c) : a.AlikeShared c where
  types := optionRel_comp hab.types hbc.types fun _ _ _ first second type =>
    (first type).trans (second type)
  enumeration := optionRel_comp hab.enumeration hbc.enumeration fun _ _ _ => SameOptions.trans
  format := hab.format.trans hbc.format
  metadata keyword listed := agree_trans (hab.metadata keyword listed) (hbc.metadata keyword listed)
  extensions name := agree_trans (hab.extensions name) (hbc.extensions name)

variable {kind : Family} {keywords : List Keyword}

theorem AlikeScalars.refl (regular : a.Regular) : a.AlikeScalars a kind keywords :=
  fun _ _ _ => agree_refl fun _ => regular.valueOf

theorem AlikeScalars.symm (ha : a.Regular) (hb : b.Regular) (shared : a.AlikeShared b)
    (h : a.AlikeScalars b kind keywords) : b.AlikeScalars a kind keywords := by
  intro constrained keyword listed
  rw [← constrains_congr shared] at constrained
  exact agree_symm (fun _ => ha.valueOf) (fun _ => hb.valueOf) (h constrained keyword listed)

theorem AlikeScalars.trans (shared : a.AlikeShared b) (hab : a.AlikeScalars b kind keywords)
    (hbc : b.AlikeScalars c kind keywords) : a.AlikeScalars c kind keywords := by
  intro constrained keyword listed
  have constrained' := constrained
  rw [constrains_congr shared] at constrained'
  exact agree_trans (hab constrained keyword listed) (hbc constrained' keyword listed)

end Shared

end Facets

section Like

variable {R S T : Node → Node → Prop}

theorem SubSchema.Like.imp {x y : SubSchema} (h : Like R x y)
    (step : ∀ a b, x = .schema a → y = .schema b → R a b → S a b) : Like S x y := by
  cases h with
  | flag allowed => exact .flag allowed
  | schema inner => exact .schema (step _ _ rfl rfl inner)

theorem SubSchema.Like.flip {x y : SubSchema} (h : Like R x y) :
    Like (fun b a => R a b) y x := by
  cases h with
  | flag allowed => exact .flag allowed
  | schema inner => exact .schema inner

theorem SubSchema.Like.comp {x y z : SubSchema} (hxy : Like R x y) (hyz : Like S y z) :
    Like (Relation.Comp R S) x z := by
  cases hxy with
  | flag allowed => cases hyz; exact .flag allowed
  | schema first =>
      cases hyz with
      | schema second => exact .schema ⟨_, first, second⟩

theorem SubSchema.Like.refl {x : SubSchema} (h : ∀ a, x = .schema a → R a a) : Like R x x := by
  cases x with
  | flag allowed => exact .flag allowed
  | schema a => exact .schema (h a rfl)

theorem Items.Like.imp {x y : Items} (h : Like R x y)
    (step : ∀ a b, .schema a ∈ x.subSchemas → .schema b ∈ y.subSchemas → R a b → S a b) :
    Like S x y := by
  cases h with
  | single inner =>
      refine .single (inner.imp fun a b ha hb => ?_)
      exact step a b (List.mem_singleton.mpr ha.symm) (List.mem_singleton.mpr hb.symm)
  | tuple inner =>
      refine .tuple (forall₂_of_mem inner fun x hx y hy h => h.imp fun a b ha hb => ?_)
      exact step a b (ha ▸ hx) (hb ▸ hy)

theorem Items.Like.flip {x y : Items} (h : Like R x y) : Like (fun b a => R a b) y x := by
  cases h with
  | single inner => exact .single inner.flip
  | tuple inner => exact .tuple (inner.imp fun _ _ => SubSchema.Like.flip).flip

theorem Items.Like.comp {x y z : Items} (hxy : Like R x y) (hyz : Like S y z) :
    Like (Relation.Comp R S) x z := by
  cases hxy with
  | single first =>
      cases hyz with
      | single second => exact .single (first.comp second)
  | tuple first =>
      cases hyz with
      | tuple second =>
          exact .tuple (forall₂_comp_of_mem first second fun _ _ _ _ => SubSchema.Like.comp)

theorem Items.Like.refl {x : Items} (h : ∀ a, .schema a ∈ x.subSchemas → R a a) :
    Like R x x := by
  cases x with
  | single x => exact .single (.refl fun a same => h a (List.mem_singleton.mpr same.symm))
  | tuple xs =>
      exact .tuple (List.forall₂_same.mpr fun x hx => .refl fun a same => h a (same ▸ hx))

end Like

namespace Node

theorem effectiveItems_eq_some {node : Node} {items : Items} (h : node.effectiveItems = some items) :
    node.items = some items := by
  rcases held : node.items with _ | ((_ | _) | x) | slots <;>
    simp_all [effectiveItems, Items.effective]

section Like

variable {R S : Node → Node → Prop} {a b c : Node}

theorem Like.elements (h : Like R a b) (constrained : a.constrains .array = true) :
    ElementsLike R a b :=
  ⟨h.items constrained, h.prefixItems constrained, h.contains constrained⟩

theorem Like.members (h : Like R a b) (constrained : a.constrains .object = true) :
    MembersLike R a b :=
  ⟨h.properties constrained, h.required constrained, h.additionalProperties constrained,
    h.dependentRequired constrained⟩

section Imp

variable (step : ∀ x y : Node, x.Below a → y.Below b → R x y → S x y)

include step

theorem ElementsLike.imp (h : ElementsLike R a b) : ElementsLike S a b where
  items := optionRel_imp_of_eq h.items fun _ _ hx hy inner =>
    inner.imp fun x y mx my =>
      step x y (mem_subSchemas_of_items (effectiveItems_eq_some hx) mx)
        (mem_subSchemas_of_items (effectiveItems_eq_some hy) my)
  prefixItems := optionRel_imp_of_eq h.prefixItems fun _ _ hx hy inner =>
    forall₂_of_mem inner fun _ mx _ my like => like.imp fun x y sx sy =>
      step x y (mem_subSchemas_of_prefixItems hx (sx ▸ mx))
        (mem_subSchemas_of_prefixItems hy (sy ▸ my))
  contains := optionRel_imp_of_eq h.contains fun _ _ hx hy like =>
    like.imp fun x y sx sy =>
      step x y (mem_subSchemas_of_contains (sx ▸ hx)) (mem_subSchemas_of_contains (sy ▸ hy))

theorem MembersLike.imp (h : MembersLike R a b) : MembersLike S a b where
  properties name := optionRel_imp_of_eq (h.properties name) fun _ _ hx hy like =>
    like.imp fun x y sx sy =>
      step x y (mem_subSchemas_of_property (NameTable.mem_of_get? (sx ▸ hx)))
        (mem_subSchemas_of_property (NameTable.mem_of_get? (sy ▸ hy)))
  required := h.required
  additionalProperties := h.additionalProperties.imp fun x y sx sy =>
    step x y (below_of_additionalProperties sx) (below_of_additionalProperties sy)
  dependentRequired := h.dependentRequired

theorem Like.imp (h : Like R a b) : Like S a b where
  shared := h.shared
  numeric := h.numeric
  string := h.string
  array := h.array
  items constrained := ((h.elements constrained).imp step).items
  prefixItems constrained := ((h.elements constrained).imp step).prefixItems
  contains constrained := ((h.elements constrained).imp step).contains
  object := h.object
  properties constrained := ((h.members constrained).imp step).properties
  required := h.required
  additionalProperties constrained := ((h.members constrained).imp step).additionalProperties
  dependentRequired := h.dependentRequired

end Imp

theorem Like.flip (ha : a.toFacets.Regular) (hb : b.toFacets.Regular) (h : Like R a b) :
    Like (fun y x => R x y) b a := by
  have same (kind : Family) : b.constrains kind = a.constrains kind :=
    (Facets.constrains_congr h.shared kind).symm
  constructor
  case shared => exact h.shared.symm ha hb
  case numeric => exact h.numeric.symm ha hb h.shared
  case string => exact h.string.symm ha hb h.shared
  case array => exact h.array.symm ha hb h.shared
  case object => exact h.object.symm ha hb h.shared
  all_goals
    rw [same]
    intro constrained
  case items => exact optionRel_flip (h.items constrained) fun _ _ _ _ => Items.Like.flip
  case prefixItems =>
    exact optionRel_flip (h.prefixItems constrained) fun _ _ _ _ inner =>
      (inner.imp fun _ _ => SubSchema.Like.flip).flip
  case contains =>
    exact optionRel_flip (h.contains constrained) fun _ _ _ _ => SubSchema.Like.flip
  case properties =>
    exact fun name => optionRel_flip (h.properties constrained name) fun _ _ _ _ =>
      SubSchema.Like.flip
  case required => exact fun name => (h.required constrained name).symm
  case additionalProperties => exact (h.additionalProperties constrained).flip
  case dependentRequired => exact fun pair => (h.dependentRequired constrained pair).symm

theorem Like.comp (hab : Like R a b) (hbc : Like S b c) : Like (Relation.Comp R S) a c := by
  have same (kind : Family) : a.constrains kind = b.constrains kind :=
    Facets.constrains_congr hab.shared kind
  constructor
  case shared => exact hab.shared.trans hbc.shared
  case numeric => exact hab.numeric.trans hab.shared hbc.numeric
  case string => exact hab.string.trans hab.shared hbc.string
  case array => exact hab.array.trans hab.shared hbc.array
  case object => exact hab.object.trans hab.shared hbc.object
  all_goals
    intro constrained
    have constrained' := same _ ▸ constrained
  case items =>
    exact optionRel_comp (hab.items constrained) (hbc.items constrained') fun _ _ _ =>
      Items.Like.comp
  case prefixItems =>
    exact optionRel_comp (hab.prefixItems constrained) (hbc.prefixItems constrained')
      fun _ _ _ first second => forall₂_comp_of_mem first second fun _ _ _ _ => SubSchema.Like.comp
  case contains =>
    exact optionRel_comp (hab.contains constrained) (hbc.contains constrained') fun _ _ _ =>
      SubSchema.Like.comp
  case properties =>
    exact fun name => optionRel_comp (hab.properties constrained name)
      (hbc.properties constrained' name) fun _ _ _ => SubSchema.Like.comp
  case required =>
    exact fun name => (hab.required constrained name).trans (hbc.required constrained' name)
  case additionalProperties =>
    exact (hab.additionalProperties constrained).comp (hbc.additionalProperties constrained')
  case dependentRequired =>
    exact fun pair =>
      (hab.dependentRequired constrained pair).trans (hbc.dependentRequired constrained' pair)

section Refl

variable (h : ∀ x : Node, x.Below a → R x x)

include h

theorem ElementsLike.refl : ElementsLike R a a where
  items := optionRel_refl fun _ found => .refl fun x mx =>
    h x (mem_subSchemas_of_items (effectiveItems_eq_some found) mx)
  prefixItems := optionRel_refl fun _ found => List.forall₂_same.mpr fun _ mx => .refl
    fun x same => h x (mem_subSchemas_of_prefixItems found (same ▸ mx))
  contains := optionRel_refl fun _ found => .refl fun x same =>
    h x (mem_subSchemas_of_contains (same ▸ found))

theorem MembersLike.refl : MembersLike R a a where
  properties _ := optionRel_refl fun _ found => .refl fun x same =>
    h x (mem_subSchemas_of_property (NameTable.mem_of_get? (same ▸ found)))
  required _ := Iff.rfl
  additionalProperties := .refl fun x same => h x (below_of_additionalProperties same)
  dependentRequired _ := Iff.rfl

theorem Like.refl (regular : a.toFacets.Regular) : Like R a a where
  shared := .refl regular
  numeric := .refl regular
  string := .refl regular
  array := .refl regular
  items _ := (ElementsLike.refl h).items
  prefixItems _ := (ElementsLike.refl h).prefixItems
  contains _ := (ElementsLike.refl h).contains
  object := .refl regular
  properties _ := (MembersLike.refl h).properties
  required _ := (MembersLike.refl h).required
  additionalProperties _ := (MembersLike.refl h).additionalProperties
  dependentRequired _ := (MembersLike.refl h).dependentRequired

end Refl

end Like

section Alike

variable {a b c : Node}

theorem alike_iff : Alike a b ↔ Like Alike a b := by
  rw [Alike]
  constructor
  · intro h
    apply h.imp
    intro x y _ _ alike
    exact alike.2
  · intro h
    apply h.imp
    intro x y below _ alike
    exact ⟨below, alike⟩

theorem Alike.refl (h : a.Accepted) : Alike a a := by
  induction a using rec_strong with
  | step a ih => exact alike_iff.mpr (.refl (fun x below => ih x below (h.below below)) h.regular)

theorem Alike.symm (ha : a.Accepted) (hb : b.Accepted) (h : Alike a b) : Alike b a := by
  induction a using rec_strong generalizing b with
  | step a ih =>
      refine alike_iff.mpr (((alike_iff.mp h).flip ha.regular hb.regular).imp ?_)
      intro y x hy hx alike
      exact ih x hx (ha.below hx) (hb.below hy) alike

theorem Alike.trans (hab : Alike a b) (hbc : Alike b c) : Alike a c := by
  induction a using rec_strong generalizing b c with
  | step a ih =>
      refine alike_iff.mpr (((alike_iff.mp hab).comp (alike_iff.mp hbc)).imp ?_)
      rintro x z hx _ ⟨y, hxy, hyz⟩
      exact ih x hx hxy hyz

end Alike

end Node

end SchemaEvolution
