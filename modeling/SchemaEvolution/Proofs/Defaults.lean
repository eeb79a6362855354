import Mathlib
import SchemaEvolution.Proofs.Overlay
import SchemaEvolution.Proofs.Values

/-! # Writing out defaults

Eight keywords have a value that says what their absence says. A document may write these values
wherever the keywords are absent, in every schema inside it; it denotes a schema then as before, and
every keyword has its former value, a value with such a schema inside, or its default.
-/

namespace SchemaEvolution

namespace Json

/-- The second members are the first ones with related values, and some of the extra ones between
them. -/
inductive Extended (extra : List (String × Json)) (R : String → Json → Json → Prop) :
    List (String × Json) → List (String × Json) → Prop where
  | nil : Extended extra R [] []
  | keep {name : String} {a b : Json} {as bs : List (String × Json)} (head : R name a b)
      (rest : Extended extra R as bs) : Extended extra R ((name, a) :: as) ((name, b) :: bs)
  | write {member : String × Json} {as bs : List (String × Json)} (known : member ∈ extra)
      (rest : Extended extra R as bs) : Extended extra R as (member :: bs)

/-- The members of a schema that say what their absence says. -/
def defaults : List (String × Json) :=
  [("uniqueItems", .bool false), ("additionalProperties", .bool true), ("required", .array []),
    ("items", .bool true), ("exclusiveMaximum", .bool false), ("exclusiveMinimum", .bool false),
    ("properties", .object []), ("dependentRequired", .object [])]

end Json

/-- The second value of a keyword is the first one, up to schemas inside that are in the
relation. -/
inductive Keyword.SpellsOut (S : Json → Json → Prop) : Keyword → Json → Json → Prop where
  | plain {keyword : Keyword} {a : Json} (simple : keyword ∉ Keyword.structural) :
      SpellsOut S keyword a a
  | positions {keyword : Keyword} {as bs : List Json}
      (holds : keyword = .items ∨ keyword = .prefixItems) (elements : List.Forall₂ S as bs) :
      SpellsOut S keyword (.array as) (.array bs)
  | schema {keyword : Keyword} {a b : Json}
      (holds : keyword = .items ∨ keyword = .contains ∨ keyword = .additionalProperties)
      (inner : S a b) : SpellsOut S keyword a b
  | properties {as bs : List (String × Json)} (members : Json.Extended [] (fun _ => S) as bs) :
      SpellsOut S .properties (.object as) (.object bs)

namespace Json

/-- The second value is the same boolean or a schema that writes some defaults of the first one,
up to schemas inside that are in the relation. -/
inductive SpellsOut (S : Json → Json → Prop) : Json → Json → Prop where
  | flag (allowed : Bool) : SpellsOut S (.bool allowed) (.bool allowed)
  | schema {as bs : List (String × Json)}
      (members : Extended defaults (fun key => (Keyword.ofName key).SpellsOut S) as bs)
      (once : (NameTable.names bs).Nodup) : SpellsOut S (.object as) (.object bs)

/-- The second document is the first one with some defaults written where the keywords are absent,
at any schemas inside it. -/
inductive SpelledOut : Json → Json → Prop where
  | intro {a b : Json} (step : SpellsOut SpelledOut a b) : SpelledOut a b

theorem SpelledOut.step {a b : Json} (h : SpelledOut a b) : SpellsOut SpelledOut a b := by
  cases h with
  | intro step => exact step

theorem SpelledOut.sameForm {a b : Json} (h : SpelledOut a b) : a.SameForm b := by
  cases h.step with
  | flag allowed => exact .flag allowed
  | schema => exact .object _ _

section Extended

variable {extra : List (String × Json)} {R : String → Json → Json → Prop}
  {as bs : List (String × Json)}

theorem Extended.of_mem (h : Extended extra R as bs) {n : String × Json} (member : n ∈ bs) :
    n ∈ extra ∨ ∃ a, (n.1, a) ∈ as ∧ R n.1 a n.2 := by
  induction h with
  | nil => cases member
  | keep head _ ih =>
      rcases List.mem_cons.mp member with rfl | member
      · exact .inr ⟨_, List.mem_cons_self, head⟩
      · exact (ih member).imp id fun ⟨a, listed, related⟩ =>
          ⟨a, List.mem_cons_of_mem _ listed, related⟩
  | write known _ ih =>
      rcases List.mem_cons.mp member with rfl | member
      · exact .inl known
      · exact ih member

theorem Extended.names_subset (h : Extended extra R as bs) :
    NameTable.names as ⊆ NameTable.names bs := by
  induction h with
  | nil => exact List.Subset.refl _
  | keep _ _ ih => exact List.cons_subset_cons _ ih
  | write _ _ ih => exact List.subset_cons_of_subset _ ih

theorem Extended.get? (h : Extended extra R as bs) (once : (NameTable.names bs).Nodup)
    (name : String) :
    Option.Rel (R name) (NameTable.get? name as) (NameTable.get? name bs) ∨
      NameTable.get? name as = none ∧
        ∃ value, (name, value) ∈ extra ∧ NameTable.get? name bs = some value := by
  induction h with
  | nil => exact .inl .none
  | @keep key a b as bs head _ ih =>
      obtain ⟨_, others⟩ := List.nodup_cons.mp once
      by_cases here : name = key
      · subst here
        left
        simpa [NameTable.get?] using head
      · simpa [NameTable.get?, here] using ih others
  | @write member as bs known rest ih =>
      obtain ⟨absent, others⟩ := List.nodup_cons.mp once
      by_cases here : name = member.1
      · subst here
        have missing : member.1 ∉ NameTable.names as := fun listed => absent (rest.names_subset listed)
        exact .inr ⟨NameTable.get?_eq_none_iff.mpr missing, member.2, known, by simp [NameTable.get?]⟩
      · simpa [NameTable.get?, here] using ih others

theorem Extended.names_eq (h : Extended [] R as bs) : NameTable.names as = NameTable.names bs := by
  induction h with
  | nil => rfl
  | keep _ _ ih => exact congrArg (List.cons _) ih
  | write known => cases known

theorem Extended.refl (h : ∀ m ∈ as, R m.1 m.2 m.2) : Extended extra R as as := by
  induction as with
  | nil => exact .nil
  | cons m rest ih =>
      obtain ⟨head, others⟩ := List.forall_mem_cons.mp h
      exact .keep head (ih others)

end Extended

end Json

namespace Keyword

variable {S : Json → Json → Prop} {keyword : Keyword} {a b : Json}

theorem eq_of_spellsOut (simple : keyword ∉ Keyword.structural) (h : keyword.SpellsOut S a b) :
    a = b := by
  cases h with
  | plain => rfl
  | positions holds => rcases holds with rfl | rfl <;> exact absurd (by decide) simple
  | schema holds => rcases holds with rfl | rfl | rfl <;> exact absurd (by decide) simple
  | properties => exact absurd (by decide) simple

theorem spellsOut_items (h : Keyword.items.SpellsOut S a b) : S a b ∨ a.SamePositions S b := by
  cases h with
  | plain simple => exact absurd (by decide) simple
  | positions _ elements => exact .inr ⟨elements⟩
  | schema _ inner => exact .inl inner

theorem spellsOut_prefixItems (h : Keyword.prefixItems.SpellsOut S a b) : a.SamePositions S b := by
  cases h with
  | plain simple => exact absurd (by decide) simple
  | positions _ elements => exact ⟨elements⟩
  | schema holds => simp at holds

theorem spellsOut_contains (h : Keyword.contains.SpellsOut S a b) : S a b := by
  cases h with
  | plain simple => exact absurd (by decide) simple
  | positions holds => simp at holds
  | schema _ inner => exact inner

theorem spellsOut_additionalProperties (h : Keyword.additionalProperties.SpellsOut S a b) :
    S a b := by
  cases h with
  | plain simple => exact absurd (by decide) simple
  | positions holds => simp at holds
  | schema _ inner => exact inner

theorem spellsOut_properties (h : Keyword.properties.SpellsOut S a b) :
    ∃ as bs, a = .object as ∧ b = .object bs ∧ Json.Extended [] (fun _ => S) as bs := by
  cases h with
  | plain simple => exact absurd (by decide) simple
  | positions holds => simp at holds
  | schema holds => simp at holds
  | properties members => exact ⟨_, _, rfl, rfl, members⟩

theorem SpellsOut.distinct (h : keyword.SpellsOut S a b) (distinct : a.Distinct)
    (inside : a.Inside fun u => ∀ v, S u v → u.Distinct → v.Distinct) : b.Distinct := by
  cases h with
  | plain => exact distinct
  | positions _ elements =>
      refine .array fun b member => ?_
      obtain ⟨a, listed, related⟩ := exists_of_forall₂ elements member
      exact inside.elements _ rfl a listed b related (distinct.elements a listed)
  | schema _ inner => exact inside.own b inner distinct
  | properties members =>
      refine .object (members.names_eq ▸ distinct.names) fun n member => ?_
      rcases members.of_mem member with known | ⟨a, listed, related⟩
      · cases known
      · exact inside.members _ rfl _ listed _ related (distinct.member listed)

open Decode in
/-- A value that can be read still can if the schemas inside still are schemas. -/
theorem SpellsOut.readable (h : keyword.SpellsOut S a b) (readable : Readable keyword a)
    (forms : ∀ u v, S u v → u.SameForm v)
    (inside : a.Inside fun u => ∀ v, S u v → IsSchema u → IsSchema v) : Readable keyword b := by
  cases h with
  | plain => exact readable
  | positions holds elements =>
      rw [readable_array_iff holds] at readable ⊢
      intro b member
      obtain ⟨a, listed, related⟩ := exists_of_forall₂ elements member
      exact inside.elements _ rfl a listed b related (readable a listed)
  | schema holds inner =>
      obtain ⟨left, right⟩ := (forms _ _ inner).noArray
      rw [readable_single_iff holds left] at readable
      rw [readable_single_iff holds right]
      exact inside.own b inner readable
  | properties members =>
      obtain ⟨_, ⟨⟩, each⟩ := readable_properties.mp readable
      refine readable_properties.mpr ⟨_, rfl, fun n member => ?_⟩
      rcases members.of_mem member with known | ⟨a, listed, related⟩
      · cases known
      · exact inside.members _ rfl _ listed _ related (each _ listed)

open Decode in
theorem SpellsOut.refl (readable : Readable keyword a) (distinct : a.Distinct)
    (inside : a.Inside fun u => IsSchema u → u.Distinct → S u u) : keyword.SpellsOut S a a := by
  by_cases simple : keyword ∉ Keyword.structural
  · exact .plain simple
  have positions {elements : List Json} (isArray : a = .array elements)
      (each : ∀ e ∈ elements, IsSchema e) : List.Forall₂ S elements elements :=
    List.forall₂_same.mpr fun e member => by
      subst isArray
      exact inside.elements _ rfl e member (each e member) (distinct.elements e member)
  have own (schema : IsSchema a) : S a a := inside.own schema distinct
  simp only [not_not, Keyword.structural, List.mem_cons, List.not_mem_nil, or_false] at simple
  rcases simple with rfl | rfl | rfl | rfl | rfl
  · rcases readable_items.mp readable with ⟨elements, rfl, each⟩ | schema
    · exact .positions (.inl rfl) (positions rfl each)
    · exact .schema (.inl rfl) (own schema)
  · obtain ⟨elements, rfl, each⟩ := readable_prefixItems.mp readable
    exact .positions (.inr rfl) (positions rfl each)
  · exact .schema (.inr (.inl rfl)) (own (readable_contains.mp readable))
  · obtain ⟨members, rfl, each⟩ := readable_properties.mp readable
    refine .properties (.refl fun m member => ?_)
    exact inside.members _ rfl m member (each m member) (distinct.member member)
  · exact .schema (.inr (.inr rfl)) (own (readable_additionalProperties.mp readable))

end Keyword

namespace Json

theorem distinct_of_defaults {member : String × Json} (known : member ∈ defaults) :
    member.2.Distinct := by
  have each : ∀ member ∈ defaults, member.2.Distinct := by decide
  exact each member known

open Decode in
theorem readable_of_defaults {member : String × Json} (known : member ∈ defaults) :
    Readable (Keyword.ofName member.1) member.2 := by
  have flag : IsSchema (.bool true) := isSchema_iff.mpr (.inl ⟨true, rfl⟩)
  have simple (keyword : Keyword) (plain : keyword ∉ Keyword.structural) {value : Json}
      (takes : keyword.takes value = true) : Readable keyword value :=
    (readable_iff_takes plain).mpr takes
  simp only [defaults, List.mem_cons, List.not_mem_nil, or_false] at known
  rcases known with rfl | rfl | rfl | rfl | rfl | rfl | rfl | rfl
  · exact simple .uniqueItems (by decide) rfl
  · exact readable_additionalProperties.mpr flag
  · exact simple .required (by decide) rfl
  · exact readable_items.mpr (.inr flag)
  · exact simple .exclusiveMaximum (by decide) rfl
  · exact simple .exclusiveMinimum (by decide) rfl
  · exact readable_properties.mpr ⟨[], rfl, fun _ member => by cases member⟩
  · exact simple .dependentRequired (by decide) rfl

variable {a b : Json}

theorem SpelledOut.distinct (h : SpelledOut a b) (distinct : a.Distinct) : b.Distinct := by
  refine (rec_inside (P := fun a => ∀ b, SpelledOut a b → a.Distinct → b.Distinct)
    (fun a inside b h distinct => ?_) a).own b h distinct
  cases h.step with
  | flag => exact distinct
  | schema members once =>
      refine .object once fun n member => ?_
      rcases members.of_mem member with known | ⟨a, listed, spells⟩
      · exact distinct_of_defaults known
      · exact spells.distinct (distinct.member listed) (inside _ rfl _ listed)

theorem SpelledOut.isSchema (h : SpelledOut a b) (schema : Decode.IsSchema a) :
    Decode.IsSchema b := by
  refine (rec_inside (P := fun a => ∀ b, SpelledOut a b → Decode.IsSchema a → Decode.IsSchema b)
    (fun a inside b h schema => ?_) a).own b h schema
  cases h.step with
  | flag => exact schema
  | schema members =>
      rcases Decode.isSchema_iff.mp schema with ⟨_, ⟨⟩⟩ | ⟨_, ⟨⟩, readable⟩
      refine Decode.isSchema_iff.mpr (.inr ⟨_, rfl, fun n member => ?_⟩)
      rcases members.of_mem member with known | ⟨a, listed, spells⟩
      · exact readable_of_defaults known
      · exact spells.readable (readable _ listed) (fun _ _ => SpelledOut.sameForm)
          (inside _ rfl _ listed)

theorem SpelledOut.refl (schema : Decode.IsSchema a) (distinct : a.Distinct) :
    SpelledOut a a := by
  refine (rec_inside (P := fun a => Decode.IsSchema a → a.Distinct → SpelledOut a a)
    (fun a inside schema distinct => .intro ?_) a).own schema distinct
  rcases Decode.isSchema_iff.mp schema with ⟨allowed, rfl⟩ | ⟨members, rfl, readable⟩
  · exact .flag allowed
  · refine .schema (.refl fun m member => ?_) distinct.names
    exact .refl (readable m member) (distinct.member member) (inside _ rfl m member)

/-- A schema may write one default first. -/
theorem SpelledOut.write {members : List (String × Json)} {default : String × Json}
    (schema : Decode.IsSchema (.object members)) (distinct : (Json.object members).Distinct)
    (known : default ∈ defaults) (absent : default.1 ∉ NameTable.names members) :
    SpelledOut (.object members) (.object (default :: members)) := by
  cases (SpelledOut.refl schema distinct).step with
  | schema kept once =>
      exact .intro (.schema (.write known kept) (List.nodup_cons.mpr ⟨absent, once⟩))

end Json

/-- What two documents say of a keyword: values that are related, or only the second one has a
value, which is the default. -/
inductive Keyword.Writes (S : Json → Json → Prop) (keyword : Keyword) :
    Option Json → Option Json → Prop where
  | kept {argument other : Option Json} (related : Option.Rel (keyword.SpellsOut S) argument other) :
      Writes S keyword argument other
  | written {value : Json} (known : (keyword.name, value) ∈ Json.defaults) :
      Writes S keyword none (some value)

namespace Keyword.Writes

variable {S : Json → Json → Prop} {keyword : Keyword} {argument other : Option Json}

theorem kept_of (h : keyword.Writes S argument other)
    (required : keyword.name ∉ NameTable.names Json.defaults) :
    Option.Rel (keyword.SpellsOut S) argument other := by
  cases h with
  | kept related => exact related
  | written known => exact absurd (List.mem_map.mpr ⟨_, known, rfl⟩) required

theorem getD (h : keyword.Writes S argument other) {default : Json}
    (known : (keyword.name, default) ∈ Json.defaults) (own : keyword.SpellsOut S default default) :
    keyword.SpellsOut S (argument.getD default) (other.getD default) := by
  cases h with
  | kept related =>
      cases related with
      | none => exact own
      | some related => exact related
  | @written value written =>
      have once : (NameTable.names Json.defaults).Nodup := by decide
      have first := (NameTable.get?_eq_some_iff once).mpr known
      have second := (NameTable.get?_eq_some_iff once).mpr written
      obtain rfl : default = value := Option.some.inj (first.symm.trans second)
      exact own

theorem eq_of_required (h : keyword.Writes S argument other)
    (required : keyword.name ∉ NameTable.names Json.defaults)
    (simple : keyword ∉ Keyword.structural) : argument = other := by
  cases h.kept_of required with
  | none => rfl
  | some related => exact congrArg some (eq_of_spellsOut simple related)

theorem compared (h : keyword.Writes S argument other)
    (named : Keyword.ofName keyword.name = keyword) :
    keyword.compared argument = keyword.compared other := by
  cases h with
  | kept related =>
      cases related with
      | none => rfl
      | some related =>
          by_cases simple : keyword ∉ Keyword.structural
          · rw [eq_of_spellsOut simple related]
          · simp only [not_not, Keyword.structural, List.mem_cons, List.not_mem_nil,
              or_false] at simple
            rcases simple with rfl | rfl | rfl | rfl | rfl <;> rfl
  | written known =>
      simp only [Json.defaults, List.mem_cons, List.not_mem_nil, or_false, Prod.mk.injEq] at known
      rw [← named]
      rcases known with ⟨name, rfl⟩ | ⟨name, rfl⟩ | ⟨name, rfl⟩ | ⟨name, rfl⟩ | ⟨name, rfl⟩ |
        ⟨name, rfl⟩ | ⟨name, rfl⟩ | ⟨name, rfl⟩ <;> rw [name] <;> rfl

end Keyword.Writes

theorem Json.SpelledOut.writes {as bs : List (String × Json)}
    (h : (Json.object as).SpelledOut (.object bs)) {keyword : Keyword}
    (named : Keyword.ofName keyword.name = keyword) :
    keyword.Writes SpelledOut (NameTable.get? keyword.name as)
      (NameTable.get? keyword.name bs) := by
  cases h.step with
  | schema members once =>
      rcases members.get? once keyword.name with related | ⟨absent, value, known, written⟩
      · rw [named] at related
        exact .kept related
      · rw [absent, written]
        exact .written known

end SchemaEvolution
