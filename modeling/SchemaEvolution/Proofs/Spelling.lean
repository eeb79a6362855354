import Mathlib
import SchemaEvolution.Proofs.Overlay

/-! # Other spellings of a document

The members of an object may stand in any order, a set of names, types or options may list them in
any order and repeat them, and a single type may stand without its brackets. What one keyword may
change to is said relative to a relation between the schemas inside; a document and its other
spellings are the relation that this step reproduces.
-/

namespace SchemaEvolution

namespace Json

/-- The same names in any order, with related values. -/
inductive Shuffled (R : String → Json → Json → Prop) :
    List (String × Json) → List (String × Json) → Prop where
  | nil : Shuffled R [] []
  | cons {name : String} {a b : Json} {as before after : List (String × Json)}
      (head : R name a b) (rest : Shuffled R as (before ++ after)) :
      Shuffled R ((name, a) :: as) (before ++ (name, b) :: after)

/-- The members of objects inside the value are in another order. -/
inductive Reordered : Json → Json → Prop where
  | refl (a : Json) : Reordered a a
  | array {as bs : List Json} (elements : List.Forall₂ Reordered as bs) :
      Reordered (.array as) (.array bs)
  | object {as bs : List (String × Json)} (members : Shuffled (fun _ => Reordered) as bs) :
      Reordered (.object as) (.object bs)

/-- The entries of a list, where a value that is no list stands for its only entry. -/
def entries : Json → List Json
  | .array elements => elements
  | value => [value]

/-- Two lists of the same entries, whatever their order and number. -/
inductive SameEntries : Json → Json → Prop where
  | intro {as bs : List Json} (same : ∀ entry, entry ∈ as ↔ entry ∈ bs) :
      SameEntries (.array as) (.array bs)

end Json

open Json in
/-- The second value of a keyword says what the first one says, where the schemas inside are in
the relation. -/
inductive Keyword.Respells (S : Json → Json → Prop) : Keyword → Json → Json → Prop where
  | plain {keyword : Keyword} {a b : Json} (simple : keyword ∉ Keyword.type :: Keyword.compound)
      (value : Reordered a b) : Respells S keyword a b
  | type {a b : Json} (same : ∀ entry, entry ∈ a.entries ↔ entry ∈ b.entries) :
      Respells S .type a b
  | enum {as bs : List Json} (kept : ∀ a ∈ as, ∃ b ∈ bs, Reordered a b)
      (known : ∀ b ∈ bs, ∃ a ∈ as, Reordered a b) : Respells S .enum (.array as) (.array bs)
  | required {a b : Json} (names : SameEntries a b) : Respells S .required a b
  | dependentRequired {as bs : List (String × Json)}
      (members : Shuffled (fun _ => SameEntries) as bs) :
      Respells S .dependentRequired (.object as) (.object bs)
  | positions {keyword : Keyword} {as bs : List Json}
      (holds : keyword = .items ∨ keyword = .prefixItems) (elements : List.Forall₂ S as bs) :
      Respells S keyword (.array as) (.array bs)
  | schema {keyword : Keyword} {a b : Json}
      (holds : keyword = .items ∨ keyword = .contains ∨ keyword = .additionalProperties)
      (inner : S a b) : Respells S keyword a b
  | properties {as bs : List (String × Json)} (members : Shuffled (fun _ => S) as bs) :
      Respells S .properties (.object as) (.object bs)

namespace Json

/-- The second value is a boolean or a schema that says what the first one says, where the schemas
inside are in the relation. -/
inductive Respells (S : Json → Json → Prop) : Json → Json → Prop where
  | flag (allowed : Bool) : Respells S (.bool allowed) (.bool allowed)
  | schema {as bs : List (String × Json)}
      (members : Shuffled (fun key => (Keyword.ofName key).Respells S) as bs) :
      Respells S (.object as) (.object bs)

/-- The second document is another spelling of the first one. -/
inductive Respelled : Json → Json → Prop where
  | intro {a b : Json} (step : Respells Respelled a b) : Respelled a b

theorem Respells.sameForm {S : Json → Json → Prop} {a b : Json} (h : Respells S a b) :
    a.SameForm b := by
  cases h with
  | flag allowed => exact .flag allowed
  | schema => exact .object _ _

theorem Respelled.step {a b : Json} (h : Respelled a b) : Respells Respelled a b := by
  cases h with
  | intro step => exact step

section Members

variable {R : String → Json → Json → Prop} {as bs : List (String × Json)}

theorem Shuffled.refl (h : ∀ m ∈ as, R m.1 m.2 m.2) : Shuffled R as as := by
  induction as with
  | nil => exact .nil
  | cons m rest ih =>
      obtain ⟨head, others⟩ := List.forall_mem_cons.mp h
      change Shuffled R (m :: rest) ([] ++ m :: rest)
      exact .cons head (ih others)

theorem Shuffled.names_perm (h : Shuffled R as bs) :
    (NameTable.names as).Perm (NameTable.names bs) := by
  induction h with
  | nil => exact .refl _
  | @cons name a b as before after _ _ ih =>
      have moved : (NameTable.names (before ++ (name, b) :: after)).Perm
          (name :: NameTable.names (before ++ after)) := List.perm_middle.map _
      exact (ih.cons name).trans moved.symm

theorem Shuffled.nodup (h : Shuffled R as bs) (distinct : (NameTable.names as).Nodup) :
    (NameTable.names bs).Nodup :=
  h.names_perm.nodup_iff.mp distinct

theorem Shuffled.of_mem (h : Shuffled R as bs) {n : String × Json} (member : n ∈ bs) :
    ∃ a, (n.1, a) ∈ as ∧ R n.1 a n.2 := by
  induction h with
  | nil => cases member
  | cons head _ ih =>
      rcases List.mem_cons.mp (List.perm_middle.mem_iff.mp member) with rfl | member
      · exact ⟨_, List.mem_cons_self, head⟩
      · obtain ⟨a, listed, related⟩ := ih member
        exact ⟨a, List.mem_cons_of_mem _ listed, related⟩

theorem Shuffled.get? (h : Shuffled R as bs) (distinct : (NameTable.names as).Nodup)
    (name : String) :
    Option.Rel (R name) (NameTable.get? name as) (NameTable.get? name bs) := by
  cases found : NameTable.get? name bs with
  | none =>
      have absent := NameTable.get?_eq_none_iff.mp found
      rw [NameTable.get?_eq_none_iff.mpr fun listed => absent (h.names_perm.mem_iff.mp listed)]
      exact .none
  | some b =>
      obtain ⟨a, listed, related⟩ := h.of_mem (NameTable.mem_of_get? found)
      rw [(NameTable.get?_eq_some_iff distinct).mpr listed]
      exact .some related

theorem Shuffled.distinct (h : Shuffled R as bs) (distinct : (Json.object as).Distinct)
    (step : ∀ m ∈ as, ∀ b, R m.1 m.2 b → b.Distinct) : (Json.object bs).Distinct := by
  refine .object (h.nodup distinct.names) fun n member => ?_
  obtain ⟨a, listed, related⟩ := h.of_mem member
  exact step _ listed _ related

end Members

section Reordered

theorem Reordered.distinct {a b : Json} (h : Reordered a b) (distinct : a.Distinct) :
    b.Distinct := by
  induction a using rec_strong generalizing b with
  | null | bool | number | string =>
      cases h
      exact distinct
  | array as ih =>
      cases h with
      | refl => exact distinct
      | @array _ bs elements =>
          refine .array fun b member => ?_
          obtain ⟨a, listed, related⟩ := exists_of_forall₂ elements member
          exact ih a listed related (distinct.elements a listed)
  | object as ih =>
      cases h with
      | refl => exact distinct
      | object members =>
          exact members.distinct distinct fun m listed b related =>
            ih m listed related (distinct.member listed)

/-- The order of members does not show in the equality of values. -/
theorem Reordered.same {a b : Json} (h : Reordered a b) (distinct : a.Distinct) :
    a.same b = true := by
  induction a using rec_strong generalizing b with
  | null | bool | number | string =>
      cases h
      exact same_refl distinct
  | array as ih =>
      cases h with
      | refl => exact same_refl distinct
      | @array _ bs elements =>
          refine same_array_iff.mpr ⟨bs, rfl, forall₂_of_mem elements fun a member b _ h => ?_⟩
          exact ih a member h (distinct.elements a member)
  | object as ih =>
      cases h with
      | refl => exact same_refl distinct
      | @object _ bs members =>
          refine same_object_iff.mpr ⟨bs, rfl, ?_, fun m listed => ?_⟩
          · simpa [NameTable.names] using members.names_perm.length_eq
          · have held := members.get? distinct.names m.1
            rw [(NameTable.get?_eq_some_iff distinct.names).mpr listed] at held
            generalize NameTable.get? m.1 bs = found at held ⊢
            cases held with
            | some related => exact ⟨_, rfl, ih m listed related (distinct.member listed)⟩

theorem Reordered.equivalent {a b : Json} (h : Reordered a b) (distinct : a.Distinct) :
    a.equivalent b = true := by
  cases a with
  | number n =>
      cases h
      exact equivalent_refl distinct
  | _ => exact h.same distinct

variable {a b : Json} (h : Reordered a b)

include h

theorem Reordered.number? : a.number? = b.number? := by
  cases h <;> rfl

theorem Reordered.string? : a.string? = b.string? := by
  cases h <;> rfl

theorem Reordered.bool? : a.bool? = b.bool? := by
  cases h <;> rfl

theorem Reordered.elements?_isSome : a.elements?.isSome = b.elements?.isSome := by
  cases h <;> rfl

theorem Reordered.exclusive? : Decode.exclusive? a = Decode.exclusive? b := by
  cases h <;> rfl

theorem Reordered.count? : Decode.count? a = Decode.count? b := by
  rw [Decode.count?, Decode.count?, h.number?]

end Reordered

theorem SameEntries.distinct {a b : Json} (h : SameEntries a b) (distinct : a.Distinct) :
    b.Distinct := by
  obtain ⟨same⟩ := h
  exact .array fun b member => distinct.elements b ((same b).mpr member)

theorem SameEntries.isNameList {a b : Json} (h : SameEntries a b) (names : a.isNameList = true) :
    b.isNameList = true := by
  obtain ⟨same⟩ := h
  simp only [Json.isNameList, List.all_eq_true] at names ⊢
  intro b member
  exact names b ((same b).mpr member)

theorem distinct_entries_iff {a : Json} : a.Distinct ↔ ∀ entry ∈ a.entries, entry.Distinct := by
  cases a with
  | array elements => exact ⟨fun h => h.elements, .array⟩
  | _ => exact List.forall_mem_singleton.symm

theorem takes_type_iff {a : Json} :
    Keyword.type.takes a = true ↔ ∀ entry ∈ a.entries, entry.isTypeName = true := by
  cases a <;> simp [Keyword.takes, entries]

end Json

namespace Keyword

section Respells

variable {S : Json → Json → Prop} {keyword : Keyword} {a b : Json}

/-! What a keyword may change to, keyword by keyword. -/

theorem respells_of_simple (simple : keyword ∉ Keyword.type :: Keyword.compound)
    (h : keyword.Respells S a b) : a.Reordered b := by
  cases h with
  | plain _ value => exact value
  | type | enum | required | dependentRequired | properties => exact absurd (by decide) simple
  | positions holds => rcases holds with rfl | rfl <;> exact absurd (by decide) simple
  | schema holds => rcases holds with rfl | rfl | rfl <;> exact absurd (by decide) simple

theorem respells_type (h : Keyword.type.Respells S a b) :
    ∀ entry, entry ∈ a.entries ↔ entry ∈ b.entries := by
  cases h with
  | plain simple => exact absurd (by decide) simple
  | type same => exact same
  | positions holds => simp at holds
  | schema holds => simp at holds

theorem respells_enum (h : Keyword.enum.Respells S a b) :
    ∃ as bs, a = .array as ∧ b = .array bs ∧ (∀ a ∈ as, ∃ b ∈ bs, Json.Reordered a b) ∧
      ∀ b ∈ bs, ∃ a ∈ as, Json.Reordered a b := by
  cases h with
  | plain simple => exact absurd (by decide) simple
  | enum kept known => exact ⟨_, _, rfl, rfl, kept, known⟩
  | positions holds => simp at holds
  | schema holds => simp at holds

theorem respells_required (h : Keyword.required.Respells S a b) : a.SameEntries b := by
  cases h with
  | plain simple => exact absurd (by decide) simple
  | required names => exact names
  | positions holds => simp at holds
  | schema holds => simp at holds

theorem respells_dependentRequired (h : Keyword.dependentRequired.Respells S a b) :
    ∃ as bs, a = .object as ∧ b = .object bs ∧
      Json.Shuffled (fun _ => Json.SameEntries) as bs := by
  cases h with
  | plain simple => exact absurd (by decide) simple
  | dependentRequired members => exact ⟨_, _, rfl, rfl, members⟩
  | positions holds => simp at holds
  | schema holds => simp at holds

theorem respells_items (h : Keyword.items.Respells S a b) : S a b ∨ a.SamePositions S b := by
  cases h with
  | plain simple => exact absurd (by decide) simple
  | positions _ elements => exact .inr ⟨elements⟩
  | schema _ inner => exact .inl inner

theorem respells_prefixItems (h : Keyword.prefixItems.Respells S a b) : a.SamePositions S b := by
  cases h with
  | plain simple => exact absurd (by decide) simple
  | positions _ elements => exact ⟨elements⟩
  | schema holds => simp at holds

theorem respells_contains (h : Keyword.contains.Respells S a b) : S a b := by
  cases h with
  | plain simple => exact absurd (by decide) simple
  | positions holds => simp at holds
  | schema _ inner => exact inner

theorem respells_additionalProperties (h : Keyword.additionalProperties.Respells S a b) :
    S a b := by
  cases h with
  | plain simple => exact absurd (by decide) simple
  | positions holds => simp at holds
  | schema _ inner => exact inner

theorem respells_properties (h : Keyword.properties.Respells S a b) :
    ∃ as bs, a = .object as ∧ b = .object bs ∧ Json.Shuffled (fun _ => S) as bs := by
  cases h with
  | plain simple => exact absurd (by decide) simple
  | positions holds => simp at holds
  | schema holds => simp at holds
  | properties members => exact ⟨_, _, rfl, rfl, members⟩

theorem Respells.takes (h : keyword.Respells S a b) (takes : keyword.takes a = true) :
    keyword.takes b = true := by
  cases h with
  | plain simple value =>
      cases keyword <;> first | exact absurd (by decide) simple | skip
      all_goals
        first
          | rfl
          | simpa only [Keyword.takes, ← value.number?, ← value.string?, ← value.bool?,
              ← value.elements?_isSome, ← value.exclusive?, ← value.count?] using takes
  | type same =>
      rw [Json.takes_type_iff] at takes ⊢
      exact fun entry member => takes entry ((same entry).mpr member)
  | enum => rfl
  | required names => exact names.isNameList takes
  | dependentRequired members =>
      simp only [Keyword.takes, List.all_eq_true] at takes ⊢
      intro n member
      obtain ⟨a, listed, related⟩ := members.of_mem member
      exact related.isNameList (takes _ listed)
  | positions holds => rcases holds with rfl | rfl <;> rfl
  | schema holds => rcases holds with rfl | rfl | rfl <;> rfl
  | properties => rfl

theorem Respells.distinct (h : keyword.Respells S a b) (distinct : a.Distinct)
    (inside : a.Inside fun u => ∀ v, S u v → u.Distinct → v.Distinct) : b.Distinct := by
  cases h with
  | plain _ value => exact value.distinct distinct
  | type same =>
      rw [Json.distinct_entries_iff] at distinct ⊢
      exact fun entry member => distinct entry ((same entry).mpr member)
  | enum kept known =>
      refine .array fun b member => ?_
      obtain ⟨a, listed, related⟩ := known b member
      exact related.distinct (distinct.elements a listed)
  | required names => exact names.distinct distinct
  | dependentRequired members =>
      exact members.distinct distinct fun m listed b related =>
        related.distinct (distinct.member listed)
  | positions _ elements =>
      refine .array fun b member => ?_
      obtain ⟨a, listed, related⟩ := exists_of_forall₂ elements member
      exact inside.elements _ rfl a listed b related (distinct.elements a listed)
  | schema _ inner => exact inside.own b inner distinct
  | properties members =>
      exact members.distinct distinct fun m listed b related =>
        inside.members _ rfl m listed b related (distinct.member listed)

open Decode in
theorem Respells.readable (h : keyword.Respells S a b) (readable : Readable keyword a)
    (forms : ∀ u v, S u v → u.SameForm v)
    (inside : a.Inside fun u => ∀ v, S u v → IsSchema u → IsSchema v) : Readable keyword b := by
  by_cases plain : keyword ∉ Keyword.structural
  · rw [readable_iff_takes plain] at readable ⊢
    exact h.takes readable
  · cases h with
    | plain simple =>
        have listed : ∀ k ∈ Keyword.structural, k ∈ Keyword.type :: Keyword.compound := by decide
        exact absurd (listed _ (not_not.mp plain)) simple
    | type | enum | required | dependentRequired => exact absurd (by decide) plain
    | positions holds elements =>
        rw [readable_array_iff holds] at readable ⊢
        intro b member
        obtain ⟨a, listed, related⟩ := exists_of_forall₂ elements member
        exact inside.elements _ rfl a listed b related (readable a listed)
    | schema holds inner =>
        obtain ⟨left, right⟩ := (forms _ _ inner).noArray
        rw [readable_single_iff holds left] at readable
        rw [readable_single_iff holds right]
        exact inside.own b inner readable
    | properties members =>
        obtain ⟨_, ⟨⟩, each⟩ := readable_properties.mp readable
        refine readable_properties.mpr ⟨_, rfl, fun n member => ?_⟩
        obtain ⟨a, listed, related⟩ := members.of_mem member
        exact inside.members _ rfl _ listed _ related (each _ listed)

open Decode in
theorem Respells.refl (readable : Readable keyword a)
    (inside : a.Inside fun u => IsSchema u → S u u) : keyword.Respells S a a := by
  by_cases simple : keyword ∉ Keyword.type :: Keyword.compound
  · exact .plain simple (.refl a)
  rw [not_not, List.mem_cons] at simple
  rcases simple with rfl | held
  · exact .type fun _ => Iff.rfl
  simp only [Keyword.compound, List.mem_cons, List.not_mem_nil, or_false] at held
  rcases held with rfl | rfl | rfl | rfl | rfl | rfl | rfl | rfl
  · rw [readable_iff_takes (by decide)] at readable
    cases a with
    | array elements =>
        exact .enum (fun e member => ⟨e, member, .refl e⟩) (fun e member => ⟨e, member, .refl e⟩)
    | _ => cases readable
  · rcases readable_items.mp readable with ⟨elements, rfl, each⟩ | own
    · exact .positions (.inl rfl) (List.forall₂_same.mpr fun e member =>
        inside.elements _ rfl e member (each e member))
    · exact .schema (.inl rfl) (inside.own own)
  · obtain ⟨elements, rfl, each⟩ := readable_prefixItems.mp readable
    exact .positions (.inr rfl) (List.forall₂_same.mpr fun e member =>
      inside.elements _ rfl e member (each e member))
  · exact .schema (.inr (.inl rfl)) (inside.own (readable_contains.mp readable))
  · obtain ⟨members, rfl, each⟩ := readable_properties.mp readable
    exact .properties (.refl fun m member => inside.members _ rfl m member (each m member))
  · rw [readable_iff_takes (by decide)] at readable
    cases a with
    | array elements => exact .required (.intro fun _ => Iff.rfl)
    | _ => cases readable
  · exact .schema (.inr (.inr rfl)) (inside.own (readable_additionalProperties.mp readable))
  · rw [readable_iff_takes (by decide)] at readable
    cases a with
    | object members =>
        refine .dependentRequired (.refl fun m member => ?_)
        have names := List.all_eq_true.mp readable m member
        generalize m.2 = value at names ⊢
        cases value with
        | array elements => exact .intro fun _ => Iff.rfl
        | _ => cases names
    | _ => cases readable

end Respells

end Keyword

namespace Json

theorem Respelled.sameForm {a b : Json} (h : Respelled a b) : a.SameForm b := h.step.sameForm

theorem Respelled.distinct {a b : Json} (h : Respelled a b) (distinct : a.Distinct) :
    b.Distinct := by
  refine (rec_inside (P := fun a => ∀ b, Respelled a b → a.Distinct → b.Distinct)
    (fun a inside b h distinct => ?_) a).own b h distinct
  cases h.step with
  | flag => exact distinct
  | schema members =>
      exact members.distinct distinct fun m listed b respells =>
        respells.distinct (distinct.member listed) (inside _ rfl m listed)

theorem Respelled.isSchema {a b : Json} (h : Respelled a b) (schema : Decode.IsSchema a) :
    Decode.IsSchema b := by
  refine (rec_inside (P := fun a => ∀ b, Respelled a b → Decode.IsSchema a → Decode.IsSchema b)
    (fun a inside b h schema => ?_) a).own b h schema
  cases h.step with
  | flag => exact schema
  | schema members =>
      rcases Decode.isSchema_iff.mp schema with ⟨_, ⟨⟩⟩ | ⟨_, ⟨⟩, readable⟩
      refine Decode.isSchema_iff.mpr (.inr ⟨_, rfl, fun n member => ?_⟩)
      obtain ⟨a, listed, respells⟩ := members.of_mem member
      exact respells.readable (readable _ listed) (fun _ _ => Respelled.sameForm)
        (inside _ rfl _ listed)

theorem Respelled.refl {a : Json} (schema : Decode.IsSchema a) : Respelled a a := by
  refine (rec_inside (P := fun a => Decode.IsSchema a → Respelled a a)
    (fun a inside schema => .intro ?_) a).own schema
  rcases Decode.isSchema_iff.mp schema with ⟨allowed, rfl⟩ | ⟨members, rfl, readable⟩
  · exact .flag allowed
  · exact .schema (.refl fun m member => .refl (readable m member) (inside _ rfl m member))

end Json

end SchemaEvolution
