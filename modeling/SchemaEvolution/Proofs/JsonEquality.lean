import Mathlib
import SchemaEvolution.Json.Basic
import SchemaEvolution.Proofs.Names

/-! # Equality of JSON values

`Json.same` compares the members of two objects by name, whatever their order, and
`Json.equivalent` compares two numbers by value. Both are transitive. They are reflexive and
symmetric on the values in which no object repeats a name, which are the ones that texts denote.
-/

namespace SchemaEvolution

section Forall₂

variable {α β γ : Type} {as : List α} {bs : List β} {cs : List γ}

theorem forall₂_of_mem {R S : α → β → Prop} (h : List.Forall₂ R as bs)
    (step : ∀ a ∈ as, ∀ b ∈ bs, R a b → S a b) : List.Forall₂ S as bs := by
  induction h with
  | nil => exact .nil
  | cons head _ ih =>
      refine .cons (step _ List.mem_cons_self _ List.mem_cons_self head) (ih fun a ha b hb => ?_)
      exact step a (List.mem_cons_of_mem _ ha) b (List.mem_cons_of_mem _ hb)

theorem exists_of_forall₂ {R : α → β → Prop} (h : List.Forall₂ R as bs) {b : β} (member : b ∈ bs) :
    ∃ a ∈ as, R a b := by
  induction h with
  | nil => cases member
  | cons head _ ih =>
      rcases List.mem_cons.mp member with rfl | member
      · exact ⟨_, List.mem_cons_self, head⟩
      · obtain ⟨a, listed, related⟩ := ih member
        exact ⟨a, List.mem_cons_of_mem _ listed, related⟩

theorem forall₂_comp_of_mem {R : α → β → Prop} {S : β → γ → Prop} {T : α → γ → Prop}
    (hab : List.Forall₂ R as bs) (hbc : List.Forall₂ S bs cs)
    (step : ∀ a ∈ as, ∀ b c, R a b → S b c → T a c) : List.Forall₂ T as cs := by
  induction hab generalizing cs with
  | nil => cases hbc; exact .nil
  | cons head _ ih =>
      cases hbc with
      | cons next rest =>
          refine .cons (step _ List.mem_cons_self _ _ head next) (ih rest fun a member => ?_)
          exact step a (List.mem_cons_of_mem _ member)

end Forall₂

namespace Json

/-- Induction over values, with a hypothesis for every element and every member. -/
theorem rec_strong {motive : Json → Prop}
    (null : motive .null) (bool : ∀ b, motive (.bool b)) (number : ∀ n, motive (.number n))
    (string : ∀ s, motive (.string s))
    (array : ∀ elements, (∀ e ∈ elements, motive e) → motive (.array elements))
    (object : ∀ members, (∀ m ∈ members, motive m.2) → motive (.object members)) :
    ∀ value, motive value
  | .null => null
  | .bool b => bool b
  | .number n => number n
  | .string s => string s
  | .array elements => array elements fun e _ =>
      rec_strong null bool number string array object e
  | .object members => object members fun m _ =>
      rec_strong null bool number string array object m.2
termination_by value => sizeOf value
decreasing_by
  · have smaller := List.sizeOf_lt_of_mem ‹e ∈ elements›
    simp only [Json.array.sizeOf_spec]
    omega
  · have smaller := List.sizeOf_lt_of_mem ‹m ∈ members›
    obtain ⟨name, value⟩ := m
    simp only [Json.object.sizeOf_spec, Prod.mk.sizeOf_spec] at smaller ⊢
    omega

/-- Something holds of a value and of the values right inside it. -/
structure Inside (P : Json → Prop) (value : Json) : Prop where
  own : P value
  elements : ∀ elements, value = .array elements → ∀ e ∈ elements, P e
  members : ∀ members, value = .object members → ∀ m ∈ members, P m.2

/-- Induction over values, where the hypothesis reaches two levels into an object. -/
theorem rec_inside {P : Json → Prop}
    (step : ∀ value, (∀ members, value = .object members → ∀ m ∈ members, Inside P m.2) → P value)
    (value : Json) : Inside P value := by
  induction value using rec_strong with
  | null | bool | number | string =>
      refine ⟨step _ ?_, ?_, ?_⟩ <;>
        · intro _ same
          cases same
  | array elements ih =>
      refine ⟨step _ ?_, ?_, ?_⟩
      · intro _ same
        cases same
      · rintro _ ⟨rfl⟩ e member
        exact (ih e member).own
      · intro _ same
        cases same
  | object members ih =>
      refine ⟨step _ ?_, ?_, ?_⟩
      · rintro _ ⟨rfl⟩
        exact ih
      · intro _ same
        cases same
      · rintro _ ⟨rfl⟩ m member
        exact (ih m member).own

/-- No object inside the value repeats a name. -/
inductive Distinct : Json → Prop where
  | null : Distinct .null
  | bool (b : Bool) : Distinct (.bool b)
  | number (n : Number) : Distinct (.number n)
  | string (s : String) : Distinct (.string s)
  | array {elements : List Json} (inner : ∀ e ∈ elements, Distinct e) : Distinct (.array elements)
  | object {members : List (String × Json)} (names : (NameTable.names members).Nodup)
      (inner : ∀ m ∈ members, Distinct m.2) : Distinct (.object members)

theorem Distinct.elements {elements : List Json} (h : (Json.array elements).Distinct) :
    ∀ e ∈ elements, e.Distinct := by
  cases h with
  | array inner => exact inner

theorem Distinct.names {members : List (String × Json)} (h : (Json.object members).Distinct) :
    (NameTable.names members).Nodup := by
  cases h with
  | object names _ => exact names

theorem Distinct.member {members : List (String × Json)} (h : (Json.object members).Distinct)
    {m : String × Json} (member : m ∈ members) : m.2.Distinct := by
  cases h with
  | object _ inner => exact inner m member

mutual

def isDistinct : Json → Bool
  | .array elements => areDistinct elements
  | .object members => decide (NameTable.names members).Nodup && haveDistinct members
  | _ => true

def areDistinct : List Json → Bool
  | [] => true
  | value :: rest => isDistinct value && areDistinct rest

def haveDistinct : List (String × Json) → Bool
  | [] => true
  | (_, value) :: rest => isDistinct value && haveDistinct rest

end

theorem areDistinct_iff {values : List Json} :
    areDistinct values = true ↔ ∀ value ∈ values, value.isDistinct = true := by
  induction values with
  | nil => simp [areDistinct]
  | cons value rest ih => simp [areDistinct, ih]

theorem haveDistinct_iff {members : List (String × Json)} :
    haveDistinct members = true ↔ ∀ m ∈ members, m.2.isDistinct = true := by
  induction members with
  | nil => simp [haveDistinct]
  | cons member rest ih => simp [haveDistinct, ih]

theorem isDistinct_iff {value : Json} : value.isDistinct = true ↔ value.Distinct := by
  induction value using rec_strong with
  | null | bool | number | string => simp [isDistinct, Distinct.null, Distinct.bool,
      Distinct.number, Distinct.string]
  | array elements ih =>
      rw [isDistinct, areDistinct_iff]
      exact ⟨fun h => .array fun e member => (ih e member).mp (h e member),
        fun h e member => (ih e member).mpr (h.elements e member)⟩
  | object members ih =>
      rw [isDistinct, Bool.and_eq_true, decide_eq_true_eq, haveDistinct_iff]
      exact ⟨fun h => .object h.1 fun m member => (ih m member).mp (h.2 m member),
        fun h => ⟨h.names, fun m member => (ih m member).mpr (h.member member)⟩⟩

instance (value : Json) : Decidable value.Distinct := decidable_of_iff _ isDistinct_iff

-- Values of two constructors are settled by these equations alone.
attribute [grind =] same sameElements sameMembers

theorem sameElements_iff {as bs : List Json} :
    sameElements as bs = true ↔ List.Forall₂ (fun a b => same a b = true) as bs := by
  induction as generalizing bs with
  | nil => cases bs <;> simp [sameElements]
  | cons a as ih => cases bs <;> simp [sameElements, ih]

/-- Each of the members has an equal one of its name among the others. -/
def Covered (as bs : List (String × Json)) : Prop :=
  ∀ m ∈ as, ∃ b, NameTable.get? m.1 bs = some b ∧ same m.2 b = true

theorem sameMembers_iff {as bs : List (String × Json)} :
    sameMembers as bs = true ↔ Covered as bs := by
  unfold Covered
  induction as with
  | nil => simp [sameMembers]
  | cons a as ih =>
      simp only [sameMembers, Bool.and_eq_true, ih, List.forall_mem_cons]
      cases NameTable.get? a.1 bs <;> simp

theorem same_array_iff {as : List Json} {b : Json} :
    same (.array as) b = true ↔
      ∃ bs, b = .array bs ∧ List.Forall₂ (fun a b => same a b = true) as bs := by
  cases b <;> simp [same, sameElements_iff]

theorem same_object_iff {as : List (String × Json)} {b : Json} :
    same (.object as) b = true ↔
      ∃ bs, b = .object bs ∧ as.length = bs.length ∧ Covered as bs := by
  cases b <;> simp [same, sameMembers_iff]

theorem same_number_iff {m : Number} {b : Json} :
    same (.number m) b = true ↔ ∃ n, b = .number n ∧ m.same n = true := by
  cases b <;> simp [same]

theorem Number.same_trans {a b c : Number} (hab : a.same b = true) (hbc : b.same c = true) :
    a.same c = true := by
  cases a <;> cases b <;> cases c <;> simp_all [Number.same]

theorem Number.same_comm (a b : Number) : a.same b = b.same a := by
  cases a <;> cases b <;> simp [Number.same, Bool.beq_comm]

theorem same_trans {a b c : Json} (hab : a.same b = true) (hbc : b.same c = true) :
    a.same c = true := by
  induction a using rec_strong generalizing b c with
  | null | bool | string => cases b <;> cases c <;> grind
  | number m =>
      obtain ⟨n, rfl, hmn⟩ := same_number_iff.mp hab
      obtain ⟨k, rfl, hnk⟩ := same_number_iff.mp hbc
      exact same_number_iff.mpr ⟨k, rfl, Number.same_trans hmn hnk⟩
  | array as ih =>
      obtain ⟨bs, rfl, first⟩ := same_array_iff.mp hab
      obtain ⟨cs, rfl, second⟩ := same_array_iff.mp hbc
      exact same_array_iff.mpr ⟨cs, rfl, forall₂_comp_of_mem first second
        fun a member _ _ hab hbc => ih a member hab hbc⟩
  | object as ih =>
      obtain ⟨bs, rfl, length, first⟩ := same_object_iff.mp hab
      obtain ⟨cs, rfl, length', second⟩ := same_object_iff.mp hbc
      refine same_object_iff.mpr ⟨cs, rfl, length.trans length', fun m member => ?_⟩
      obtain ⟨b, found, hmb⟩ := first m member
      obtain ⟨c, found', hbc⟩ := second (m.1, b) (NameTable.mem_of_get? found)
      exact ⟨c, found', ih m member hmb hbc⟩

theorem same_refl {a : Json} (distinct : a.Distinct) : a.same a = true := by
  induction a using rec_strong with
  | null | bool | string => simp [same]
  | number n => cases n <;> simp [same, Number.same]
  | array as ih =>
      cases distinct with
      | array inner =>
          refine same_array_iff.mpr ⟨as, rfl, List.forall₂_same.mpr fun a member => ?_⟩
          exact ih a member (inner a member)
  | object as ih =>
      cases distinct with
      | object names inner =>
          refine same_object_iff.mpr ⟨as, rfl, rfl, fun m member => ⟨m.2, ?_, ?_⟩⟩
          · exact (NameTable.get?_eq_some_iff names).mpr member
          · exact ih m member (inner m member)

theorem Covered.symm {as bs : List (String × Json)} (h : Covered as bs)
    (length : as.length = bs.length) (ha : (NameTable.names as).Nodup)
    (hb : (NameTable.names bs).Nodup)
    (swap : ∀ m ∈ as, ∀ b, (m.1, b) ∈ bs → same m.2 b = true → same b m.2 = true) :
    Covered bs as := by
  have names : NameTable.names as ⊆ NameTable.names bs := by
    intro name listed
    obtain ⟨m, member, rfl⟩ := List.mem_map.mp listed
    obtain ⟨b, found, _⟩ := h m member
    exact List.mem_map.mpr ⟨_, NameTable.mem_of_get? found, rfl⟩
  have perm : (NameTable.names as).Perm (NameTable.names bs) :=
    (ha.subperm names).perm_of_length_le (by simp [NameTable.names, length])
  intro m member
  obtain ⟨a, found⟩ : ∃ a, NameTable.get? m.1 as = some a := by
    apply Option.isSome_iff_exists.mp
    exact NameTable.has_iff.mpr (perm.mem_iff.mpr (List.mem_map_of_mem member))
  obtain ⟨b, other, hab⟩ := h _ (NameTable.mem_of_get? found)
  have unique : b = m.2 :=
    Option.some_inj.mp (other.symm.trans ((NameTable.get?_eq_some_iff hb).mpr member))
  subst unique
  exact ⟨a, found, swap _ (NameTable.mem_of_get? found) _ member hab⟩

theorem same_symm {a b : Json} (ha : a.Distinct) (hb : b.Distinct) (h : a.same b = true) :
    b.same a = true := by
  induction a using rec_strong generalizing b with
  | null | bool | string => cases b <;> grind
  | number m =>
      obtain ⟨n, rfl, hmn⟩ := same_number_iff.mp h
      exact same_number_iff.mpr ⟨m, rfl, (Number.same_comm n m).trans hmn⟩
  | array as ih =>
      obtain ⟨bs, rfl, each⟩ := same_array_iff.mp h
      cases ha with
      | array innerA =>
          cases hb with
          | array innerB =>
              refine same_array_iff.mpr ⟨as, rfl, (forall₂_of_mem each fun a ma b mb hab => ?_).flip⟩
              exact ih a ma (innerA a ma) (innerB b mb) hab
  | object as ih =>
      obtain ⟨bs, rfl, length, each⟩ := same_object_iff.mp h
      cases ha with
      | object namesA innerA =>
          cases hb with
          | object namesB innerB =>
              refine same_object_iff.mpr ⟨as, rfl, length.symm, ?_⟩
              refine each.symm length namesA namesB fun m member b found hmb => ?_
              exact ih m member (innerA m member) (innerB _ found) hmb

theorem equivalent_number_iff {m : Number} {b : Json} :
    equivalent (.number m) b = true ↔ ∃ n, b = .number n ∧ m.signedUnits = n.signedUnits := by
  cases b <;> simp [equivalent, same]

/-- Values of which the first is no number are equivalent as they are equal. -/
theorem equivalent_eq_same {a b : Json} (h : a.number? = none) : a.equivalent b = a.same b := by
  cases a <;> first | rfl | simp [number?] at h

theorem number?_of_same {a b : Json} (h : a.same b = true) (noNumber : a.number? = none) :
    b.number? = none := by
  cases a <;> cases b <;> grind [number?]

theorem equivalent_refl {a : Json} (distinct : a.Distinct) : a.equivalent a = true := by
  cases kind : a.number? with
  | none => exact (equivalent_eq_same kind).trans (same_refl distinct)
  | some m =>
      cases a <;> cases kind
      exact equivalent_number_iff.mpr ⟨m, rfl, rfl⟩

theorem equivalent_symm {a b : Json} (ha : a.Distinct) (hb : b.Distinct)
    (h : a.equivalent b = true) : b.equivalent a = true := by
  cases kind : a.number? with
  | none =>
      rw [equivalent_eq_same kind] at h
      rw [equivalent_eq_same (number?_of_same h kind)]
      exact same_symm ha hb h
  | some m =>
      cases a <;> cases kind
      obtain ⟨n, rfl, units⟩ := equivalent_number_iff.mp h
      exact equivalent_number_iff.mpr ⟨m, rfl, units.symm⟩

theorem equivalent_trans {a b c : Json} (hab : a.equivalent b = true)
    (hbc : b.equivalent c = true) : a.equivalent c = true := by
  cases kind : a.number? with
  | none =>
      rw [equivalent_eq_same kind] at hab ⊢
      rw [equivalent_eq_same (number?_of_same hab kind)] at hbc
      exact same_trans hab hbc
  | some m =>
      cases a <;> cases kind
      obtain ⟨n, rfl, first⟩ := equivalent_number_iff.mp hab
      obtain ⟨k, rfl, second⟩ := equivalent_number_iff.mp hbc
      exact equivalent_number_iff.mpr ⟨k, rfl, first.trans second⟩

theorem equivalent_comm {a b : Json} (ha : a.Distinct) (hb : b.Distinct) :
    a.equivalent b = b.equivalent a :=
  Bool.eq_iff_iff.mpr ⟨equivalent_symm ha hb, equivalent_symm hb ha⟩

end Json

end SchemaEvolution
