import Mathlib
import SchemaEvolution.Names

/-! # Ordered names

Every set and table is built by insertions, which keep the names strictly increasing. A set is
therefore determined by its members, and a table holds each name once.
-/

namespace SchemaEvolution

namespace NameSet

/-- The names strictly increase. -/
def Ordered (names : NameSet) : Prop := names.Pairwise (· < ·)

@[simp] theorem mem_insert {other name : String} {names : NameSet} :
    other ∈ insert name names ↔ other = name ∨ other ∈ names := by
  induction names with
  | nil => simp [insert]
  | cons first rest ih =>
      unfold insert
      split_ifs with below same
      · exact List.mem_cons
      · rw [same, List.mem_cons, ← or_assoc, or_self]
      · rw [List.mem_cons, ih, List.mem_cons, or_left_comm]

@[simp] theorem mem_ofList {name : String} {names : List String} :
    name ∈ ofList names ↔ name ∈ names := by
  induction names with
  | nil => simp [ofList]
  | cons first rest ih =>
      have unfolded : ofList (first :: rest) = insert first (ofList rest) := rfl
      rw [unfolded, mem_insert, ih, List.mem_cons]

theorem Ordered.insert {names : NameSet} (h : Ordered names) (name : String) :
    Ordered (insert name names) := by
  induction names with
  | nil => exact List.pairwise_singleton _ _
  | cons first rest ih =>
      obtain ⟨least, ordered⟩ := List.pairwise_cons.mp h
      simp only [NameSet.insert]
      split
      · rename_i below
        refine List.pairwise_cons.mpr ⟨fun other member => ?_, h⟩
        rcases List.mem_cons.mp member with rfl | member
        · exact below
        · exact below.trans (least other member)
      · split
        · exact h
        · rename_i notBelow different
          refine List.pairwise_cons.mpr ⟨fun other member => ?_, ih ordered⟩
          rcases mem_insert.mp member with rfl | member
          · exact lt_of_le_of_ne (le_of_not_gt notBelow) (Ne.symm different)
          · exact least other member

theorem ordered_ofList (names : List String) : Ordered (ofList names) := by
  induction names with
  | nil => exact List.Pairwise.nil
  | cons first rest ih => exact ih.insert first

theorem Ordered.ext {left right : NameSet} (hl : Ordered left) (hr : Ordered right)
    (same : ∀ name, name ∈ left ↔ name ∈ right) : left = right :=
  List.Pairwise.eq_of_mem_iff hl hr same

theorem Ordered.nodup {names : NameSet} (h : Ordered names) : names.Nodup :=
  h.imp fun below => below.ne

theorem ofList_append_comm (left right : List String) :
    ofList (left ++ right) = ofList (right ++ left) :=
  (ordered_ofList _).ext (ordered_ofList _) fun name => by simp [or_comm]

end NameSet

namespace NameTable

variable {α : Type}

theorem names_put (name : String) (value : α) (table : List (String × α)) :
    names (put name value table) = NameSet.insert name (names table) := by
  induction table with
  | nil => rfl
  | cons first rest ih =>
      simp only [put, names, List.map_cons, NameSet.insert]
      split
      · rfl
      · split
        · rename_i same
          simp [same]
        · simpa [names] using ih

/-- The names of the table strictly increase. -/
def Ordered (table : List (String × α)) : Prop := NameSet.Ordered (names table)

theorem Ordered.put {table : List (String × α)} (h : Ordered table) (name : String) (value : α) :
    Ordered (put name value table) := by
  simpa only [Ordered, names_put] using NameSet.Ordered.insert h name

theorem mem_put {entry : String × α} {name : String} {value : α} {table : List (String × α)}
    (h : entry ∈ put name value table) : entry = (name, value) ∨ entry ∈ table := by
  induction table with
  | nil => exact .inl (List.mem_singleton.mp h)
  | cons first rest ih =>
      simp only [put] at h
      split_ifs at h
      · exact List.mem_cons.mp h
      · exact (List.mem_cons.mp h).imp_right (List.mem_cons_of_mem first)
      · rcases List.mem_cons.mp h with rfl | h
        · exact .inr List.mem_cons_self
        · exact (ih h).imp_right (List.mem_cons_of_mem first)

theorem get?_eq_none_iff {name : String} {table : List (String × α)} :
    get? name table = none ↔ name ∉ names table := by
  induction table with
  | nil => simp [get?, names]
  | cons first rest ih =>
      simp only [get?, names, List.map_cons, List.mem_cons, not_or]
      split
      · simp [*]
      · rename_i different
        simpa [different, names] using ih

theorem mem_of_get? {name : String} {value : α} {table : List (String × α)}
    (h : get? name table = some value) : (name, value) ∈ table := by
  induction table with
  | nil => simp [get?] at h
  | cons first rest ih =>
      simp only [get?] at h
      split at h
      · rename_i same
        cases h
        exact List.mem_cons.mpr (.inl (Prod.ext same rfl))
      · exact List.mem_cons_of_mem first (ih h)

theorem get?_eq_some_iff {name : String} {value : α} {table : List (String × α)}
    (distinct : (names table).Nodup) :
    get? name table = some value ↔ (name, value) ∈ table := by
  refine ⟨mem_of_get?, fun member => ?_⟩
  induction table with
  | nil => simp at member
  | cons first rest ih =>
      obtain ⟨absent, distinct⟩ := List.nodup_cons.mp distinct
      rcases List.mem_cons.mp member with rfl | member
      · simp [get?]
      · have different : name ≠ first.1 := by
          rintro rfl
          exact absent (List.mem_map.mpr ⟨_, member, rfl⟩)
        simpa [get?, different] using ih distinct member

theorem has_iff {name : String} {table : List (String × α)} :
    has name table = true ↔ name ∈ names table := by
  rw [has, Option.isSome_iff_ne_none, Ne, get?_eq_none_iff, not_not]

end NameTable

end SchemaEvolution
