import Mathlib
import SchemaEvolution.Proofs.Twins

/-! # Copies of a schema

A schema is a copy of another one if every keyword has the very same value in both, but for what the
places that hold schemas repeat. A walk over copies finds the same as the walk over the originals,
change by change; every schema is a copy of itself.
-/

namespace SchemaEvolution

/-- Every keyword has the same value in the two schemas, where schemas further down are in the
relation. -/
structure Node.Same (R : Node → Node → Prop) (a b : Node) : Prop
    extends a.ElementsLike R b, a.MembersLike R b where
  types : a.types = b.types
  enumeration : a.enumeration = b.enumeration
  values : ∀ keyword, a.valueOf keyword = b.valueOf keyword
  table : a.dependentRequired = b.dependentRequired

theorem Node.Same.twin {R : Node → Node → Prop} {a b : Node} (h : a.Same R b)
    (accepted : a.Accepted) : a.Twin R b where
  toElementsLike := h.toElementsLike
  toMembersLike := h.toMembersLike
  types := h.types
  enumeration := by
    rw [← h.enumeration]
    exact optionRel_refl fun options found => .refl (accepted.regular.enumeration options found)
  values keyword := by
    rw [← h.values]
    exact Facets.agree_refl fun _ => accepted.regular.valueOf

theorem Node.Same.refl {R : Node → Node → Prop} {a : Node}
    (inner : ∀ child, child.Below a → R child child) : a.Same R a where
  toElementsLike := .refl inner
  toMembersLike := .refl inner
  types := rfl
  enumeration := rfl
  values _ := rfl
  table := rfl

/-- The relation holds between accepted schemas that say the same, and places that hold schemas in
it are repeated with related values. -/
structure Node.Copies (V : Keyword → Json → Json → Prop) (R : Node → Node → Prop) : Prop where
  left : ∀ {a b}, R a b → a.Accepted
  right : ∀ {a b}, R a b → b.Accepted
  same : ∀ {a b}, R a b → a.Same R b
  echoed : Node.Echoed V R

namespace Diff

section Same

variable {R S : Node → Node → Prop} {x x' y y' : Node} (old : x.Same R x') (new : y.Same S y')

include old new

theorem scalars_same {path : Path} (keywords : List Keyword) :
    scalars path x.toFacets y.toFacets keywords =
      scalars path x'.toFacets y'.toFacets keywords := by
  have each : scalar path x.toFacets y.toFacets = scalar path x'.toFacets y'.toFacets := by
    funext keyword
    rw [scalar, scalar, old.values, new.values]
  rw [scalars, scalars, each]

theorem extensions_same {path : Path} :
    extensions path x.toFacets y.toFacets = extensions path x'.toFacets y'.toFacets := by
  have listed {R : Node → Node → Prop} {a b : Node} (same : a.Same R b) (name : String) :
      name ∈ NameTable.names a.extensions ↔ name ∈ NameTable.names b.extensions := by
    have both : NameTable.get? name a.extensions = NameTable.get? name b.extensions :=
      same.values (.other name)
    rw [← NameTable.has_iff, ← NameTable.has_iff, NameTable.has, NameTable.has, both]
  have names : NameSet.ofList (NameTable.names x.extensions ++ NameTable.names y.extensions) =
      NameSet.ofList (NameTable.names x'.extensions ++ NameTable.names y'.extensions) := by
    refine (NameSet.ordered_ofList _).ext (NameSet.ordered_ofList _) fun name => ?_
    simp only [NameSet.mem_ofList, List.mem_append, listed old, listed new]
  rw [extensions, extensions, names]
  exact scalars_same old new _

theorem shared_same {path : Path} :
    shared path x.toFacets y.toFacets = shared path x'.toFacets y'.toFacets := by
  simp only [shared, scalars_same old new, extensions_same old new, scalar, old.values, new.values,
    old.enumeration, new.enumeration]

theorem typeChanged_same : typeChanged x.toFacets y.toFacets = typeChanged x'.toFacets y'.toFacets := by
  rw [typeChanged, typeChanged, old.types, new.types]

theorem applies_same (kind : Family) :
    applies x.toFacets y.toFacets kind = applies x'.toFacets y'.toFacets kind := by
  simp only [applies, Facets.constrains, old.types, new.types]

theorem family_same {path : Path} (kind : Family) (keywords : List Keyword) :
    family path x.toFacets y.toFacets kind keywords =
      family path x'.toFacets y'.toFacets kind keywords := by
  rw [family, family, applies_same old new, scalars_same old new]

end Same

section Copies

variable {V : Keyword → Json → Json → Prop} {R S : Node → Node → Prop}

theorem paired_ite {condition : Bool} {left right : List Finding}
    (h : condition = true → Paired V R S left right) :
    Paired V R S (if condition then left else []) (if condition then right else []) := by
  cases condition with
  | false => exact .nil
  | true => exact h rfl

variable (told_refl : ∀ keyword value, V keyword value value)

include told_refl

theorem paired_told_self (changes : List Change) : Paired V R S (told changes) (told changes) :=
  paired_told (List.forall₂_same.mpr fun change _ => .refl told_refl change)

variable (before : Node.Copies V R) (after : Node.Copies V S) {x x' y y' : Node}

include before after

theorem paired_findings (left : R x x') (right : S y y') :
    Paired V R S (findings x y) (findings x' y') := by
  have old := before.same left
  have new := after.same right
  have told := paired_told_self (R := R) (S := S) told_refl
  unfold findings familyFindings
  rw [← shared_same old new, ← typeChanged_same old new]
  simp only [← family_same old new, ← applies_same old new]
  refine List.rel_append (told _) ?_
  split
  · exact .nil
  refine List.rel_append (List.rel_append (List.rel_append (told _) ?elements) (told _)) ?members
  case elements =>
    refine paired_ite fun _ => ?_
    exact paired_elements before.echoed after.echoed old.toElementsLike new.toElementsLike
  case members =>
    refine paired_ite fun _ => List.rel_append ?_ ?_
    · exact paired_members before.echoed after.echoed old.toMembersLike new.toMembersLike
        (before.left left) (before.right left) (after.left right) (after.right right) told_refl
    · rw [old.table, new.table]
      exact told _

end Copies

end Diff

namespace Node

variable {V : Keyword → Json → Json → Prop}

theorem Copies.twins {R : Node → Node → Prop} (copies : Copies V R) : Twins R where
  left := copies.left
  right := copies.right
  twin h := (copies.same h).twin (copies.left h)

theorem copies_self (told_refl : ∀ keyword value, V keyword value value) :
    Copies V fun a b => a.Accepted ∧ a = b where
  left h := h.1
  right h := h.2 ▸ h.1
  same h := by
    obtain ⟨accepted, rfl⟩ := h
    exact .refl fun child below => ⟨accepted.below below, rfl⟩
  echoed := by
    have same {a b : SubSchema} (like : SubSchema.Like (fun a b => a.Accepted ∧ a = b) a b) :
        a = b := by
      cases like with
      | flag => rfl
      | schema inner => rw [inner.2]
    exact
      { schema := fun _ like => same like ▸ told_refl _ _
        tuple := fun {_ as bs} _ like => by
          have equal : as = bs := List.forall₂_eq_eq_eq ▸ like.imp fun _ _ => same
          exact equal ▸ told_refl _ _
        position := fun _ _ like => same like ▸ told_refl _ _ }

end Node

end SchemaEvolution
