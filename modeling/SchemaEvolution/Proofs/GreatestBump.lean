import Mathlib
import SchemaEvolution.Proofs.Releases

/-! # The greatest of several bumps

A severity raises one component of a version and clears those right of it. The greater the severity
the further left the component, so no severity among several takes a version further than the
greatest of them does, and a component that is full stands in the way of its own severity only.
-/

namespace SchemaEvolution

namespace Component

/-- The place of a component in a version, counted from the left. -/
def place : Component → Nat
  | .model => 0
  | .revision => 1
  | .addition => 2

theorem eq_of_place {a b : Component} (same : a.place = b.place) : a = b := by
  cases a <;> cases b <;> first | rfl | cases same

end Component

namespace Severity

variable {severities others : List Severity}

theorem reduce_mono (subset : ∀ s ∈ others, s ∈ severities) :
    reduce others ≤ reduce severities := by
  by_cases empty : others = []
  · rw [empty]
    exact Nat.zero_le _
  · exact le_reduce (subset _ (reduce_mem empty))

theorem reduce_congr (same : ∀ s, s ∈ others ↔ s ∈ severities) :
    reduce others = reduce severities := by
  apply le_antisymm
  · exact reduce_mono fun s => (same s).mp
  · exact reduce_mono fun s => (same s).mpr

theorem exists_component {severity : Severity} (proper : severity ≠ .none) :
    ∃ raised, severity.component? = some raised := by
  cases severity with
  | none => exact absurd rfl proper
  | addition => exact ⟨.addition, rfl⟩
  | revision => exact ⟨.revision, rfl⟩
  | model => exact ⟨.model, rfl⟩

theorem place_of_component? {severity : Severity} {raised : Component}
    (raises : severity.component? = some raised) : raised.place + severity.rank = 3 := by
  cases severity <;> cases raises <;> rfl

end Severity

namespace Version

variable {current next other : Version} {raised : Component}

theorem eq_of_components {a b : Version} (same : ∀ c, a.component c = b.component c) : a = b := by
  obtain ⟨model, revision, addition⟩ := a
  have sameModel : model = b.model := same .model
  have sameRevision : revision = b.revision := same .revision
  have sameAddition : addition = b.addition := same .addition
  rw [sameModel, sameRevision, sameAddition]

theorem lt_iff {a b : Version} :
    a < b ↔ ∃ c, a.component c < b.component c ∧
      ∀ left : Component, left.place < c.place → a.component left = b.component left := by
  constructor
  · intro h
    rcases h with model | ⟨model, revision | ⟨revision, addition⟩⟩
    · refine ⟨.model, model, ?_⟩
      intro left before
      cases before
    · refine ⟨.revision, revision, ?_⟩
      intro left before
      cases left with
      | model => exact model
      | revision | addition => simp [Component.place] at before
    · refine ⟨.addition, addition, ?_⟩
      intro left before
      cases left with
      | model => exact model
      | revision => exact revision
      | addition => simp [Component.place] at before
  · rintro ⟨c, less, same⟩
    cases c with
    | model => exact .inl less
    | revision => exact .inr ⟨same .model (by decide), .inl less⟩
    | addition =>
        exact .inr ⟨same .model (by decide), .inr ⟨same .revision (by decide), less⟩⟩

/-- One version follows another with one component raised: those left of it are kept, and those
right of it start again at zero. -/
structure Raises (current next : Version) (raised : Component) : Prop where
  left : ∀ c : Component, c.place < raised.place → next.component c = current.component c
  here : (next.component raised).toNat = (current.component raised).toNat + 1
  right : ∀ c : Component, raised.place < c.place → next.component c = 0

theorem Raises.of_next? {n : UInt64} (found : next? (current.component raised) = some n)
    (components : ∀ c, next.component c =
      if c.place < raised.place then current.component c else if c = raised then n else 0) :
    Raises current next raised where
  left := by
    intro c before
    rw [components, if_pos before]
  here := by
    rw [components, if_neg (Nat.lt_irrefl _), if_pos rfl]
    exact toNat_of_next? found
  right := by
    intro c behind
    have other : c ≠ raised := by
      rintro rfl
      exact Nat.lt_irrefl _ behind
    rw [components, if_neg (Nat.lt_asymm behind), if_neg other]

/-- What a severity does to a version that has room for it. -/
theorem raises_of_bump {severity : Severity} (raises : severity.component? = some raised)
    (h : current.bump severity = .ok next) : Raises current next raised := by
  cases severity with
  | none => cases raises
  | addition | revision | model =>
      cases raises
      simp only [bump] at h
      split at h
      · rename_i found
        cases h
        refine Raises.of_next? found ?_
        intro c
        cases c <;> rfl
      · cases h

namespace Raises

theorem unique (first : Raises current next raised) (second : Raises current other raised) :
    other = next := by
  apply eq_of_components
  intro c
  rcases Nat.lt_trichotomy c.place raised.place with before | same | behind
  · rw [first.left c before, second.left c before]
  · rw [Component.eq_of_place same, ← UInt64.toNat_inj, first.here, second.here]
  · rw [first.right c behind, second.right c behind]

theorem lt_of_place {further : Component} (left : Raises current next further)
    (right : Raises current other raised) (before : further.place < raised.place) :
    other < next := by
  rw [lt_iff]
  refine ⟨further, ?_, ?_⟩
  · have kept := right.left further before
    have raised := left.here
    rw [UInt64.lt_iff_toNat_lt, kept]
    omega
  · intro c beyond
    rw [left.left c beyond, right.left c (beyond.trans before)]

end Raises

/-- The greatest of several severities takes a version as far as any of them does. -/
theorem le_of_bump {severity greatest : Severity} (le : severity ≤ greatest)
    (h : current.bump greatest = .ok next) (lesser : current.bump severity = .ok other) :
    other < next ∨ other = next := by
  have proper {s : Severity} {w : Version} (ok : current.bump s = .ok w) : s ≠ .none := by
    rintro rfl
    cases ok
  obtain ⟨further, raises⟩ := Severity.exists_component (proper h)
  obtain ⟨raised, raises'⟩ := Severity.exists_component (proper lesser)
  have high := raises_of_bump raises h
  have low := raises_of_bump raises' lesser
  have places : severity.rank ≤ greatest.rank := le
  have placed := Severity.place_of_component? raises
  have placed' := Severity.place_of_component? raises'
  rcases Nat.lt_or_eq_of_le (show further.place ≤ raised.place by omega) with before | same
  · exact .inl (high.lt_of_place low before)
  · rw [Component.eq_of_place same] at high
    exact .inr (high.unique low)

/-- Several severities at once take a version to where the greatest of them does. That fails exactly
if the component that the greatest raises is full; otherwise the version comes to be greater, with
the components left of that one kept and those right of it zero, and none of the severities alone
leads beyond it. Any list of the same severities gives the same. -/
theorem bump_reduce {severities : List Severity} (nonempty : severities ≠ [])
    (proper : ∀ s ∈ severities, s ≠ .none) (current : Version) :
    ∃ greatest raised, IsGreatest {s | s ∈ severities} greatest ∧
      greatest.component? = some raised ∧
      (∀ error, current.bump (.reduce severities) = .error error ↔
        current.component raised = maxComponent ∧ error = .overflow current raised) ∧
      (∀ next, current.bump (.reduce severities) = .ok next →
        current < next ∧ Raises current next raised ∧
        ∀ s ∈ severities, ∀ other, current.bump s = .ok other → other < next ∨ other = next) ∧
      ∀ others, (∀ s, s ∈ others ↔ s ∈ severities) →
        current.bump (.reduce others) = current.bump (.reduce severities) := by
  have member := Severity.reduce_mem nonempty
  obtain ⟨raised, raises⟩ := Severity.exists_component (proper _ member)
  refine ⟨.reduce severities, raised, (Severity.isGreatest_iff nonempty).mpr rfl, raises, ?_, ?_, ?_⟩
  · intro error
    rw [bump_eq_error_iff]
    constructor
    · rintro (⟨none, -⟩ | ⟨component, raises', full, rfl⟩)
      · exact absurd none (proper _ member)
      · cases raises.symm.trans raises'
        exact ⟨full, rfl⟩
    · rintro ⟨full, rfl⟩
      exact .inr ⟨raised, raises, full, rfl⟩
  · intro next bumped
    refine ⟨lt_of_bump bumped, raises_of_bump raises bumped, ?_⟩
    intro s listed other lesser
    exact le_of_bump (Severity.le_reduce listed) bumped lesser
  · intro others same
    rw [Severity.reduce_congr same]

/-- No further addition is possible, which does not keep a revision that comes with two of them from
raising the version. -/
theorem bump_reduce_full :
    let current : Version := { model := 3, revision := 7, addition := 18446744073709551615 }
    let severities : List Severity := [.addition, .revision, .addition]
    severities ≠ [] ∧ (∀ s ∈ severities, s ≠ .none) ∧
      current.bump .addition = .error (.overflow current .addition) ∧
      current.bump (.reduce severities) = .ok { model := 3, revision := 8, addition := 0 } ∧
      current.bump (.reduce [.revision, .addition]) =
        .ok { model := 3, revision := 8, addition := 0 } ∧
      current < { model := 3, revision := 8, addition := 0 } := by
  intro current severities
  have nonempty : severities ≠ [] := by decide
  have proper : ∀ s ∈ severities, s ≠ .none := by decide
  have bumped : current.bump (.reduce severities) = .ok ⟨3, 8, 0⟩ := by decide
  obtain ⟨greatest, raised, -, -, -, reached, alike⟩ := bump_reduce nonempty proper current
  refine ⟨nonempty, proper, by decide, bumped, ?_, (reached _ bumped).1⟩
  rw [alike [.revision, .addition] (by simp [severities, or_comm]), bumped]

end Version

end SchemaEvolution
