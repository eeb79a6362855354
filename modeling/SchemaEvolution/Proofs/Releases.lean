import Mathlib
import SchemaEvolution.Proofs.Classification

/-! # The outcome of a release

What two documents and a version are compared to: the greatest severity among the changes decides the
next version, and nothing but an overflow of one component can come after the classification. No row
of the tables makes a change no change, so a release without severity is one without changes.
-/

namespace SchemaEvolution

namespace Severity

/-- The component of a version that changes of the severity raise. -/
def component? : Severity → Option Component
  | .none => Option.none
  | .addition => some .addition
  | .revision => some .revision
  | .model => some .model

theorem le_antisymm {a b : Severity} (hab : a ≤ b) (hba : b ≤ a) : a = b := by
  have same : a.rank = b.rank := Nat.le_antisymm hab hba
  cases a <;> cases b <;> first | rfl | cases same

theorem max_eq_or (a b : Severity) : max a b = a ∨ max a b = b := by
  unfold max
  split <;> simp

theorem reduce_mem {severities : List Severity} (some : severities ≠ []) :
    reduce severities ∈ severities := by
  induction severities with
  | nil => exact absurd rfl some
  | cons first rest ih =>
      cases rest with
      | nil => cases first <;> decide
      | cons second others =>
          have further := ih (List.cons_ne_nil second others)
          change max first (reduce (second :: others)) ∈ _
          rcases max_eq_or first (reduce (second :: others)) with same | same
          · rw [same]
            exact List.mem_cons_self
          · rw [same]
            exact List.mem_cons_of_mem _ further

theorem isGreatest_iff {severities : List Severity} (some : severities ≠ []) {severity : Severity} :
    IsGreatest {s | s ∈ severities} severity ↔ severity = reduce severities := by
  have greatest : IsGreatest {s | s ∈ severities} (reduce severities) :=
    ⟨reduce_mem some, fun _ listed => le_reduce listed⟩
  constructor
  · intro h
    exact le_antisymm (greatest.2 h.1) (h.2 greatest.1)
  · rintro rfl
    exact greatest

theorem reduce_eq_none_iff {severities : List Severity} (proper : ∀ s ∈ severities, s ≠ .none) :
    reduce severities = .none ↔ severities = [] := by
  constructor
  · intro h
    by_contra some
    exact proper _ (reduce_mem some) h
  · rintro rfl
    rfl

end Severity

namespace Version

/-- The greatest value of a component. -/
def maxComponent : UInt64 := 18446744073709551615

theorem next?_eq_some_iff {n next : UInt64} :
    next? n = some next ↔ n ≠ maxComponent ∧ next = n + 1 := by
  have full : n.toNat + 1 < Decimal.wordLimit ↔ n ≠ maxComponent := by
    have below := n.toNat_lt
    have limit : Decimal.wordLimit = 18446744073709551616 := rfl
    have greatest : maxComponent.toNat = 18446744073709551615 := rfl
    rw [Ne, ← UInt64.toNat_inj, greatest, limit]
    omega
  unfold next?
  simp only [full]
  split_ifs with room <;> simp [room, eq_comm]

theorem next?_eq_none_iff {n : UInt64} : next? n = none ↔ n = maxComponent := by
  cases found : next? n with
  | none =>
      refine iff_of_true rfl ?_
      by_contra room
      cases found.symm.trans (next?_eq_some_iff.mpr ⟨room, rfl⟩)
  | some next =>
      refine iff_of_false (by simp) ?_
      exact (next?_eq_some_iff.mp found).1

theorem toNat_of_next? {n next : UInt64} (h : next? n = some next) : next.toNat = n.toNat + 1 := by
  obtain ⟨room, rfl⟩ := next?_eq_some_iff.mp h
  have below := n.toNat_lt
  have greatest : maxComponent.toNat = 18446744073709551615 := rfl
  have one : (1 : UInt64).toNat = 1 := rfl
  rw [Ne, ← UInt64.toNat_inj, greatest] at room
  rw [UInt64.toNat_add]
  omega

theorem lt_of_next? {n next : UInt64} (h : next? n = some next) : n < next := by
  rw [UInt64.lt_iff_toNat_lt, toNat_of_next? h]
  exact Nat.lt_succ_self _

theorem lt_of_bump {current next : Version} {severity : Severity}
    (h : current.bump severity = .ok next) : current < next := by
  cases severity with
  | none => cases h
  | addition =>
      simp only [bump] at h
      split at h
      · rename_i found
        cases h
        exact .inr ⟨rfl, .inr ⟨rfl, lt_of_next? found⟩⟩
      · cases h
  | revision =>
      simp only [bump] at h
      split at h
      · rename_i found
        cases h
        exact .inr ⟨rfl, .inl (lt_of_next? found)⟩
      · cases h
  | model =>
      simp only [bump] at h
      split at h
      · rename_i found
        cases h
        exact .inl (lt_of_next? found)
      · cases h

theorem bump_eq_error_iff {current : Version} {severity : Severity} {cause : VersionError} :
    current.bump severity = .error cause ↔
      severity = .none ∧ cause = .noChanges current ∨
      ∃ component, severity.component? = some component ∧
        current.component component = maxComponent ∧ cause = .overflow current component := by
  cases severity <;> simp only [bump, Severity.component?]
  case none => simp [eq_comm]
  all_goals
    split
    · rename_i found
      have room := (next?_eq_some_iff.mp found).1
      simpa [component] using fun full => absurd full room
    · rename_i found
      have full := next?_eq_none_iff.mp found
      simp [component, full, eq_comm]

theorem ne_of_lt {a b : Version} (h : a < b) : b ≠ a := by
  rintro rfl
  rcases h with h | ⟨_, h | ⟨_, h⟩⟩ <;> exact UInt64.lt_irrefl _ h

end Version

theorem RuleEngine.exists_classifyAll_iff {engine : RuleEngine} {changes : List Change} :
    (∃ classified, engine.classifyAll changes = .ok classified) ↔
      ∀ change ∈ changes, ∃ severity, engine.classify change = .ok severity := by
  constructor
  · rintro ⟨classified, found⟩ change listed
    obtain ⟨entry, _, ok⟩ := mem_of_classifyAll found listed
    exact ⟨_, ok⟩
  · intro each
    cases found : engine.classifyAll changes with
    | ok classified => exact ⟨classified, rfl⟩
    | error cause =>
        obtain ⟨_, change, _, split, _, failed⟩ := classifyAll_eq_error_iff.mp found
        obtain ⟨severity, ok⟩ := each change (by simp [split])
        cases failed.symm.trans ok

namespace Release

variable {engine : RuleEngine} {old new : Json} {version : Version} {release : Release}

theorem nextVersion_eq_ok_iff {severity : Severity} {next : Version} :
    nextVersion version severity = .ok next ↔
      severity = .none ∧ next = version ∨ version.bump severity = .ok next := by
  unfold nextVersion
  cases raised : version.bump severity with
  | ok raisedTo =>
      have proper : severity ≠ .none := by
        rintro rfl
        cases raised
      simp [proper]
  | error cause =>
      rcases Version.bump_eq_error_iff.mp raised with ⟨none, rfl⟩ | ⟨component, raises, _, rfl⟩
      · simp [none, eq_comm]
      · have proper : severity ≠ .none := by
          rintro rfl
          cases raises
        simp [proper]

/-- Nothing but an overflow of the component that a severity raises leaves no next version. -/
theorem nextVersion_eq_error_iff {severity : Severity} {cause : CompareError} :
    nextVersion version severity = .error cause ↔
      ∃ component, severity.component? = some component ∧
        version.component component = Version.maxComponent ∧
        cause = .version (.overflow version component) := by
  unfold nextVersion
  cases raised : version.bump severity with
  | ok next =>
      refine iff_of_false (by simp) ?_
      rintro ⟨component, raises, full, _⟩
      have failed := Version.bump_eq_error_iff.mpr (.inr ⟨component, raises, full, rfl⟩)
      cases raised.symm.trans failed
  | error why =>
      rcases Version.bump_eq_error_iff.mp raised with ⟨rfl, rfl⟩ | ⟨component, raises, full, rfl⟩
      · simp [Severity.component?]
      · simp [raises, full, eq_comm]

theorem compare_eq_ok_iff :
    compare engine old new version = .ok release ↔
      ∃ before after, Node.decode old = .ok before ∧ Node.decode new = .ok after ∧
        engine.classifyAll (before.diff after) = .ok release.changes ∧
        release.previous = version ∧
        release.severity = Severity.reduce (release.changes.map (·.severity)) ∧
        nextVersion version release.severity = .ok release.next := by
  simp only [compare, bind_eq_ok_iff, decodeSide, mapError_eq_ok_iff, pure, Except.pure,
    Except.ok.injEq]
  constructor
  · rintro ⟨before, ho, after, hn, changes, classified, next, numbered, rfl⟩
    exact ⟨before, after, ho, hn, classified, rfl, rfl, numbered⟩
  · rintro ⟨before, after, ho, hn, classified, rfl, greatest, numbered⟩
    refine ⟨before, ho, after, hn, _, classified, release.next, ?_, ?_⟩
    · rw [← greatest]
      exact numbered
    · rw [← greatest]

theorem severity_ne_none {changes : List Change} {classified : List ClassifiedChange}
    (rated : List.Forall₂ engine.Rates changes classified) :
    ∀ severity ∈ classified.map (·.severity), severity ≠ .none := by
  intro severity listed
  obtain ⟨change, _, ok⟩ := (RuleEngine.mem_severities_iff rated).mp listed
  exact RuleEngine.severity_ne_none ok

theorem compare_eq_version_error_iff {cause : VersionError} :
    compare engine old new version = .error (.version cause) ↔
      ∃ before after classified component, Node.decode old = .ok before ∧
        Node.decode new = .ok after ∧ engine.classifyAll (before.diff after) = .ok classified ∧
        (Severity.reduce (classified.map (·.severity))).component? = some component ∧
        version.component component = Version.maxComponent ∧
        cause = .overflow version component := by
  cases ho : Node.decode old with
  | error e => simp [compare, decodeSide, ho, Except.mapError, bind, Except.bind]
  | ok before =>
      cases hn : Node.decode new with
      | error e => simp [compare, decodeSide, ho, hn, Except.mapError, bind, Except.bind]
      | ok after =>
          rw [compare_of_decode ho hn]
          cases found : engine.classifyAll (before.diff after) with
          | error e => simp [found, Except.mapError, bind, Except.bind]
          | ok classified =>
              have numbered : nextVersion version (Severity.reduce (classified.map (·.severity))) =
                  .error (.version cause) ↔ _ := nextVersion_eq_error_iff
              cases next : nextVersion version (Severity.reduce (classified.map (·.severity))) with
              | ok _ =>
                  rw [next] at numbered
                  simpa [found, next, Except.mapError, bind, Except.bind, pure, Except.pure]
                    using numbered
              | error _ =>
                  rw [next] at numbered
                  simpa [found, next, Except.mapError, bind, Except.bind] using numbered

theorem component?_reduce_iff {severities : List Severity} {component : Component} :
    (Severity.reduce severities).component? = some component ↔
      ∃ severity, IsGreatest {s | s ∈ severities} severity ∧
        severity.component? = some component := by
  cases severities with
  | nil => simp [Severity.reduce, Severity.component?, IsGreatest]
  | cons first rest =>
      simp only [Severity.isGreatest_iff (List.cons_ne_nil first rest), exists_eq_left]

/-- An overflow is told by the changes alone: each of them has a severity, and the greatest raises
a component that is at its limit. -/
theorem compare_eq_overflow_iff {current : Version} {component : Component} :
    compare engine old new version = .error (.version (.overflow current component)) ↔
      current = version ∧ ∃ before after, Node.decode old = .ok before ∧
        Node.decode new = .ok after ∧
        (∀ change ∈ before.diff after, ∃ severity, engine.classify change = .ok severity) ∧
        ∃ severity,
          IsGreatest {s | ∃ change ∈ before.diff after, engine.classify change = .ok s} severity ∧
          severity.component? = some component ∧
          version.component component = Version.maxComponent := by
  rw [compare_eq_version_error_iff]
  simp only [component?_reduce_iff, VersionError.overflow.injEq]
  constructor
  · rintro ⟨before, after, classified, _, ho, hn, found, ⟨severity, greatest, raises⟩, full,
      rfl, rfl⟩
    have rated := RuleEngine.classifyAll_eq_ok_iff.mp found
    simp only [RuleEngine.mem_severities_iff rated] at greatest
    exact ⟨rfl, before, after, ho, hn, RuleEngine.exists_classifyAll_iff.mp ⟨_, found⟩, severity,
      greatest, raises, full⟩
  · rintro ⟨rfl, before, after, ho, hn, each, severity, greatest, raises, full⟩
    obtain ⟨classified, found⟩ := RuleEngine.exists_classifyAll_iff.mpr each
    have rated := RuleEngine.classifyAll_eq_ok_iff.mp found
    simp only [← RuleEngine.mem_severities_iff rated] at greatest
    exact ⟨before, after, classified, component, ho, hn, found, ⟨severity, greatest, raises⟩,
      full, rfl, rfl⟩

theorem isUnchanged_iff : release.isUnchanged = true ↔ release.changes = [] := List.isEmpty_iff

theorem nextFor_eq_ok_iff {next : Version} :
    nextFor engine old new version = .ok next ↔
      ∃ release, compare engine old new version = .ok release ∧ release.changes ≠ [] ∧
        next = release.next := by
  rw [nextFor, bind_eq_ok_iff]
  refine exists_congr fun release => and_congr_right fun _ => ?_
  rw [ne_eq, ← isUnchanged_iff]
  split_ifs with unchanged <;> simp [unchanged, pure, Except.pure, eq_comm]

theorem nextFor_of_error {error : CompareError}
    (failed : compare engine old new version = .error error) :
    nextFor engine old new version = .error error := by
  rw [nextFor, failed]
  rfl

theorem nextFor_eq_noChanges_iff {current : Version} :
    nextFor engine old new version = .error (.version (.noChanges current)) ↔
      current = version ∧
        ∃ release, compare engine old new version = .ok release ∧ release.changes = [] := by
  cases outcome : compare engine old new version with
  | error e =>
      rw [nextFor_of_error outcome]
      refine iff_of_false ?_ (by simp)
      rintro same
      cases same
      obtain ⟨_, _, _, _, _, _, _, _, _, overflow⟩ := compare_eq_version_error_iff.mp outcome
      cases overflow
  | ok release =>
      rw [nextFor, outcome]
      change (if release.isUnchanged = true then _ else _) = _ ↔ _
      simp only [Except.ok.injEq, exists_eq_left', ← isUnchanged_iff]
      split_ifs with unchanged <;> simp [unchanged, pure, Except.pure, eq_comm]

end Release

/-- What becomes of any two documents and a version. A release lists the changes between the two
schemas in their order, each with the severity that the rules give it, and tells the version it
starts from; it has no changes exactly if it has no severity, and exactly if it keeps the version;
otherwise its severity is the greatest of its changes, and raises the version. An overflow ends it
exactly if both documents denote schemas, the rules give each change between them a severity, and
the component that the greatest of these raises is at its limit. The next version alone is that of
a release with changes, there is none where a release has no changes, and else the error is the
same. -/
theorem release_outcome (engine : RuleEngine) (old new : Json) (version : Version) :
    (∀ release, Release.compare engine old new version = .ok release →
      (∃ before after, Node.decode old = .ok before ∧ Node.decode new = .ok after ∧
        List.Forall₂
          (fun change entry => entry.change = change ∧ engine.classify change = .ok entry.severity)
          (before.diff after) release.changes) ∧
      release.previous = version ∧
      (release.changes = [] ↔ release.severity = .none) ∧
      (release.severity = .none ↔ release.next = version) ∧
      (release.changes ≠ [] →
        IsGreatest {s | s ∈ release.changes.map (·.severity)} release.severity ∧
        version.bump release.severity = .ok release.next ∧ version < release.next)) ∧
    (∀ current component,
      Release.compare engine old new version = .error (.version (.overflow current component)) ↔
        current = version ∧ ∃ before after, Node.decode old = .ok before ∧
          Node.decode new = .ok after ∧
          (∀ change ∈ before.diff after, ∃ severity, engine.classify change = .ok severity) ∧
          ∃ severity,
            IsGreatest {s | ∃ change ∈ before.diff after, engine.classify change = .ok s} severity ∧
            severity.component? = some component ∧
            version.component component = Version.maxComponent) ∧
    (∀ next, Release.nextFor engine old new version = .ok next ↔
      ∃ release, Release.compare engine old new version = .ok release ∧
        release.changes ≠ [] ∧ next = release.next) ∧
    (∀ current, Release.nextFor engine old new version = .error (.version (.noChanges current)) ↔
      current = version ∧
        ∃ release, Release.compare engine old new version = .ok release ∧ release.changes = []) ∧
    ∀ error, Release.compare engine old new version = .error error →
      Release.nextFor engine old new version = .error error := by
  refine ⟨?_, fun _ _ => Release.compare_eq_overflow_iff, fun _ => Release.nextFor_eq_ok_iff,
    fun _ => Release.nextFor_eq_noChanges_iff, fun _ => Release.nextFor_of_error⟩
  intro release compared
  obtain ⟨before, after, ho, hn, classified, start, greatest, numbered⟩ :=
    Release.compare_eq_ok_iff.mp compared
  have rated := RuleEngine.classifyAll_eq_ok_iff.mp classified
  have unchanged : release.changes = [] ↔ release.severity = .none := by
    rw [greatest, Severity.reduce_eq_none_iff (Release.severity_ne_none rated),
      List.map_eq_nil_iff]
  refine ⟨⟨before, after, ho, hn, rated⟩, start, unchanged, ?_, ?_⟩
  · rcases Release.nextVersion_eq_ok_iff.mp numbered with ⟨none, same⟩ | raised
    · exact iff_of_true none same
    · refine iff_of_false ?_ (Version.ne_of_lt (Version.lt_of_bump raised))
      intro none
      rw [none] at raised
      cases raised
  · intro some
    rcases Release.nextVersion_eq_ok_iff.mp numbered with ⟨none, _⟩ | raised
    · exact absurd (unchanged.mpr none) some
    · refine ⟨?_, raised, Version.lt_of_bump raised⟩
      exact (Severity.isGreatest_iff (by simpa using some)).mpr greatest

/-- A schema comes to have a title, and the component that this raises is at its limit. -/
theorem release_outcome_overflow :
    let engine : RuleEngine := { patterns := fun _ _ => none }
    let titled := Json.object [("title", .string "Person")]
    let version : Version := ⟨1, 0, Version.maxComponent⟩
    let overflow : CompareError := .version (.overflow version .addition)
    Release.compare engine (.object []) titled version = .error overflow ∧
      Release.nextFor engine (.object []) titled version = .error overflow := by
  intro engine titled version overflow
  obtain ⟨_, overflows, _, _, same⟩ := release_outcome engine (.object []) titled version
  obtain ⟨before, after, ho, hn, change, single, rated⟩ : ∃ before after,
      Node.decode (.object []) = .ok before ∧ Node.decode titled = .ok after ∧
        ∃ change, before.diff after = [change] ∧ engine.classify change = .ok .addition :=
    ⟨_, _, rfl, rfl, _, rfl, rfl⟩
  have ended : Release.compare engine (.object []) titled version = .error overflow := by
    apply (overflows version .addition).mpr
    have one : {s | ∃ change ∈ before.diff after, engine.classify change = .ok s} =
        {Severity.addition} := by
      ext severity
      simp [single, rated, eq_comm]
    refine ⟨rfl, before, after, ho, hn, by simp [single, rated], .addition, ?_, rfl, rfl⟩
    rw [one]
    exact ⟨rfl, by rintro _ rfl; exact Nat.le_refl _⟩
  exact ⟨ended, same _ ended⟩

end SchemaEvolution
