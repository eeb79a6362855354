import Mathlib
import SchemaEvolution.Proofs.Releases

/-! # Histories of releases

One document after the other is released, each compared to the one before it and numbered from the
version before it. One release moves the components as its severity says; so the version at the end
of a history depends on the severities alone: how often each came, and since when.
-/

namespace SchemaEvolution

namespace Release

variable {engine : RuleEngine} {version next : Version} {severity : Severity} {document : Json}
  {documents : List Json} {releases : List Release}

/-- The releases of the documents that follow a first one. -/
def history (engine : RuleEngine) (version : Version) (document : Json) :
    List Json → Except CompareError (List Release)
  | [] => .ok []
  | next :: rest => do
    let release ← compare engine document next version
    let later ← history engine release.next next rest
    return release :: later

/-- The version that the releases come to. -/
def reached (version : Version) (releases : List Release) : Version :=
  releases.foldl (fun _ release => release.next) version

@[simp] theorem reached_nil : reached version [] = version := rfl

@[simp] theorem reached_cons (release : Release) :
    reached version (release :: releases) = reached release.next releases := rfl

@[simp] theorem reached_concat (release : Release) :
    reached version (releases ++ [release]) = release.next := by
  simp [reached]

/-- Each release of a history compares two documents that follow each other, and starts from the
version that the releases before it come to. -/
theorem compare_of_history (h : history engine version document documents = .ok releases)
    {index : Nat} {release : Release} (found : releases[index]? = some release) :
    ∃ old new, (document :: documents)[index]? = some old ∧ documents[index]? = some new ∧
      compare engine old new (reached version (releases.take index)) = .ok release := by
  induction documents generalizing version document releases index with
  | nil =>
      cases h
      cases found
  | cons next rest ih =>
      obtain ⟨first, compared, h⟩ := bind_eq_ok_iff.mp h
      obtain ⟨later, further, same⟩ := bind_eq_ok_iff.mp h
      cases same
      cases index with
      | zero =>
          cases found
          exact ⟨document, next, rfl, rfl, compared⟩
      | succ index => exact ih further found

/-- What a release of some severity does to each component of a version. -/
theorem components_of_nextVersion (h : nextVersion version severity = .ok next) :
    next.model.toNat = version.model.toNat + (if severity = .model then 1 else 0) ∧
    next.revision.toNat = (if severity = .model then 0 else version.revision.toNat) +
      (if severity = .revision then 1 else 0) ∧
    next.addition.toNat =
      (if severity = .model ∨ severity = .revision then 0 else version.addition.toNat) +
        (if severity = .addition then 1 else 0) := by
  rcases nextVersion_eq_ok_iff.mp h with ⟨rfl, rfl⟩ | raised
  · simp
  cases severity <;> simp only [Version.bump] at raised
  case none => cases raised
  all_goals
    split at raised
    · rename_i component found
      cases raised
      simp [Version.toNat_of_next? found]
    · cases raised

/-- Where each release is numbered from the version before it, the version at the end counts the
severities: the revisions since the last model, the additions since the last of both. -/
theorem components_of_numbered
    (numbered : ∀ index release, releases[index]? = some release →
      nextVersion (reached version (releases.take index)) release.severity = .ok release.next) :
    (reached version releases).model.toNat =
        version.model.toNat + (releases.map (·.severity)).count .model ∧
    (reached version releases).revision.toNat =
        (if .model ∈ releases.map (·.severity) then 0 else version.revision.toNat) +
          ((releases.map (·.severity)).rtakeWhile (· ≠ .model)).count .revision ∧
    (reached version releases).addition.toNat =
        (if .model ∈ releases.map (·.severity) ∨ .revision ∈ releases.map (·.severity) then 0
          else version.addition.toNat) +
          ((releases.map (·.severity)).rtakeWhile
            fun s => s ≠ .model ∧ s ≠ .revision).count .addition := by
  induction releases using List.reverseRecOn with
  | nil => simp
  | append_singleton earlier release ih =>
      have before := ih fun index other found => by
        have inside : index < earlier.length := (List.getElem?_eq_some_iff.mp found).1
        have step := numbered index other (by rwa [List.getElem?_append_left inside])
        rwa [List.take_append_of_le_length inside.le] at step
      have last := numbered earlier.length release (by simp)
      rw [List.take_left] at last
      have step := components_of_nextVersion last
      obtain ⟨model, revision, addition⟩ := components_of_nextVersion last
      rw [before.1] at model
      rw [before.2.1] at revision
      rw [before.2.2] at addition
      simp only [reached_concat, List.map_append, List.map_cons, List.map_nil,
        List.rtakeWhile_concat, List.mem_append, List.mem_singleton, List.count_append]
      rw [model, revision, addition]
      cases release.severity <;> simp [Nat.add_assoc]

theorem changes_of_compare {old new : Json} {release : Release}
    (h : compare engine old new version = .ok release) :
    release.previous = version ∧
      (release.changes ≠ [] → version < release.next) ∧
      (release.changes = [] → release.next = version) := by
  obtain ⟨_, _, _, _, classified, start, greatest, numbered⟩ := compare_eq_ok_iff.mp h
  have rated := RuleEngine.classifyAll_eq_ok_iff.mp classified
  refine ⟨start, fun some => ?_, fun none => ?_⟩
  · have proper : release.severity ≠ .none := by
      rw [greatest, Ne, Severity.reduce_eq_none_iff (severity_ne_none rated)]
      simpa using some
    rcases nextVersion_eq_ok_iff.mp numbered with ⟨none, _⟩ | raised
    · exact absurd none proper
    · exact Version.lt_of_bump raised
  · rw [greatest, none] at numbered
    rcases nextVersion_eq_ok_iff.mp numbered with ⟨_, same⟩ | raised
    · exact same
    · cases raised

theorem length_of_history (h : history engine version document documents = .ok releases) :
    releases.length = documents.length := by
  induction documents generalizing version document releases with
  | nil =>
      cases h
      rfl
  | cons next rest ih =>
      obtain ⟨first, _, h⟩ := bind_eq_ok_iff.mp h
      obtain ⟨later, further, same⟩ := bind_eq_ok_iff.mp h
      cases same
      exact congrArg (· + 1) (ih further)

end Release

/-- The versions of a history. Every document after the first one is released; each release starts
from the version before it, raises it where something changed, and keeps it elsewhere. The version at
the end is told by the severities alone: each model level raises the first component, the second one
counts the revisions since the last model level, and the third one the additions since the last
release of either; where there was none, the count goes on from the version at the start. -/
theorem version_of_history {engine : RuleEngine} {version : Version} {document : Json}
    {documents : List Json} {releases : List Release}
    (h : Release.history engine version document documents = .ok releases) :
    releases.length = documents.length ∧
    (∀ (index : Nat) (release : Release), releases[index]? = some release →
      release.previous = Release.reached version (releases.take index) ∧
      (release.changes ≠ [] → release.previous < release.next) ∧
      (release.changes = [] → release.next = release.previous)) ∧
    (Release.reached version releases).model.toNat =
      version.model.toNat + (releases.map (·.severity)).count .model ∧
    (Release.reached version releases).revision.toNat =
      (if .model ∈ releases.map (·.severity) then 0 else version.revision.toNat) +
        ((releases.map (·.severity)).rtakeWhile (· ≠ .model)).count .revision ∧
    (Release.reached version releases).addition.toNat =
      (if .model ∈ releases.map (·.severity) ∨ .revision ∈ releases.map (·.severity) then 0
        else version.addition.toNat) +
        ((releases.map (·.severity)).rtakeWhile
          fun s => s ≠ .model ∧ s ≠ .revision).count .addition := by
  refine ⟨Release.length_of_history h, ?_, Release.components_of_numbered ?_⟩
  · intro index release found
    obtain ⟨_, _, _, _, compared⟩ := Release.compare_of_history h found
    obtain ⟨start, raised, kept⟩ := Release.changes_of_compare compared
    rw [start]
    exact ⟨rfl, raised, kept⟩
  · intro index release found
    obtain ⟨_, _, _, _, compared⟩ := Release.compare_of_history h found
    obtain ⟨_, _, _, _, _, _, _, numbered⟩ := Release.compare_eq_ok_iff.mp compared
    exact numbered

/-- A format appears, another one takes its place, the same document comes again, and a title is
added: a revision, a model level, no change, and an addition. -/
theorem version_of_history_format :
    let start : Version := ⟨2, 3, 4⟩
    let engine : RuleEngine := ⟨fun _ _ => none, []⟩
    let time := Json.object [("format", .string "time")]
    let documents := [Json.object [("format", .string "date")], time, time,
      .object [("format", .string "time"), ("title", .string "Time of day")]]
    ∃ releases, Release.history engine start (.object []) documents = .ok releases ∧
      releases.map (·.severity) = [.revision, .model, .none, .addition] ∧
      (Release.reached start releases).addition.toNat =
        (if .model ∈ releases.map (·.severity) ∨ .revision ∈ releases.map (·.severity) then 0
          else start.addition.toNat) +
          ((releases.map (·.severity)).rtakeWhile
            fun s => s ≠ .model ∧ s ≠ .revision).count .addition ∧
      Release.reached start releases = ⟨3, 0, 1⟩ := by
  intro start engine time documents
  obtain ⟨releases, h⟩ : ∃ releases, Release.history engine start (.object []) documents =
      .ok releases := ⟨_, rfl⟩
  refine ⟨releases, h, ?_, (version_of_history h).2.2.2.2, ?_⟩ <;>
    · cases h
      rfl

end SchemaEvolution
