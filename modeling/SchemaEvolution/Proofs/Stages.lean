import Mathlib
import SchemaEvolution.Command.Arguments
import SchemaEvolution.Proofs.Releases

/-! # The stages of a command

A command goes through its stages in their order, and the first one that fails tells the report. A
comparison loads both documents before it looks into either; a listing understands the old one
before it loads the new one. Only a source that cannot be reached is told by the exit code 3 here.
-/

namespace SchemaEvolution

namespace LoadError

/-- There is no such file, or what is there cannot be read. -/
def IsAccess (e : LoadError) : Prop :=
  (∃ path, e = .fileNotFound path) ∨ ∃ cause, e = .unreadable cause

theorem exitCode_eq_three_iff {e : LoadError} : e.exitCode = 3 ↔ e.IsAccess := by
  cases e with
  | fileNotFound path => exact iff_of_true rfl (.inl ⟨path, rfl⟩)
  | unreadable cause => exact iff_of_true rfl (.inr ⟨cause, rfl⟩)
  | invalidJson | invalidYaml => exact iff_of_false (by decide) (by simp [IsAccess])

theorem exitCode_eq_or (e : LoadError) : e.exitCode = 2 ∨ e.exitCode = 3 := by
  cases e with
  | fileNotFound | unreadable => exact .inr rfl
  | invalidJson | invalidYaml => exact .inl rfl

end LoadError

namespace Release

theorem exitCode_of_compare {engine : RuleEngine} {old new : Json} {version : Version}
    {e : CompareError} (failed : compare engine old new version = .error e) : e.exitCode = 2 := by
  cases e with
  | decode | unclassified => rfl
  | version cause =>
      obtain ⟨_, _, _, _, _, _, _, _, _, rfl⟩ := compare_eq_version_error_iff.mp failed
      rfl

end Release

theorem RuleEngine.classifyAll_eq_nil_iff {engine : RuleEngine} {changes : List Change}
    {classified : List ClassifiedChange} (h : engine.classifyAll changes = .ok classified) :
    classified = [] ↔ changes = [] := by
  have length := (classifyAll_eq_ok_iff.mp h).length_eq
  rw [← List.length_eq_zero_iff, ← List.length_eq_zero_iff, length]

section Stages

variable (around : Surroundings)

def loadNamed (source : String) : Except LoadError Json :=
  (Source.ofText source).load around.toReach

/-- The two sources hold documents that denote these schemas. -/
def Denote (old new : String) (before after : Node) : Prop :=
  ∃ oldDocument newDocument,
    loadNamed around old = .ok oldDocument ∧ loadNamed around new = .ok newDocument ∧
      Node.decode oldDocument = .ok before ∧ Node.decode newDocument = .ok after

/-- The source cannot be reached: there is no such file, it cannot be read, or the address does not
answer. -/
def OutOfReach (source : String) : Prop := ∃ e, loadNamed around source = .error e ∧ e.IsAccess

/-- Both sources are loaded, and the comparison of their documents gives the release. -/
def CompareCommand.Finds (c : CompareCommand) (release : Release) : Prop :=
  ∃ old new, loadNamed around c.old = .ok old ∧ loadNamed around c.new = .ok new ∧
    Release.compare (.ofAnnotations around.emptyMatch c.annotations) old new c.version = .ok release

/-- The stage at which a command fails before it has found anything, with the report. A comparison
loads both documents first; a listing understands the old one before it loads the new one. -/
inductive Command.Fails : Command → Report → Prop where
  | compareOld {c : CompareCommand} {e : LoadError} (failed : loadNamed around c.old = .error e) :
      Fails (.compare c) (.ofLoadError "--old" e)
  | compareNew {c : CompareCommand} {old : Json} {e : LoadError}
      (oldLoaded : loadNamed around c.old = .ok old) (failed : loadNamed around c.new = .error e) :
      Fails (.compare c) (.ofLoadError "--new" e)
  | compare {c : CompareCommand} {old new : Json} {e : CompareError}
      (oldLoaded : loadNamed around c.old = .ok old) (newLoaded : loadNamed around c.new = .ok new)
      (failed : Release.compare (.ofAnnotations around.emptyMatch c.annotations) old new c.version =
        .error e) : Fails (.compare c) (.ofCompareError e)
  | diffOld {d : DiffCommand} {e : LoadError} (failed : loadNamed around d.old = .error e) :
      Fails (.diff d) (.ofLoadError "--old" e)
  | diffOldDecode {d : DiffCommand} {old : Json} {cause : DecodeError}
      (oldLoaded : loadNamed around d.old = .ok old) (failed : Node.decode old = .error cause) :
      Fails (.diff d) (.ofCompareError (.decode .old cause))
  | diffNew {d : DiffCommand} {old : Json} {before : Node} {e : LoadError}
      (oldLoaded : loadNamed around d.old = .ok old) (oldDecoded : Node.decode old = .ok before)
      (failed : loadNamed around d.new = .error e) : Fails (.diff d) (.ofLoadError "--new" e)
  | diffNewDecode {d : DiffCommand} {old new : Json} {before : Node} {cause : DecodeError}
      (oldLoaded : loadNamed around d.old = .ok old) (oldDecoded : Node.decode old = .ok before)
      (newLoaded : loadNamed around d.new = .ok new) (failed : Node.decode new = .error cause) :
      Fails (.diff d) (.ofCompareError (.decode .new cause))
  | classify {d : DiffCommand} {before after : Node} {cause : UnclassifiedError}
      (denote : Denote around d.old d.new before after)
      (failed : (RuleEngine.ofAnnotations around.emptyMatch d.annotations).classifyAll
        (before.diff after) = .error cause) : Fails (.diff d) (.ofCompareError (.unclassified cause))

/-- A source cannot be reached, and nothing fails before that. -/
def Command.Unreached : Command → Prop
  | .compare c =>
    OutOfReach around c.old ∨ (∃ old, loadNamed around c.old = .ok old) ∧ OutOfReach around c.new
  | .diff d =>
    OutOfReach around d.old ∨
      (∃ old before, loadNamed around d.old = .ok old ∧ Node.decode old = .ok before) ∧
        OutOfReach around d.new

end Stages

section Reading

variable {around : Surroundings} {option source : String} {report : Report}

theorem loadNamed_of_file {text : String} {document : Json}
    (file : Source.ofText source = .file source) (json : DocumentFormat.ofPath source = .json)
    (stands : around.read source = .text text) (parsed : Json.parse? text = some document) :
    loadNamed around source = .ok document := by
  rw [loadNamed, file, Source.load, stands]
  dsimp only
  rw [json, DocumentFormat.parse, parsed]

theorem loadNamed_of_web {fetch : String → Option String} {text : String} {document : Json}
    (web : Source.ofText source = .web source) (online : around.fetch = some fetch)
    (answers : fetch source = some text) (parsed : Json.parse? text = some document) :
    loadNamed around source = .ok document := by
  rw [loadNamed, web, Source.load, online]
  dsimp only
  rw [answers, Option.bind_some, parsed]

theorem loadOption_eq_ok_iff {document : Json} :
    loadOption around.toReach option source = .ok document ↔
      loadNamed around source = .ok document :=
  Release.mapError_eq_ok_iff

theorem loadOption_eq_error_iff :
    loadOption around.toReach option source = .error report ↔
      ∃ e, loadNamed around source = .error e ∧ .ofLoadError option e = report :=
  Release.mapError_eq_error_iff

namespace CompareCommand

variable {c : CompareCommand} {release : Release}

theorem release_eq_ok_iff : c.release around = .ok release ↔ c.Finds around release := by
  simp only [CompareCommand.release, Finds, bind_eq_ok_iff, loadOption_eq_ok_iff,
    Release.mapError_eq_ok_iff]
  constructor
  · rintro ⟨old, oldLoaded, new, newLoaded, compared⟩
    exact ⟨old, new, oldLoaded, newLoaded, compared⟩
  · rintro ⟨old, new, oldLoaded, newLoaded, compared⟩
    exact ⟨old, oldLoaded, new, newLoaded, compared⟩

theorem release_eq_error_iff :
    c.release around = .error report ↔ Command.Fails around (.compare c) report := by
  simp only [CompareCommand.release, bind_eq_error_iff, loadOption_eq_ok_iff,
    loadOption_eq_error_iff, Release.mapError_eq_error_iff]
  constructor
  · rintro (⟨e, failed, rfl⟩ | ⟨old, oldLoaded, ⟨e, failed, rfl⟩ |
      ⟨new, newLoaded, e, failed, rfl⟩⟩)
    · exact .compareOld failed
    · exact .compareNew oldLoaded failed
    · exact .compare oldLoaded newLoaded failed
  · intro h
    cases h with
    | compareOld failed => exact .inl ⟨_, failed, rfl⟩
    | compareNew oldLoaded failed => exact .inr ⟨_, oldLoaded, .inl ⟨_, failed, rfl⟩⟩
    | compare oldLoaded newLoaded failed =>
        exact .inr ⟨_, oldLoaded, .inr ⟨_, newLoaded, _, failed, rfl⟩⟩

theorem Finds.unique {other : Release} (h : c.Finds around release) (h' : c.Finds around other) :
    release = other := by
  have found := release_eq_ok_iff.mpr h
  rw [release_eq_ok_iff.mpr h'] at found
  exact (Except.ok.inj found).symm

theorem Finds.not_fails (h : c.Finds around release) : ¬Command.Fails around (.compare c) report := by
  intro fails
  cases (release_eq_ok_iff.mpr h).symm.trans (release_eq_error_iff.mpr fails)

theorem Finds.denote (found : c.Finds around release) :
    ∃ before after, Denote around c.old c.new before after ∧
      (RuleEngine.ofAnnotations around.emptyMatch c.annotations).classifyAll (before.diff after) =
        .ok release.changes := by
  obtain ⟨old, new, oldLoaded, newLoaded, compared⟩ := found
  obtain ⟨before, after, oldDecoded, newDecoded, classified, _⟩ :=
    Release.compare_eq_ok_iff.mp compared
  exact ⟨before, after, ⟨old, new, oldLoaded, newLoaded, oldDecoded, newDecoded⟩, classified⟩

theorem finds_of_unchanged {before after : Node} (denote : Denote around c.old c.new before after)
    (unchanged : before.diff after = []) :
    c.Finds around ⟨c.version, c.version, .none, []⟩ := by
  obtain ⟨old, new, oldLoaded, newLoaded, oldDecoded, newDecoded⟩ := denote
  refine ⟨old, new, oldLoaded, newLoaded, ?_⟩
  rw [Release.compare_of_decode oldDecoded newDecoded, unchanged]
  rfl

theorem exitCode_eq_or (c : CompareCommand) (release : Release) :
    c.exitCode release = 0 ∨ c.exitCode release = 1 := by
  unfold exitCode
  split
  · exact .inr rfl
  · exact .inl rfl

theorem exitCode_eq_one_iff (found : c.Finds around release) :
    c.exitCode release = 1 ↔ c.failIfUnchanged = true ∧
      ∃ older newer, Denote around c.old c.new older newer ∧ older.diff newer = [] := by
  have unchanged : release.changes = [] ↔
      ∃ older newer, Denote around c.old c.new older newer ∧ older.diff newer = [] := by
    constructor
    · intro none
      obtain ⟨older, newer, denote, classified⟩ := found.denote
      exact ⟨older, newer, denote, (RuleEngine.classifyAll_eq_nil_iff classified).mp none⟩
    · rintro ⟨older, newer, denote, none⟩
      rw [found.unique (finds_of_unchanged denote none)]
  rw [← unchanged, ← Release.isUnchanged_iff, exitCode]
  split_ifs with told
  · simpa [and_comm] using told
  · simpa [and_comm] using told

end CompareCommand

namespace DiffCommand

variable {d : DiffCommand}

theorem changes_eq_ok_iff {changes : List ClassifiedChange} :
    d.changes around = .ok changes ↔ ∃ before after, Denote around d.old d.new before after ∧
      (RuleEngine.ofAnnotations around.emptyMatch d.annotations).classifyAll (before.diff after) =
        .ok changes := by
  simp only [DiffCommand.changes, Release.decodeSide, bind_eq_ok_iff, loadOption_eq_ok_iff,
    Release.mapError_eq_ok_iff]
  constructor
  · rintro ⟨old, oldLoaded, before, oldDecoded, new, newLoaded, after, newDecoded, classified⟩
    exact ⟨before, after, ⟨old, new, oldLoaded, newLoaded, oldDecoded, newDecoded⟩, classified⟩
  · rintro ⟨before, after, ⟨old, new, oldLoaded, newLoaded, oldDecoded, newDecoded⟩, classified⟩
    exact ⟨old, oldLoaded, before, oldDecoded, new, newLoaded, after, newDecoded, classified⟩

theorem changes_eq_error_iff :
    d.changes around = .error report ↔ Command.Fails around (.diff d) report := by
  simp only [DiffCommand.changes, Release.decodeSide, bind_eq_error_iff, loadOption_eq_ok_iff,
    loadOption_eq_error_iff, Release.mapError_eq_ok_iff, Release.mapError_eq_error_iff]
  constructor
  · rintro (⟨e, failed, rfl⟩ | ⟨old, oldLoaded, ⟨_, ⟨cause, failed, rfl⟩, rfl⟩ |
      ⟨before, oldDecoded, ⟨e, failed, rfl⟩ | ⟨new, newLoaded, ⟨_, ⟨cause, failed, rfl⟩, rfl⟩ |
        ⟨after, newDecoded, cause, failed, rfl⟩⟩⟩⟩)
    · exact .diffOld failed
    · exact .diffOldDecode oldLoaded failed
    · exact .diffNew oldLoaded oldDecoded failed
    · exact .diffNewDecode oldLoaded oldDecoded newLoaded failed
    · exact .classify ⟨old, new, oldLoaded, newLoaded, oldDecoded, newDecoded⟩ failed
  · intro h
    cases h with
    | diffOld failed => exact .inl ⟨_, failed, rfl⟩
    | diffOldDecode oldLoaded failed =>
        exact .inr ⟨_, oldLoaded, .inl ⟨_, ⟨_, failed, rfl⟩, rfl⟩⟩
    | diffNew oldLoaded oldDecoded failed =>
        exact .inr ⟨_, oldLoaded, .inr ⟨_, oldDecoded, .inl ⟨_, failed, rfl⟩⟩⟩
    | diffNewDecode oldLoaded oldDecoded newLoaded failed =>
        exact .inr ⟨_, oldLoaded, .inr ⟨_, oldDecoded, .inr ⟨_, newLoaded,
          .inl ⟨_, ⟨_, failed, rfl⟩, rfl⟩⟩⟩⟩
    | classify denote failed =>
        obtain ⟨_, _, oldLoaded, newLoaded, oldDecoded, newDecoded⟩ := denote
        exact .inr ⟨_, oldLoaded, .inr ⟨_, oldDecoded, .inr ⟨_, newLoaded,
          .inr ⟨_, newDecoded, _, failed, rfl⟩⟩⟩⟩

end DiffCommand

end Reading

namespace Command

variable {around : Surroundings} {command : Command} {report : Report}

theorem not_outOfReach {source : String} {document : Json}
    (loaded : loadNamed around source = .ok document) : ¬OutOfReach around source := by
  rintro ⟨e, failed, _⟩
  cases loaded.symm.trans failed

theorem exitCode_eq_three_iff {source : String} {e : LoadError}
    (failed : loadNamed around source = .error e) : e.exitCode = 3 ↔ OutOfReach around source := by
  rw [LoadError.exitCode_eq_three_iff]
  constructor
  · intro access
    exact ⟨e, failed, access⟩
  · rintro ⟨e', failed', access⟩
    cases failed.symm.trans failed'
    exact access

theorem not_unreached_compare {c : CompareCommand} {old new : Json}
    (oldLoaded : loadNamed around c.old = .ok old) (newLoaded : loadNamed around c.new = .ok new) :
    ¬Unreached around (.compare c) := by
  rintro (lost | ⟨_, lost⟩)
  · exact not_outOfReach oldLoaded lost
  · exact not_outOfReach newLoaded lost

theorem not_unreached_diff {d : DiffCommand} {old new : Json}
    (oldLoaded : loadNamed around d.old = .ok old) (newLoaded : loadNamed around d.new = .ok new) :
    ¬Unreached around (.diff d) := by
  rintro (lost | ⟨_, lost⟩)
  · exact not_outOfReach oldLoaded lost
  · exact not_outOfReach newLoaded lost

namespace Fails

theorem exitCode_eq_or (h : Fails around command report) :
    report.exitCode = 2 ∨ report.exitCode = 3 := by
  cases h with
  | @compareOld _ e | @compareNew _ _ e | @diffOld _ e | @diffNew _ _ _ e => exact e.exitCode_eq_or
  | compare _ _ failed => exact .inl (Release.exitCode_of_compare failed)
  | diffOldDecode | diffNewDecode | classify => exact .inl rfl

theorem exitCode_eq_three_iff (h : Fails around command report) :
    report.exitCode = 3 ↔ command.Unreached around := by
  have decoding : (2 : UInt8) ≠ 3 := by decide
  cases h with
  | compareOld failed =>
      refine (Command.exitCode_eq_three_iff failed).trans ?_
      simp [Unreached, failed]
  | compareNew oldLoaded failed =>
      refine (Command.exitCode_eq_three_iff failed).trans ?_
      simp [Unreached, oldLoaded, not_outOfReach oldLoaded]
  | @compare c old new e oldLoaded newLoaded failed =>
      have code : (Report.ofCompareError e).exitCode = 2 := Release.exitCode_of_compare failed
      rw [code]
      exact iff_of_false decoding (not_unreached_compare oldLoaded newLoaded)
  | diffOld failed =>
      refine (Command.exitCode_eq_three_iff failed).trans ?_
      simp [Unreached, failed]
  | @diffOldDecode d old cause oldLoaded failed =>
      have reached : ¬Unreached around (.diff d) := by
        simp [Unreached, oldLoaded, failed, not_outOfReach oldLoaded]
      exact iff_of_false decoding reached
  | diffNew oldLoaded oldDecoded failed =>
      refine (Command.exitCode_eq_three_iff failed).trans ?_
      simp [Unreached, oldLoaded, oldDecoded, not_outOfReach oldLoaded]
  | diffNewDecode oldLoaded _ newLoaded _ =>
      exact iff_of_false decoding (not_unreached_diff oldLoaded newLoaded)
  | classify denote _ =>
      obtain ⟨_, _, oldLoaded, newLoaded, _⟩ := denote
      exact iff_of_false decoding (not_unreached_diff oldLoaded newLoaded)

end Fails

end Command

end SchemaEvolution
