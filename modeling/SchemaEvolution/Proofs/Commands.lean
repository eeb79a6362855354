import Mathlib
import SchemaEvolution.Proofs.Stages

/-! # How commands end

Only what has passed all stages is printed or written. The exit code therefore tells how far a
command came: a failure leaves nothing on the standard output, and the host as it was. All of it
holds on every host, whatever it reads at a path, answers for an address, or makes of what is
written.
-/

namespace SchemaEvolution

section Writing

variable {State : Type} (host : Host State)

/-- The path is that of a plain file: what is written to it stands in it after. -/
def Host.Keeps (path : String) : Prop :=
  ∀ state text after, host.write state path text = (true, after) →
    (host.surroundings after).read path = .text text

/-- What the command finds cannot be written to the file that has to take it. -/
def Command.Unwritten (state : State) : Command → Prop
  | .compare c => ∃ release path, c.Finds (host.surroundings state) release ∧ c.output = some path ∧
      (host.write state path (c.format.text release)).1 = false
  | .diff _ => False

/-- The command is a comparison that has to fail where nothing changed, and nothing has. If a file
has to take what it found, that has been written. -/
def Command.NothingChanged (state after : State) : Command → Prop
  | .compare c => c.failIfUnchanged = true ∧
      (∃ older newer, Denote (host.surroundings state) c.old c.new older newer ∧
        older.diff newer = []) ∧
      ∀ path, c.output = some path → ∃ release, c.Finds (host.surroundings state) release ∧
        host.write state path (c.format.text release) = (true, after)
  | .diff _ => False

end Writing

namespace Command

variable {command : Command} {report : Report}

section Ends

variable {State : Type} {host : Host State} {state after : State}

/-- How a command ends: with the report of a failure, or with what it found, which is printed or
written. -/
inductive Ends (host : Host State) (state : State) : Command → Report → State → Prop where
  | failed {command : Command} {report : Report}
      (h : Fails (host.surroundings state) command report) : Ends host state command report state
  | printed {c : CompareCommand} {release : Release}
      (found : c.Finds (host.surroundings state) release) (noFile : c.output = none) :
      Ends host state (.compare c)
        { exitCode := c.exitCode release
          stdout := CompareCommand.outputLine (c.format.text release)
          stderr := CompareCommand.note release } state
  | written {c : CompareCommand} {release : Release} {path : String} {after : State}
      (found : c.Finds (host.surroundings state) release) (toFile : c.output = some path)
      (h : host.write state path (c.format.text release) = (true, after)) :
      Ends host state (.compare c)
        { exitCode := c.exitCode release, stderr := CompareCommand.note release } after
  | unwritten {c : CompareCommand} {release : Release} {path : String} {after : State}
      (found : c.Finds (host.surroundings state) release) (toFile : c.output = some path)
      (h : host.write state path (c.format.text release) = (false, after)) :
      Ends host state (.compare c) (.ofUnwritten path) after
  | listed {d : DiffCommand} {changes : List ClassifiedChange}
      (found : d.changes (host.surroundings state) = .ok changes) :
      Ends host state (.diff d)
        { stdout :=
            if d.asJson then (DiffCommand.toJson changes).pretty ++ "\n"
            else DiffCommand.listing changes } state

theorem run_of_ends (h : Ends host state command report after) :
    command.run host state = (report, after) := by
  cases h with
  | @failed command report h =>
      cases command with
      | compare c =>
          have failed := CompareCommand.release_eq_error_iff.mpr h
          simp [run, plan, CompareCommand.plan, failed, Plan.carryOut]
      | diff d =>
          have failed := DiffCommand.changes_eq_error_iff.mpr h
          simp [run, plan, DiffCommand.plan, failed, Plan.carryOut]
  | printed found noFile =>
      have released := CompareCommand.release_eq_ok_iff.mpr found
      simp [run, plan, CompareCommand.plan, released, noFile, Plan.carryOut]
  | written found toFile h | unwritten found toFile h =>
      have released := CompareCommand.release_eq_ok_iff.mpr found
      simp [run, plan, CompareCommand.plan, released, toFile, h, Plan.carryOut]
  | listed found => simp [run, plan, DiffCommand.plan, found, Plan.carryOut]

theorem exists_ends (host : Host State) (state : State) (command : Command) :
    ∃ report after, Ends host state command report after := by
  cases command with
  | compare c =>
      cases found : c.release (host.surroundings state) with
      | error report =>
          exact ⟨report, state, .failed (CompareCommand.release_eq_error_iff.mp found)⟩
      | ok release =>
          have found := CompareCommand.release_eq_ok_iff.mp found
          cases output : c.output with
          | none => exact ⟨_, _, .printed found output⟩
          | some path =>
              rcases h : host.write state path (c.format.text release) with ⟨_ | _, after⟩
              · exact ⟨_, _, .unwritten found output h⟩
              · exact ⟨_, _, .written found output h⟩
  | diff d =>
      cases found : d.changes (host.surroundings state) with
      | error report => exact ⟨report, state, .failed (DiffCommand.changes_eq_error_iff.mp found)⟩
      | ok changes => exact ⟨_, _, .listed found⟩

/-- A command ends in one way only. -/
theorem ends_of_run (h : command.run host state = (report, after)) :
    Ends host state command report after := by
  obtain ⟨_, _, ends⟩ := exists_ends host state command
  cases h.symm.trans (run_of_ends ends)
  exact ends

namespace Ends

theorem exitCode_eq_one_iff (h : Ends host state command report after) :
    report.exitCode = 1 ↔ command.NothingChanged host state after := by
  cases h with
  | @failed command report h =>
      have code : report.exitCode ≠ 1 := by
        rcases h.exitCode_eq_or with code | code <;> simp [code]
      refine iff_of_false code fun unchanged => ?_
      cases command with
      | compare c =>
          obtain ⟨_, ⟨older, newer, denote, none⟩, _⟩ := unchanged
          exact (CompareCommand.finds_of_unchanged denote none).not_fails h
      | diff d => exact unchanged
  | printed found noFile => simp [CompareCommand.exitCode_eq_one_iff found, NothingChanged, noFile]
  | written found toFile h =>
      rw [CompareCommand.exitCode_eq_one_iff found, NothingChanged]
      refine and_congr_right fun _ => iff_self_and.mpr fun _ path same => ?_
      cases toFile.symm.trans same
      exact ⟨_, found, h⟩
  | unwritten found toFile h =>
      refine iff_of_false (show (3 : UInt8) ≠ 1 by decide) ?_
      rintro ⟨_, _, written⟩
      obtain ⟨release, found', h'⟩ := written _ toFile
      cases found.unique found'
      cases h.symm.trans h'
  | listed found => exact iff_of_false (show (0 : UInt8) ≠ 1 by decide) id

theorem exitCode_eq_three_iff (h : Ends host state command report after) :
    report.exitCode = 3 ↔
      command.Unreached (host.surroundings state) ∨ command.Unwritten host state := by
  have reached {c : CompareCommand} {release : Release}
      (found : c.Finds (host.surroundings state) release) :
      ¬(Command.compare c).Unreached (host.surroundings state) := by
    obtain ⟨old, new, oldLoaded, newLoaded, _⟩ := found
    exact not_unreached_compare oldLoaded newLoaded
  have below {c : CompareCommand} {release : Release} : c.exitCode release ≠ 3 := by
    rcases c.exitCode_eq_or release with code | code <;> simp [code]
  cases h with
  | @failed command report h =>
      have written : ¬command.Unwritten host state := by
        cases command with
        | compare c =>
            rintro ⟨release, _, found, _⟩
            exact found.not_fails h
        | diff d => exact id
      rw [h.exitCode_eq_three_iff, or_iff_left written]
  | printed found noFile => simp [below, reached found, Unwritten, noFile]
  | written found toFile h =>
      refine iff_of_false below (not_or.mpr ⟨reached found, ?_⟩)
      rintro ⟨release, path, found', toFile', h'⟩
      cases found.unique found'
      cases toFile.symm.trans toFile'
      rw [h] at h'
      cases h'
  | unwritten found toFile h =>
      exact iff_of_true rfl (.inr ⟨_, _, found, toFile, congrArg Prod.fst h⟩)
  | listed found =>
      obtain ⟨older, newer, ⟨old, new, oldLoaded, newLoaded, _⟩, _⟩ :=
        DiffCommand.changes_eq_ok_iff.mp found
      have reached := not_unreached_diff oldLoaded newLoaded
      exact iff_of_false (show (0 : UInt8) ≠ 3 by decide) (by simp [reached, Unwritten])

/-- A comparison that does not fail hands out the text of its release, on the standard output or in
the file that has to take it. -/
theorem hands_out {c : CompareCommand} (h : Ends host state (.compare c) report after)
    (done : report.exitCode = 0 ∨ report.exitCode = 1) :
    ∃ release, c.Finds (host.surroundings state) release ∧
      (c.output = none →
        report.stdout = CompareCommand.outputLine (c.format.text release) ∧ after = state) ∧
      ∀ path, c.output = some path → report.stdout = "" ∧
        (host.Keeps path → (host.surroundings after).read path = .text (c.format.text release)) := by
  cases h with
  | failed h => rcases h.exitCode_eq_or with code | code <;> simp [code] at done
  | printed found noFile =>
      refine ⟨_, found, fun _ => ⟨rfl, rfl⟩, fun path toFile => ?_⟩
      cases noFile.symm.trans toFile
  | written found toFile h =>
      refine ⟨_, found, fun noFile => ?_, fun path same => ⟨rfl, fun keeps => ?_⟩⟩
      · cases noFile.symm.trans toFile
      · cases toFile.symm.trans same
        exact keeps _ _ _ h
  | unwritten => exact absurd done (show ¬((3 : UInt8) = 0 ∨ (3 : UInt8) = 1) by decide)

end Ends

end Ends

end Command

/-- Any paths, and one address on the web that answers. -/
def Host.shelf (answer : String) : Host (String → FileContent) where
  surroundings files :=
    { read := files
      fetch := some fun address =>
        if address = "https://example.com/schema.json" then some answer else none
      emptyMatch := Pattern.emptyMatch fun _ => true }
  write files path text := (true, Function.update files path (.text text))

end SchemaEvolution
