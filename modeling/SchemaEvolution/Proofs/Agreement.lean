import Mathlib
import SchemaEvolution.Proofs.Commands
import SchemaEvolution.Proofs.DistinctDocuments
import SchemaEvolution.Proofs.JsonTexts
import SchemaEvolution.Proofs.Records

/-! # Listings and releases

A listing goes by its own way through loading, decoding and classifying, in another order than a
release. Wherever the two agree on their sources and on the annotation keywords, the listing finds
the changes of the release, and a change that cannot be classified ends both with the same report.
Only the next version can fail behind that, and a listing has none. What the two print as JSON is
told by reading it back.
-/

namespace SchemaEvolution

theorem Text.trimEnd_append {text : List Char} {last : Char} (solid : isBlank last = false) :
    trimEnd (text ++ [last]) = text ++ [last] := by
  simp [trimEnd, solid]

theorem Json.exists_bracketed (left right : String) (level : Nat) (texts : List String) :
    ∃ body, bracketed left right level texts = body ++ right := by
  unfold bracketed
  split
  · exact ⟨_, rfl⟩
  · exact ⟨_, rfl⟩

theorem CompareCommand.outputLine_object (members : List (String × Json)) :
    outputLine (Json.object members).pretty = (Json.object members).pretty ++ "\n" := by
  obtain ⟨body, same⟩ := Json.exists_bracketed "\x7b" "\x7d" 0 (Json.indentedMembers 1 members)
  have text : (Json.object members).pretty = body ++ "\x7d" := same
  have last : (body ++ "\x7d").toList = body.toList ++ ['\x7d'] := String.toList_append
  have kept : Text.trimEnd (body.toList ++ ['\x7d']) = body.toList ++ ['\x7d'] :=
    Text.trimEnd_append (by decide)
  rw [text, outputLine, last, kept, ← last, String.ofList_toList]

theorem RuleEngine.ofAnnotations_congr {emptyMatch : Pattern.EmptyMatch} {left right : List String}
    (same : ∀ name, name ∈ left ↔ name ∈ right) :
    ofAnnotations emptyMatch left = ofAnnotations emptyMatch right := by
  have sets : NameSet.ofList left = NameSet.ofList right := by
    apply (NameSet.ordered_ofList left).ext (NameSet.ordered_ofList right)
    intro name
    rw [NameSet.mem_ofList, NameSet.mem_ofList, same]
  rw [ofAnnotations, ofAnnotations, sets]

theorem RuleEngine.exists_classifyAll_error {engine : RuleEngine} {changes : List Change}
    {change : Change} {cause : UnclassifiedError} (listed : change ∈ changes)
    (failed : engine.classify change = .error cause) :
    ∃ first, engine.classifyAll changes = .error first := by
  cases outcome : engine.classifyAll changes with
  | error first => exact ⟨first, rfl⟩
  | ok classified =>
      obtain ⟨severity, ok⟩ := exists_classifyAll_iff.mp ⟨classified, outcome⟩ change listed
      cases failed.symm.trans ok

theorem Release.overflow_of_classified {engine : RuleEngine} {old new : Json} {older newer : Node}
    {version : Version} {changes : List ClassifiedChange} {cause : CompareError}
    (oldDecoded : Node.decode old = .ok older) (newDecoded : Node.decode new = .ok newer)
    (classified : engine.classifyAll (older.diff newer) = .ok changes)
    (failed : compare engine old new version = .error cause) :
    ∃ component, cause = .version (.overflow version component) := by
  rw [compare_of_decode oldDecoded newDecoded, classified] at failed
  rcases bind_eq_error_iff.mp failed with failed | ⟨_, _, failed⟩
  · cases failed
  · obtain ⟨component, _, _, same⟩ := nextVersion_eq_error_iff.mp (error_of_return failed)
    exact ⟨component, same⟩

/-- A release and a listing of the same two sources, with the same annotation keywords. -/
structure Alongside (c : CompareCommand) (d : DiffCommand) : Prop where
  old : d.old = c.old
  new : d.new = c.new
  annotations : ∀ name, name ∈ d.annotations ↔ name ∈ c.annotations

namespace Alongside

variable {c : CompareCommand} {d : DiffCommand} {around : Surroundings} {release : Release}
  {changes : List ClassifiedChange}

theorem engine (h : Alongside c d) (emptyMatch : Pattern.EmptyMatch) :
    RuleEngine.ofAnnotations emptyMatch d.annotations =
      RuleEngine.ofAnnotations emptyMatch c.annotations :=
  RuleEngine.ofAnnotations_congr h.annotations

theorem changes_eq_ok_iff (h : Alongside c d) :
    d.changes around = .ok changes ↔ ∃ older newer, Denote around c.old c.new older newer ∧
      (RuleEngine.ofAnnotations around.emptyMatch c.annotations).classifyAll (older.diff newer) =
        .ok changes := by
  rw [DiffCommand.changes_eq_ok_iff, h.old, h.new, h.engine]

theorem changes_of_finds (h : Alongside c d) (found : c.Finds around release) :
    d.changes around = .ok release.changes :=
  h.changes_eq_ok_iff.mpr found.denote

/-- Where the listing finds changes they are released, unless the version cannot be raised. -/
theorem finds_of_changes (h : Alongside c d) (found : d.changes around = .ok changes) :
    (∃ release, c.Finds around release) ∨
      ∃ component, Command.Fails around (.compare c)
        (.ofCompareError (.version (.overflow c.version component))) := by
  obtain ⟨older, newer, ⟨old, new, oldLoaded, newLoaded, oldDecoded, newDecoded⟩, classified⟩ :=
    h.changes_eq_ok_iff.mp found
  cases compared : Release.compare (.ofAnnotations around.emptyMatch c.annotations) old new
      c.version with
  | ok release => exact .inl ⟨release, old, new, oldLoaded, newLoaded, compared⟩
  | error cause =>
      obtain ⟨component, rfl⟩ :=
        Release.overflow_of_classified oldDecoded newDecoded classified compared
      exact .inr ⟨component, .compare oldLoaded newLoaded compared⟩

/-- A change that cannot be classified ends both commands in the same way. -/
theorem fails_of_unclassified (h : Alongside c d) {older newer : Node} {cause : UnclassifiedError}
    (denote : Denote around c.old c.new older newer)
    (failed : (RuleEngine.ofAnnotations around.emptyMatch c.annotations).classifyAll
      (older.diff newer) = .error cause) :
    Command.Fails around (.compare c) (.ofCompareError (.unclassified cause)) ∧
      Command.Fails around (.diff d) (.ofCompareError (.unclassified cause)) := by
  constructor
  · obtain ⟨old, new, oldLoaded, newLoaded, oldDecoded, newDecoded⟩ := denote
    apply Command.Fails.compare oldLoaded newLoaded
    exact (Release.compare_eq_unclassified_iff oldDecoded newDecoded).mpr failed
  · rw [← h.engine] at failed
    rw [← h.old, ← h.new] at denote
    exact .classify denote failed

end Alongside

theorem CompareCommand.Finds.distinct_toJson {c : CompareCommand} {around : Surroundings}
    {release : Release} (found : c.Finds around release) : release.toJson.Distinct := by
  obtain ⟨old, new, oldLoaded, newLoaded, compared⟩ := found
  exact Release.distinct_toJson (Source.distinct_of_load oldLoaded)
    (Source.distinct_of_load newLoaded) compared

namespace Command

variable {State : Type} {host : Host State} {state after : State} {c : CompareCommand}
  {d : DiffCommand} {report : Report}

/-- A comparison that ends well without a file has printed its release. -/
theorem Ends.printed_of_exitCode (h : Ends host state (.compare c) report after)
    (noFile : c.output = none) (done : report.exitCode = 0) :
    ∃ release, c.Finds (host.surroundings state) release ∧
      report.stdout = CompareCommand.outputLine (c.format.text release) := by
  obtain ⟨release, found, printed, _⟩ := h.hands_out (.inl done)
  exact ⟨release, found, (printed noFile).1⟩

/-- A listing that ends well has found changes. -/
theorem Ends.listed_of_exitCode (h : Ends host state (.diff d) report after)
    (done : report.exitCode = 0) : ∃ changes, d.changes (host.surroundings state) = .ok changes := by
  cases h with
  | failed h => rcases h.exitCode_eq_or with code | code <;> simp [code] at done
  | listed found => exact ⟨_, found⟩

/-- A comparison that finds a release ends well, but for the exit codes that are asked for and for a
file that cannot be written. -/
theorem Ends.exitCode_of_finds (h : Ends host state (.compare c) report after) {release : Release}
    (found : c.Finds (host.surroundings state) release) :
    report.exitCode = 0 ∨ c.failIfUnchanged = true ∧ report.exitCode = 1 ∨
      (Command.compare c).Unwritten host state := by
  have told : c.exitCode release = 0 ∨ c.failIfUnchanged = true ∧ c.exitCode release = 1 := by
    rcases c.exitCode_eq_or release with zero | one
    · exact .inl zero
    · exact .inr ⟨((CompareCommand.exitCode_eq_one_iff found).mp one).1, one⟩
  cases h with
  | failed h => exact absurd h found.not_fails
  | printed found' | written found' =>
      cases found.unique found'
      exact told.imp_right .inl
  | unwritten found toFile h =>
      exact .inr (.inr ⟨_, _, found, toFile, congrArg Prod.fst h⟩)

/-- What a listing and a release of the same two documents have in common, with the same annotation
keywords, on any host. If the release is printed as a record with the exit code 0, the listing ends
so too, and the text that it prints denotes the array of changes in the record that the other text
denotes. If the listing ends with the exit code 0, so does the release, unless the version cannot be
raised, the release has to fail where nothing changed, or its file cannot be written. If both
documents denote schemas but some change between them cannot be classified, both end with the same
report, with the exit code 2 and nothing printed. -/
theorem listing_alongside_release {compared listed : Report} {after after' : State}
    (same : Alongside c d) (released : (Command.compare c).run host state = (compared, after))
    (ran : (Command.diff d).run host state = (listed, after')) :
    (c.format = .json → c.output = none → d.asJson = true → compared.exitCode = 0 →
      listed.exitCode = 0 ∧
      ∃ release changes, c.Finds (host.surroundings state) release ∧
        Json.Reader.exact.parse? compared.stdout = some release.toJson ∧
        release.toJson.member? "changes" = some (.array changes) ∧
        Json.Reader.exact.parse? listed.stdout = some (.array changes)) ∧
    (listed.exitCode = 0 →
      compared.exitCode = 0 ∨
      (compared.exitCode = 2 ∧
        ∃ component, compared = .ofCompareError (.version (.overflow c.version component))) ∨
      (c.failIfUnchanged = true ∧ compared.exitCode = 1) ∨
      (Command.compare c).Unwritten host state) ∧
    ∀ older newer, Denote (host.surroundings state) c.old c.new older newer →
      (∃ change ∈ older.diff newer, ∃ cause,
        (RuleEngine.ofAnnotations (host.surroundings state).emptyMatch c.annotations).classify
          change = .error cause) →
      listed = compared ∧ compared.exitCode = 2 ∧ compared.stdout = "" ∧
        ∃ cause, compared = .ofCompareError (.unclassified cause) := by
  refine ⟨?_, ?_, ?_⟩
  · intro json noFile asJson done
    obtain ⟨release, found, printed⟩ := (ends_of_run released).printed_of_exitCode noFile done
    have lists := run_of_ends (.listed (same.changes_of_finds found))
    have distinct := found.distinct_toJson
    have held : ("changes", DiffCommand.toJson release.changes) ∈
        [("previous", .string release.previous.text), ("next", .string release.next.text),
          ("severity", .string release.severity.name),
          ("changes", DiffCommand.toJson release.changes)] := by simp
    have changes : (DiffCommand.toJson release.changes).Distinct := distinct.member held
    cases ran.symm.trans lists
    refine ⟨rfl, release, release.changes.map ClassifiedChange.toJson, found, ?_, rfl, ?_⟩
    · rw [printed, json]
      exact (congrArg _ (CompareCommand.outputLine_object _)).trans (Json.parse?_pretty distinct)
    · rw [if_pos asJson]
      exact Json.parse?_pretty changes
  · intro done
    obtain ⟨changes, found⟩ := (ends_of_run ran).listed_of_exitCode done
    rcases same.finds_of_changes found with ⟨release, found⟩ | ⟨component, fails⟩
    · exact ((ends_of_run released).exitCode_of_finds found).imp_right .inr
    · cases released.symm.trans (run_of_ends (.failed fails))
      exact .inr (.inl ⟨rfl, component, rfl⟩)
  · rintro older newer denote ⟨change, listed, cause, failed⟩
    obtain ⟨first, failed⟩ := RuleEngine.exists_classifyAll_error listed failed
    obtain ⟨comparing, listing⟩ := same.fails_of_unclassified denote failed
    cases released.symm.trans (run_of_ends (.failed comparing))
    cases ran.symm.trans (run_of_ends (.failed listing))
    exact ⟨rfl, rfl, rfl, first, rfl⟩

/-- A keyword of display is declared among the annotations, in another order for the listing. One
document is a file, the other is on the web. -/
theorem listing_alongside_release_order :
    let host := Host.shelf "\x7b\"x-order\":true\x7d"
    let files : String → FileContent :=
      fun path => if path = "/tmp/old.json" then .text "\x7b\x7d" else .missing
    let c : CompareCommand :=
      { old := "/tmp/old.json", new := "https://example.com/schema.json", version := ⟨1, 0, 0⟩
        format := .json, annotations := ["x-order", "x-label"] }
    let d : DiffCommand :=
      { old := "/tmp/old.json", new := "https://example.com/schema.json"
        annotations := ["x-label", "x-order"], asJson := true }
    Alongside c d ∧ ∃ (compared listed : Report) (record entry : Json),
      (Command.compare c).run host files = (compared, files) ∧
        (Command.diff d).run host files = (listed, files) ∧ compared.exitCode = 0 ∧
        listed.exitCode = 0 ∧ Json.Reader.exact.parse? compared.stdout = some record ∧
        record.member? "changes" = some (.array [entry]) ∧
        Json.Reader.exact.parse? listed.stdout = some (.array [entry]) := by
  intro host files c d
  have alongside : Alongside c d :=
    { old := rfl, new := rfl, annotations := by simp [c, d, or_comm] }
  have oldLoaded : loadNamed (host.surroundings files) c.old = .ok (.object []) :=
    loadNamed_of_file (by decide +kernel) (by decide +kernel) rfl (by rfl)
  have newLoaded : loadNamed (host.surroundings files) c.new =
      .ok (.object [("x-order", .bool true)]) :=
    loadNamed_of_web (by decide +kernel) rfl rfl (by rfl)
  obtain ⟨release, compared, entry, single⟩ : ∃ release,
      Release.compare (.ofAnnotations (host.surroundings files).emptyMatch c.annotations)
        (.object []) (.object [("x-order", .bool true)]) c.version = .ok release ∧
          ∃ entry, release.changes = [entry] := ⟨_, rfl, _, rfl⟩
  have found : c.Finds (host.surroundings files) release :=
    ⟨_, _, oldLoaded, newLoaded, compared⟩
  have released := run_of_ends (.printed found rfl)
  have lists := run_of_ends (.listed (alongside.changes_of_finds found))
  have done : c.exitCode release = 0 := by simp [CompareCommand.exitCode, c]
  obtain ⟨ended, release', changes, found', printed, array, listed⟩ :=
    (listing_alongside_release alongside released lists).1 rfl rfl rfl done
  cases found.unique found'
  have changes_eq : changes = [entry.toJson] := by
    have same : release.toJson.member? "changes" =
        some (.array (release.changes.map ClassifiedChange.toJson)) := rfl
    rw [single] at same
    cases array.symm.trans same
    rfl
  subst changes_eq
  exact ⟨alongside, _, _, _, _, released, lists, done, ended, printed, array, listed⟩

end Command

end SchemaEvolution
