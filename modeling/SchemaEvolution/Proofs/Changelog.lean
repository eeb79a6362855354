import Mathlib
import SchemaEvolution.Pattern.BestEffort
import SchemaEvolution.Proofs.Lines
import SchemaEvolution.Proofs.Releases

/-! # The lines of a changelog

The changelog of a release has a bullet for each change, below the heading of its level. Each is a line
of the text as long as the sentences are on one line, and no longer: a name with a line feed in it
breaks the bullet that tells it.
-/

namespace SchemaEvolution

namespace Text

variable {text : String} {texts : List String}

/-- What stands between the line feeds of a text. -/
def parts (text : String) : List String := (text.toList.splitOn '\n').map String.ofList

def lines (text : String) : List String :=
  if (parts text).getLast? = some "" then (parts text).dropLast else parts text

def begins (start line : String) : Bool := start.toList.isPrefixOf line.toList

theorem length_splitOn (c : Char) (text : List Char) :
    (text.splitOn c).length = text.count c + 1 := by
  rw [List.splitOn_eq_splitOnP]
  induction text with
  | nil => rfl
  | cons first rest ih =>
      rw [List.splitOnP_cons_eq_if_modifyHead, List.count_cons]
      split_ifs with cut
      · rw [List.length_cons, ih]
      · rw [List.length_modifyHead, ih]

theorem parts_of_inline (inline : Inline text) : parts text = [text] := by
  have whole := List.splitOn_intercalate '\n' (List.forall_mem_singleton.mpr inline)
    (List.cons_ne_nil _ _)
  rw [List.intercalate_singleton] at whole
  rw [parts, whole, List.map_singleton, String.ofList_toList]

theorem length_parts : (parts text).length = text.toList.count '\n' + 1 := by
  rw [parts, List.length_map, length_splitOn]

theorem splitOn_lineFeed (text rest : List Char) :
    (text ++ '\n' :: rest).splitOn '\n' = text.splitOn '\n' ++ rest.splitOn '\n' := by
  simp only [List.splitOn_eq_splitOnP]
  exact List.splitOnP_append_cons text rest rfl

theorem lines_join_ended (texts : List String) :
    lines (String.join (texts.map (· ++ "\n"))) = texts.flatMap parts := by
  have cut : parts (String.join (texts.map (· ++ "\n"))) = texts.flatMap parts ++ [""] := by
    rw [parts, String.toList_join]
    induction texts with
    | nil => rfl
    | cons text texts ih =>
        have ended (rest : List Char) :
            (text ++ "\n").toList ++ rest = text.toList ++ '\n' :: rest := by
          simp
        rw [List.map_cons, List.flatMap_cons, ended, splitOn_lineFeed, List.map_append, ih,
          List.flatMap_cons, List.append_assoc]
        rfl
  rw [lines, cut, List.getLast?_concat, if_pos rfl, List.dropLast_concat]

theorem flatMap_parts_eq_iff : texts.flatMap parts = texts ↔ ∀ text ∈ texts, Inline text := by
  constructor
  · intro same
    have total : (texts.map fun text => text.toList.count '\n').sum = 0 := by
      have lengths := congrArg List.length same
      rw [List.length_flatMap] at lengths
      simp only [length_parts, List.sum_map_add, List.map_const', List.sum_replicate, smul_eq_mul,
        mul_one] at lengths
      omega
    intro text listed
    have none := List.sum_eq_zero_iff.mp total _ (List.mem_map_of_mem listed)
    exact List.count_eq_zero.mp none
  · intro inline
    induction texts with
    | nil => rfl
    | cons text texts ih =>
        obtain ⟨here, later⟩ := List.forall_mem_cons.mp inline
        rw [List.flatMap_cons, parts_of_inline here, ih later, List.singleton_append]

end Text

theorem perm_flatMap_filter {α κ : Type} [DecidableEq κ] {key : α → κ} {keys : List κ}
    {elements : List α} (distinct : keys.Nodup) (covered : ∀ e ∈ elements, key e ∈ keys) :
    (keys.flatMap fun k => elements.filter (key · == k)).Perm elements := by
  induction keys generalizing elements with
  | nil =>
      have empty : elements = [] :=
        List.eq_nil_iff_forall_not_mem.mpr fun e listed => List.not_mem_nil (covered e listed)
      rw [empty]
      exact .nil
  | cons k keys ih =>
      obtain ⟨fresh, distinct⟩ := List.nodup_cons.mp distinct
      have later : (keys.flatMap fun k' => elements.filter (key · == k')) =
          keys.flatMap fun k' => (elements.filter (!key · == k)).filter (key · == k') := by
        refine List.flatMap_congr fun k' listed => ?_
        rw [List.filter_filter]
        refine List.filter_congr fun e _ => ?_
        have other : k' ≠ k := fun same => fresh (same ▸ listed)
        by_cases here : key e = k' <;> simp [here, other]
      have others : ∀ e ∈ elements.filter (!key · == k), key e ∈ keys := by
        intro e listed
        obtain ⟨inside, outside⟩ := List.mem_filter.mp listed
        refine (List.mem_cons.mp (covered e inside)).resolve_left ?_
        simpa using outside
      rw [List.flatMap_cons, later]
      exact ((ih distinct others).append_left _).trans (List.filter_append_perm _ _)

namespace Severity

def proper : List Severity := [.model, .revision, .addition]

theorem mem_proper {severity : Severity} (some : severity ≠ .none) : severity ∈ proper := by
  cases severity with
  | none => exact absurd rfl some
  | addition | revision | model => decide

theorem countP_proper {severities : List Severity} (some : ∀ s ∈ severities, s ≠ .none) :
    proper.countP (· ∈ severities) = severities.dedup.length := by
  have same : (proper.filter (· ∈ severities)).Perm severities.dedup := by
    rw [List.perm_ext_iff_of_nodup (List.Nodup.filter _ (by decide)) (List.nodup_dedup _)]
    intro s
    rw [List.mem_filter, List.mem_dedup, decide_eq_true_eq]
    exact ⟨And.right, fun listed => ⟨mem_proper (some s listed), listed⟩⟩
  rw [List.countP_eq_length_filter, same.length_eq]

end Severity

theorem Version.inline_text (version : Version) : Text.Inline version.text := by
  have digits (n : UInt64) : '\n' ∉ componentDigits n := Decimal.lineFeed_not_mem_digits n.toNat
  rw [text, Text.inline_ofList, characters]
  simp [digits]

namespace Release

open Text

variable {release : Release} {severity : Severity} {heading : String}

section Level

theorem levelLines_eq : release.levelLines severity heading =
    if severity ∈ release.changes.map (·.severity) then
      ["", "### " ++ heading, ""] ++
        (release.changes.filter (·.severity == severity)).map fun entry => "- " ++ entry.change.text
    else [] := by
  unfold levelLines changesAt
  split
  · rename_i none
    rw [if_neg]
    intro listed
    obtain ⟨entry, inside, same⟩ := List.mem_map.mp listed
    exact List.filter_eq_nil_iff.mp none entry inside (beq_iff_eq.mpr same)
  · rename_i some
    rw [if_pos]
    obtain ⟨entry, listed⟩ := List.exists_mem_of_ne_nil _ some
    obtain ⟨inside, same⟩ := List.mem_filter.mp listed
    exact List.mem_map.mpr ⟨entry, inside, beq_iff_eq.mp same⟩

theorem inline_levelLines_iff (inline : Inline heading) :
    (∀ line ∈ release.levelLines severity heading, Inline line) ↔
      ∀ entry ∈ release.changesAt severity, Inline entry.change.text := by
  have title : Inline ("### " ++ heading) := inline_append.mpr ⟨by decide, inline⟩
  have empty : Inline "" := by decide
  have bullet : Inline "- " := by decide
  unfold levelLines
  split
  · rename_i none
    simp [none]
  · simp [title, empty, bullet, inline_append]

theorem countP_bullets_levelLines :
    (release.levelLines severity heading).countP (begins "- ") =
      (release.changesAt severity).length := by
  have title : begins "- " ("### " ++ heading) = false := by
    rw [begins, String.toList_append]
    rfl
  have empty : begins "- " "" = false := by decide
  have bullets (entries : List ClassifiedChange) :
      (entries.map fun entry => "- " ++ entry.change.text).countP (begins "- ") = entries.length := by
    rw [List.countP_map, List.countP_eq_length]
    intro entry _
    simp [begins]
  unfold levelLines
  split
  · rename_i none
    rw [none]
    rfl
  · simp [title, empty, bullets]

theorem countP_headings_levelLines :
    (release.levelLines severity heading).countP (begins "### ") =
      if severity ∈ release.changes.map (·.severity) then 1 else 0 := by
  have title : begins "### " ("### " ++ heading) = true := by simp [begins]
  have empty : begins "### " "" = false := by decide
  have bullets (entries : List ClassifiedChange) :
      (entries.map fun entry => "- " ++ entry.change.text).countP (begins "### ") = 0 := by
    rw [List.countP_map, List.countP_eq_zero]
    intro entry _
    simp [begins]
  rw [levelLines_eq]
  split_ifs with present
  · simp [title, empty, bullets]
  · rfl

end Level

def header (release : Release) : List String :=
  ["## Summary", "", "- Previous version: " ++ release.previous.text,
    "- New version: " ++ release.next.text, "- Change level: " ++ release.severity.name]

theorem summaryLines_eq (told : release.changes ≠ []) :
    release.summaryLines =
      release.header ++ levels.flatMap fun level => release.levelLines level.1 level.2 := by
  have changed : ¬release.isUnchanged = true := mt isUnchanged_iff.mp told
  rw [summaryLines, if_neg changed]
  rfl

theorem inline_header : ∀ line ∈ release.header, Inline line := by
  have name : Inline release.severity.name := by
    cases release.severity <;> decide
  simp +decide only [header, List.forall_mem_cons, inline_append, Version.inline_text, name,
    and_true]

theorem countP_bullets_header : release.header.countP (begins "- ") = 3 := by
  simp [header, begins]

theorem countP_headings_header : release.header.countP (begins "### ") = 0 := by
  simp [header, begins]

section Changes

variable (proper : ∀ entry ∈ release.changes, entry.severity ≠ .none)

include proper

theorem changesAt_perm :
    (levels.flatMap fun level => release.changesAt level.1).Perm release.changes := by
  have sorted := @perm_flatMap_filter _ _ _ (fun entry : ClassifiedChange => entry.severity)
    Severity.proper release.changes (by decide)
    fun entry listed => Severity.mem_proper (proper entry listed)
  exact sorted

/-- Each change has a bullet, and no more than one. -/
theorem countP_bullets :
    (levels.flatMap fun level => release.levelLines level.1 level.2).countP (begins "- ") =
      release.changes.length := by
  rw [← (changesAt_perm proper).length_eq, List.countP_flatMap, List.length_flatMap]
  simp only [Function.comp_def, countP_bullets_levelLines]

/-- Each severity among the changes has a heading, and no other has one. -/
theorem countP_headings :
    (levels.flatMap fun level => release.levelLines level.1 level.2).countP (begins "### ") =
      (release.changes.map (·.severity)).dedup.length := by
  have counted : Severity.proper.countP (· ∈ release.changes.map (·.severity)) = _ :=
    Severity.countP_proper (List.forall_mem_map.mpr proper)
  rw [← counted, List.countP_flatMap]
  simp only [Function.comp_def, countP_headings_levelLines, levels, Severity.proper, List.map_cons,
    List.map_nil, List.sum_cons, List.sum_nil, List.countP_cons, List.countP_nil, decide_eq_true_eq]
  omega

/-- The lines that are written are those of the text exactly if every sentence is on one line. -/
theorem lines_summary_eq_iff (told : release.changes ≠ []) :
    lines release.summary = release.summaryLines ↔
      ∀ entry ∈ release.changes, Inline entry.change.text := by
  have titles : ∀ level ∈ levels, Inline level.2 := by decide
  rw [summary, lines_join_ended, flatMap_parts_eq_iff, summaryLines_eq told,
    List.forall_mem_append, List.forall_mem_flatMap]
  constructor
  · rintro ⟨-, inline⟩ entry listed
    obtain ⟨heading, known⟩ : ∃ heading, (entry.severity, heading) ∈ levels := by
      have ranked : entry.severity ∈ levels.map (·.1) := Severity.mem_proper (proper entry listed)
      obtain ⟨level, known, same⟩ := List.mem_map.mp ranked
      exact ⟨level.2, same ▸ known⟩
    exact (inline_levelLines_iff (titles _ known)).mp (inline _ known) entry
      (List.mem_filter.mpr ⟨listed, beq_self_eq_true _⟩)
  · intro inline
    refine ⟨inline_header, ?_⟩
    intro level known
    rw [inline_levelLines_iff (titles _ known)]
    intro entry listed
    exact inline entry (List.mem_filter.mp listed).1

end Changes

end Release

/-- The changelog of a release with changes. No change is lost or repeated level by level, and the
lines of the text are the ones that are meant, a header and for each level with changes its heading
and a bullet for each change in order, exactly if no name that a change tells has a line feed. Then
there are three more bullets than changes and as many headings as severities. -/
theorem lines_of_changelog {engine : RuleEngine} {old new : Json} {version : Version}
    {release : Release} (compared : Release.compare engine old new version = .ok release)
    (told : release.changes ≠ []) :
    (Text.lines release.summary =
        ["## Summary", "", "- Previous version: " ++ version.text,
          "- New version: " ++ release.next.text,
          "- Change level: " ++ release.severity.name] ++
        ([(.model, "Model level"), (.revision, "Revision level"), (.addition, "Addition level")] :
          List (Severity × String)).flatMap (fun level =>
            if level.1 ∈ release.changes.map (·.severity) then
              ["", "### " ++ level.2, ""] ++
                (release.changes.filter (·.severity == level.1)).map
                  fun entry => "- " ++ entry.change.text
            else []) ↔
      ∀ entry ∈ release.changes, ∀ name ∈ entry.change.names, Text.Inline name) ∧
    ((∀ entry ∈ release.changes, ∀ name ∈ entry.change.names, Text.Inline name) →
      (Text.lines release.summary).countP (Text.begins "- ") = release.changes.length + 3 ∧
      (Text.lines release.summary).countP (Text.begins "### ") =
        (release.changes.map (·.severity)).dedup.length) ∧
    (([.model, .revision, .addition] : List Severity).flatMap fun severity =>
      release.changes.filter (·.severity == severity)).Perm release.changes := by
  obtain ⟨_, _, _, _, classified, start, _, _⟩ := Release.compare_eq_ok_iff.mp compared
  have rated := RuleEngine.classifyAll_eq_ok_iff.mp classified
  have proper : ∀ entry ∈ release.changes, entry.severity ≠ .none := fun entry listed =>
    Release.severity_ne_none rated _ (List.mem_map_of_mem listed)
  have written := Release.lines_summary_eq_iff proper told
  simp only [Change.inline_text_iff] at written
  refine ⟨?_, ?_, Release.changesAt_perm proper⟩
  · rw [← written, Release.summaryLines_eq told, Release.header, start]
    simp only [Release.levelLines_eq]
    rfl
  · intro inline
    rw [written.mpr inline, Release.summaryLines_eq told, List.countP_append, List.countP_append,
      Release.countP_bullets proper, Release.countP_headings proper, Release.countP_bullets_header,
      Release.countP_headings_header]
    omega

def described (description : String) (names : List String) : Json :=
  .object [("description", .string description),
    ("properties", .object (names.map fun name => (name, .object [])))]

/-- The release in which the description changes and a property comes. -/
def Release.ofDescribed (before after name : String) : Release where
  previous := ⟨1, 0, 0⟩
  next := ⟨1, 1, 0⟩
  severity := .revision
  changes :=
    [{ change := .modified [] .description (.string before) (.string after)
       severity := .addition },
      { change := .propertyAdded [.property name] (.object [])
          { required := false, additionalProperties := .allowed }
        severity := .revision }]

/-- A description with a line that looks like a bullet is told on one line. -/
theorem lines_of_changelog_described :
    let release := Release.ofDescribed "first" "first\n- second" "size"
    Release.compare { patterns := Pattern.bestEffort } (described "first" [])
        (described "first\n- second" ["size"]) ⟨1, 0, 0⟩ = .ok release ∧
      release.changes ≠ [] ∧
      (∀ entry ∈ release.changes, ∀ name ∈ entry.change.names, Text.Inline name) ∧
      (Text.lines release.summary).countP (Text.begins "- ") = 5 ∧
      (Text.lines release.summary).countP (Text.begins "### ") = 2 ∧
      Text.lines release.summary =
        ["## Summary", "", "- Previous version: 1-0-0", "- New version: 1-1-0",
          "- Change level: revision", "", "### Revision level", "",
          "- Optional property added at /size; " ++
            "additional properties were allowed in the previous schema",
          "", "### Addition level", "",
          "- Metadata keyword 'description' modified at / from \"first\" to \"first\\n- second\""] := by
  intro release
  have compared : Release.compare { patterns := Pattern.bestEffort } (described "first" [])
      (described "first\n- second" ["size"]) ⟨1, 0, 0⟩ = .ok release := rfl
  have told : release.changes ≠ [] := List.cons_ne_nil _ _
  have inline : ∀ entry ∈ release.changes, ∀ name ∈ entry.change.names, Text.Inline name := by
    decide
  obtain ⟨written, counted, -⟩ := lines_of_changelog compared told
  refine ⟨compared, told, inline, (counted inline).1, (counted inline).2, ?_⟩
  rw [written.mpr inline]
  decide +kernel

/-- A name that looks like a bullet behind a line feed is told as one more. -/
theorem bullets_of_broken_name :
    ∃ release, Release.compare { patterns := Pattern.bestEffort } (.object [])
        (.object [("properties", .object [("a\n- b", .object [])])]) ⟨1, 0, 0⟩ = .ok release ∧
      release.changes.length = 1 ∧
      (Text.lines release.summary).countP (Text.begins "- ") = 5 := by
  refine ⟨_, rfl, rfl, ?_⟩
  rw [Release.summary, Text.lines_join_ended]
  decide +kernel

end SchemaEvolution
