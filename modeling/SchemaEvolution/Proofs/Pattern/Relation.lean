import Mathlib
import SchemaEvolution.Proofs.Pattern.Anchors
import SchemaEvolution.Proofs.Pattern.Branches

/-! # The relation of two patterns is sound

The comparison gives a relation of two patterns only where the texts that they accept are related
so. It knows the branches by their texts alone, so where it goes by them two things are asked for:
the scan that cuts them is in step with the reading, and a branch text that stands in both patterns
stands under the same settings in both.
-/

namespace SchemaEvolution

namespace Pattern

section BranchTexts

def branchOf? (text : List Char) : Option Expr :=
  match Reading.run? (text.length + 2) (.start (text ++ ['|'])) with
  | some (.alternation (branch :: _)) => some branch
  | _ => none

def settingsPast (settings : Settings) (text : List Char) : Settings :=
  match branchOf? text with
  | some branch => branch.settingsAfter settings
  | none => settings

/-- The branch texts, each with the settings that it stands under. -/
def standing (settings : Settings) : List (List Char) → List (Settings × List Char)
  | [] => []
  | text :: rest => (settings, text) :: standing (settingsPast settings text) rest

/-- A branch text matches under the settings that it stands under. -/
def MatchesText (tables : CharTables) (entry : Settings × List Char) (start finish : Place) :
    Prop :=
  ∃ branch, branchOf? entry.2 = some branch ∧ branch.Matches tables entry.1 start finish

variable {tables : CharTables} {settings : Settings} {start finish : Place}

theorem IsBranch.branchOf? {text : List Char} {branch : Expr} (isBranch : IsBranch text branch) :
    branchOf? text = some branch := by
  have read : Reading.run? (text.length + 2) (.start (text ++ ['|'])) = _ :=
    isBranch.run? (by simp [Reading.start])
  simp only [Pattern.branchOf?, read]

theorem matches_ofBranches {exprs : List Expr} :
    (Expr.ofBranches exprs).Matches tables settings start finish ↔
      Expr.SomeMatch tables settings exprs start finish := by
  cases exprs with
  | nil => rfl
  | cons branch rest =>
      cases rest with
      | nil => simp [Expr.ofBranches, Expr.SomeMatch]
      | cons => rfl

theorem someMatch_iff_standing {texts : List (List Char)} {exprs : List Expr}
    (branches : List.Forall₂ IsBranch texts exprs) :
    Expr.SomeMatch tables settings exprs start finish ↔
      ∃ entry ∈ standing settings texts, MatchesText tables entry start finish := by
  induction branches generalizing settings with
  | nil => simp [Expr.SomeMatch, standing]
  | cons isBranch _ ih =>
      have known := isBranch.branchOf?
      simp only [Expr.SomeMatch, standing, List.exists_mem_cons_iff, settingsPast, known, ih]
      apply or_congr_left
      simp [MatchesText, known]

end BranchTexts

namespace Anchored

variable {tables : CharTables} {start finish : Place}

theorem stripLast?_eq_some {c : Char} {text body : List Char} :
    stripLast? c text = some body ↔ text = body ++ [c] := by
  unfold stripLast?
  constructor
  · intro stripped
    split_ifs at stripped with last
    cases stripped
    exact (List.dropLast_append_getLast? c last).symm
  · rintro rfl
    simp

theorem splitEnd_text (text : List Char) :
    (splitEnd text).2 ++ (if (splitEnd text).1 then ['$'] else []) = text := by
  unfold splitEnd
  cases stripped : stripLast? '$' text with
  | none => simp
  | some body =>
      dsimp only
      generalize (['\\', '$'].isSuffixOf text && !(['\\', '\\', '$'].isSuffixOf text)) = escaped
      cases escaped with
      | false => simpa using (stripLast?_eq_some.mp stripped).symm
      | true => simp

theorem ofPattern_text (pattern : List Char) : (ofPattern pattern).text = pattern := by
  unfold ofPattern text
  split
  rename_i atStart rest same
  dsimp only
  rw [List.append_assoc, splitEnd_text]
  split at same
  · cases same
    rfl
  · cases same
    rfl

/-- What stands before the body, the last part first, and what stands behind it. -/
def startParts (parts : Anchored) : List Expr :=
  if parts.atStart then [.assertion .lineStart] else []

def endText (parts : Anchored) : List Char := if parts.atEnd then ['$'] else []

theorem unwrapGroup?_eq_some {body inner : List Char} (unwrapped : unwrapGroup? body = some inner) :
    isBalanced inner = true ∧
      (body = '(' :: (inner ++ [')']) ∧ (∀ rest, inner ≠ '?' :: rest) ∨
        body = '(' :: '?' :: ':' :: (inner ++ [')'])) := by
  unfold unwrapGroup? at unwrapped
  split at unwrapped
  · rename_i rest
    split at unwrapped
    · cases unwrapped
    · rename_i whole stripped
      have text := stripLast?_eq_some.mp stripped
      split_ifs at unwrapped with unbalanced
      have balanced : isBalanced whole = true := by simpa using unbalanced
      split at unwrapped
      · cases unwrapped
        exact ⟨balanced, .inr (by rw [text]; rfl)⟩
      · cases unwrapped
      · rename_i capturing
        cases unwrapped
        exact ⟨balanced, .inl ⟨by rw [text], fun rest same => capturing rest same⟩⟩
  · cases unwrapped

/-- A group that keeps the settings around it. -/
def IsBare (kind : GroupKind) : Prop := kind = .captured none ∨ kind = .plain ⟨[], []⟩

theorem unwrapGroup?_reads {body inner : List Char} (unwrapped : unwrapGroup? body = some inner)
    (after : List Char) :
    ∃ kind, IsBare kind ∧
      Action.Reads false (body ++ after) (.opens kind) (inner ++ ')' :: after) := by
  obtain ⟨_, ⟨rfl, capturing⟩ | rfl⟩ := unwrapGroup?_eq_some unwrapped
  · refine ⟨.captured none, .inl rfl, ?_⟩
    have ahead : ∀ rest, inner ++ ')' :: after ≠ '?' :: rest := by
      intro rest same
      cases inner with
      | nil => cases same
      | cons c inner =>
          cases same
          exact capturing inner rfl
    have read : Action.ofGroup? false (inner ++ ')' :: after) = some (.opens (.captured none), _) :=
      Action.ofGroup?_eq_some.mpr (.inr (.inr ⟨ahead, rfl, rfl⟩))
    simpa using Action.Reads.group read
  · refine ⟨.plain ⟨[], []⟩, .inr rfl, ?_⟩
    have read : Action.ofGroup? false ('?' :: ':' :: (inner ++ ')' :: after)) =
        some (.opens (.plain ⟨[], []⟩), _) :=
      Action.ofGroup?_eq_some.mpr (.inr (.inl ⟨_, ⟨[], []⟩, ':', rfl, rfl, rfl⟩))
    simpa using Action.Reads.group read

/-- The group that is the whole body is opened behind the anchor, if there is one. -/
theorem opened {parts : Anchored} {expr : Expr} {inner : List Char}
    (run : Run (.start parts.text) expr) (inStep : isInStep parts.text = true)
    (unwrapped : unwrapGroup? parts.body = some inner) :
    ∃ kind, IsBare kind ∧
      Run ⟨[.group parts.startParts kind false], [], false, [], inner ++ ')' :: parts.endText⟩
        expr ∧
      ∃ fuel, inStepWithin fuel (inner ++ ')' :: parts.endText) = true := by
  have anchored : Run ⟨[], parts.startParts, false, [], parts.body ++ parts.endText⟩ expr ∧
      ∃ fuel, inStepWithin fuel (parts.body ++ parts.endText) = true := by
    obtain ⟨atStart, atEnd, body⟩ := parts
    cases atStart with
    | false => exact ⟨run, _, inStep⟩
    | true =>
        have reads : Action.Reads false ('^' :: (body ++ endText ⟨true, atEnd, body⟩))
          (.part (.assertion .lineStart)) _ := .single _ (by decide)
        obtain ⟨next, applies, run⟩ := run.onward rfl reads
        obtain ⟨_, _, _, _, inStep⟩ := inStepWithin_reads inStep reads
        cases applies
        exact ⟨run, inStep⟩
  obtain ⟨run, fuel, inStep⟩ := anchored
  obtain ⟨kind, bare, reads⟩ := unwrapGroup?_reads unwrapped parts.endText
  obtain ⟨next, applies, run⟩ := run.onward rfl reads
  obtain ⟨_, _, _, _, inStep⟩ := inStepWithin_reads inStep reads
  refine ⟨kind, bare, ?_, inStep⟩
  rcases bare with rfl | rfl <;> cases applies <;> exact run

def partsAround (parts : Anchored) (group : Expr) : List Expr :=
  parts.startParts ++ group :: if parts.atEnd then [.assertion .lineEnd] else []

theorem eq_partsAround {parts : Anchored} {group expr : Expr} {names : List String}
    (run : Run ⟨[], group :: parts.startParts, false, names, parts.endText⟩ expr) :
    expr = .ofParts (parts.partsAround group) := by
  obtain ⟨atStart, atEnd, body⟩ := parts
  cases atEnd with
  | false =>
      cases run.body_of_nil rfl
      cases atStart <;> rfl
  | true =>
      have reads : Action.Reads false ['$'] (.part (.assertion .lineEnd)) [] :=
        .single [] (by decide)
      obtain ⟨next, applies, run⟩ := run.onward rfl reads
      cases applies
      cases run.body_of_nil rfl
      cases atStart <;> rfl

theorem matches_partsAround {parts : Anchored} {kind : GroupKind} {body : Expr}
    (bare : IsBare kind) :
    Expr.MatchInTurn tables {} (parts.partsAround (.group kind body)) start finish ↔
      (parts.atStart = true → start.before = []) ∧ (parts.atEnd = true → finish.after = []) ∧
        body.Matches tables {} start finish := by
  have inside : Settings.inside {} kind = {} := by
    rcases bare with rfl | rfl <;> rfl
  obtain ⟨atStart, atEnd, text⟩ := parts
  cases atStart <;> cases atEnd <;>
    simp [partsAround, startParts, Expr.MatchInTurn, Expr.Matches, Expr.settingsAfter,
      Assertion.holds, inside, and_comm]

/-- What the body of a pattern matches, the pattern does between its anchors. -/
theorem matches_iff {parts : Anchored} {expr : Expr} {texts : List (List Char)}
    (run : Run (.start parts.text) expr) (inStep : isInStep parts.text = true)
    (cut : parts.branches? = some texts) :
    expr.Matches tables {} start finish ↔
      (parts.atStart = true → start.before = []) ∧ (parts.atEnd = true → finish.after = []) ∧
        ∃ entry ∈ standing {} texts, MatchesText tables entry start finish := by
  unfold branches? at cut
  split at cut
  · rename_i inner unwrapped
    cases cut
    obtain ⟨kind, bare, run, fuel, inStep⟩ := opened run inStep unwrapped
    have balanced := (unwrapGroup?_eq_some unwrapped).1
    have last : parts.endText = [] ∨ parts.endText = ['$'] := by
      unfold endText
      split_ifs <;> simp
    obtain ⟨exprs, branches, names, run⟩ := run.group_branches balanced last inStep
    rw [eq_partsAround run, Expr.matches_ofParts, matches_partsAround bare, matches_ofBranches,
      someMatch_iff_standing branches]
  · rename_i none
    split_ifs at cut with anchored
    cases cut
    obtain ⟨atStart, atEnd, body⟩ := parts
    obtain ⟨rfl, rfl⟩ : atStart = false ∧ atEnd = false := by simpa using anchored
    have text : Anchored.text ⟨false, false, body⟩ = body := List.append_nil body
    rw [text] at run inStep
    obtain ⟨exprs, branches, rfl⟩ := run.whole_branches inStep
    simp only [← someMatch_iff_standing branches, matches_ofBranches, reduceCtorEq, false_implies,
      true_and]

/-- The same body between at least the same anchors. -/
structure Narrows (narrow wide : Anchored) : Prop where
  body : narrow.body = wide.body
  atStart : wide.atStart = true → narrow.atStart = true
  atEnd : wide.atEnd = true → narrow.atEnd = true

theorem Narrows.run {narrow wide : Anchored} {expr : Expr} (narrows : narrow.Narrows wide)
    (run : Run (.start wide.text) expr) :
    ∃ expr', Run (.start narrow.text) expr' ∧ ∀ settings start finish,
      expr'.Matches tables settings start finish → expr.Matches tables settings start finish := by
  obtain ⟨atStart, atEnd, body⟩ := narrow
  obtain ⟨wideStart, wideEnd, _⟩ := wide
  obtain ⟨rfl, implies, implies'⟩ := narrows
  have before : ∃ expr', Run (.start (text ⟨atStart, wideEnd, body⟩)) expr' ∧
      ∀ settings start finish,
        expr'.Matches tables settings start finish → expr.Matches tables settings start finish := by
    cases wideStart with
    | true =>
        cases implies rfl
        exact ⟨expr, run, fun _ _ _ matched => matched⟩
    | false =>
        cases atStart with
        | false => exact ⟨expr, run, fun _ _ _ matched => matched⟩
        | true =>
            obtain ⟨expr', run', guarded⟩ := run.anchor_before
            exact ⟨expr', run', fun _ _ _ matched => guarded.matches matched⟩
  obtain ⟨expr', run', narrower⟩ := before
  cases wideEnd with
  | true =>
      cases implies' rfl
      exact ⟨expr', run', narrower⟩
  | false =>
      cases atEnd with
      | false => exact ⟨expr', run', narrower⟩
      | true =>
          obtain ⟨expr'', run'', trailed⟩ := run'.anchor_after
          refine ⟨expr'', ?_, fun _ _ _ matched => narrower _ _ _ (trailed.matches matched)⟩
          simpa [text] using run''

end Anchored

theorem Run.unique {text : List Char} {expr expr' : Expr} (run : Run (.start text) expr)
    (run' : Run (.start text) expr') : expr = expr' := by
  have read := run.run? (Nat.lt_succ_self _)
  have read' := run'.run? (Nat.lt_succ_self _)
  exact Option.some.inj (read.symm.trans read')

/-- Whether the texts that stand in both rows stand under the same settings in the other one. -/
def agrees (texts others : List (List Char)) : Bool :=
  (standing {} texts).all fun entry =>
    !others.contains entry.2 || (standing {} others).contains entry

/-- Whether the branches of two patterns can be told apart by their texts. -/
def isSeparable (old new : List Char) : Bool :=
  isInStep old && isInStep new &&
    match (Anchored.ofPattern old).branches?, (Anchored.ofPattern new).branches? with
    | some oldTexts, some newTexts => agrees oldTexts newTexts && agrees newTexts oldTexts
    | _, _ => true

section Accepts

variable {fits : SizeTest} {tables : CharTables} {first second : String} {firstExpr secondExpr : Expr}

theorem Expr.run_ofPattern {pattern : String} {expr : Expr}
    (valid : Expr.ofText? fits pattern = some expr) :
    Run (.start (Anchored.ofPattern pattern.toList).text) expr := by
  rw [Anchored.ofPattern_text]
  exact Expr.run_of_ofText? valid

theorem Anchored.Narrows.accepts (valid : Expr.ofText? fits first = some firstExpr)
    (valid' : Expr.ofText? fits second = some secondExpr)
    (narrows : (ofPattern first.toList).Narrows (ofPattern second.toList)) (text : String)
    (accepted : Accepts fits tables first text) : Accepts fits tables second text := by
  obtain ⟨expr', run', narrower⟩ := narrows.run (Expr.run_ofPattern valid')
  cases run'.unique (Expr.run_ofPattern valid)
  obtain ⟨_, same, start, finish, whole, matched⟩ := accepted
  cases valid.symm.trans same
  exact ⟨secondExpr, valid', start, finish, whole, narrower _ _ _ matched⟩

theorem mem_of_mem_standing {settings : Settings} {texts : List (List Char)}
    {entry : Settings × List Char} (member : entry ∈ standing settings texts) :
    entry.2 ∈ texts := by
  induction texts generalizing settings with
  | nil => cases member
  | cons text rest ih =>
      rcases List.mem_cons.mp member with rfl | member
      · exact List.mem_cons_self
      · exact List.mem_cons_of_mem _ (ih member)

theorem mem_standing_of_agrees {texts others : List (List Char)} {entry : Settings × List Char}
    (agree : agrees texts others = true) (kept : texts.all (others.contains ·) = true)
    (member : entry ∈ standing {} texts) : entry ∈ standing {} others := by
  have there := List.all_eq_true.mp kept _ (mem_of_mem_standing member)
  have same := List.all_eq_true.mp agree entry member
  simp only [there, Bool.not_true, Bool.false_or] at same
  exact List.contains_iff_mem.mp same

/-- A pattern between the same anchors that keeps all branches accepts all that the other does. -/
theorem accepts_of_kept {texts others : List (List Char)}
    (valid : Expr.ofText? fits first = some firstExpr) (valid' : Expr.ofText? fits second = some secondExpr)
    (inStep : isInStep first.toList = true) (inStep' : isInStep second.toList = true)
    (cut : (Anchored.ofPattern first.toList).branches? = some texts)
    (cut' : (Anchored.ofPattern second.toList).branches? = some others)
    (atStart :
      (Anchored.ofPattern first.toList).atStart = (Anchored.ofPattern second.toList).atStart)
    (atEnd : (Anchored.ofPattern first.toList).atEnd = (Anchored.ofPattern second.toList).atEnd)
    (agree : agrees texts others = true) (kept : texts.all (others.contains ·) = true)
    (text : String) (accepted : Accepts fits tables first text) : Accepts fits tables second text := by
  obtain ⟨_, same, start, finish, whole, matched⟩ := accepted
  cases valid.symm.trans same
  refine ⟨secondExpr, valid', start, finish, whole, ?_⟩
  rw [← Anchored.ofPattern_text first.toList] at inStep
  rw [← Anchored.ofPattern_text second.toList] at inStep'
  obtain ⟨before, after, entry, member, found⟩ :=
    (Anchored.matches_iff (Expr.run_ofPattern valid) inStep cut).mp matched
  rw [Anchored.matches_iff (Expr.run_ofPattern valid') inStep' cut', ← atStart, ← atEnd]
  exact ⟨before, after, entry, mem_standing_of_agrees agree kept member, found⟩

end Accepts

section Comparison

/-- Whether a text is a valid pattern that matches everything by its text. -/
def matchesAll (fits : SizeTest) (pattern : String) : Bool :=
  (emptyMatch fits pattern).any (matchesEverything pattern.toList)

/-- Whether the relation of two valid patterns is told by their branches. -/
def isBranchwise (fits : SizeTest) (old new : String) : Bool :=
  old != new && !matchesAll fits old && !matchesAll fits new &&
    (Anchored.ofPattern old.toList).body != (Anchored.ofPattern new.toList).body

variable {fits : SizeTest} {tables : CharTables} {old new : String} {relation : Restrictiveness}

theorem holds_of_accepts
    (keeps : relation ≠ .stricter → ∀ text, Accepts fits tables old text → Accepts fits tables new text)
    (adds : relation ≠ .looser → ∀ text, Accepts fits tables new text → Accepts fits tables old text) :
    relation.Holds fits tables old new := by
  cases relation with
  | looser => exact keeps (by simp)
  | stricter => exact adds (by simp)
  | equivalent => exact fun text => ⟨keeps (by simp) text, adds (by simp) text⟩

theorem Anchored.compare?_narrows {old new : Anchored} (body : old.body = new.body)
    (decided : old.compare? new = some relation) :
    (relation ≠ .stricter → old.Narrows new) ∧ (relation ≠ .looser → new.Narrows old) := by
  have keeps (added : ((!old.atStart && new.atStart) || (!old.atEnd && new.atEnd)) = false) :
      old.Narrows new := by
    obtain ⟨atStart, atEnd⟩ := Bool.or_eq_false_iff.mp added
    exact ⟨body, fun held => by simpa [held] using atStart, fun held => by simpa [held] using atEnd⟩
  have adds (dropped : ((old.atStart && !new.atStart) || (old.atEnd && !new.atEnd)) = false) :
      new.Narrows old := by
    obtain ⟨atStart, atEnd⟩ := Bool.or_eq_false_iff.mp dropped
    exact ⟨body.symm, fun held => by simpa [held] using atStart,
      fun held => by simpa [held] using atEnd⟩
  unfold compare? at decided
  dsimp only at decided
  split at decided
  · rename_i _ added
    cases decided
    exact ⟨fun _ => keeps added, fun tightens => absurd rfl tightens⟩
  · rename_i dropped _
    cases decided
    exact ⟨fun loosens => absurd rfl loosens, fun _ => adds dropped⟩
  · rename_i dropped added
    exact ⟨fun _ => keeps added, fun _ => adds dropped⟩
  · cases decided

theorem compareBranches?_kept {old new : List (List Char)}
    (decided : compareBranches? old new = some relation) :
    (relation ≠ .stricter → old.all (new.contains ·) = true) ∧
      (relation ≠ .looser → new.all (old.contains ·) = true) := by
  unfold compareBranches? at decided
  dsimp only at decided
  split at decided <;> cases decided <;> simp_all

theorem compareParts?_holds {oldExpr newExpr : Expr} (valid : Expr.ofText? fits old = some oldExpr)
    (valid' : Expr.ofText? fits new = some newExpr)
    (decided : compareParts? (.ofPattern old.toList) (.ofPattern new.toList) = some relation)
    (separable : (Anchored.ofPattern old.toList).body ≠ (Anchored.ofPattern new.toList).body →
      isSeparable old.toList new.toList = true) :
    relation.Holds fits tables old new := by
  unfold compareParts? at decided
  split_ifs at decided with same anchors
  · obtain ⟨keeps, adds⟩ := Anchored.compare?_narrows same decided
    exact holds_of_accepts (fun loosens => (keeps loosens).accepts valid valid')
      (fun tightens => (adds tightens).accepts valid' valid)
  · obtain ⟨oldTexts, cut, decided⟩ := Option.bind_eq_some_iff.mp decided
    obtain ⟨newTexts, cut', decided⟩ := Option.bind_eq_some_iff.mp decided
    obtain ⟨keeps, adds⟩ := compareBranches?_kept decided
    obtain ⟨atStart, atEnd⟩ :
        (Anchored.ofPattern old.toList).atStart = (Anchored.ofPattern new.toList).atStart ∧
          (Anchored.ofPattern old.toList).atEnd = (Anchored.ofPattern new.toList).atEnd := by
      simpa using anchors
    have told := separable same
    simp only [isSeparable, cut, cut', Bool.and_eq_true] at told
    obtain ⟨⟨inStep, inStep'⟩, agree, agree'⟩ := told
    apply holds_of_accepts
    · intro loosens
      exact accepts_of_kept valid valid' inStep inStep' cut cut' atStart atEnd agree (keeps loosens)
    · intro tightens
      exact accepts_of_kept valid' valid inStep' inStep cut' cut atStart.symm atEnd.symm agree'
        (adds tightens)

/-- A relation that the comparison gives holds of the texts that the patterns accept. -/
theorem compare?_holds (decided : compare? (emptyMatch fits) old new = some relation)
    (separable : isBranchwise fits old new = true → isSeparable old.toList new.toList = true) :
    relation.Holds fits tables old new := by
  unfold compare? at decided
  split_ifs at decided with same
  · cases decided
    cases same
    exact fun text => Iff.rfl
  · split at decided
    · rename_i oldEmpty newEmpty foundOld foundNew
      obtain ⟨oldExpr, valid, rfl⟩ := Option.map_eq_some_iff.mp foundOld
      obtain ⟨newExpr, valid', rfl⟩ := Option.map_eq_some_iff.mp foundNew
      split at decided
      · rename_i everything everything'
        cases decided
        exact fun text => ⟨fun _ => accepts_of_matchesEverything valid' everything' text,
          fun _ => accepts_of_matchesEverything valid everything text⟩
      · rename_i everything'
        cases decided
        exact fun text _ => accepts_of_matchesEverything valid' everything' text
      · rename_i everything _
        cases decided
        exact fun text _ => accepts_of_matchesEverything valid everything text
      · rename_i few few'
        apply compareParts?_holds valid valid' decided
        intro bodies
        apply separable
        simp [isBranchwise, matchesAll, foundOld, foundNew, few, few', same, bodies]
    · cases decided

/-- Tables that know the two cases of the letters of ASCII, and no property. -/
def CharTables.ascii : CharTables where
  SameLetter a b := a.toLower = b.toLower
  HasProperty _ _ := False

theorem compare?_holds_colors :
    let fits : SizeTest := fun _ => true
    compare? (emptyMatch fits) "^(red|green)$" "^(red|green|blue)$" = some .looser ∧
      isSeparable "^(red|green)$".toList "^(red|green|blue)$".toList = true ∧
      Restrictiveness.looser.Holds fits .ascii "^(red|green)$" "^(red|green|blue)$" := by
  intro fits
  have decided :
      compare? (emptyMatch fits) "^(red|green)$" "^(red|green|blue)$" = some .looser := by
    decide +kernel
  have separable : isSeparable "^(red|green)$".toList "^(red|green|blue)$".toList = true := by
    decide +kernel
  exact ⟨decided, separable, compare?_holds decided fun _ => separable⟩

end Comparison

section AcrossBranches

/-! A directive holds on in the branches behind it, but their texts do not show it. -/

variable {fits : SizeTest}

def letterExpr (c : Char) : Expr := .literal { char := c }

/-- A letter behind a directive that makes case mean nothing from there on. -/
def anyCaseExpr (c : Char) : Expr := .concat [.flags ⟨[.caseInsensitive], []⟩, letterExpr c]

theorem Expr.ofText?_eq {pattern : String} {expr : Expr}
    (parsed : Expr.parse? pattern.toList = some expr) (sound : expr.isSound {} = true)
    (small : fits expr = true) : Expr.ofText? fits pattern = some expr := by
  simp [Expr.ofText?, parsed, sound, small]

/-- The comparison takes the branches for the same, but only the old pattern has its branch in any
case. -/
theorem compare?_directive :
    let fits : SizeTest := fun _ => true
    compare? (emptyMatch fits) "(?i)a|b" "b|(?i)a|c" = some .looser ∧
      ¬Restrictiveness.looser.Holds fits .ascii "(?i)a|b" "b|(?i)a|c" := by
  intro fits
  have first : Expr.ofText? fits "(?i)a|b" =
      some (.alternation [anyCaseExpr 'a', letterExpr 'b']) := Expr.ofText?_eq rfl rfl rfl
  have later : Expr.ofText? fits "b|(?i)a|c" =
      some (.alternation [letterExpr 'b', anyCaseExpr 'a', letterExpr 'c']) :=
    Expr.ofText?_eq rfl rfl rfl
  constructor
  · unfold compare? emptyMatch
    rw [first, later]
    decide +kernel
  · intro holds
    have accepted : Accepts fits .ascii "(?i)a|b" "B" := by
      refine ⟨_, first, ⟨[], ['B']⟩, ⟨['B'], []⟩, rfl, .inr (.inl ?_)⟩
      have same : 'b'.toLower = 'B'.toLower := by decide
      exact ⟨'B', [], rfl, .inr ⟨rfl, 'b', rfl, same⟩, rfl⟩
    obtain ⟨_, valid, start, finish, whole, matched⟩ := holds "B" accepted
    cases later.symm.trans valid
    have passed {test : Char → Prop} {finish : Place} (passes : start.Passes test finish) :
        test 'B' := by
      obtain ⟨c, rest, ahead, holds, -⟩ := passes
      have member : c ∈ start.text := by simp [Place.text, ahead]
      rw [whole] at member
      cases List.mem_singleton.mp member
      exact holds
    rcases matched with first | ⟨_, rfl, _, second, -⟩ | third | none
    · rcases passed first with same | ⟨off, -⟩
      · exact absurd same (by decide)
      · cases off
    · rcases passed second with same | ⟨-, d, rfl, same⟩
      · exact absurd same (by decide)
      · exact absurd (show 'a'.toLower = 'B'.toLower from same) (by decide)
    · rcases passed third with same | ⟨-, d, rfl, same⟩
      · exact absurd same (by decide)
      · exact absurd (show 'c'.toLower = 'B'.toLower from same) (by decide)
    · cases none

end AcrossBranches

end Pattern

end SchemaEvolution
