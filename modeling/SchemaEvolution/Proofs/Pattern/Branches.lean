import Mathlib
import SchemaEvolution.Proofs.Pattern.Everywhere
import SchemaEvolution.Proofs.Pattern.InStep

/-! # A pattern read branch by branch

Where the scan is in step with the reading, the texts that it cuts are the texts of the branches.
Each branch reads the same on its own, so a pattern is the alternation of what its branch texts
denote.
-/

namespace SchemaEvolution

namespace Pattern

/-- Several branches as one pattern. -/
def Expr.ofBranches : List Expr → Expr
  | [branch] => branch
  | branches => .alternation branches

/-- The text denotes the branch where a bar comes behind it. -/
def IsBranch (text : List Char) (branch : Expr) : Prop :=
  Run (.start (text ++ ['|'])) (.alternation [branch, .empty])

section Levels

/-- The groups that are open within a branch, and their alternations. -/
inductive Nested : Nat → List Frame → Prop
  | none : Nested 0 []
  | group {depth : Nat} {frames : List Frame} (before : List Expr) (kind : GroupKind)
      (nested : Nested depth frames) : Nested (depth + 1) (.group before kind false :: frames)
  | branches {depth : Nat} {frames : List Frame} (ended before : List Expr) (kind : GroupKind)
      (nested : Nested depth frames) :
      Nested (depth + 1) (.branches ended :: .group before kind false :: frames)

/-- What is open at a level with some ended branches, the last one first. -/
def levelFrames (outer : List Frame) : List Expr → List Frame
  | [] => outer
  | ended => .branches ended :: outer

/-- Where a level ends: at the end of the pattern, or at the end of a group that at most an anchor
comes behind. -/
inductive Closing : List Frame → List Char → Int → List Char → Prop
  | pattern (depth : Int) (text : List Char) : Closing [] [] depth text
  | group (before : List Expr) (kind : GroupKind) {after text : List Char} {depth : Int}
      (last : after = [] ∨ after = ['$']) (balanced : isBalancedFrom (.level depth) text = true) :
      Closing [.group before kind false] (')' :: after) depth text

variable {outer : List Frame} {parts : List Expr} {names : List String}

theorem Closing.apart {tail text : List Char} {depth : Int}
    (closing : Closing outer tail depth text) (ended : List Expr) (frames : List Frame) :
    outer ≠ .branches ended :: frames := by
  cases closing <;> simp

theorem Action.Applies.bar_level {ended : List Expr} {rest : List Char} {next : Reading}
    (apart : ∀ ended frames, outer ≠ .branches ended :: frames)
    (applies : Action.bar.Applies ⟨levelFrames outer ended, parts, false, names, rest⟩ next) :
    next = ⟨levelFrames outer (.ofParts parts.reverse :: ended), [], false, names, rest⟩ := by
  cases applies
  cases ended with
  | nil =>
      unfold Reading.endBranch
      split
      · exact absurd ‹_› (apart _ _)
      · rfl
  | cons => rfl

theorem Reading.body_level (apart : ∀ ended frames, outer ≠ .branches ended :: frames)
    (ended : List Expr) (rest : List Char) :
    (Reading.mk (levelFrames outer ended) parts false names rest).body =
      (.ofBranches (ended.reverse ++ [.ofParts parts.reverse]), outer) := by
  cases ended with
  | nil =>
      unfold Reading.body
      split
      · exact absurd ‹_› (apart _ _)
      · rfl
  | cons branch ended =>
      have several : ∀ only, (branch :: ended).reverse ++ [.ofParts parts.reverse] ≠ [only] := by
        intro only same
        simpa using congrArg List.length same
      rw [Expr.ofBranches.eq_2 _ several]
      simp [Reading.body, levelFrames, Reading.branch]

/-- An action within a branch leaves alone what is open around the branch, and it does the same
where nothing is. -/
theorem Nested.applies {depth : Nat} {inner around : List Frame} {rest : List Char}
    {action : Action} {next : Reading} (nested : Nested depth inner)
    (applies : action.Applies ⟨inner ++ around, parts, false, names, rest⟩ next)
    (solid : action.ignores = false) (within : depth = 0 → action ≠ .bar ∧ action ≠ .closes) :
    ∃ depth' inner' parts' names', Nested depth' inner' ∧
      (depth' : Int) = depth + action.depthChange ∧
      next = ⟨inner' ++ around, parts', false, names', rest⟩ ∧
      ∀ known ⊆ names, ∀ ahead, ∃ known' ⊆ names',
        action.Applies ⟨inner, parts, false, known, ahead⟩
          ⟨inner', parts', false, known', ahead⟩ := by
  cases applies with
  | part piece =>
      exact ⟨depth, inner, _, names, nested, (add_zero _).symm, rfl,
        fun known subset ahead => ⟨known, subset, .part piece⟩⟩
  | bar =>
      cases nested with
      | none => exact absurd rfl (within rfl).1
      | group before kind nested =>
          exact ⟨_, _, [], names, .branches [.ofParts parts.reverse] before kind nested,
            (add_zero _).symm, rfl, fun known subset ahead => ⟨known, subset, .bar⟩⟩
      | branches ended before kind nested =>
          exact ⟨_, _, [], names, .branches (.ofParts parts.reverse :: ended) before kind nested,
            (add_zero _).symm, rfl, fun known subset ahead => ⟨known, subset, .bar⟩⟩
  | @opens kind fresh =>
      refine ⟨depth + 1, _, [], kind.names ++ names, .group parts kind nested, ?_, ?_, ?_⟩
      · simp [Action.depthChange]
      · change kind.ignores false = false at solid
        simp [solid]
      · intro known subset ahead
        refine ⟨kind.names ++ known, ?_, ?_⟩
        · exact List.append_subset.mpr
            ⟨List.subset_append_left _ _, List.subset_append_of_subset_right _ subset⟩
        · have opened : Action.Applies ⟨inner, parts, false, known, ahead⟩ (.opens kind) _ :=
            .opens fun name member taken => fresh name member (subset taken)
          rwa [show kind.ignores false = false from solid] at opened
  | closes opened =>
      cases nested with
      | none => exact absurd rfl (within rfl).2
      | group before kind nested =>
          cases opened
          exact ⟨_, _, _, names, nested, by simp [Action.depthChange], rfl,
            fun known subset ahead => ⟨known, subset, .closes rfl⟩⟩
      | branches ended before kind nested =>
          cases opened
          exact ⟨_, _, _, names, nested, by simp [Action.depthChange], rfl,
            fun known subset ahead => ⟨known, subset, .closes rfl⟩⟩
  | repeats min max greedy same full plain =>
      exact ⟨depth, inner, _, names, nested, (add_zero _).symm, rfl,
        fun known subset ahead => ⟨known, subset, .repeats min max greedy same full plain⟩⟩
  | directive change =>
      change change.ignores false = false at solid
      refine ⟨depth, inner, .flags change :: parts, names, nested, (add_zero _).symm, ?_, ?_⟩
      · simp [solid]
      intro known subset ahead
      have directed : Action.Applies ⟨inner, parts, false, known, ahead⟩ (.directive change) _ :=
        .directive change
      rw [show change.ignores false = false from solid] at directed
      exact ⟨known, subset, directed⟩

end Levels

section Ends

def Frame.isGroup : Frame → Bool
  | .group _ _ _ => true
  | .branches _ => false

variable {reading next : Reading} {expr : Expr}

theorem Action.Applies.stays_open {action : Action} (applies : action.Applies reading next)
    (inner : action ≠ .closes) (opened : reading.frames.any Frame.isGroup = true) :
    next.frames.any Frame.isGroup = true := by
  cases applies with
  | closes => exact absurd rfl inner
  | bar =>
      unfold Reading.endBranch
      split
      · rename_i same
        simpa [same, Frame.isGroup] using opened
      · simpa [Frame.isGroup] using opened
  | opens => simp [Frame.isGroup]
  | part | repeats | directive => exact opened

theorem Run.body_of_nil (run : Run reading expr) (ended : reading.rest = []) :
    reading.body = (expr, []) := by
  cases run with
  | done _ whole => exact whole
  | step reads =>
      have shorter := reads.past_blanks.2
      rw [ended] at shorter
      cases shorter

theorem Run.onward {action : Action} {rest : List Char} (run : Run reading expr)
    (counts : reading.ignore = false) (reads : Action.Reads false reading.rest action rest) :
    ∃ next, action.Applies { reading with rest } next ∧ Run next expr := by
  cases run with
  | done ended =>
      rw [counts] at ended
      change reading.rest = [] at ended
      rw [ended] at reads
      cases reads
  | @step _ next action' rest' _ reads' applies run =>
      rw [counts] at reads'
      have same := (Action.reads_iff.mpr reads).symm.trans (Action.reads_iff.mpr reads')
      cases same
      exact ⟨next, applies, run⟩

theorem Run.rest_ne_nil (run : Run reading expr)
    (opened : reading.frames.any Frame.isGroup = true) : reading.rest ≠ [] := by
  intro ended
  have whole := run.body_of_nil ended
  unfold Reading.body at whole
  split at whole
  · rename_i same
    cases whole
    simp [same, Frame.isGroup] at opened
  · have none := congrArg Prod.snd whole
    dsimp only at none
    rw [none] at opened
    cases opened

theorem Run.rest_ne_anchor (run : Run reading expr) (counts : reading.ignore = false)
    (opened : reading.frames.any Frame.isGroup = true) : reading.rest ≠ ['$'] := by
  intro anchor
  have reads : Action.Reads false ['$'] (.part (.assertion .lineEnd)) [] :=
    .single [] (by decide)
  obtain ⟨next, applies, run⟩ := run.onward counts (anchor ▸ reads)
  exact run.rest_ne_nil (applies.stays_open (by simp) opened) applies.rest_eq

end Ends

section Pieces

variable {outer : List Frame} {tail text rest piece : List Char} {depth : Int} {action : Action}
  {reading next : Reading} {expr : Expr}

theorem Closing.ended_tail (closing : Closing outer tail depth text) : Ended tail := by
  cases closing with
  | pattern => exact .nil
  | group before kind last balanced =>
      intro c rest same
      cases same
      simp [stops]

theorem Closing.along (closing : Closing outer tail depth (piece ++ text))
    (scanned : action.isScannedAs piece = true) :
    Closing outer tail (depth + action.depthChange) text := by
  cases closing with
  | pattern => exact .pattern _ _
  | group before kind last balanced =>
      apply Closing.group before kind last
      rw [← Action.along_of_isScannedAs scanned]
      exact isBalancedFrom_append balanced

theorem Closing.not_closes {parts ended : List Expr} {names : List String} {ahead : List Char}
    (closing : Closing outer tail 0 text) (started : text ≠ [])
    (reads : Action.Reads false (text ++ tail) action rest)
    (applies : action.Applies ⟨levelFrames outer ended, parts, false, names, ahead⟩ next) :
    action ≠ .closes := by
  rintro rfl
  cases closing with
  | pattern =>
      cases applies with
      | closes opened =>
          rw [Reading.body_level (by simp)] at opened
          cases opened
  | group before kind last balanced =>
      cases text with
      | nil => exact started rfl
      | cons c text =>
          cases reads.closes_inv
          cases balanced

theorem Closing.depth_eq_zero {inner : List Frame} {ended : List Expr} {open_ : Nat}
    (closing : Closing outer tail open_ []) (nested : Nested open_ inner) (run : Run reading expr)
    (frames : reading.frames = inner ++ levelFrames outer ended) (atEnd : reading.rest = tail) :
    open_ = 0 := by
  cases closing with
  | pattern =>
      cases nested with
      | none => rfl
      | group | branches => exact absurd atEnd (run.rest_ne_nil (by simp [frames, Frame.isGroup]))
  | group before kind last balanced =>
      have zero : (open_ : Int) = 0 := by simpa [isBalancedFrom, Scan.level] using balanced
      exact_mod_cast zero

/-- No piece goes from within a level over its end: the group would stay open. -/
theorem Closing.piece_within {inner : List Frame} {ended : List Expr}
    (closing : Closing outer tail depth text) (started : text ≠ [])
    (same : text ++ tail = piece ++ rest) (reads : Action.Reads false (text ++ tail) action rest)
    (applies : action.Applies { reading with rest } next) (run : Run next expr)
    (counts : next.ignore = false) (frames : reading.frames = inner ++ levelFrames outer ended) :
    ∃ text', text = piece ++ text' ∧ rest = text' ++ tail := by
  rcases List.append_eq_append_iff.mp same with ⟨beyond, rfl, onward⟩ | ⟨text', rfl, rfl⟩
  · cases beyond with
    | nil => exact ⟨[], by simp, onward.symm⟩
    | cons c beyond =>
        exfalso
        have shorter : (text ++ tail).length ≠ rest.length + 1 := by
          have : 0 < text.length := List.length_pos_iff.mpr started
          rw [onward]
          simp only [List.length_append, List.length_cons]
          omega
        have inside : action ≠ .closes := by
          rintro rfl
          exact shorter (congrArg List.length reads.closes_inv)
        cases closing with
        | pattern => cases onward
        | group before kind last balanced =>
            have opened : next.frames.any Frame.isGroup = true := by
              apply applies.stays_open inside
              cases ended <;> simp [frames, levelFrames, Frame.isGroup]
            have ahead : next.rest = rest := applies.rest_eq
            cases onward
            rcases last with last | last
            · obtain ⟨-, rfl⟩ := List.append_eq_nil_iff.mp last
              exact run.rest_ne_nil opened ahead
            · rcases List.append_eq_singleton_iff.mp last with ⟨-, rfl⟩ | ⟨-, rfl⟩
              · exact run.rest_ne_anchor counts opened ahead
              · exact run.rest_ne_nil opened ahead
  · exact ⟨text', rfl, rfl⟩

/-- A piece of the first branch reads the same where a bar comes behind that branch. -/
theorem Action.Reads.before_bar {first : List Char} {others : List (List Char)} {scan : Scan}
    (reads : Reads false (piece ++ (text ++ tail)) action (text ++ tail)) (ended : Ended tail)
    (cut : branchesFrom scan text = first :: others) :
    Reads false (piece ++ (first ++ ['|'])) action (first ++ ['|']) := by
  obtain ⟨after, rfl, ends⟩ := branchesFrom_front cut
  rw [List.append_assoc] at reads
  have tails : Tails false (after ++ tail) ['|'] := by
    refine ⟨?_, ?_, by simp, by simp⟩
    · rcases ends with rfl | ⟨rest, rfl⟩
      · exact ended
      · intro c rest same
        cases same
        simp [stops]
    · intro c rest same
      cases same
      simp [stops]
  have swapped : Swapped false (after ++ tail) ['|'] _ _ := .append _ _ (piece ++ first)
  simp only [List.append_assoc] at swapped
  obtain ⟨rest', reads', onward⟩ := reads.stays tails (by simp) swapped
  rcases onward.eq_append with ⟨before, same, rfl⟩ | ⟨never, _⟩
  · obtain rfl := List.append_cancel_right same
    exact reads'
  · cases never

end Pieces

/-- What is read from here to the end of a level: the branch at hand goes on with the first text,
and every other text denotes a branch of its own. -/
def ReadsBranches (outer : List Frame) (tail : List Char) (inner : List Frame) (ended : List Expr)
    (reading : Reading) (expr : Expr) (texts : List (List Char)) : Prop :=
  ∃ text others branch branches, texts = text :: others ∧
    (∀ known ⊆ reading.names,
      Run ⟨inner, reading.parts, false, known, text ++ ['|']⟩ (.alternation [branch, .empty])) ∧
    List.Forall₂ IsBranch others branches ∧
    ∃ last, Run last expr ∧ last.ignore = false ∧ last.rest = tail ∧
      last.body = (.ofBranches (ended.reverse ++ branch :: branches), outer)

section Levels

variable {outer : List Frame} {tail : List Char}

theorem ReadsBranches.of_nil {reading : Reading} {expr : Expr} {inner : List Frame}
    {ended : List Expr} {depth : Nat} (run : Run reading expr)
    (frames : reading.frames = inner ++ levelFrames outer ended) (counts : reading.ignore = false)
    (ahead : reading.rest = tail) (nested : Nested depth inner)
    (closing : Closing outer tail depth []) :
    ReadsBranches outer tail inner ended reading expr (branchesFrom (.level depth) []) := by
  have zero : depth = 0 := closing.depth_eq_zero nested run frames ahead
  subst zero
  cases nested
  obtain ⟨_, parts, _, names, _⟩ := reading
  cases frames
  cases counts
  cases ahead
  refine ⟨[], [], .ofParts parts.reverse, [], rfl, ?_, .nil, _, run, rfl, rfl, ?_⟩
  · intro known _
    exact .step (.bar []) .bar (.done rfl rfl)
  · exact Reading.body_level closing.apart ended _

theorem ReadsBranches.of_bar {parts ended : List Expr} {expr : Expr} {frames : List Frame}
    {names : List String} {text rest : List Char}
    (later : ReadsBranches outer tail [] (.ofParts parts.reverse :: ended)
      ⟨levelFrames outer (.ofParts parts.reverse :: ended), [], false, names, rest⟩ expr
      (branchesFrom (.level 0) text)) :
    ReadsBranches outer tail [] ended ⟨frames, parts, false, names, '|' :: rest⟩ expr
      (branchesFrom (.level 0) ('|' :: text)) := by
  obtain ⟨first, others, branch, branches, cut, firstRun, othersRun, last, run, counts, atEnd,
    whole⟩ := later
  refine ⟨[], first :: others, .ofParts parts.reverse, branch :: branches, ?_, ?_, ?_, last, run,
    counts, atEnd, ?_⟩
  · rw [← cut]
    rfl
  · intro known _
    exact .step (.bar []) .bar (.done rfl rfl)
  · exact .cons (firstRun [] (List.nil_subset names)) othersRun
  · simpa using whole

/-- Any other piece belongs to the branch at hand, and it reads the same where that branch stands
alone. -/
theorem ReadsBranches.of_piece {inner inner' frames frames' : List Frame}
    {parts parts' ended : List Expr} {names names' : List String} {expr : Expr} {depth : Int}
    {piece text rest : List Char} {action : Action}
    (reads : Action.Reads false (piece ++ (text ++ tail)) action (text ++ tail))
    (scanned : action.isScannedAs piece = true) (within : depth = 0 → action ≠ .bar)
    (endedTail : Ended tail)
    (alone : ∀ known ⊆ names, ∀ ahead, ∃ known' ⊆ names',
      action.Applies ⟨inner, parts, false, known, ahead⟩ ⟨inner', parts', false, known', ahead⟩)
    (later : ReadsBranches outer tail inner' ended ⟨frames', parts', false, names', text ++ tail⟩
      expr (branchesFrom (.level (depth + action.depthChange)) text)) :
    ReadsBranches outer tail inner ended ⟨frames, parts, false, names, rest⟩ expr
      (branchesFrom (.level depth) (piece ++ text)) := by
  obtain ⟨first, others, branch, branches, cut, firstRun, onward⟩ := later
  refine ⟨piece ++ first, others, branch, branches, ?_, ?_, onward⟩
  · exact Action.branchesFrom_piece reads scanned within cut
  · intro known subset
    obtain ⟨known', subset', applies⟩ := alone known subset (first ++ ['|'])
    rw [List.append_assoc]
    exact .step (reads.before_bar endedTail cut) applies (firstRun known' subset')

/-- By induction on the run: each piece is one of the branch at hand, or the bar behind it. -/
theorem Run.readsBranches {reading : Reading} {expr : Expr} (run : Run reading expr) :
    ∀ {inner : List Frame} {ended : List Expr} {depth fuel : Nat} {text : List Char},
      reading.frames = inner ++ levelFrames outer ended → reading.ignore = false →
      reading.rest = text ++ tail → Nested depth inner → Closing outer tail depth text →
      inStepWithin fuel (text ++ tail) = true →
      ReadsBranches outer tail inner ended reading expr (branchesFrom (.level depth) text) := by
  induction run with
  | @done reading expr atEnd whole =>
      intro inner ended depth fuel text frames counts ahead nested closing _
      have run := Run.done atEnd whole
      rw [counts, ahead] at atEnd
      obtain ⟨rfl, rfl⟩ := List.append_eq_nil_iff.mp atEnd
      exact .of_nil run frames counts ahead nested closing
  | @step reading next action rest expr reads applies run ih =>
      intro inner ended depth fuel text frames counts ahead nested closing inStep
      by_cases started : text = []
      · subst started
        exact .of_nil (.step reads applies run) frames counts ahead nested closing
      obtain ⟨_, parts, _, names, _⟩ := reading
      cases frames
      cases counts
      cases ahead
      change Action.Reads false (text ++ tail) action rest at reads
      obtain ⟨piece, same, solid, scanned, fuel', inStep⟩ := inStepWithin_reads inStep reads
      by_cases ends : depth = 0 ∧ action = .bar
      · obtain ⟨rfl, rfl⟩ := ends
        cases nested
        obtain ⟨c, text, rfl⟩ := List.exists_cons_of_ne_nil started
        cases reads.bar_inv
        have scanned : Action.isScannedAs ['|'] .bar = true := rfl
        have closing' : Closing outer tail ((0 : Nat) + Action.bar.depthChange) text :=
          closing.along scanned
        obtain rfl := applies.bar_level closing.apart
        exact .of_bar (ih rfl rfl rfl .none closing' inStep)
      · have within : depth = 0 → action ≠ .bar ∧ action ≠ .closes := by
          rintro rfl
          cases nested
          exact ⟨fun bar => ends ⟨rfl, bar⟩, closing.not_closes started reads applies⟩
        obtain ⟨depth', inner', parts', names', nested', deeper, rfl, alone⟩ :=
          nested.applies applies solid within
        obtain ⟨text', rfl, rfl⟩ := closing.piece_within started same reads applies run rfl rfl
        have closing' := closing.along scanned
        rw [← deeper] at closing'
        have later := ih rfl rfl rfl nested' closing' inStep
        rw [deeper] at later
        rw [List.append_assoc] at reads
        have inner : (depth : Int) = 0 → action ≠ .bar := by
          intro zero
          exact (within (by exact_mod_cast zero)).1
        exact .of_piece reads scanned inner closing.ended_tail alone later

end Levels

section Results

variable {text tail : List Char} {texts : List (List Char)} {outer : List Frame}
  {reading : Reading} {expr : Expr}

theorem ReadsBranches.forall₂ (branches : ReadsBranches outer tail [] [] reading expr texts)
    (fresh : reading.parts = []) :
    ∃ exprs, List.Forall₂ IsBranch texts exprs ∧
      ∃ last, Run last expr ∧ last.ignore = false ∧ last.rest = tail ∧
        last.body = (.ofBranches exprs, outer) := by
  obtain ⟨first, others, branch, exprs, rfl, firstRun, othersRun, last⟩ := branches
  refine ⟨branch :: exprs, .cons ?_ othersRun, last⟩
  have first := firstRun [] (List.nil_subset reading.names)
  rwa [fresh] at first

/-- A whole pattern is the alternation of what its branch texts denote. -/
theorem Run.whole_branches (run : Run (.start text) expr) (inStep : isInStep text = true) :
    ∃ exprs, List.Forall₂ IsBranch (branches text) exprs ∧ expr = .ofBranches exprs := by
  have ahead : (Reading.start text).rest = text ++ [] := (List.append_nil text).symm
  have inStep : inStepWithin text.length (text ++ []) = true := by
    rw [List.append_nil]
    exact inStep
  have cut : ReadsBranches [] [] [] [] (.start text) expr (branches text) :=
    run.readsBranches rfl rfl ahead .none (.pattern _ _) inStep
  obtain ⟨exprs, branches, last, run, _, ended, whole⟩ := cut.forall₂ rfl
  exact ⟨exprs, branches, congrArg Prod.fst ((run.body_of_nil ended).symm.trans whole)⟩

/-- So is what a group at the end of a pattern holds. -/
theorem Run.group_branches {before : List Expr} {kind : GroupKind} {names : List String}
    {after : List Char} {fuel : Nat}
    (run : Run ⟨[.group before kind false], [], false, names, text ++ ')' :: after⟩ expr)
    (balanced : isBalanced text = true) (last : after = [] ∨ after = ['$'])
    (inStep : inStepWithin fuel (text ++ ')' :: after) = true) :
    ∃ exprs, List.Forall₂ IsBranch (branches text) exprs ∧
      ∃ names, Run ⟨[], .group kind (.ofBranches exprs) :: before, false, names, after⟩ expr := by
  have cut : ReadsBranches [.group before kind false] (')' :: after) [] [] _ expr (branches text) :=
    run.readsBranches rfl rfl rfl .none (.group before kind last balanced) inStep
  obtain ⟨exprs, branches, last, run, counts, ended, whole⟩ := cut.forall₂ rfl
  have reads : Action.Reads false last.rest .closes after := ended ▸ .closes after
  obtain ⟨next, applies, run⟩ := run.onward counts reads
  obtain ⟨_, _, _, _, _⟩ := last
  cases counts
  cases applies with
  | closes opened =>
      cases whole.symm.trans opened
      exact ⟨exprs, branches, _, run⟩

end Results

end Pattern

end SchemaEvolution
