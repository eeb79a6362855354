import Mathlib
import SchemaEvolution.Proofs.Pattern.Everywhere

/-! # An anchor before or after a pattern

A pattern stays a pattern if an anchor is put before or after its text. The anchor before it stands
in its first branch alone and the anchor after it in the last, and each only asks for more.
-/

namespace SchemaEvolution

namespace Pattern

/-- A pattern whose first branch starts with an anchor beside the same without it. -/
inductive Guarded : Expr → Expr → Prop
  | only (parts : List Expr) : Guarded (.ofParts parts) (.ofParts (.assertion .lineStart :: parts))
  | first (parts others : List Expr) :
      Guarded (.alternation (.ofParts parts :: others))
        (.alternation (.ofParts (.assertion .lineStart :: parts) :: others))

/-- A pattern whose last branch ends with an anchor beside the same without it, or a pattern that
takes the anchor for a comment. -/
inductive Trailed : Expr → Expr → Prop
  | only (parts : List Expr) : Trailed (.ofParts parts) (.ofParts (parts ++ [.assertion .lineEnd]))
  | last (others parts : List Expr) :
      Trailed (.alternation (others ++ [.ofParts parts]))
        (.alternation (others ++ [.ofParts (parts ++ [.assertion .lineEnd])]))
  | comment (expr : Expr) : Trailed expr expr

section Matching

variable {tables : CharTables} {settings : Settings} {expr expr' : Expr} {start finish : Place}

theorem Expr.someMatch_append {first second : List Expr} :
    SomeMatch tables settings (first ++ second) start finish ↔
      SomeMatch tables settings first start finish ∨
        SomeMatch tables (settingsAfterList settings first) second start finish := by
  induction first generalizing settings with
  | nil => simp [SomeMatch, settingsAfterList]
  | cons expr rest ih => simp only [List.cons_append, SomeMatch, settingsAfterList, ih, or_assoc]

theorem Guarded.matches_ofParts {parts : List Expr}
    (matched : (Expr.ofParts (.assertion .lineStart :: parts)).Matches tables settings start finish) :
    (Expr.ofParts parts).Matches tables settings start finish := by
  obtain ⟨_, ⟨rfl, _⟩, matched⟩ := Expr.matches_ofParts.mp matched
  exact Expr.matches_ofParts.mpr matched

theorem Trailed.matches_ofParts {parts : List Expr}
    (matched :
      (Expr.ofParts (parts ++ [.assertion .lineEnd])).Matches tables settings start finish) :
    (Expr.ofParts parts).Matches tables settings start finish := by
  obtain ⟨_, inner, _, ⟨rfl, _⟩, rfl⟩ :=
    Expr.matchInTurn_append.mp (Expr.matches_ofParts.mp matched)
  exact Expr.matches_ofParts.mpr inner

theorem Guarded.matches (guarded : Guarded expr expr')
    (matched : expr'.Matches tables settings start finish) :
    expr.Matches tables settings start finish := by
  cases guarded with
  | only parts => exact Guarded.matches_ofParts matched
  | first parts others =>
      rcases matched with first | later
      · exact .inl (Guarded.matches_ofParts first)
      · refine .inr ?_
        rw [Expr.settingsAfter_ofParts] at later ⊢
        exact later

theorem Trailed.matches (trailed : Trailed expr expr')
    (matched : expr'.Matches tables settings start finish) :
    expr.Matches tables settings start finish := by
  cases trailed with
  | only parts => exact Trailed.matches_ofParts matched
  | last others parts =>
      rcases Expr.someMatch_append.mp matched with earlier | last | none
      · exact Expr.someMatch_append.mpr (.inl earlier)
      · exact Expr.someMatch_append.mpr (.inr (.inl (Trailed.matches_ofParts last)))
      · cases none
  | comment => exact matched

end Matching

section Before

/-- What is open and read so far, beside the same with an anchor before all of it. -/
inductive Behind : List Frame → List Expr → List Frame → List Expr → Prop
  | here (parts : List Expr) : Behind [] parts [] (parts ++ [.assertion .lineStart])
  | branch (before first parts : List Expr) :
      Behind [.branches (before ++ [.ofParts first])] parts
        [.branches (before ++ [.ofParts (.assertion .lineStart :: first)])] parts
  | group {frames frames' : List Frame} {outer outer' : List Expr} (kind : GroupKind)
      (ignore : Bool) (parts : List Expr) (behind : Behind frames outer frames' outer') :
      Behind (.group outer kind ignore :: frames) parts
        (.group outer' kind ignore :: frames') parts
  | inner {frames frames' : List Frame} {outer outer' : List Expr} (kind : GroupKind)
      (ignore : Bool) (before parts : List Expr) (behind : Behind frames outer frames' outer') :
      Behind (.branches before :: .group outer kind ignore :: frames) parts
        (.branches before :: .group outer' kind ignore :: frames') parts

namespace Behind

variable {frames frames' : List Frame} {parts parts' : List Expr}

theorem cons (behind : Behind frames parts frames' parts') (part : Expr) :
    Behind frames (part :: parts) frames' (part :: parts') := by
  cases behind with
  | here => exact .here (part :: parts)
  | branch before first => exact .branch before first _
  | group kind ignore _ behind => exact .group kind ignore _ behind
  | inner kind ignore before _ behind => exact .inner kind ignore before _ behind

theorem uncons {part : Expr} (behind : Behind frames (part :: parts) frames' parts') :
    ∃ parts'', parts' = part :: parts'' ∧ Behind frames parts frames' parts'' := by
  cases behind with
  | here => exact ⟨_, rfl, .here parts⟩
  | branch before first => exact ⟨_, rfl, .branch before first _⟩
  | group kind ignore _ behind => exact ⟨_, rfl, .group kind ignore _ behind⟩
  | inner kind ignore before _ behind => exact ⟨_, rfl, .inner kind ignore before _ behind⟩

end Behind

/-- A reading beside the same behind an anchor. -/
structure Reading.Behind (reading reading' : Reading) : Prop where
  levels : Pattern.Behind reading.frames reading.parts reading'.frames reading'.parts
  ignore : reading'.ignore = reading.ignore
  names : reading'.names = reading.names
  rest : reading'.rest = reading.rest

namespace Reading.Behind

variable {reading reading' next : Reading}

theorem endBranch (behind : reading.Behind reading') (rest : List Char) :
    (reading.endBranch rest).Behind (reading'.endBranch rest) := by
  obtain ⟨frames, parts, ignore, names, ahead⟩ := reading
  obtain ⟨frames', parts', _, _, _⟩ := reading'
  obtain ⟨levels, rfl, rfl, rfl⟩ := behind
  dsimp only at levels
  cases levels with
  | here =>
      refine ⟨?_, rfl, rfl, rfl⟩
      simpa [Reading.endBranch, Reading.branch] using Pattern.Behind.branch [] parts.reverse []
  | branch before first =>
      exact ⟨.branch (_ :: before) first [], rfl, rfl, rfl⟩
  | group kind ignore _ behind => exact ⟨.inner kind ignore _ [] behind, rfl, rfl, rfl⟩
  | inner kind ignore before _ behind => exact ⟨.inner kind ignore _ [] behind, rfl, rfl, rfl⟩

theorem closes {body : Expr} {outer : List Expr} {kind : GroupKind} {ignore : Bool}
    {frames : List Frame} (behind : reading.Behind reading')
    (opened : reading.body = (body, .group outer kind ignore :: frames)) :
    ∃ outer' frames', reading'.body = (body, .group outer' kind ignore :: frames') ∧
      Pattern.Behind frames outer frames' outer' := by
  obtain ⟨_, parts, _, _, _⟩ := reading
  obtain ⟨_, _, _, _, _⟩ := reading'
  obtain ⟨levels, rfl, rfl, rfl⟩ := behind
  dsimp only at levels
  cases levels with
  | here | branch => cases opened
  | group kind ignore _ behind | inner kind ignore before _ behind =>
      cases opened
      exact ⟨_, _, rfl, behind⟩

theorem applies {action : Action} (behind : reading.Behind reading')
    (applies : action.Applies reading next) :
    ∃ next', action.Applies reading' next' ∧ next.Behind next' := by
  cases applies with
  | part piece =>
      exact ⟨_, .part piece, behind.levels.cons piece, behind.ignore, behind.names, behind.rest⟩
  | bar =>
      refine ⟨_, .bar, ?_⟩
      rw [behind.rest]
      exact behind.endBranch _
  | @opens kind fresh =>
      refine ⟨_, .opens (by rwa [behind.names]), ?_, ?_, ?_, behind.rest⟩
      · rw [behind.ignore]
        exact .group kind reading.ignore [] behind.levels
      · rw [behind.ignore]
      · rw [behind.names]
  | closes opened =>
      obtain ⟨outer', frames', opened', levels⟩ := behind.closes opened
      exact ⟨_, .closes opened', levels.cons _, rfl, behind.names, behind.rest⟩
  | repeats min max greedy same solid plain =>
      have levels := behind.levels
      rw [same] at levels
      obtain ⟨parts', same', levels⟩ := levels.uncons
      exact ⟨_, .repeats min max greedy same' solid plain, levels.cons _, behind.ignore,
        behind.names, behind.rest⟩
  | directive change =>
      refine ⟨_, .directive change, behind.levels.cons _, ?_, behind.names, behind.rest⟩
      rw [behind.ignore]

theorem body {expr : Expr} (behind : reading.Behind reading') (whole : reading.body = (expr, [])) :
    ∃ expr', reading'.body = (expr', []) ∧ Guarded expr expr' := by
  obtain ⟨_, parts, _, _, _⟩ := reading
  obtain ⟨_, _, _, _, _⟩ := reading'
  obtain ⟨levels, rfl, rfl, rfl⟩ := behind
  dsimp only at levels
  cases levels with
  | here =>
      cases whole
      refine ⟨_, rfl, ?_⟩
      simpa [Reading.branch] using Guarded.only parts.reverse
  | branch before first =>
      cases whole
      refine ⟨_, rfl, ?_⟩
      simpa [Reading.branch] using Guarded.first first (before.reverse ++ [.ofParts parts.reverse])
  | group | inner => cases whole

theorem run {expr : Expr} (behind : reading.Behind reading') (run : Run reading expr) :
    ∃ expr', Run reading' expr' ∧ Guarded expr expr' := by
  induction run generalizing reading' with
  | done ended whole =>
      obtain ⟨expr', whole', guarded⟩ := behind.body whole
      exact ⟨expr', .done (by rwa [behind.ignore, behind.rest]) whole', guarded⟩
  | @step reading next action rest expr reads applies _ ih =>
      have onward : Reading.Behind { reading with rest } { reading' with rest } :=
        ⟨behind.levels, behind.ignore, behind.names, rfl⟩
      obtain ⟨next', applies', onward⟩ := onward.applies applies
      obtain ⟨expr', run', guarded⟩ := ih onward
      refine ⟨expr', .step ?_ applies' run', guarded⟩
      rw [behind.ignore, behind.rest]
      exact reads

end Reading.Behind

theorem Run.anchor_before {text : List Char} {expr : Expr} (run : Run (.start text) expr) :
    ∃ expr', Run (.start ('^' :: text)) expr' ∧ Guarded expr expr' := by
  have behind : Reading.Behind (.start text) ⟨[], [.assertion .lineStart], false, [], text⟩ :=
    ⟨.here [], rfl, rfl, rfl⟩
  obtain ⟨expr', run', guarded⟩ := behind.run run
  have reads : Action.Reads false ('^' :: text) (.part (.assertion .lineStart)) text :=
    .single text (by decide)
  exact ⟨expr', .step reads (.part _) run', guarded⟩

end Before

section After

theorem anchorTails (ignore : Bool) : Tails ignore [] ['$'] where
  ended := .nil
  ended' := by
    rintro c rest ⟨⟩
    simp [stops]
  nonempty := by simp
  blanks _ := ⟨rfl, rfl⟩

theorem Reading.body_trailed {reading : Reading} {expr : Expr} (whole : reading.body = (expr, []))
    (rest' : List Char) :
    ∃ expr', Reading.body
        { reading with parts := .assertion .lineEnd :: reading.parts, rest := rest' } =
      (expr', []) ∧ Trailed expr expr' := by
  obtain ⟨frames, parts, ignore, names, rest⟩ := reading
  match frames with
  | [] =>
      cases whole
      refine ⟨_, rfl, ?_⟩
      simpa [Reading.branch] using Trailed.only parts.reverse
  | .branches before :: frames =>
      cases whole
      refine ⟨_, rfl, ?_⟩
      simpa [Reading.branch] using Trailed.last before.reverse parts.reverse
  | .group before kind ignore :: frames => cases whole

/-- An anchor is put after a text that is read to its end, or the last comment takes it. -/
theorem Run.trailed {reading : Reading} {expr : Expr} (run : Run reading expr) :
    ∃ expr', Run { reading with rest := reading.rest ++ ['$'] } expr' ∧ Trailed expr expr' := by
  induction run with
  | @done reading expr ended whole =>
      have skipped :=
        (Swapped.append [] ['$'] reading.rest).skipBlanks (anchorTails reading.ignore)
      rw [List.append_nil, ended] at skipped
      generalize ahead : skipBlanks reading.ignore (reading.rest ++ ['$']) = after at skipped
      cases skipped with
      | here =>
          obtain ⟨expr', whole', trailed⟩ := Reading.body_trailed whole []
          have reads : Action.Reads reading.ignore
              (skipBlanks reading.ignore (reading.rest ++ ['$'])) (.part (.assertion .lineEnd))
              [] := by
            rw [ahead]
            exact .single [] (by decide)
          have last : Run ⟨reading.frames, .assertion .lineEnd :: reading.parts, reading.ignore,
              reading.names, []⟩ expr' :=
            .done (List.suffix_nil.mp (takes_skipBlanks _ _).suffix) whole'
          exact ⟨expr', .step reads (.part _) last, trailed⟩
      | gone => exact ⟨expr, .done ahead whole, .comment expr⟩
  | @step reading next action rest expr reads applies run ih =>
      have skipped :=
        (Swapped.append [] ['$'] reading.rest).skipBlanks (anchorTails reading.ignore)
      rw [List.append_nil] at skipped
      obtain ⟨rest', reads', onward⟩ := reads.stays (anchorTails _) (Nat.zero_le _) skipped
      rcases onward.eq_append with ⟨text, same, rfl⟩ | ⟨_, rfl⟩
      · obtain ⟨expr', run', trailed⟩ := ih
        rw [applies.rest_eq, same, List.append_nil] at run'
        exact ⟨expr', .step reads' (applies.move _) run', trailed⟩
      · exact ⟨expr, .step reads' applies run, .comment expr⟩

theorem Run.anchor_after {text : List Char} {expr : Expr} (run : Run (.start text) expr) :
    ∃ expr', Run (.start (text ++ ['$'])) expr' ∧ Trailed expr expr' :=
  run.trailed

end After

end Pattern

end SchemaEvolution
