import Mathlib
import SchemaEvolution.Proofs.Pattern.Actions
import SchemaEvolution.Proofs.Pattern.Matching

/-! # Patterns that match everywhere

The only assertions that no listed text tells are those of the edges of a word, and they do not hold
in the empty text. So a pattern without the listed texts that matches the empty text matches without
a character at every place of every text.
-/

namespace SchemaEvolution

namespace Pattern

variable {fits : SizeTest}

/-- The reading of a pattern at its start. -/
def Reading.start (text : List Char) : Reading := ⟨[], [], false, [], text⟩

theorem Expr.run_of_parse? {text : List Char} {expr : Expr} (parsed : Expr.parse? text = some expr) :
    Run (.start text) expr := by
  obtain ⟨_, read, parsed⟩ := Option.bind_eq_some_iff.mp parsed
  split_ifs at parsed
  cases parsed
  exact .of_run? read

theorem Expr.parse?_of_ofText? {pattern : String} {expr : Expr}
    (valid : Expr.ofText? fits pattern = some expr) :
    Expr.parse? pattern.toList = some expr := by
  obtain ⟨_, parsed, valid⟩ := Option.bind_eq_some_iff.mp valid
  split_ifs at valid
  cases valid
  exact parsed

theorem Expr.run_of_ofText? {pattern : String} {expr : Expr}
    (valid : Expr.ofText? fits pattern = some expr) : Run (.start pattern.toList) expr :=
  run_of_parse? (parse?_of_ofText? valid)

section Tame

variable {allowed : Assertion → Prop}

def Frame.Tame (allowed : Assertion → Prop) : Frame → Prop
  | .group before _ _ => Expr.AllTame allowed before
  | .branches before => Expr.AllTame allowed before

/-- Everything that is read so far is tame. -/
structure Reading.Tame (allowed : Assertion → Prop) (reading : Reading) : Prop where
  parts : Expr.AllTame allowed reading.parts
  frames : ∀ frame ∈ reading.frames, frame.Tame allowed

def Action.Tame (allowed : Assertion → Prop) : Action → Prop
  | .part piece => piece.Tame allowed
  | .repeats min max _ => ∀ most, max = some most → min ≤ most
  | .bar | .opens _ | .closes | .directive _ => True

namespace Expr

theorem tame_ofParts {parts : List Expr} :
    (ofParts parts).Tame allowed ↔ AllTame allowed parts := by
  cases parts with
  | nil => simp [ofParts, Tame, AllTame]
  | cons part rest =>
      cases rest with
      | nil => simp [ofParts, AllTame]
      | cons => rfl

theorem allTame_reverse {exprs : List Expr} :
    AllTame allowed exprs.reverse ↔ AllTame allowed exprs := by
  simp [allTame_iff]

theorem tame_of_isPiece {piece : Expr} (isPiece : piece.isPiece = true)
    (held : ∀ kind, piece = .assertion kind → allowed kind) : piece.Tame allowed := by
  cases piece with
  | assertion kind => exact held kind rfl
  | literal | dot | short | property | bracketed => trivial
  | empty | flags | repetition | group | alternation | concat => cases isPiece

end Expr

namespace Reading.Tame

variable {reading next : Reading}

theorem branch (tame : reading.Tame allowed) : reading.branch.Tame allowed :=
  Expr.tame_ofParts.mpr (Expr.allTame_reverse.mpr tame.parts)

theorem body (tame : reading.Tame allowed) :
    reading.body.1.Tame allowed ∧ ∀ frame ∈ reading.body.2, frame.Tame allowed := by
  unfold Reading.body
  split
  · rename_i before frames same
    have inFrames := tame.frames
    rw [same] at inFrames
    obtain ⟨earlier, others⟩ := List.forall_mem_cons.mp inFrames
    exact ⟨Expr.allTame_reverse.mpr ⟨tame.branch, earlier⟩, others⟩
  · exact ⟨tame.branch, tame.frames⟩

theorem endBranch (tame : reading.Tame allowed) (rest : List Char) :
    (reading.endBranch rest).Tame allowed := by
  unfold Reading.endBranch
  split
  · rename_i before frames same
    have inFrames := tame.frames
    rw [same] at inFrames
    obtain ⟨earlier, others⟩ := List.forall_mem_cons.mp inFrames
    exact ⟨trivial, List.forall_mem_cons.mpr ⟨⟨tame.branch, earlier⟩, others⟩⟩
  · exact ⟨trivial, List.forall_mem_cons.mpr ⟨⟨tame.branch, trivial⟩, tame.frames⟩⟩

theorem applies {action : Action} (tame : reading.Tame allowed) (tame' : action.Tame allowed)
    (applies : action.Applies reading next) : next.Tame allowed := by
  cases applies with
  | part piece => exact ⟨⟨tame', tame.parts⟩, tame.frames⟩
  | bar => exact tame.endBranch _
  | opens => exact ⟨trivial, List.forall_mem_cons.mpr ⟨tame.parts, tame.frames⟩⟩
  | closes opened =>
      have body := tame.body
      rw [opened] at body
      obtain ⟨earlier, others⟩ := List.forall_mem_cons.mp body.2
      exact ⟨⟨body.1, earlier⟩, others⟩
  | repeats min max greedy same =>
      have inParts := tame.parts
      rw [same] at inParts
      exact ⟨⟨⟨tame', inParts.1⟩, inParts.2⟩, tame.frames⟩
  | directive change => exact ⟨⟨trivial, tame.parts⟩, tame.frames⟩

end Reading.Tame

/-- A pattern is tame if all the actions are that its text can give. -/
theorem Run.tame {reading : Reading} {expr : Expr} (run : Run reading expr)
    (tame : reading.Tame allowed)
    (actions : ∀ {ignore text action rest}, text <:+ reading.rest →
      Action.Reads ignore text action rest → action.Tame allowed) : expr.Tame allowed := by
  induction run with
  | done _ whole =>
      have body := tame.body
      rw [whole] at body
      exact body.1
  | @step reading next action rest _ reads applies _ ih =>
      have skip := (takes_skipBlanks reading.ignore reading.rest).suffix
      have ahead : next.rest <:+ reading.rest := by
        rw [applies.rest_eq]
        exact reads.past_blanks.1
      have tame' : Reading.Tame allowed { reading with rest } := ⟨tame.parts, tame.frames⟩
      refine ih (tame'.applies (actions skip reads) applies) ?_
      intro _ _ _ _ suffix reads
      exact actions (suffix.trans ahead) reads

theorem Action.Reads.tame {ignore : Bool} {text rest : List Char} {action : Action}
    (reads : Action.Reads ignore text action rest)
    (assertions : ∀ kind, action = .part (.assertion kind) → allowed kind) :
    action.Tame allowed := by
  cases action with
  | part piece =>
      apply Expr.tame_of_isPiece reads.isPiece
      rintro kind rfl
      exact assertions kind rfl
  | repeats => exact reads.ordered
  | bar | opens | closes | directive => trivial

end Tame

theorem hasInfix_iff {part text : List Char} : hasInfix part text = true ↔ part <:+: text := by
  induction text with
  | nil => simp [hasInfix]
  | cons c text ih => simp [hasInfix, ih, List.infix_cons_iff]

theorem Expr.tame_of_ofText? {pattern : String} {expr : Expr}
    (valid : Expr.ofText? fits pattern = some expr) : expr.Tame fun _ => True :=
  (Expr.run_of_ofText? valid).tame ⟨trivial, by simp [Reading.start]⟩ fun _ reads =>
    reads.tame fun _ _ => trivial

/-- Of a pattern without the listed texts, all assertions are edges of a word. -/
theorem Expr.tame_of_matchesEverything {pattern : String} {expr : Expr}
    (valid : Expr.ofText? fits pattern = some expr)
    (free : assertions.any (hasInfix · pattern.toList) = false) :
    expr.Tame Assertion.IsWordEdge := by
  refine (Expr.run_of_ofText? valid).tame ⟨trivial, by simp [Reading.start]⟩ ?_
  intro ignore text action rest suffix reads
  refine reads.tame fun kind same => ?_
  subst same
  rcases reads.assertion with edge | ⟨token, listed, atStart⟩
  · exact edge
  · have inside : token <:+: pattern.toList := atStart.isInfix.trans suffix.isInfix
    have := List.any_eq_false.mp free token listed
    exact absurd (hasInfix_iff.mpr inside) this

variable {tables : CharTables}

theorem Expr.matchesEmpty_of_text {expr : Expr} {start finish : Place} (whole : start.text = [])
    (matched : expr.Matches tables {} start finish) : expr.matchesEmpty = true := by
  obtain ⟨before, after⟩ := start
  obtain ⟨rfl, rfl⟩ : before = [] ∧ after = [] := by
    simpa [Place.text] using whole
  exact (Expr.matchesEmpty_of_matches expr {} matched).1

/-- The comparison asks of a valid pattern what a search in the empty text tells. -/
theorem accepts_empty_iff {pattern : String} {expr : Expr}
    (valid : Expr.ofText? fits pattern = some expr) :
    Accepts fits tables pattern "" ↔ expr.matchesEmpty = true := by
  constructor
  · rintro ⟨_, valid', start, finish, whole, matched⟩
    cases valid.symm.trans valid'
    exact Expr.matchesEmpty_of_text whole matched
  · intro nullable
    refine ⟨expr, valid, ⟨[], []⟩, ⟨[], []⟩, rfl, ?_⟩
    refine Expr.matches_of_matchesEmpty ?_ expr {} (Expr.tame_of_ofText? valid) nullable
    intro settings kind _ nullable
    cases kind <;> simp [Expr.matchesEmpty, Assertion.holds, Assertion.startsLine,
      Assertion.endsLine] at nullable ⊢

/-- A valid pattern that is said to match everything accepts every text. -/
theorem accepts_of_matchesEverything {pattern : String} {expr : Expr}
    (valid : Expr.ofText? fits pattern = some expr)
    (everything : matchesEverything pattern.toList expr.matchesEmpty = true) (text : String) :
    Accepts fits tables pattern text := by
  obtain ⟨free, nullable⟩ := Bool.and_eq_true_iff.mp everything
  refine ⟨expr, valid, ⟨[], text.toList⟩, ⟨[], text.toList⟩, rfl, ?_⟩
  refine Expr.matches_of_matchesEmpty ?_ expr {}
    (Expr.tame_of_matchesEverything valid (by simpa using free)) nullable
  intro settings kind edge nullable
  rcases edge with rfl | rfl <;> cases nullable

end Pattern

end SchemaEvolution
