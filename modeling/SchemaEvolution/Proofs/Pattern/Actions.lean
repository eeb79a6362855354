import Mathlib
import SchemaEvolution.Pattern.Comparison
import SchemaEvolution.Proofs.Pattern.Tails

/-! # A pattern as a row of actions

Each piece of a pattern is one action on what is read so far. Which action it is depends on the text
alone, and what the action does depends on it and on what is open. A whole pattern is read by a run
of actions to the end of the text.
-/

namespace SchemaEvolution

namespace Pattern

/-- What one piece of a pattern does. -/
inductive Action where
  | part (expr : Expr)
  | bar
  | opens (kind : GroupKind)
  | closes
  | repeats (min : Nat) (max : Option Nat) (greedy : Bool)
  | directive (change : FlagChange)

/-- Whether blanks mean nothing after flags were set. -/
def FlagChange.ignores (change : FlagChange) (before : Bool) : Bool :=
  if change.on.contains .ignoreBlanks then true
  else if change.off.contains .ignoreBlanks then false
  else before

namespace GroupKind

def names : GroupKind → List String
  | .captured (some name) => [name]
  | _ => []

def ignores (before : Bool) : GroupKind → Bool
  | .plain change => change.ignores before
  | .captured _ => before

end GroupKind

namespace Action

/-- A repetition, with the sign after it that it takes as little as it can. -/
def ofCounts (min : Nat) (max : Option Nat) : List Char → Action × List Char
  | '?' :: rest => (.repeats min max false, rest)
  | rest => (.repeats min max true, rest)

/-- Flags with what ends them: a group, or a directive that has some flag. -/
def ofFlags? (change : FlagChange) (last : Char) : Option Action :=
  if last = ':' then some (.opens (.plain change))
  else if change.on.isEmpty && change.off.isEmpty then none
  else some (.directive change)

/-- What follows an opening parenthesis. -/
def ofGroup? (ignore : Bool) (text : List Char) : Option (Action × List Char) :=
  match skipBlanks ignore text with
  | '?' :: '=' :: _ | '?' :: '!' :: _ | '?' :: '<' :: '=' :: _ | '?' :: '<' :: '!' :: _ => none
  | '?' :: 'P' :: '<' :: rest | '?' :: '<' :: rest =>
    (groupName? Text.isLetter Text.isLetterOrNumber [] rest).bind fun (name, rest) =>
      some (.opens (.captured (some name)), rest)
  | '?' :: rest =>
    (flags? ⟨[], []⟩ false rest).bind fun (change, last, rest) =>
      (ofFlags? change last).bind fun action => some (action, rest)
  | rest => some (.opens (.captured none), rest)

def single : Char → Expr
  | '.' => .dot
  | '^' => .assertion .lineStart
  | '$' => .assertion .lineEnd
  | c => .literal { char := c }

/-- The action of the piece at the start of a text, and the text after it. -/
def read? (ignore : Bool) : List Char → Option (Action × List Char)
  | [] => none
  | c :: rest =>
    match c with
    | '(' => ofGroup? ignore rest
    | ')' => some (.closes, rest)
    | '|' => some (.bar, rest)
    | '[' => (class? ignore rest).bind fun (piece, rest) => some (.part piece, rest)
    | '?' => some (ofCounts 0 (some 1) rest)
    | '*' => some (ofCounts 0 none rest)
    | '+' => some (ofCounts 1 none rest)
    | '{' =>
      (repetitionCounts? ignore rest).bind fun (min, max, rest) =>
        some (ofCounts min max (skipBlanks ignore rest))
    | '\\' => (escape? ignore rest).bind fun (piece, rest) => some (.part piece, rest)
    | c => some (.part (single c), rest)

/-- Carries out an action, where what is read so far allows it. -/
def perform? (reading : Reading) : Action → Option Reading
  | .part expr => some (reading.addPart expr reading.rest)
  | .bar => some (reading.endBranch reading.rest)
  | .opens kind =>
    if kind.names.any reading.names.contains then none
    else
      some (Reading.openGroup { reading with names := kind.names ++ reading.names } kind
        reading.rest)
  | .closes => reading.closeGroup? reading.rest
  | .repeats min max greedy =>
    match reading.parts with
    | [] | .empty :: _ | .flags _ :: _ => none
    | last :: parts => some { reading with parts := .repetition last min max greedy :: parts }
  | .directive change =>
    some { reading with
      parts := .flags change :: reading.parts, ignore := change.ignores reading.ignore }

theorem repeat?_eq (reading : Reading) (min : Nat) (max : Option Nat) (rest : List Char) :
    reading.repeat? min max rest =
      perform? { reading with rest := (ofCounts min max rest).2 } (ofCounts min max rest).1 := by
  obtain ⟨frames, parts, ignore, names, _⟩ := reading
  by_cases lazy : ∃ after, rest = '?' :: after
  · obtain ⟨after, rfl⟩ := lazy
    rcases parts with _ | ⟨last, parts⟩
    · rfl
    · cases last <;> rfl
  · have none : ∀ after, rest ≠ '?' :: after := fun after found => lazy ⟨after, found⟩
    rw [ofCounts.eq_2 _ _ _ none]
    unfold Reading.repeat?
    rcases parts with _ | ⟨last, parts⟩
    · simp [perform?]
    · cases last <;> simp [perform?]

theorem openNamed?_eq (reading : Reading) (text : List Char) :
    reading.openNamed? text =
      (groupName? Text.isLetter Text.isLetterOrNumber [] text).bind fun (name, rest) =>
        perform? { reading with rest } (.opens (.captured (some name))) := by
  refine congrArg (Option.bind _) (funext fun found => ?_)
  simp only [perform?, GroupKind.names, List.any_cons, List.any_nil, Bool.or_false]
  rfl

theorem readFlags?_eq (reading : Reading) (text : List Char) :
    reading.readFlags? text =
      (flags? ⟨[], []⟩ false text).bind fun (change, last, rest) =>
        (ofFlags? change last).bind fun action => perform? { reading with rest } action := by
  unfold Reading.readFlags? ofFlags?
  refine congrArg (Option.bind _) (funext fun found => ?_)
  by_cases colon : found.2.1 = ':'
  · simp only [if_pos colon]
    rfl
  · simp only [if_neg colon]
    split_ifs <;> simp only [perform?, FlagChange.ignores, *, Option.bind_none, Option.bind_some, if_true,
      if_false, Option.pure_def, Bool.false_eq_true]

theorem readGroup?_eq (reading : Reading) (text : List Char) :
    reading.readGroup? text = (ofGroup? reading.ignore text).bind fun (action, rest) =>
      perform? { reading with rest } action := by
  unfold Reading.readGroup? ofGroup?
  generalize skipBlanks reading.ignore text = ahead
  split
  · rfl
  · rfl
  · rfl
  · rfl
  · simp only [openNamed?_eq, Option.bind_assoc]
    rfl
  · simp only [openNamed?_eq, Option.bind_assoc]
    rfl
  · simp only [readFlags?_eq, Option.bind_assoc]
    rfl
  · simp only [Option.bind_some]
    rfl

/-- A step reads an action and carries it out. -/
theorem step?_eq (reading : Reading) (text : List Char) :
    reading.step? text = (read? reading.ignore text).bind fun (action, rest) =>
      perform? { reading with rest } action := by
  cases text with
  | nil => rfl
  | cons c text =>
      unfold Reading.step? read?
      dsimp only
      split
      · exact readGroup?_eq reading text
      · rfl
      · rfl
      · simp only [Option.bind_assoc]
        rfl
      · exact repeat?_eq reading _ _ _
      · exact repeat?_eq reading _ _ _
      · exact repeat?_eq reading _ _ _
      · simp only [Option.bind_assoc]
        refine congrArg (Option.bind _) (funext fun found => ?_)
        exact repeat?_eq reading _ _ _
      · simp only [Option.bind_assoc]
        rfl
      · rfl
      · rfl
      · rfl
      · simp only [Option.bind_some, single]
        rfl

theorem groupName?_head {name : String} {c : Char} {text rest : List Char}
    (read : groupName? Text.isLetter Text.isLetterOrNumber [] (c :: text) = some (name, rest)) :
    c ≠ '=' ∧ c ≠ '!' := by
  have letters : Text.isLetter '=' = false ∧ Text.isLetter '!' = false := by decide +kernel
  constructor
  · rintro rfl
    simp [groupName?, letters] at read
  · rintro rfl
    simp [groupName?, letters] at read

theorem flags?_head {change found : FlagChange} {c last : Char} {text rest : List Char}
    (read : flags? change false (c :: text) = some (found, last, rest)) :
    c ≠ '=' ∧ c ≠ '!' ∧ c ≠ '<' ∧ c ≠ 'P' := by
  refine ⟨?_, ?_, ?_, ?_⟩
  all_goals
    rintro rfl
    simp [flags?, flag?] at read

theorem ofGroup?_eq_some {ignore : Bool} {text rest : List Char} {action : Action} :
    ofGroup? ignore text = some (action, rest) ↔
      (∃ inner name, (skipBlanks ignore text = '?' :: 'P' :: '<' :: inner ∨
          skipBlanks ignore text = '?' :: '<' :: inner) ∧
        groupName? Text.isLetter Text.isLetterOrNumber [] inner = some (name, rest) ∧
        action = .opens (.captured (some name))) ∨
      (∃ inner change last, skipBlanks ignore text = '?' :: inner ∧
        flags? ⟨[], []⟩ false inner = some (change, last, rest) ∧
        ofFlags? change last = some action) ∨
      (∀ inner, skipBlanks ignore text ≠ '?' :: inner) ∧ rest = skipBlanks ignore text ∧
        action = .opens (.captured none) := by
  unfold ofGroup?
  generalize skipBlanks ignore text = ahead
  constructor
  · intro read
    split at read
    · cases read
    · cases read
    · cases read
    · cases read
    · obtain ⟨⟨name, _⟩, nameRead, same⟩ := Option.bind_eq_some_iff.mp read
      cases same
      exact .inl ⟨_, name, .inl rfl, nameRead, rfl⟩
    · obtain ⟨⟨name, _⟩, nameRead, same⟩ := Option.bind_eq_some_iff.mp read
      cases same
      exact .inl ⟨_, name, .inr rfl, nameRead, rfl⟩
    · obtain ⟨⟨change, last, _⟩, flagsRead, read⟩ := Option.bind_eq_some_iff.mp read
      obtain ⟨_, isAction, same⟩ := Option.bind_eq_some_iff.mp read
      cases same
      exact .inr (.inl ⟨_, change, last, rfl, flagsRead, isAction⟩)
    · rename_i none
      cases read
      exact .inr (.inr ⟨none, rfl, rfl⟩)
  · rintro (⟨inner, name, rfl | rfl, nameRead, rfl⟩ | ⟨inner, change, last, rfl, flagsRead, isAction⟩ |
      ⟨none, rfl, rfl⟩)
    · simp [nameRead]
    · cases inner with
      | nil => cases nameRead
      | cons c inner =>
          have head := groupName?_head nameRead
          simp [head, nameRead]
    · cases inner with
      | nil => cases flagsRead
      | cons c inner =>
          have head := flags?_head flagsRead
          simp [head, flagsRead, isAction]
    · simp [none]

theorem takes_of_ofCounts (ignore : Bool) {min : Nat} {max : Option Nat} {text rest : List Char}
    {action : Action} (found : ofCounts min max text = (action, rest)) :
    Takes ignore text rest ∧ ∃ greedy, action = .repeats min max greedy := by
  unfold ofCounts at found
  split at found
  · cases found
    exact ⟨.cons (fun _ => by decide) .refl, false, rfl⟩
  · cases found
    exact ⟨.refl, true, rfl⟩

theorem ofGroup?_suffix {ignore : Bool} {text rest : List Char} {action : Action}
    (read : ofGroup? ignore text = some (action, rest)) : rest <:+ text := by
  refine List.IsSuffix.trans ?_ (takes_skipBlanks ignore _).suffix
  rcases ofGroup?_eq_some.mp read with ⟨inner, name, opened, nameRead, -⟩ |
    ⟨inner, change, last, opened, flagsRead, -⟩ | ⟨-, rfl, -⟩
  · have inside := (groupName?_suffix nameRead).1
    rcases opened with opened | opened <;> rw [opened]
    · exact ((inside.trans (List.suffix_cons _ _)).trans (List.suffix_cons _ _)).trans
        (List.suffix_cons _ _)
    · exact (inside.trans (List.suffix_cons _ _)).trans (List.suffix_cons _ _)
  · obtain ⟨piece, rfl, -⟩ := flags?_eq_some flagsRead
    rw [opened]
    exact ((List.suffix_cons _ _).trans (List.suffix_append piece _)).trans (List.suffix_cons _ _)
  · exact List.suffix_rfl

/-- The characters that do more than stand for one part. -/
def leading : List Char := ['(', ')', '|', '[', '?', '*', '+', '{', '\\']

/-- What the first character of a text makes of it: the cases of `read?`. -/
inductive Reads (ignore : Bool) : List Char → Action → List Char → Prop
  | group {text rest : List Char} {action : Action}
      (read : ofGroup? ignore text = some (action, rest)) : Reads ignore ('(' :: text) action rest
  | closes (text : List Char) : Reads ignore (')' :: text) .closes text
  | bar (text : List Char) : Reads ignore ('|' :: text) .bar text
  | bracketed {text rest : List Char} {piece : Expr}
      (read : class? ignore text = some (piece, rest)) :
      Reads ignore ('[' :: text) (.part piece) rest
  | mark {c : Char} {min : Nat} {max : Option Nat} {text rest : List Char} {action : Action}
      (known : (c, min, max) ∈ [('?', 0, some 1), ('*', 0, none), ('+', 1, none)])
      (found : ofCounts min max text = (action, rest)) : Reads ignore (c :: text) action rest
  | counts {text middle rest : List Char} {min : Nat} {max : Option Nat} {action : Action}
      (read : repetitionCounts? ignore text = some (min, max, middle))
      (found : ofCounts min max (skipBlanks ignore middle) = (action, rest)) :
      Reads ignore ('{' :: text) action rest
  | escaped {text rest : List Char} {piece : Expr}
      (read : escape? ignore text = some (piece, rest)) :
      Reads ignore ('\\' :: text) (.part piece) rest
  | single {c : Char} (text : List Char) (plain : c ∉ leading) :
      Reads ignore (c :: text) (.part (single c)) text

variable {ignore : Bool} {text rest : List Char} {action : Action}

theorem reads_iff : read? ignore text = some (action, rest) ↔ Reads ignore text action rest := by
  constructor
  · intro read
    cases text with
    | nil => cases read
    | cons c text =>
        unfold read? at read
        dsimp only at read
        split at read
        · exact .group read
        · cases read
          exact .closes _
        · cases read
          exact .bar _
        · obtain ⟨_, classRead, same⟩ := Option.bind_eq_some_iff.mp read
          cases same
          exact .bracketed classRead
        · exact .mark (by simp) (Option.some.inj read)
        · exact .mark (by simp) (Option.some.inj read)
        · exact .mark (by simp) (Option.some.inj read)
        · obtain ⟨_, countsRead, found⟩ := Option.bind_eq_some_iff.mp read
          exact .counts countsRead (Option.some.inj found)
        · obtain ⟨_, escapeRead, same⟩ := Option.bind_eq_some_iff.mp read
          cases same
          exact .escaped escapeRead
        · cases read
          exact .single _ (by simp_all [leading])
  · intro reads
    cases reads with
    | group read => exact read
    | closes | bar => rfl
    | bracketed read | escaped read => simp [read?, read]
    | counts read found => simp [read?, read, found]
    | mark known found =>
        simp only [List.mem_cons, List.not_mem_nil, or_false, Prod.mk.injEq] at known
        rcases known with ⟨rfl, rfl, rfl⟩ | ⟨rfl, rfl, rfl⟩ | ⟨rfl, rfl, rfl⟩ <;>
          simp [read?, found]
    | single text plain =>
        simp only [leading, List.mem_cons, List.not_mem_nil, or_false, not_or] at plain
        simp [read?, plain]

namespace Reads

theorem suffix (reads : Reads ignore text action rest) :
    rest <:+ text ∧ rest.length < text.length := by
  have drop {c : Char} {text : List Char} (suffix : rest <:+ text) :
      rest <:+ c :: text ∧ rest.length < (c :: text).length :=
    ⟨suffix.trans (List.suffix_cons _ _), Nat.lt_succ_of_le suffix.length_le⟩
  cases reads with
  | group read => exact drop (ofGroup?_suffix read)
  | closes | bar | single => exact drop List.suffix_rfl
  | bracketed read => exact drop (class?_suffix read)
  | mark _ found => exact drop (takes_of_ofCounts ignore found).1.suffix
  | counts read found =>
      have taken := (takes_of_repetitionCounts? read).trans (takes_skipBlanks _ _)
      exact drop (taken.trans (takes_of_ofCounts ignore found).1).suffix
  | @escaped text _ _ read =>
      cases text with
      | nil => cases read
      | cons c text => exact drop ((takes_of_escape? read).2.1.trans (List.suffix_cons _ _))

theorem past_blanks (reads : Reads ignore (skipBlanks ignore text) action rest) :
    rest <:+ text ∧ rest.length < text.length := by
  have skip := (takes_skipBlanks ignore text).suffix
  exact ⟨reads.suffix.1.trans skip, reads.suffix.2.trans_le skip.length_le⟩

theorem group_cases (read : ofGroup? ignore text = some (action, rest)) :
    (∃ kind, action = .opens kind) ∨ ∃ change, action = .directive change := by
  rcases ofGroup?_eq_some.mp read with ⟨_, _, _, _, rfl⟩ | ⟨_, change, _, _, _, isAction⟩ |
    ⟨_, _, rfl⟩
  · exact .inl ⟨_, rfl⟩
  · unfold ofFlags? at isAction
    split_ifs at isAction
    · exact .inl ⟨_, (Option.some.inj isAction).symm⟩
    · exact .inr ⟨_, (Option.some.inj isAction).symm⟩
  · exact .inl ⟨_, rfl⟩

theorem part_cases {piece : Expr} (reads : Reads ignore text (.part piece) rest) :
    (∃ inner, text = '[' :: inner ∧ class? ignore inner = some (piece, rest)) ∨
      (∃ inner, text = '\\' :: inner ∧ escape? ignore inner = some (piece, rest)) ∨
      ∃ c, text = c :: rest ∧ c ∉ leading ∧ piece = Action.single c := by
  cases reads with
  | group read =>
      rcases group_cases read with ⟨_, same⟩ | ⟨_, same⟩ <;> cases same
  | bracketed read => exact .inl ⟨_, rfl, read⟩
  | mark _ found | counts _ found =>
      obtain ⟨_, greedy, same⟩ := takes_of_ofCounts ignore found
      cases same
  | escaped read => exact .inr (.inl ⟨_, rfl, read⟩)
  | single _ plain => exact .inr (.inr ⟨_, rfl, plain, rfl⟩)

theorem isPiece {piece : Expr} (reads : Reads ignore text (.part piece) rest) :
    piece.isPiece = true := by
  rcases reads.part_cases with ⟨inner, rfl, read⟩ | ⟨inner, rfl, read⟩ | ⟨c, rfl, _, rfl⟩
  · obtain ⟨negated, set, rfl⟩ := class?_bracketed read
    rfl
  · cases inner with
    | nil => cases read
    | cons c inner => exact (takes_of_escape? read).1
  · unfold Action.single
    split <;> rfl

theorem assertion {kind : Assertion} (reads : Reads ignore text (.part (.assertion kind)) rest) :
    kind.IsWordEdge ∨ ∃ token ∈ assertions, token <+: text := by
  rcases reads.part_cases with ⟨inner, rfl, read⟩ | ⟨inner, rfl, read⟩ | ⟨c, rfl, _, same⟩
  · obtain ⟨negated, set, same⟩ := class?_bracketed read
    cases same
  · cases inner with
    | nil => cases read
    | cons c inner =>
        rcases assertion_of_escape? read with edge | rfl | rfl | rfl | rfl
        · exact .inl edge
        all_goals exact .inr ⟨_, by simp [assertions], List.prefix_append [_, _] inner⟩
  · unfold Action.single at same
    split at same
    · cases same
    · exact .inr ⟨['^'], by simp [assertions], List.prefix_append ['^'] rest⟩
    · exact .inr ⟨['$'], by simp [assertions], List.prefix_append ['$'] rest⟩
    · cases same

theorem ordered {min : Nat} {max : Option Nat} {greedy : Bool}
    (reads : Reads ignore text (.repeats min max greedy) rest) :
    ∀ most, max = some most → min ≤ most := by
  cases reads with
  | group read =>
      rcases group_cases read with ⟨_, same⟩ | ⟨_, same⟩ <;> cases same
  | mark known found =>
      obtain ⟨_, greedy, same⟩ := takes_of_ofCounts ignore found
      cases same
      simp only [List.mem_cons, List.not_mem_nil, or_false, Prod.mk.injEq] at known
      rcases known with ⟨-, rfl, rfl⟩ | ⟨-, rfl, rfl⟩ | ⟨-, rfl, rfl⟩ <;> simp
  | counts read found =>
      obtain ⟨_, greedy, same⟩ := takes_of_ofCounts ignore found
      cases same
      exact repetitionCounts?_ordered read

theorem bar_inv (reads : Reads ignore text .bar rest) : text = '|' :: rest := by
  cases reads with
  | bar => rfl
  | group read => rcases group_cases read with ⟨_, same⟩ | ⟨_, same⟩ <;> cases same
  | mark _ found | counts _ found =>
      obtain ⟨_, greedy, same⟩ := takes_of_ofCounts ignore found
      cases same

theorem closes_inv (reads : Reads ignore text .closes rest) : text = ')' :: rest := by
  cases reads with
  | closes => rfl
  | group read => rcases group_cases read with ⟨_, same⟩ | ⟨_, same⟩ <;> cases same
  | mark _ found | counts _ found =>
      obtain ⟨_, greedy, same⟩ := takes_of_ofCounts ignore found
      cases same

theorem ofCounts_swapped {tail tail' text' : List Char} (tails : Tails ignore tail tail')
    (same : Swapped ignore tail tail' text text') {min : Nat} {max : Option Nat}
    (found : ofCounts min max text = (action, rest)) :
    ∃ rest', ofCounts min max text' = (action, rest') ∧ Swapped ignore tail tail' rest rest' := by
  by_cases lazy : ∃ after, text = '?' :: after
  · obtain ⟨after, rfl⟩ := lazy
    obtain ⟨after', rfl, onward⟩ := same.of_head tails (by decide)
    cases found
    exact ⟨after', rfl, onward⟩
  · have none : ∀ after, text ≠ '?' :: after := fun after found => lazy ⟨after, found⟩
    rw [ofCounts.eq_2 _ _ _ none] at found
    cases found
    exact ⟨text', ofCounts.eq_2 _ _ _ (same.not_head tails (by decide) none), same⟩

theorem stays_ofGroup? {tail tail' : List Char} (tails : Tails ignore tail tail') :
    Stays ignore tail tail' (ofGroup? ignore) := by
  intro text text' rest action read before same
  have skipped := same.skipBlanks tails
  rw [ofGroup?_eq_some] at read
  simp only [ofGroup?_eq_some]
  rcases read with ⟨inner, name, opened, nameRead, rfl⟩ |
    ⟨inner, change, last, opened, flagsRead, isAction⟩ | ⟨none, rfl, rfl⟩
  · have further := before.trans (groupName?_suffix nameRead).1.length_le
    rcases opened with opened | opened <;> rw [opened] at skipped
    · obtain ⟨_, opened', second⟩ := skipped.of_head tails (by decide)
      obtain ⟨_, rfl, third⟩ := second.of_head tails (by decide)
      obtain ⟨inner', rfl, onward⟩ := third.of_head tails (by decide)
      obtain ⟨rest', nameRead', onward⟩ := stays_groupName? _ _ _ nameRead before onward
      exact ⟨rest', .inl ⟨inner', name, .inl opened', nameRead', rfl⟩, onward⟩
    · obtain ⟨_, opened', second⟩ := skipped.of_head tails (by decide)
      obtain ⟨inner', rfl, onward⟩ := second.of_head tails (by decide)
      obtain ⟨rest', nameRead', onward⟩ := stays_groupName? _ _ _ nameRead before onward
      exact ⟨rest', .inl ⟨inner', name, .inr opened', nameRead', rfl⟩, onward⟩
  · rw [opened] at skipped
    obtain ⟨inner', opened', onward⟩ := skipped.of_head tails (by decide)
    obtain ⟨rest', flagsRead', onward⟩ := stays_flags? flagsRead before onward
    exact ⟨rest', .inr (.inl ⟨inner', change, last, opened', flagsRead', isAction⟩), onward⟩
  · exact ⟨_, .inr (.inr ⟨skipped.not_head tails (by decide) none, rfl, rfl⟩), skipped⟩

/-- An action that is read before the end of a branch does not depend on what follows there. -/
theorem stays {tail tail' text' : List Char} (tails : Tails ignore tail tail')
    (reads : Reads ignore text action rest) (before : tail.length ≤ rest.length)
    (same : Swapped ignore tail tail' text text') :
    ∃ rest', Reads ignore text' action rest' ∧ Swapped ignore tail tail' rest rest' := by
  have shorter := reads.suffix.2
  cases text with
  | nil => cases reads
  | cons c text =>
      obtain ⟨text', rfl, onward⟩ := same.cons_inv (before.trans (Nat.le_of_lt_succ shorter))
      cases reads with
      | group read =>
          obtain ⟨rest', read', onward⟩ := stays_ofGroup? tails read before onward
          exact ⟨rest', .group read', onward⟩
      | closes => exact ⟨text', .closes text', onward⟩
      | bar => exact ⟨text', .bar text', onward⟩
      | bracketed read =>
          obtain ⟨rest', read', onward⟩ := stays_class? tails read before onward
          exact ⟨rest', .bracketed read', onward⟩
      | mark known found =>
          obtain ⟨rest', found', onward⟩ := ofCounts_swapped tails onward found
          exact ⟨rest', .mark known found', onward⟩
      | counts read found =>
          obtain ⟨middle', read', onward⟩ := stays_repetitionCounts? tails read onward
          obtain ⟨rest', found', onward⟩ := ofCounts_swapped tails (onward.skipBlanks tails) found
          exact ⟨rest', .counts read' found', onward⟩
      | escaped read =>
          obtain ⟨rest', read', onward⟩ := stays_escape? tails read before onward
          exact ⟨rest', .escaped read', onward⟩
      | single _ plain => exact ⟨text', .single text' plain, onward⟩

end Reads

/-- What an action does, and what it asks of what is read so far: the cases of `perform?`. -/
inductive Applies (reading : Reading) : Action → Reading → Prop
  | part (piece : Expr) :
      Applies reading (.part piece) { reading with parts := piece :: reading.parts }
  | bar : Applies reading .bar (reading.endBranch reading.rest)
  | opens {kind : GroupKind} (fresh : ∀ name ∈ kind.names, name ∉ reading.names) :
      Applies reading (.opens kind)
        { reading with
          frames := .group reading.parts kind reading.ignore :: reading.frames
          parts := []
          ignore := kind.ignores reading.ignore
          names := kind.names ++ reading.names }
  | closes {body : Expr} {before : List Expr} {kind : GroupKind} {ignore : Bool}
      {frames : List Frame} (opened : reading.body = (body, .group before kind ignore :: frames)) :
      Applies reading .closes
        { reading with frames := frames, parts := .group kind body :: before, ignore := ignore }
  | repeats {last : Expr} {parts : List Expr} (min : Nat) (max : Option Nat) (greedy : Bool)
      (some_ : reading.parts = last :: parts) (solid : last ≠ .empty)
      (no_directive : ∀ change, last ≠ .flags change) :
      Applies reading (.repeats min max greedy)
        { reading with parts := .repetition last min max greedy :: parts }
  | directive (change : FlagChange) :
      Applies reading (.directive change)
        { reading with
          parts := .flags change :: reading.parts
          ignore := change.ignores reading.ignore }

theorem applies_iff {reading next : Reading} :
    perform? reading action = some next ↔ Applies reading action next := by
  constructor
  · intro applied
    cases action with
    | part piece =>
        cases applied
        exact .part piece
    | bar =>
        cases applied
        exact .bar
    | opens kind =>
        simp only [perform?] at applied
        split_ifs at applied with taken
        cases applied
        have fresh : ∀ name ∈ kind.names, name ∉ reading.names := by simpa using taken
        cases kind with
        | captured => exact .opens fresh
        | plain => exact .opens fresh
    | closes =>
        unfold perform? Reading.closeGroup? at applied
        dsimp only at applied
        split at applied
        · cases applied
          exact .closes ‹_›
        · cases applied
    | repeats min max greedy =>
        unfold perform? at applied
        dsimp only at applied
        split at applied
        · cases applied
        · cases applied
        · cases applied
        · rename_i solid plain same
          cases applied
          exact .repeats min max greedy same solid plain
    | directive change =>
        cases applied
        exact .directive change
  · intro applies
    cases applies with
    | part | bar | directive => rfl
    | @opens kind fresh =>
        rw [perform?, if_neg (by simpa using fresh)]
        cases kind <;> rfl
    | closes opened => simp [perform?, Reading.closeGroup?, opened]
    | @repeats last parts _ _ _ same solid plain =>
        simp only [perform?, same]

theorem Applies.rest_eq {reading next : Reading} (applies : Applies reading action next) :
    next.rest = reading.rest := by
  cases applies with
  | bar =>
      unfold Reading.endBranch
      split <;> rfl
  | _ => rfl

theorem Applies.move {reading next : Reading} (applies : Applies reading action next)
    (ahead : List Char) :
    Applies { reading with rest := ahead } action { next with rest := ahead } := by
  cases applies with
  | part piece => exact .part piece
  | bar =>
      obtain ⟨frames, parts, ignore, names, rest⟩ := reading
      match frames with
      | [] | .branches _ :: _ | .group _ _ _ :: _ => exact .bar
  | opens fresh => exact .opens fresh
  | closes opened => exact .closes opened
  | repeats min max greedy same solid plain => exact .repeats min max greedy same solid plain
  | directive change => exact .directive change

end Action

/-- A reading runs to the end of its text and gives a pattern. -/
inductive Run : Reading → Expr → Prop
  | done {reading : Reading} {expr : Expr}
      (ended : skipBlanks reading.ignore reading.rest = []) (whole : reading.body = (expr, [])) :
      Run reading expr
  | step {reading next : Reading} {action : Action} {rest : List Char} {expr : Expr}
      (reads : Action.Reads reading.ignore (skipBlanks reading.ignore reading.rest) action rest)
      (applies : Action.Applies { reading with rest } action next) (run : Run next expr) :
      Run reading expr

namespace Run

theorem of_run? {fuel : Nat} {reading : Reading} {expr : Expr}
    (read : reading.run? fuel = some expr) : Run reading expr := by
  induction fuel generalizing reading with
  | zero => cases read
  | succ fuel ih =>
      rw [Reading.run?] at read
      split at read
      · split at read
        · cases read
          exact .done ‹_› ‹_›
        · cases read
      · rw [Action.step?_eq] at read
        split at read
        · rename_i step
          obtain ⟨⟨action, rest⟩, reads, applied⟩ := Option.bind_eq_some_iff.mp step
          exact .step (Action.reads_iff.mp reads) (Action.applies_iff.mp applied) (ih read)
        · cases read

theorem run? {reading : Reading} {expr : Expr} (run : Run reading expr) :
    ∀ {fuel : Nat}, reading.rest.length < fuel → reading.run? fuel = some expr := by
  induction run with
  | done ended whole =>
      intro fuel enough
      cases fuel with
      | zero => cases enough
      | succ fuel => rw [Reading.run?, ended, whole]
  | @step reading next action rest expr reads applies _ ih =>
      intro fuel enough
      cases fuel with
      | zero => cases enough
      | succ fuel =>
          have shorter := reads.past_blanks.2
          have same : next.rest = rest := applies.rest_eq
          rw [Reading.run?]
          split
          · rename_i ended
            rw [ended] at reads
            cases reads
          · rw [Action.step?_eq, Action.reads_iff.mpr reads]
            simp only [Option.bind_some, Action.applies_iff.mpr applies]
            exact ih (by rw [same]; omega)

end Run

end Pattern

end SchemaEvolution
