import Mathlib
import SchemaEvolution.Proofs.Pattern.Pieces

/-! # Pieces do not depend on what follows a branch

A branch of a pattern ends at a bar, at the end of its group or at the end of the pattern. A reader
that does not read past the end of a branch reads the same piece if something else follows there.
-/

namespace SchemaEvolution

namespace Pattern

/-- The characters that may follow a branch. -/
def stops : List Char := ['|', ')', '$']

/-- No piece goes on at the start of the text. -/
def Ended (text : List Char) : Prop := ∀ c rest, text = c :: rest → c ∈ stops

/-- What follows a branch in one place and what follows it in another. Where blanks mean nothing, the
branch is the last one, and an anchor comes behind it. -/
structure Tails (ignore : Bool) (tail tail' : List Char) : Prop where
  ended : Ended tail
  ended' : Ended tail'
  nonempty : tail' ≠ []
  blanks : ignore = true → tail = [] ∧ tail' = ['$']

/-- Two texts that are the same up to the tails, or that both ended in a comment before them. -/
inductive Swapped (ignore : Bool) (tail tail' : List Char) : List Char → List Char → Prop
  | here : Swapped ignore tail tail' tail tail'
  | cons (c : Char) {text text' : List Char} (same : Swapped ignore tail tail' text text') :
      Swapped ignore tail tail' (c :: text) (c :: text')
  | gone (comments : ignore = true) : Swapped ignore tail tail' [] []

/-- A reader that does the same before one tail as before another, if it stays before it. -/
def Stays {α : Type} (ignore : Bool) (tail tail' : List Char)
    (read : List Char → Option (α × List Char)) : Prop :=
  ∀ {text text' rest : List Char} {found : α}, read text = some (found, rest) →
    tail.length ≤ rest.length → Swapped ignore tail tail' text text' →
      ∃ rest', read text' = some (found, rest') ∧ Swapped ignore tail tail' rest rest'

variable {ignore : Bool} {tail tail' text text' : List Char}

theorem fails_of_stop {c : Char} (test : Char → Bool) (fails : stops.all (!test ·) = true)
    (stop : c ∈ stops) : test c = false := by
  simpa using List.all_eq_true.mp fails c stop

theorem Ended.nil : Ended [] := by
  intro c rest same
  cases same

theorem Ended.head_ne (ended : Ended text) {c : Char} (inner : c ∉ stops) (rest : List Char) :
    text ≠ c :: rest := by
  intro same
  exact inner (ended c rest same)

namespace Swapped

theorem append (tail tail' text : List Char) :
    Swapped ignore tail tail' (text ++ tail) (text ++ tail') := by
  induction text with
  | nil => exact .here
  | cons c text ih => exact .cons c ih

theorem eq_append (same : Swapped ignore tail tail' text text') :
    (∃ before, text = before ++ tail ∧ text' = before ++ tail') ∨ ignore = true ∧ text = text' := by
  induction same with
  | here => exact .inl ⟨[], rfl, rfl⟩
  | cons c same ih =>
      rcases ih with ⟨before, rfl, rfl⟩ | ⟨comments, rfl⟩
      · exact .inl ⟨c :: before, rfl, rfl⟩
      · exact .inr ⟨comments, rfl⟩
  | gone comments => exact .inr ⟨comments, rfl⟩

theorem cons_inv {c : Char} (same : Swapped ignore tail tail' (c :: text) text')
    (before : tail.length ≤ text.length) :
    ∃ after, text' = c :: after ∧ Swapped ignore tail tail' text after := by
  cases same with
  | here =>
      simp only [List.length_cons] at before
      omega
  | cons _ same => exact ⟨_, rfl, same⟩

theorem cases_head (tails : Tails ignore tail tail') (same : Swapped ignore tail tail' text text') :
    (∃ c rest rest', text = c :: rest ∧ text' = c :: rest' ∧ Swapped ignore tail tail' rest rest') ∨
      Ended text ∧ Ended text' := by
  cases same with
  | here => exact .inr ⟨tails.ended, tails.ended'⟩
  | cons c same => exact .inl ⟨c, _, _, rfl, rfl, same⟩
  | gone => exact .inr ⟨.nil, .nil⟩

theorem ne_nil (tails : Tails ignore tail tail') (same : Swapped ignore tail tail' text text')
    (nonempty : text ≠ []) : text' ≠ [] := by
  cases same with
  | here => exact tails.nonempty
  | cons => simp
  | gone => exact absurd rfl nonempty

theorem of_head {c : Char} (tails : Tails ignore tail tail') (inner : c ∉ stops)
    (same : Swapped ignore tail tail' (c :: text) text') :
    ∃ after, text' = c :: after ∧ Swapped ignore tail tail' text after := by
  rcases same.cases_head tails with ⟨_, _, after, found, rfl, onward⟩ | ⟨ended, _⟩
  · cases found
    exact ⟨after, rfl, onward⟩
  · exact absurd rfl (ended.head_ne inner text)

theorem not_head {c : Char} (tails : Tails ignore tail tail') (inner : c ∉ stops)
    (same : Swapped ignore tail tail' text text') (none : ∀ rest, text ≠ c :: rest)
    (rest : List Char) :
    text' ≠ c :: rest := by
  rcases same.cases_head tails with ⟨_, _, _, rfl, rfl, _⟩ | ⟨_, ended⟩
  · intro found
    cases found
    exact none _ rfl
  · exact ended.head_ne inner rest

theorem of_head' {c : Char} (tails : Tails ignore tail tail') (inner : c ∉ stops)
    (same : Swapped ignore tail tail' text (c :: text')) :
    ∃ after, text = c :: after ∧ Swapped ignore tail tail' after text' := by
  rcases same.cases_head tails with ⟨_, after, _, rfl, found, onward⟩ | ⟨_, ended⟩
  · cases found
    exact ⟨after, rfl, onward⟩
  · exact absurd rfl (ended.head_ne inner text')

theorem of_pair {c : Char} (tails : Tails ignore tail tail') (inner : c ∉ stops)
    (same : Swapped ignore tail tail' (c :: c :: text) text') :
    ∃ after, text' = c :: c :: after ∧ Swapped ignore tail tail' text after := by
  obtain ⟨_, rfl, onward⟩ := same.of_head tails inner
  obtain ⟨after, rfl, last⟩ := onward.of_head tails inner
  exact ⟨after, rfl, last⟩

theorem not_pair {c : Char} (tails : Tails ignore tail tail') (inner : c ∉ stops)
    (same : Swapped ignore tail tail' text text') (none : ∀ rest, text ≠ c :: c :: rest)
    (rest : List Char) : text' ≠ c :: c :: rest := by
  rintro rfl
  obtain ⟨_, rfl, onward⟩ := same.of_head' tails inner
  obtain ⟨_, rfl, _⟩ := onward.of_head' tails inner
  exact none _ rfl

theorem append_inv {piece rest : List Char} (same : Swapped ignore tail tail' (piece ++ rest) text')
    (before : tail.length ≤ rest.length) :
    ∃ rest', text' = piece ++ rest' ∧ Swapped ignore tail tail' rest rest' := by
  induction piece generalizing text' with
  | nil => exact ⟨text', rfl, same⟩
  | cons c piece ih =>
      obtain ⟨after, rfl, onward⟩ := same.cons_inv (by simp; omega)
      obtain ⟨rest', rfl, last⟩ := ih onward
      exact ⟨rest', rfl, last⟩

theorem append_inv' {piece rest : List Char} (tails : Tails ignore tail tail')
    (inner : ∀ c ∈ piece, c ∉ stops) (same : Swapped ignore tail tail' text (piece ++ rest)) :
    ∃ rest', text = piece ++ rest' := by
  induction piece generalizing text with
  | nil => exact ⟨text, rfl⟩
  | cons c piece ih =>
      obtain ⟨first, others⟩ := List.forall_mem_cons.mp inner
      obtain ⟨after, rfl, onward⟩ := same.of_head' tails first
      obtain ⟨rest', rfl⟩ := ih others onward
      exact ⟨rest', rfl⟩

theorem head?_eq {c : Char} (tails : Tails ignore tail tail') (inner : c ∉ stops)
    (same : Swapped ignore tail tail' text text') : text.head? = some c ↔ text'.head? = some c := by
  rw [List.head?_eq_some_iff, List.head?_eq_some_iff]
  constructor
  · rintro ⟨rest, rfl⟩
    obtain ⟨after, rfl, _⟩ := same.of_head tails inner
    exact ⟨after, rfl⟩
  · rintro ⟨rest, rfl⟩
    obtain ⟨after, rfl, _⟩ := same.of_head' tails inner
    exact ⟨after, rfl⟩

theorem skip (same : Swapped true [] ['$'] text text') (inComment : Bool) :
    Swapped true [] ['$'] (skipBlanks.skip inComment text) (skipBlanks.skip inComment text') := by
  induction same generalizing inComment with
  | here =>
      cases inComment with
      | false => exact .here
      | true => exact .gone rfl
  | cons c same ih =>
      rw [skipBlanks.skip, skipBlanks.skip]
      split_ifs
      · exact ih _
      · exact ih _
      · exact ih _
      · exact .cons c same
  | gone => exact .gone rfl

theorem skipBlanks (tails : Tails ignore tail tail') (same : Swapped ignore tail tail' text text') :
    Swapped ignore tail tail' (Pattern.skipBlanks ignore text) (Pattern.skipBlanks ignore text') := by
  cases ignore with
  | false => exact same
  | true =>
      obtain ⟨rfl, rfl⟩ := tails.blanks rfl
      exact same.skip false

theorem dropBlanks (tails : Tails ignore tail tail') (same : Swapped ignore tail tail' text text') :
    Swapped ignore tail tail' (text.dropWhile Text.isBlank) (text'.dropWhile Text.isBlank) := by
  have ended {text : List Char} (ended : Ended text) : text.dropWhile Text.isBlank = text := by
    cases text with
    | nil => rfl
    | cons c rest =>
        have solid := fails_of_stop Text.isBlank (by decide) (ended c rest rfl)
        rw [List.dropWhile_cons, if_neg (by simp [solid])]
  induction same with
  | here =>
      rw [ended tails.ended, ended tails.ended']
      exact .here
  | cons c same ih =>
      rw [List.dropWhile_cons, List.dropWhile_cons]
      split_ifs
      · exact ih
      · exact .cons c same
  | gone last => exact .gone last

end Swapped

section Readers

theorem stays_hexDigits? (tails : Tails ignore tail tail') (code count : Nat) :
    Stays ignore tail tail' (hexDigits? ignore code count) := by
  intro text text' rest value read before same
  induction count generalizing code text text' with
  | zero =>
      cases Option.some.inj read
      exact ⟨text', rfl, same⟩
  | succ count ih =>
      cases text with
      | nil => cases read
      | cons c text =>
          obtain ⟨digit, isHex, read⟩ := Option.bind_eq_some_iff.mp read
          have further := ((takes_skipBlanks _ _).trans (takes_of_hexDigits? read)).suffix.length_le
          obtain ⟨after, rfl, onward⟩ := same.cons_inv (before.trans further)
          obtain ⟨rest', read', onward⟩ := ih _ read (onward.skipBlanks tails)
          exact ⟨rest', by rw [hexDigits?, isHex]; exact read', onward⟩

/-- The bound of a name between braces is none: any that is long enough gives the same. -/
theorem stays_braced?_read (tails : Tails ignore tail tail') {found name rest : List Char}
    {fuel fuel' : Nat} (read : braced?.read ignore found text fuel = some (name, rest))
    (before : tail.length ≤ rest.length) (same : Swapped ignore tail tail' text text')
    (enough : text'.length ≤ fuel') :
    ∃ rest', braced?.read ignore found text' fuel' = some (name, rest') ∧
      Swapped ignore tail tail' rest rest' := by
  induction fuel generalizing found text text' fuel' with
  | zero => cases text <;> cases read
  | succ fuel ih =>
      cases text with
      | nil => cases read
      | cons c text =>
          have further : rest.length ≤ text.length :=
            Nat.le_of_lt_succ (braced?_read_shorter read)
          obtain ⟨after, rfl, onward⟩ := same.cons_inv (before.trans further)
          cases fuel' with
          | zero => simp at enough
          | succ fuel' =>
              by_cases closes : c = '}'
              · subst closes
                cases Option.some.inj read
                exact ⟨after, rfl, onward⟩
              · rw [braced?.read] at read ⊢
                · refine ih read (onward.skipBlanks tails) ?_
                  have := (takes_skipBlanks ignore after).suffix.length_le
                  simp only [List.length_cons] at enough
                  omega
                all_goals simpa using closes

theorem stays_braced? (tails : Tails ignore tail tail') :
    Stays ignore tail tail' (braced? ignore) := by
  intro text text' rest name read before same
  refine stays_braced?_read tails read before (same.skipBlanks tails) ?_
  exact (takes_skipBlanks _ _).suffix.length_le

theorem stays_hexEscape? (tails : Tails ignore tail tail') (kind : Char) :
    Stays ignore tail tail' (hexEscape? ignore kind) := by
  intro text text' rest literal read before same
  by_cases opens : ∃ inner, text = '{' :: inner
  · obtain ⟨inner, rfl⟩ := opens
    have further := Nat.le_of_lt_succ (hexEscape?_shorter read)
    obtain ⟨inner', rfl, onward⟩ := same.cons_inv (before.trans further)
    simp only [hexEscape?, Option.bind_eq_bind, Option.bind_eq_some_iff, Option.pure_def] at read ⊢
    obtain ⟨⟨digits, after⟩, bracesRead, ⟨code, _⟩, hexRead, char, isChar, same⟩ := read
    cases same
    have last := (takes_skipBlanks ignore after).suffix.length_le
    obtain ⟨after', bracesRead', onward⟩ :=
      stays_braced? tails bracesRead (before.trans last) onward
    exact ⟨_, ⟨_, bracesRead', _, hexRead, char, isChar, rfl⟩, onward.skipBlanks tails⟩
  · have closed : ∀ inner, text ≠ '{' :: inner := fun inner same => opens ⟨inner, same⟩
    rw [hexEscape?.eq_2 _ _ _ closed] at read
    rw [hexEscape?.eq_2 _ _ _ (same.not_head tails (by decide) closed)]
    simp only [Option.bind_eq_bind, Option.bind_eq_some_iff, Option.pure_def] at read ⊢
    obtain ⟨⟨code, after⟩, digitsRead, char, isChar, found⟩ := read
    cases found
    obtain ⟨after', digitsRead', onward⟩ := stays_hexDigits? tails _ _ digitsRead before same
    exact ⟨after', ⟨_, digitsRead', char, isChar, rfl⟩, onward⟩

theorem stays_property? (tails : Tails ignore tail tail') (negated : Bool) :
    Stays ignore tail tail' (property? ignore negated) := by
  intro text text' rest expr read before same
  cases text with
  | nil => cases read
  | cons c text =>
      have further := Nat.le_of_lt_succ (property?_shorter read)
      obtain ⟨after, rfl, onward⟩ := same.cons_inv (before.trans further)
      by_cases opens : c = '{'
      · subst opens
        simp only [property?, Option.bind_eq_bind, Option.bind_eq_some_iff, Option.pure_def] at read ⊢
        obtain ⟨⟨written, after⟩, bracesRead, found⟩ := read
        cases found
        obtain ⟨after', bracesRead', onward⟩ := stays_braced? tails bracesRead before onward
        exact ⟨after', ⟨_, bracesRead', rfl⟩, onward⟩
      · by_cases backslash : c = '\\'
        · subst backslash
          cases read
        · rw [property?.eq_4 _ _ _ _ opens backslash] at read ⊢
          cases read
          exact ⟨_, rfl, onward.skipBlanks tails⟩

theorem stays_wordBoundary? (tails : Tails ignore tail tail') :
    Stays ignore tail tail' (wordBoundary? ignore) := by
  intro text text' rest kind read before same
  by_cases opens : ∃ inner, text = '{' :: inner
  · obtain ⟨inner, rfl⟩ := opens
    obtain ⟨inner', rfl, onward⟩ := same.of_head tails (by decide)
    have skipped := onward.skipBlanks tails
    simp only [wordBoundary?] at read ⊢
    rcases skipped.cases_head tails with ⟨c, name, name', found, found', after⟩ | ⟨ended, ended'⟩
    · simp only [found, found'] at read ⊢
      split_ifs at read ⊢
      · simp only [Option.bind_eq_bind, Option.bind_eq_some_iff] at read ⊢
        obtain ⟨⟨word, after⟩, bracesRead, read⟩ := read
        split_ifs at read with letters
        obtain ⟨kind, known, same⟩ := Option.bind_eq_some_iff.mp read
        cases same
        obtain ⟨after', bracesRead', onward⟩ :=
          stays_braced? tails bracesRead before (.cons c ‹Swapped _ _ _ name name'›)
        refine ⟨after', ⟨_, bracesRead', ?_⟩, onward⟩
        rw [if_pos letters, known]
        rfl
      · cases read
        exact ⟨_, rfl, same⟩
    · have plain {c : Char} (stop : c ∈ stops) :=
        fails_of_stop (fun c => c.isAlpha || c == '-') (by decide) stop
      cases skip : skipBlanks ignore inner with
      | nil => simp [skip] at read
      | cons c after =>
          cases skip' : skipBlanks ignore inner' with
          | nil => exact absurd skip' (skipped.ne_nil tails (by simp [skip]))
          | cons c' after' =>
              simp only [skip, plain (ended c after skip), plain (ended' c' after' skip')] at read ⊢
              cases read
              exact ⟨_, rfl, same⟩
  · have closed : ∀ inner, text ≠ '{' :: inner := fun inner same => opens ⟨inner, same⟩
    rw [wordBoundary?.eq_2 _ _ closed] at read
    rw [wordBoundary?.eq_2 _ _ (same.not_head tails (by decide) closed)]
    cases read
    exact ⟨text', rfl, same⟩

theorem stays_escape? (tails : Tails ignore tail tail') :
    Stays ignore tail tail' (escape? ignore) := by
  intro text text' rest expr read before same
  cases text with
  | nil => cases read
  | cons c text =>
      have further := (takes_of_escape? read).2.1.length_le
      obtain ⟨after, rfl, onward⟩ := same.cons_inv (before.trans further)
      rcases escape?_form ignore c with form | form | form | ⟨rfl, form⟩ | ⟨_, form, _⟩ <;>
        rw [form] at read ⊢
      · cases read
      · obtain ⟨⟨literal, _⟩, hexRead, found⟩ := Option.bind_eq_some_iff.mp read
        cases found
        obtain ⟨rest', hexRead', onward⟩ :=
          stays_hexEscape? tails c hexRead before (onward.skipBlanks tails)
        exact ⟨rest', by rw [hexRead']; rfl, onward⟩
      · exact stays_property? tails _ read before (onward.skipBlanks tails)
      · obtain ⟨⟨kind, _⟩, boundaryRead, found⟩ := Option.bind_eq_some_iff.mp read
        cases found
        obtain ⟨rest', boundaryRead', onward⟩ := stays_wordBoundary? tails boundaryRead before onward
        exact ⟨rest', by rw [boundaryRead']; rfl, onward⟩
      · cases read
        exact ⟨after, rfl, onward⟩

theorem stays_groupName? (isLetter isLetterOrDigit : Char → Bool) (found : List Char) :
    Stays ignore tail tail' (groupName? isLetter isLetterOrDigit found) := by
  intro text text' rest name read before same
  induction text generalizing found text' with
  | nil => cases read
  | cons c text ih =>
      have further := Nat.le_of_lt_succ (groupName?_suffix read).2
      obtain ⟨after, rfl, onward⟩ := same.cons_inv (before.trans further)
      by_cases closes : c = '>'
      · subst closes
        rw [groupName?] at read ⊢
        split_ifs at read ⊢
        cases read
        exact ⟨after, rfl, onward⟩
      · rw [groupName?.eq_3 _ _ _ _ _ closes] at read ⊢
        split_ifs at read ⊢
        all_goals exact ih _ read onward

theorem stays_flags? {change found : FlagChange} {negative : Bool} {last : Char} {rest : List Char}
    (read : flags? change negative text = some (found, last, rest))
    (before : tail.length ≤ rest.length) (same : Swapped ignore tail tail' text text') :
    ∃ rest', flags? change negative text' = some (found, last, rest') ∧
      Swapped ignore tail tail' rest rest' := by
  induction text generalizing change negative text' with
  | nil => cases read
  | cons c text ih =>
      have further : rest.length ≤ text.length := by
        obtain ⟨piece, whole, _⟩ := flags?_eq_some read
        have := congrArg List.length whole
        simp at this
        omega
      obtain ⟨after, rfl, onward⟩ := same.cons_inv (before.trans further)
      rw [flags?] at read ⊢
      split_ifs at read ⊢
      · cases read
        exact ⟨after, rfl, onward⟩
      · exact ih read onward
      all_goals
        obtain ⟨flag, isFlag, read⟩ := Option.bind_eq_some_iff.mp read
        simp only [isFlag, Option.bind_eq_bind, Option.bind_some]
        split_ifs at read ⊢
        exact ih read onward

theorem countDigits_of_ended (ended : Ended text) (found : Option Nat) (fuel : Nat) :
    countDigits ignore found text fuel = (found, text) := by
  cases text with
  | nil => cases fuel <;> rfl
  | cons c rest =>
      cases fuel with
      | zero => rfl
      | succ fuel =>
          have := fails_of_stop Char.isDigit (by decide) (ended c rest rfl)
          rw [countDigits, if_neg (by simp [this])]

theorem Swapped.countDigits (tails : Tails ignore tail tail') {fuel fuel' : Nat}
    (same : Swapped ignore tail tail' text text') (found : Option Nat) (enough : text.length ≤ fuel)
    (enough' : text'.length ≤ fuel') :
    (Pattern.countDigits ignore found text fuel).1 =
        (Pattern.countDigits ignore found text' fuel').1 ∧
      Swapped ignore tail tail' (Pattern.countDigits ignore found text fuel).2
        (Pattern.countDigits ignore found text' fuel').2 := by
  induction fuel generalizing found text text' fuel' with
  | zero =>
      cases List.length_eq_zero_iff.mp (Nat.le_zero.mp enough)
      rcases same.cases_head tails with ⟨_, _, _, none, _⟩ | ⟨ended, ended'⟩
      · cases none
      · rw [countDigits_of_ended ended, countDigits_of_ended ended']
        exact ⟨rfl, same⟩
  | succ fuel ih =>
      rcases same.cases_head tails with ⟨c, rest, rest', rfl, rfl, onward⟩ | ⟨ended, ended'⟩
      · cases fuel' with
        | zero => simp at enough'
        | succ fuel' =>
            rw [Pattern.countDigits, Pattern.countDigits]
            split_ifs
            · have skip := (takes_skipBlanks ignore rest).suffix.length_le
              have skip' := (takes_skipBlanks ignore rest').suffix.length_le
              simp only [List.length_cons] at enough enough'
              exact ih (onward.skipBlanks tails) _ (by omega) (by omega)
            · exact ⟨rfl, same⟩
      · rw [countDigits_of_ended ended, countDigits_of_ended ended']
        exact ⟨rfl, same⟩

theorem Swapped.count? (tails : Tails ignore tail tail') {value : Option Nat} {rest : List Char}
    (same : Swapped ignore tail tail' text text')
    (read : Pattern.count? ignore text = some (value, rest)) :
    ∃ rest', Pattern.count? ignore text' = some (value, rest') ∧
      Swapped ignore tail tail' rest rest' := by
  obtain ⟨digits, onward⟩ := (same.dropBlanks tails).countDigits tails none le_rfl le_rfl
  have onward := (onward.dropBlanks tails).skipBlanks tails
  simp only [Pattern.count?] at read ⊢
  rw [← digits]
  split at read
  · split_ifs at read with small
    cases read
    rw [if_pos small]
    exact ⟨_, rfl, onward⟩
  · cases read
    exact ⟨_, rfl, onward⟩

theorem stays_repetitionCounts? (tails : Tails ignore tail tail') {min : Nat} {max : Option Nat}
    {rest : List Char} (read : repetitionCounts? ignore text = some (min, max, rest))
    (same : Swapped ignore tail tail' text text') :
    ∃ rest', repetitionCounts? ignore text' = some (min, max, rest') ∧
      Swapped ignore tail tail' rest rest' := by
  simp only [repetitionCounts?, Option.bind_eq_bind, Option.bind_eq_some_iff] at read ⊢
  obtain ⟨⟨first, after⟩, firstRead, least, isLeast, read⟩ := read
  obtain ⟨after', firstRead', counted⟩ := (same.skipBlanks tails).count? tails firstRead
  simp only at read
  split at read
  · obtain ⟨rest', rfl, onward⟩ := counted.of_head tails (by decide)
    cases read
    exact ⟨rest', ⟨_, firstRead', _, isLeast, rfl⟩, onward⟩
  · rename_i after
    obtain ⟨after', rfl, onward⟩ := counted.of_head tails (by decide)
    have skipped := onward.skipBlanks tails
    split at read
    · rename_i rest found
      rw [found] at skipped
      obtain ⟨rest', found', onward⟩ := skipped.of_head tails (by decide)
      cases read
      refine ⟨rest', ⟨_, firstRead', _, isLeast, ?_⟩, onward⟩
      simp only [found']
      rfl
    · rename_i closed
      have closed' := skipped.not_head tails (by decide) closed
      simp only [Option.bind_eq_some_iff] at read
      obtain ⟨⟨last, after⟩, lastRead, most, isMost, read⟩ := read
      obtain ⟨after', lastRead', counted⟩ := skipped.count? tails lastRead
      simp only at read
      split at read
      · obtain ⟨rest', rfl, onward⟩ := counted.of_head tails (by decide)
        split_ifs at read with ordered
        cases read
        refine ⟨rest', ⟨_, firstRead', _, isLeast, ?_⟩, onward⟩
        simp only [Option.bind_eq_some_iff]
        exact ⟨_, lastRead', _, isMost, if_pos ordered⟩
      · cases read
  · cases read

end Readers

section Classes

open ClassReading

theorem Swapped.peekPast {c : Char} (tails : Tails ignore tail tail') (inner : c ∉ stops)
    (same : Swapped ignore tail tail' text text') :
    Pattern.peekPast ignore text = some c ↔ Pattern.peekPast ignore text' = some c := by
  cases ignore with
  | false => exact same.head?_eq tails inner
  | true =>
      have solid := same.dropBlanks tails
      simp only [Pattern.peekPast, if_true]
      by_cases comment : ∃ after, text.dropWhile Text.isBlank = '#' :: after
      · obtain ⟨after, found⟩ := comment
        rw [found] at solid
        obtain ⟨after', found', onward⟩ := solid.of_head tails (by decide)
        rw [found, found']
        exact (onward.dropBlanks tails).head?_eq tails inner
      · have none : ∀ after, text.dropWhile Text.isBlank ≠ '#' :: after :=
          fun after found => comment ⟨after, found⟩
        have none' := solid.not_head tails (by decide) none
        split
        · exact absurd ‹_› (none _)
        · exact solid.head?_eq tails inner

theorem Swapped.leadingCaret (tails : Tails ignore tail tail')
    (same : Swapped ignore tail tail' text text') :
    (ClassReading.leadingCaret ignore text).1 = (ClassReading.leadingCaret ignore text').1 ∧
      Swapped ignore tail tail' (ClassReading.leadingCaret ignore text).2
        (ClassReading.leadingCaret ignore text').2 := by
  by_cases caret : ∃ after, text = '^' :: after
  · obtain ⟨after, rfl⟩ := caret
    obtain ⟨after', rfl, onward⟩ := same.of_head tails (by decide)
    exact ⟨rfl, onward.skipBlanks tails⟩
  · have none : ∀ after, text ≠ '^' :: after := fun after found => caret ⟨after, found⟩
    rw [ClassReading.leadingCaret.eq_2 _ _ none,
      ClassReading.leadingCaret.eq_2 _ _ (same.not_head tails (by decide) none)]
    exact ⟨rfl, same⟩

theorem leadingHyphens_of_none {items : List ClassSet} (none : ∀ after, text ≠ '-' :: after)
    (fuel : Nat) : leadingHyphens ignore items text fuel = (items, text) := by
  rw [leadingHyphens]
  exact fun after _ found _ => none after found

theorem Swapped.leadingHyphens (tails : Tails ignore tail tail') {fuel fuel' : Nat}
    (same : Swapped ignore tail tail' text text') (items : List ClassSet)
    (enough : text.length ≤ fuel)
    (enough' : text'.length ≤ fuel') :
    (ClassReading.leadingHyphens ignore items text fuel).1 =
        (ClassReading.leadingHyphens ignore items text' fuel').1 ∧
      Swapped ignore tail tail' (ClassReading.leadingHyphens ignore items text fuel).2
        (ClassReading.leadingHyphens ignore items text' fuel').2 := by
  induction fuel generalizing items text text' fuel' with
  | zero =>
      cases List.length_eq_zero_iff.mp (Nat.le_zero.mp enough)
      rw [leadingHyphens_of_none (by simp),
        leadingHyphens_of_none (same.not_head tails (by decide) (by simp))]
      exact ⟨rfl, same⟩
  | succ fuel ih =>
      by_cases hyphen : ∃ after, text = '-' :: after
      · obtain ⟨after, rfl⟩ := hyphen
        obtain ⟨after', rfl, onward⟩ := same.of_head tails (by decide)
        cases fuel' with
        | zero => simp at enough'
        | succ fuel' =>
            have skip := (takes_skipBlanks ignore after).suffix.length_le
            have skip' := (takes_skipBlanks ignore after').suffix.length_le
            simp only [List.length_cons] at enough enough'
            exact ih (onward.skipBlanks tails) _ (by omega) (by omega)
      · have none : ∀ after, text ≠ '-' :: after := fun after found => hyphen ⟨after, found⟩
        rw [leadingHyphens_of_none none,
          leadingHyphens_of_none (same.not_head tails (by decide) none)]
        exact ⟨rfl, same⟩

theorem Swapped.leadingBracket (tails : Tails ignore tail tail')
    (same : Swapped ignore tail tail' text text') (items : List ClassSet) :
    (ClassReading.leadingBracket ignore items text).1 =
        (ClassReading.leadingBracket ignore items text').1 ∧
      Swapped ignore tail tail' (ClassReading.leadingBracket ignore items text).2
        (ClassReading.leadingBracket ignore items text').2 := by
  cases items with
  | cons item items => exact ⟨rfl, same⟩
  | nil =>
      by_cases closes : ∃ after, text = ']' :: after
      · obtain ⟨after, rfl⟩ := closes
        obtain ⟨after', rfl, onward⟩ := same.of_head tails (by decide)
        exact ⟨rfl, onward.skipBlanks tails⟩
      · have none : ∀ after, text ≠ ']' :: after := fun after found => closes ⟨after, found⟩
        have none' := same.not_head tails (by decide) none
        unfold ClassReading.leadingBracket
        split
        · exact absurd rfl (none _)
        · split
          · exact absurd rfl (none' _)
          · exact ⟨rfl, same⟩

theorem Swapped.openBracket? (tails : Tails ignore tail tail') {frames : List ClassFrame}
    {before : List ClassSet} {reading : ClassReading}
    (read : ClassReading.openBracket? ignore frames before text = some reading)
    (same : Swapped ignore tail tail' text text') :
    ∃ rest', ClassReading.openBracket? ignore frames before text' =
        some { reading with rest := rest' } ∧ Swapped ignore tail tail' reading.rest rest' := by
  obtain ⟨caret, onward⟩ := (same.skipBlanks tails).leadingCaret tails
  obtain ⟨hyphens, onward⟩ := onward.leadingHyphens tails [] le_rfl le_rfl
  obtain ⟨start, onward⟩ := onward.leadingBracket tails
    (ClassReading.leadingHyphens ignore [] _ _).1
  rw [openBracket?_eq] at read ⊢
  simp only at read ⊢
  split_ifs at read with empty
  cases read
  rw [← hyphens, ← start, ← caret]
  have nonempty := onward.ne_nil tails (by simpa using empty)
  rw [if_neg (by simpa using nonempty)]
  exact ⟨_, rfl, onward⟩

theorem stays_namedClass? : Stays ignore tail tail' namedClass? := by
  intro text text' rest set read before same
  obtain ⟨kind, negated, rfl, rfl⟩ := namedClass?_eq_some.mp read
  obtain ⟨rest', rfl, onward⟩ := same.append_inv before
  exact ⟨rest', namedClass?_eq_some.mpr ⟨kind, negated, rfl, rfl⟩, onward⟩

theorem namedText_not_stops (kind : NamedClass) (negated : Bool) :
    ∀ c ∈ namedText kind negated, c ∉ stops := by
  cases kind <;> cases negated <;> simp [namedText, NamedClass.name, stops]

theorem Swapped.namedClass?_none (tails : Tails ignore tail tail')
    (same : Swapped ignore tail tail' text text') (none : namedClass? text = none) :
    namedClass? text' = .none := by
  cases read : namedClass? text' with
  | none => rfl
  | some found =>
      obtain ⟨kind, negated, _, rfl⟩ := namedClass?_eq_some.mp read
      obtain ⟨rest, rfl⟩ := same.append_inv' tails (namedText_not_stops kind negated)
      rw [namedClass?_eq_some.mpr ⟨kind, negated, rfl, rfl⟩] at none
      cases none

theorem stays_item? (tails : Tails ignore tail tail') : Stays ignore tail tail' (item? ignore) := by
  intro text text' rest item read before same
  cases text with
  | nil => cases read
  | cons c text =>
      have further := Nat.le_of_lt_succ (item?_suffix read).2
      obtain ⟨after, rfl, onward⟩ := same.cons_inv (before.trans further)
      by_cases backslash : c = '\\'
      · subst backslash
        exact stays_escape? tails read before onward
      · rw [item?.eq_3 _ _ _ backslash] at read ⊢
        cases read
        exact ⟨after, rfl, onward⟩

theorem stays_readItem? (tails : Tails ignore tail tail') {reading next : ClassReading}
    (read : readItem? ignore reading = some next) (before : tail.length ≤ next.rest.length)
    (same : Swapped ignore tail tail' reading.rest text') :
    ∃ rest', readItem? ignore { reading with rest := text' } = some { next with rest := rest' } ∧
      Swapped ignore tail tail' next.rest rest' := by
  unfold readItem? at read ⊢
  simp only [Option.bind_eq_bind, Option.bind_eq_some_iff, Option.pure_def] at read ⊢
  obtain ⟨⟨first, rest⟩, firstRead, read⟩ := read
  have skip := (takes_skipBlanks ignore rest).suffix.length_le
  simp only at read
  split at read
  · cases read
  · rename_i after found
    rw [found] at skip
    have marks {after' : List Char} (onward : Swapped ignore tail tail' after after') :
        (peekPast ignore after = some ']' ∨ peekPast ignore after = some '-') ↔
          (peekPast ignore after' = some ']' ∨ peekPast ignore after' = some '-') :=
      or_congr (onward.peekPast tails (by decide)) (onward.peekPast tails (by decide))
    have marked {after' : List Char} (onward : Swapped ignore tail tail' after after') :
        (decide (peekPast ignore after = some ']') || decide (peekPast ignore after = some '-')) =
          (decide (peekPast ignore after' = some ']') ||
            decide (peekPast ignore after' = some '-')) := by
      rw [Bool.eq_iff_iff]
      simpa using marks onward
    split_ifs at read with mark
    · obtain ⟨set, isSet, found'⟩ := Option.bind_eq_some_iff.mp read
      cases found'
      obtain ⟨rest', firstRead', skipped⟩ := stays_item? tails firstRead (before.trans skip) same
      have skipped := skipped.skipBlanks tails
      rw [found] at skipped
      obtain ⟨after', found', onward⟩ := skipped.of_head tails (by decide)
      refine ⟨'-' :: after', ⟨_, firstRead', ?_⟩, .cons _ onward⟩
      simp only [found']
      rw [← marked onward, if_pos mark, isSet]
      rfl
    · simp only [Option.bind_eq_some_iff] at read
      obtain ⟨⟨last, rest⟩, lastRead, set, isSet, found'⟩ := read
      cases found'
      have further := (item?_suffix lastRead).1.length_le.trans
        (takes_skipBlanks ignore after).suffix.length_le
      simp only [List.length_cons] at skip before
      obtain ⟨rest', firstRead', skipped⟩ := stays_item? tails firstRead (by omega) same
      have skipped := skipped.skipBlanks tails
      rw [found] at skipped
      obtain ⟨after', found', onward⟩ := skipped.of_head tails (by decide)
      obtain ⟨rest'', lastRead', onward'⟩ :=
        stays_item? tails lastRead before (onward.skipBlanks tails)
      refine ⟨rest'', ⟨_, firstRead', ?_⟩, onward'⟩
      simp only [found']
      rw [← marked onward, if_neg mark]
      simp only [Option.bind_eq_some_iff]
      exact ⟨_, lastRead', _, isSet, rfl⟩
  · rename_i some_ none_
    obtain ⟨set, isSet, found'⟩ := Option.bind_eq_some_iff.mp read
    cases found'
    obtain ⟨rest', firstRead', skipped⟩ := stays_item? tails firstRead (before.trans skip) same
    have skipped := skipped.skipBlanks tails
    have nonempty := skipped.ne_nil tails some_
    have plain := skipped.not_head tails (by decide) none_
    refine ⟨_, ⟨_, firstRead', ?_⟩, skipped⟩
    simp only [isSet]
    rfl

def moved (rest' : List Char) :
    (Expr × List Char) ⊕ ClassReading → (Expr × List Char) ⊕ ClassReading
  | .inl (part, _) => .inl (part, rest')
  | .inr reading => .inr { reading with rest := rest' }

theorem close?_moved {reading : ClassReading} {rest : List Char}
    {next : (Expr × List Char) ⊕ ClassReading} (read : reading.close? rest = some next)
    (text' rest' : List Char) :
    ClassReading.close? { reading with rest := text' } rest' = some (moved rest' next) := by
  unfold close? at read ⊢
  simp only at read ⊢
  split at read
  · cases read
    simp [moved, *]
  · cases read
    simp [moved, *]
  · cases read

theorem stays_step? (tails : Tails ignore tail tail') {reading : ClassReading}
    {next : (Expr × List Char) ⊕ ClassReading} (read : reading.step? ignore = some next)
    (before : tail.length ≤ (ahead next).length)
    (same : Swapped ignore tail tail' reading.rest text') :
    ∃ rest', ClassReading.step? ignore { reading with rest := text' } = some (moved rest' next) ∧
      Swapped ignore tail tail' (ahead next) rest' := by
  have skipped := same.skipBlanks tails
  unfold step? at read ⊢
  simp only [Option.map_eq_map] at read ⊢
  generalize skipBlanks ignore reading.rest = text at read skipped
  generalize skipBlanks ignore text' = other at skipped
  split at read
  · cases read
  · rename_i rest
    obtain ⟨rest', rfl, onward⟩ := skipped.of_head tails (by decide)
    split at read
    · rename_i set rest named
      cases read
      obtain ⟨rest', named', onward⟩ := stays_namedClass? named before onward
      exact ⟨rest', by simp only [named']; rfl, onward⟩
    · rename_i unnamed
      obtain ⟨opened, open_, rfl⟩ := Option.map_eq_some_iff.mp read
      obtain ⟨rest', open', onward'⟩ := onward.openBracket? tails open_
      refine ⟨rest', ?_, onward'⟩
      simp only [onward.namedClass?_none tails unnamed, open']
      rfl
  · obtain ⟨rest', rfl, onward⟩ := skipped.of_head tails (by decide)
    rw [← close?_ahead read] at onward
    exact ⟨rest', close?_moved read _ _, onward⟩
  · obtain ⟨rest', rfl, onward⟩ := skipped.of_pair tails (by decide)
    cases read
    exact ⟨rest', rfl, onward⟩
  · obtain ⟨rest', rfl, onward⟩ := skipped.of_pair tails (by decide)
    cases read
    exact ⟨rest', rfl, onward⟩
  · obtain ⟨rest', rfl, onward⟩ := skipped.of_pair tails (by decide)
    cases read
    exact ⟨rest', rfl, onward⟩
  · rename_i empty bracket close amp hyphen tilde
    obtain ⟨item, itemRead, rfl⟩ := Option.map_eq_some_iff.mp read
    obtain ⟨rest', itemRead', onward⟩ := stays_readItem? tails itemRead before skipped
    refine ⟨rest', ?_, onward⟩
    split
    · exact absurd rfl (skipped.ne_nil tails empty)
    · exact absurd rfl (skipped.not_head tails (by decide) bracket _)
    · exact absurd rfl (skipped.not_head tails (by decide) close _)
    · exact absurd rfl (skipped.not_pair tails (by decide) amp _)
    · exact absurd rfl (skipped.not_pair tails (by decide) hyphen _)
    · exact absurd rfl (skipped.not_pair tails (by decide) tilde _)
    · simp only [itemRead']
      rfl

theorem stays_run? (tails : Tails ignore tail tail') {reading : ClassReading} {fuel fuel' : Nat}
    {part : Expr} {rest : List Char} (read : reading.run? ignore fuel = some (part, rest))
    (before : tail.length ≤ rest.length) (same : Swapped ignore tail tail' reading.rest text')
    (enough : text'.length < fuel') :
    ∃ rest', ClassReading.run? ignore fuel' { reading with rest := text' } = some (part, rest') ∧
      Swapped ignore tail tail' rest rest' := by
  induction fuel generalizing reading text' fuel' with
  | zero => cases read
  | succ fuel ih =>
      cases fuel' with
      | zero => cases enough
      | succ fuel' =>
          rw [run?] at read ⊢
          split at read
          · cases read
          · rename_i step
            cases read
            obtain ⟨rest', step', onward⟩ := stays_step? tails step before same
            exact ⟨rest', by rw [step']; rfl, onward⟩
          · rename_i next step
            have further := before.trans (run?_suffix read).length_le
            obtain ⟨rest', step', onward⟩ := stays_step? tails step further same
            have shorter := (step?_suffix step').2
            simp only [moved, ahead] at shorter
            rw [step']
            exact ih read onward (by omega)

theorem stays_class? (tails : Tails ignore tail tail') :
    Stays ignore tail tail' (class? ignore) := by
  intro text text' rest part read before same
  obtain ⟨reading, opened, read⟩ := Option.bind_eq_some_iff.mp read
  obtain ⟨rest', opened', onward⟩ := same.openBracket? tails opened
  have inside := (openBracket?_suffix opened').length_le
  simp only at inside
  obtain ⟨rest'', read', onward⟩ := stays_run? tails read before onward (by
    show rest'.length < text'.length + 1
    omega)
  exact ⟨rest'', by rw [class?, opened']; exact read', onward⟩

end Classes

end Pattern

end SchemaEvolution
