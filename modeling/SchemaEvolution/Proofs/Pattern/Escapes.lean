import Mathlib
import SchemaEvolution.Proofs.Pattern.Words

/-! # The dollar sign that ends a pattern

A character is escaped if an odd number of backslashes stands right before it, and so the scan has
it. The cut of a pattern into its anchors and its body loses nothing, but from a dollar sign at the
end it looks back two backslashes and no further. Behind an odd number of them greater than one the
dollar sign is part of the body and taken for an anchor, and then the pattern is compared with no
other body.
-/

namespace SchemaEvolution

namespace Pattern

def backslashes (text : List Char) : Nat := (text.rtakeWhile (· == '\\')).length

/-- The text ends with a dollar sign, and right before it stand this many backslashes and no more. -/
def DollarBehind (count : Nat) (text : List Char) : Prop :=
  ∃ body, text = body ++ ['$'] ∧ backslashes body = count

/-- A pattern without the anchor that it may start with. -/
def pastStart : List Char → List Char
  | '^' :: rest => rest
  | text => text

section Backslashes

variable {text text' : List Char} {c d : Char} {count count' : Nat}

theorem backslashes_concat (text : List Char) (c : Char) :
    backslashes (text ++ [c]) = if c = '\\' then backslashes text + 1 else 0 := by
  unfold backslashes
  rw [List.rtakeWhile_concat]
  by_cases same : c = '\\' <;> simp [same]

theorem concat_suffix_concat : text ++ [c] <:+ text' ++ [d] ↔ text <:+ text' ∧ c = d := by
  rw [List.suffix_concat_iff]
  constructor
  · rintro (none | ⟨front, same, inside⟩)
    · simp at none
    · obtain ⟨rfl, last⟩ := List.append_inj' same rfl
      exact ⟨inside, by simpa using last⟩
  · rintro ⟨inside, rfl⟩
    exact .inr ⟨text, rfl, inside⟩

theorem replicate_suffix_iff :
    List.replicate count '\\' <:+ text ↔ count ≤ backslashes text := by
  induction text using List.reverseRecOn generalizing count with
  | nil => simp [backslashes]
  | append_singleton text c ih =>
      cases count with
      | zero => simp
      | succ count =>
          rw [List.replicate_succ', concat_suffix_concat, ih, backslashes_concat]
          by_cases same : c = '\\'
          · simp [same]
          · simp [same, Ne.symm same]

/-- A character is escaped to the scan if an odd number of backslashes stands right before it. -/
theorem Scan.escaped_along {scan : Scan} (fresh : scan.escaped = false) (text : List Char) :
    (scan.along text).escaped = true ↔ Odd (backslashes text) := by
  induction text using List.reverseRecOn with
  | nil => simp [along, fresh, backslashes]
  | append_singleton text c ih =>
      have step : (scan.along (text ++ [c])).escaped =
          (!(scan.along text).escaped && c == '\\') := by
        rw [along, List.foldl_append, List.foldl_cons, List.foldl_nil, ← along]
        unfold next
        grind
      rw [step, backslashes_concat]
      by_cases same : c = '\\'
      · rw [if_pos same, Nat.odd_add_one, ← ih]
        simp [same]
      · simp [same]

theorem DollarBehind.unique (ends : DollarBehind count text) (ends' : DollarBehind count' text) :
    count = count' := by
  obtain ⟨body, rfl, rfl⟩ := ends
  obtain ⟨body', same, rfl⟩ := ends'
  rw [List.append_cancel_right same]

/-- A number of backslashes that is not one need not be even: it may be odd and greater. -/
theorem taken_as_meant_iff :
    ((∃ count, count ≠ 1 ∧ DollarBehind count text) ↔
        ∃ count, Even count ∧ DollarBehind count text) ↔
      ¬∃ count > 1, Odd count ∧ DollarBehind count text := by
  constructor
  · rintro meant ⟨count, many, odd, ends⟩
    obtain ⟨count', even, ends'⟩ := meant.mp ⟨count, by omega, ends⟩
    rw [ends.unique ends'] at odd
    exact Nat.not_even_iff_odd.mpr odd even
  · intro few
    constructor
    · rintro ⟨count, other, ends⟩
      refine ⟨count, Nat.not_odd_iff_even.mp fun odd => ?_, ends⟩
      have positive := odd.pos
      exact few ⟨count, by omega, odd, ends⟩
    · rintro ⟨count, even, ends⟩
      refine ⟨count, ?_, ends⟩
      rintro rfl
      exact Nat.not_even_one even

end Backslashes

namespace Anchored

variable {text : List Char}

/-- No more than two backslashes are looked at, so the cut knows a single one from any other number. -/
theorem splitEnd_concat (body : List Char) :
    splitEnd (body ++ ['$']) =
      if backslashes body = 1 then (false, body ++ ['$']) else (true, body) := by
  have behind (count : Nat) : (List.replicate count '\\' ++ ['$']).isSuffixOf (body ++ ['$']) =
      decide (count ≤ backslashes body) := by
    rw [Bool.eq_iff_iff, List.isSuffixOf_iff_suffix, concat_suffix_concat, decide_eq_true_iff,
      ← replicate_suffix_iff]
    exact and_iff_left rfl
  have one : ['\\', '$'].isSuffixOf (body ++ ['$']) = _ := behind 1
  have two : ['\\', '\\', '$'].isSuffixOf (body ++ ['$']) = _ := behind 2
  have escaped : (decide (1 ≤ backslashes body) && !decide (2 ≤ backslashes body)) =
      decide (backslashes body = 1) := by
    rw [Bool.eq_iff_iff]
    simp
    omega
  unfold splitEnd
  simp only [stripLast?_append, one, two, escaped, decide_eq_true_eq]

theorem splitEnd_atEnd_iff :
    (splitEnd text).1 = true ↔ ∃ count, count ≠ 1 ∧ DollarBehind count text := by
  constructor
  · intro found
    cases stripped : stripLast? '$' text with
    | none => simp [splitEnd, stripped] at found
    | some body =>
        obtain rfl := stripLast?_eq_some.mp stripped
        rw [splitEnd_concat] at found
        split_ifs at found with single
        exact ⟨backslashes body, single, body, rfl, rfl⟩
  · rintro ⟨_, other, body, rfl, rfl⟩
    rw [splitEnd_concat, if_neg other]

theorem ofPattern_eq (pattern : List Char) :
    ofPattern pattern = ⟨pattern.head? == some '^', (splitEnd (pastStart pattern)).1,
      (splitEnd (pastStart pattern)).2⟩ := by
  by_cases marked : ∃ rest, pattern = '^' :: rest
  · obtain ⟨rest, rfl⟩ := marked
    rfl
  · have unmarked : ∀ rest, pattern ≠ '^' :: rest := not_exists.mp marked
    have whole : pastStart pattern = pattern := by
      unfold pastStart
      split
      · exact absurd rfl (unmarked _)
      · rfl
    have first : pattern.head? ≠ some '^' := fun same =>
      unmarked _ (List.eq_cons_of_mem_head? same)
    rw [ofPattern_of_unmarked unmarked, whole, beq_eq_false_iff_ne.mpr first]

/-- Nothing of a pattern is lost in the cut, and it has an anchor before its body if it starts with
one. A dollar sign at its end is taken for an anchor unless a single backslash stands right before
it. By the escapes it is one if the number of backslashes is even, and so the cut has it, except
where that number is odd and greater than one. -/
theorem anchors_of_pattern (pattern : List Char) :
    (ofPattern pattern).text = pattern ∧
    ((ofPattern pattern).atStart = true ↔ ['^'] <+: pattern) ∧
    ((ofPattern pattern).atEnd = true ↔
      ∃ count, count ≠ 1 ∧ DollarBehind count (pastStart pattern)) ∧
    (((ofPattern pattern).atEnd = true ↔
        ∃ count, Even count ∧ DollarBehind count (pastStart pattern)) ↔
      ¬∃ count > 1, Odd count ∧ DollarBehind count (pastStart pattern)) := by
  have taken : (ofPattern pattern).atEnd = true ↔
      ∃ count, count ≠ 1 ∧ DollarBehind count (pastStart pattern) := by
    rw [ofPattern_eq]
    exact splitEnd_atEnd_iff
  refine ⟨ofPattern_text pattern, ?_, taken, ?_⟩
  · rw [ofPattern_eq, beq_iff_eq]
    cases pattern <;> simp [eq_comm]
  · rw [taken]
    exact taken_as_meant_iff

end Anchored

theorem compareParts?_of_dollarBehind {old new : List Char} {count : Nat} (many : 1 < count)
    (ends : DollarBehind count (pastStart old))
    (other : (Anchored.ofPattern old).body ≠ (Anchored.ofPattern new).body) :
    compareParts? (.ofPattern old) (.ofPattern new) = none := by
  obtain ⟨body, same, rfl⟩ := ends
  have parts : Anchored.ofPattern old = ⟨old.head? == some '^', true, body⟩ := by
    rw [Anchored.ofPattern_eq, same, Anchored.splitEnd_concat, if_neg many.ne']
  obtain ⟨front, rfl⟩ : ['\\'] <:+ body := replicate_suffix_iff.mpr many.le
  have ungrouped : unwrapGroup? (front ++ ['\\']) = none := by
    rw [Option.eq_none_iff_forall_ne_some]
    intro inner unwrapped
    have closed : [] ++ [')'] <:+ front ++ ['\\'] := by
      rcases Anchored.unwrapGroup?_eq_some unwrapped with ⟨_, ⟨whole, _⟩ | whole⟩
      · rw [whole]
        exact ⟨'(' :: inner, rfl⟩
      · rw [whole]
        exact ⟨'(' :: '?' :: ':' :: inner, rfl⟩
    exact absurd (concat_suffix_concat.mp closed).2 (by decide)
  have uncut : (Anchored.ofPattern old).branches? = none := by
    rw [parts, Anchored.branches?, ungrouped]
    exact if_pos (Bool.or_true _)
  rw [compareParts?, if_neg other, uncut]
  exact ite_self none

section ThreeBackslashes

/-! The first two of three backslashes are a backslash of the text, and the third one escapes the
dollar sign. -/

/-- The dollar sign is taken for an anchor, and so a branch more is not seen to allow more. -/
theorem end_anchor_behind_three_backslashes :
    let fits : SizeTest := fun _ => true
    DollarBehind 3 (pastStart "a|b\\\\\\$".toList) ∧
    (Scan.start.along "a|b\\\\\\".toList).escaped = true ∧
    ¬((Anchored.ofPattern "a|b\\\\\\$".toList).atEnd = true ↔
      ∃ count, Even count ∧ DollarBehind count (pastStart "a|b\\\\\\$".toList)) ∧
    compare? (emptyMatch fits) "a|b\\\\\\$" "a|c|b\\\\\\$" = none ∧
    Restrictiveness.looser.Holds fits .ascii "a|b\\\\\\$" "a|c|b\\\\\\$" := by
  intro fits
  have second : Expr.ofText? fits "a|b\\\\\\$" =
      some (.alternation [spelled ['a'], spelled ['b', '\\', '$']]) := Expr.ofText?_eq rfl rfl rfl
  have third : Expr.ofText? fits "a|c|b\\\\\\$" =
      some (.alternation [spelled ['a'], spelled ['c'], spelled ['b', '\\', '$']]) :=
    Expr.ofText?_eq rfl rfl rfl
  have ends : DollarBehind 3 (pastStart "a|b\\\\\\$".toList) :=
    ⟨"a|b\\\\\\".toList, by decide, by decide⟩
  refine ⟨ends, (Scan.escaped_along rfl _).mpr (by decide), ?_, ?_, ?_⟩
  · intro meant
    obtain ⟨count, even, ends'⟩ := meant.mp (by decide)
    rw [← ends.unique ends'] at even
    exact absurd even (by decide)
  · have anchored : ∀ empty, matchesEverything "a|b\\\\\\$".toList empty = false := by decide
    have anchored' : ∀ empty, matchesEverything "a|c|b\\\\\\$".toList empty = false := by decide
    unfold compare?
    rw [if_neg (by decide)]
    split
    · rw [anchored, anchored']
      exact compareParts?_of_dollarBehind (by decide) ends (by decide)
    · rfl
  · rintro text ⟨_, valid, start, finish, whole, matched⟩
    cases second.symm.trans valid
    refine ⟨_, third, start, finish, whole, ?_⟩
    rcases matched with first | last | none
    · exact .inl first
    · exact .inr (.inr (.inl last))
    · cases none

end ThreeBackslashes

end Pattern

end SchemaEvolution
