import Mathlib
import SchemaEvolution.Proofs.Pattern.Relation

/-! # Choices of words

A pattern that spells out the words it looks for is a set of them to the comparison. Neither their
order nor how often one is written counts, and a group around them is as good as another.
-/

namespace SchemaEvolution

namespace Pattern

/-- A word of ASCII letters and digits. -/
structure IsWord (word : List Char) : Prop where
  nonempty : word ≠ []
  isAlphanum : ∀ c ∈ word, c.isAlphanum = true

instance (word : List Char) : Decidable (IsWord word) :=
  decidable_of_iff (word ≠ [] ∧ word.all Char.isAlphanum = true)
    ⟨fun ⟨nonempty, plain⟩ => ⟨nonempty, List.all_eq_true.mp plain⟩,
      fun ⟨nonempty, plain⟩ => ⟨nonempty, List.all_eq_true.mpr plain⟩⟩

/-- What stands around the branches of a body: nothing, or a group that is captured or not. -/
inductive Wrapping where
  | bare
  | captured
  | uncaptured
  deriving Repr, DecidableEq

def Wrapping.around : Wrapping → List Char → List Char
  | .bare, inner => inner
  | .captured, inner => '(' :: (inner ++ [')'])
  | .uncaptured, inner => '(' :: '?' :: ':' :: (inner ++ [')'])

/-- Words as the branches of a pattern. Between anchors they stand in a group. -/
structure Choice where
  words : List String
  wrapping : Wrapping := .bare
  atStart : Bool := false
  atEnd : Bool := false
  nonempty : words ≠ []
  isWord : ∀ word ∈ words, IsWord word.toList
  grouped : wrapping = .bare → atStart = false ∧ atEnd = false

namespace Choice

def texts (choice : Choice) : List (List Char) := choice.words.map String.toList

def joined (choice : Choice) : List Char := ("|".intercalate choice.words).toList

def parts (choice : Choice) : Anchored where
  atStart := choice.atStart
  atEnd := choice.atEnd
  body := choice.wrapping.around choice.joined

def pattern (choice : Choice) : String := String.ofList choice.parts.text

end Choice

section Cut

/-! Words and bars between them have no character that opens a group or a class or escapes. -/

variable {text : List Char}

theorem ne_of_isAlphanum {c d : Char} (plain : c.isAlphanum = true) (other : d.isAlphanum = false) :
    c ≠ d := by
  rintro rfl
  exact Bool.false_ne_true (other.symm.trans plain)

/-- Nothing but letters, digits and bars. -/
def IsFlat (text : List Char) : Prop := ∀ c ∈ text, c = '|' ∨ c.isAlphanum = true

theorem IsWord.isFlat (word : IsWord text) : IsFlat text := fun c member =>
  .inr (word.isAlphanum c member)

theorem isFlat_intercalate {texts : List (List Char)} (flat : ∀ text ∈ texts, IsFlat text) :
    IsFlat (['|'].intercalate texts) := by
  induction texts with
  | nil => simp [IsFlat]
  | cons text texts ih =>
      obtain ⟨here, later⟩ := List.forall_mem_cons.mp flat
      cases texts with
      | nil => simpa using here
      | cons next texts =>
          rw [List.intercalate_cons_cons]
          exact List.forall_mem_append.mpr
            ⟨List.forall_mem_append.mpr ⟨here, by simp⟩, ih later⟩

theorem ne_of_flat {c d : Char} (flat : c = '|' ∨ c.isAlphanum = true)
    (other : d ≠ '|' ∧ d.isAlphanum = false) : c ≠ d := by
  rintro rfl
  rcases flat with bar | plain
  · exact other.1 bar
  · exact ne_of_isAlphanum plain other.2 rfl

theorem IsFlat.not_mem (flat : IsFlat text) {d : Char} (other : d ≠ '|' ∧ d.isAlphanum = false) :
    d ∉ text := fun member => ne_of_flat (flat d member) other rfl

theorem Scan.next_start {c : Char} (flat : c = '|' ∨ c.isAlphanum = true) :
    start.next c = start := by
  have apart (d : Char) (other : d ≠ '|' ∧ d.isAlphanum = false) : c ≠ d := ne_of_flat flat other
  simp [next, start, apart '\\' (by decide), apart '[' (by decide), apart '(' (by decide),
    apart ')' (by decide)]

theorem isBalanced_of_flat (flat : IsFlat text) : isBalanced text = true := by
  unfold isBalanced
  induction text with
  | nil => rfl
  | cons c text ih =>
      obtain ⟨here, later⟩ := List.forall_mem_cons.mp flat
      rw [isBalancedFrom, Scan.next_start here, ih later]
      rfl

/-- A flat text is cut at every bar. -/
theorem branches_of_flat (flat : IsFlat text) : branches text = text.splitOn '|' := by
  unfold branches
  rw [List.splitOn_eq_splitOnP]
  induction text with
  | nil => rfl
  | cons c text ih =>
      obtain ⟨here, later⟩ := List.forall_mem_cons.mp flat
      have cut : Scan.start.cutsAt c = (c == '|') := by simp [Scan.cutsAt, Scan.start]
      rw [branchesFrom, Scan.next_start here, ih later, cut,
        List.splitOnP_cons_eq_if_modifyHead]
      split_ifs with bar
      · rfl
      · cases inner : text.splitOnP (· == '|') with
        | nil => exact absurd inner (List.splitOnP_ne_nil _ _)
        | cons first others => rfl

end Cut

section Parts

variable {inner : List Char}

theorem stripLast?_append (c : Char) (body : List Char) :
    stripLast? c (body ++ [c]) = some body :=
  Anchored.stripLast?_eq_some.mpr rfl

theorem unwrapGroup?_captured (balanced : isBalanced inner = true)
    (unmarked : ∀ rest, inner ≠ '?' :: rest) :
    unwrapGroup? ('(' :: (inner ++ [')'])) = some inner := by
  simp only [unwrapGroup?, stripLast?_append, balanced, Bool.not_true, Bool.false_eq_true, if_false]
  split
  · exact absurd rfl (unmarked _)
  · exact absurd rfl (unmarked _)
  · rfl

theorem unwrapGroup?_uncaptured (balanced : isBalanced inner = true) :
    unwrapGroup? ('(' :: '?' :: ':' :: (inner ++ [')'])) = some inner := by
  have balanced : isBalanced ('?' :: ':' :: inner) = true := balanced
  have stripped := stripLast?_append ')' ('?' :: ':' :: inner)
  simp only [List.cons_append] at stripped
  simp only [unwrapGroup?, stripped, balanced, Bool.not_true, Bool.false_eq_true, if_false]

theorem Anchored.splitEnd_of_not_mem {body : List Char} (noEnd : '$' ∉ body)
    (noEscape : '\\' ∉ body) (atEnd : Bool) :
    splitEnd (body ++ if atEnd then ['$'] else []) = (atEnd, body) := by
  have unescaped (rear : List Char) (plain : '\\' ∉ rear) :
      ['\\', '$'].isSuffixOf (body ++ rear) = false := by
    rw [← Bool.not_eq_true, List.isSuffixOf_iff_suffix]
    intro escaped
    have member := escaped.subset (List.mem_cons_self : '\\' ∈ ['\\', '$'])
    exact (List.mem_append.mp member).elim noEscape plain
  unfold splitEnd
  cases atEnd with
  | true =>
      rw [if_pos rfl, unescaped _ (by decide), stripLast?_append]
      rfl
  | false =>
      rw [if_neg (by decide), List.append_nil]
      cases stripped : stripLast? '$' body with
      | none => rfl
      | some rest =>
          rw [stripLast?_eq_some.mp stripped] at noEnd
          simp at noEnd

theorem Anchored.ofPattern_of_unmarked {pattern : List Char}
    (unmarked : ∀ rest, pattern ≠ '^' :: rest) :
    ofPattern pattern = ⟨false, (splitEnd pattern).1, (splitEnd pattern).2⟩ := by
  unfold ofPattern
  split
  rename_i atStart text same
  split at same
  · exact absurd rfl (unmarked _)
  · cases same
    rfl

theorem Anchored.ofPattern_text_of_not_mem {parts : Anchored} (noStart : '^' ∉ parts.body)
    (noEnd : '$' ∉ parts.body) (noEscape : '\\' ∉ parts.body) : ofPattern parts.text = parts := by
  obtain ⟨atStart, atEnd, body⟩ := parts
  have cut : splitEnd (body ++ if atEnd then ['$'] else []) = (atEnd, body) :=
    splitEnd_of_not_mem noEnd noEscape atEnd
  cases atStart with
  | true => simp [ofPattern, text, cut]
  | false =>
      have unmarked : ∀ rest, body ++ (if atEnd then ['$'] else []) ≠ '^' :: rest := by
        intro rest same
        cases body with
        | nil => cases atEnd <;> simp at same
        | cons c body =>
            cases same
            exact noStart List.mem_cons_self
      change ofPattern (body ++ if atEnd then ['$'] else []) = _
      rw [ofPattern_of_unmarked unmarked, cut]

end Parts

namespace Choice

variable (choice : Choice)

theorem joined_eq : choice.joined = ['|'].intercalate choice.texts := String.toList_intercalate

theorem texts_ne_nil : choice.texts ≠ [] := by
  simpa [texts] using choice.nonempty

theorem isWord_of_mem_texts : ∀ text ∈ choice.texts, IsWord text :=
  List.forall_mem_map.mpr choice.isWord

theorem isFlat_joined : IsFlat choice.joined := by
  rw [joined_eq]
  exact isFlat_intercalate fun text member => (choice.isWord_of_mem_texts text member).isFlat

theorem branches_joined : Pattern.branches choice.joined = choice.texts := by
  rw [branches_of_flat choice.isFlat_joined, joined_eq]
  refine List.splitOn_intercalate '|' (fun text member bar => ?_) choice.texts_ne_nil
  exact ne_of_isAlphanum ((choice.isWord_of_mem_texts text member).isAlphanum _ bar) (by decide) rfl

theorem not_mem_body {d : Char} (other : d ≠ '|' ∧ d.isAlphanum = false)
    (outside : d ∉ ['(', '?', ':', ')']) : d ∉ choice.parts.body := by
  have inside := choice.isFlat_joined.not_mem other
  unfold parts Wrapping.around
  dsimp only
  simp only [List.mem_cons, List.not_mem_nil, or_false, not_or] at outside
  cases choice.wrapping <;> simp [inside, outside]

theorem ofPattern_pattern : Anchored.ofPattern choice.pattern.toList = choice.parts := by
  rw [pattern, String.toList_ofList]
  apply Anchored.ofPattern_text_of_not_mem
  · exact choice.not_mem_body (by decide) (by decide)
  · exact choice.not_mem_body (by decide) (by decide)
  · exact choice.not_mem_body (by decide) (by decide)

theorem joined_ne_cons {d : Char} (other : d ≠ '|' ∧ d.isAlphanum = false) (rest : List Char) :
    choice.joined ≠ d :: rest := fun same =>
  choice.isFlat_joined.not_mem other (same ▸ List.mem_cons_self)

theorem unwrapGroup?_of_bare (bare : choice.wrapping = .bare) :
    unwrapGroup? choice.parts.body = none := by
  rw [Option.eq_none_iff_forall_ne_some]
  intro inner unwrapped
  have opener := choice.joined_ne_cons (d := '(') (by decide)
  rw [parts, bare] at unwrapped
  rcases Anchored.unwrapGroup?_eq_some unwrapped with ⟨_, ⟨same, _⟩ | same⟩
  · exact opener _ same
  · exact opener _ same

theorem unwrapGroup?_of_group (group : choice.wrapping ≠ .bare) :
    unwrapGroup? choice.parts.body = some choice.joined := by
  have balanced := isBalanced_of_flat choice.isFlat_joined
  unfold parts
  dsimp only
  cases wrapped : choice.wrapping with
  | bare => exact absurd wrapped group
  | captured => exact unwrapGroup?_captured balanced (choice.joined_ne_cons (by decide))
  | uncaptured => exact unwrapGroup?_uncaptured balanced

/-- Whatever stands around the words, they are the branches. -/
theorem branches?_parts : choice.parts.branches? = some choice.texts := by
  rw [Anchored.branches?]
  by_cases bare : choice.wrapping = .bare
  · have body : choice.parts.body = choice.joined := by rw [parts, bare, Wrapping.around]
    obtain ⟨noStart, noEnd⟩ : choice.parts.atStart = false ∧ choice.parts.atEnd = false :=
      choice.grouped bare
    rw [choice.unwrapGroup?_of_bare bare, noStart, noEnd, body]
    exact congrArg some choice.branches_joined
  · rw [choice.unwrapGroup?_of_group bare]
    exact congrArg some choice.branches_joined

end Choice

section Reading

def spelled (word : List Char) : Expr := .ofParts (word.map fun c => .literal { char := c })

theorem Action.reads_of_isAlphanum {c : Char} (plain : c.isAlphanum = true) (rest : List Char) :
    Reads false (c :: rest) (.part (.literal { char := c })) rest := by
  have apart (d : Char) (other : d.isAlphanum = false) : c ≠ d := ne_of_isAlphanum plain other
  have same : single c = .literal { char := c } := by
    apply single.eq_4
    · exact apart '.' (by decide)
    · exact apart '^' (by decide)
    · exact apart '$' (by decide)
  rw [← same]
  apply Reads.single
  intro member
  simp only [leading, List.mem_cons, List.not_mem_nil, or_false] at member
  rcases member with rfl | rfl | rfl | rfl | rfl | rfl | rfl | rfl | rfl <;> cases plain

variable {expr : Expr} {names : List String}

theorem Run.word {frames : List Frame} {parts : List Expr} {word rest : List Char}
    (plain : ∀ c ∈ word, c.isAlphanum = true)
    (run : Run ⟨frames, parts, false, names, word ++ rest⟩ expr) :
    Run ⟨frames, (word.map fun c => .literal { char := c }).reverse ++ parts, false, names, rest⟩
      expr := by
  induction word generalizing parts with
  | nil => exact run
  | cons c word ih =>
      obtain ⟨here, later⟩ := List.forall_mem_cons.mp plain
      obtain ⟨next, applies, run⟩ := run.onward rfl (Action.reads_of_isAlphanum here _)
      cases applies
      simpa using ih later run

/-- Words with bars between them are read word by word, each a branch. -/
theorem Run.words (outer : List Frame) (ended : List Expr) {texts : List (List Char)}
    {tail : List Char} (apart : ∀ ended frames, outer ≠ .branches ended :: frames)
    (isWord : ∀ text ∈ texts, IsWord text) (nonempty : texts ≠ [])
    (run : Run ⟨levelFrames outer ended, [], false, names, ['|'].intercalate texts ++ tail⟩ expr) :
    ∃ last, Run last expr ∧ last.ignore = false ∧ last.rest = tail ∧
      last.body = (.ofBranches (ended.reverse ++ texts.map spelled), outer) := by
  induction texts generalizing ended with
  | nil => exact absurd rfl nonempty
  | cons text texts ih =>
      obtain ⟨here, later⟩ := List.forall_mem_cons.mp isWord
      cases texts with
      | nil =>
          rw [List.intercalate_singleton] at run
          refine ⟨_, run.word here.isAlphanum, rfl, rfl, ?_⟩
          rw [Reading.body_level apart]
          simp [spelled]
      | cons next texts =>
          rw [List.intercalate_cons_cons, List.append_assoc, List.append_assoc] at run
          obtain ⟨reading, applies, run⟩ :=
            (run.word here.isAlphanum).onward rfl (Action.Reads.bar _)
          obtain rfl := applies.bar_level apart
          obtain ⟨last, run, counts, ahead, body⟩ := ih _ later (by simp) run
          refine ⟨last, run, counts, ahead, body.trans ?_⟩
          simp [spelled]

theorem matchesEmpty_spelled {word : List Char} (isWord : IsWord word) :
    (spelled word).matchesEmpty = false := by
  match word, isWord.nonempty with
  | [c], _ => simp [spelled, Expr.ofParts, Expr.matchesEmpty]
  | c :: d :: rest, _ => simp [spelled, Expr.ofParts, Expr.matchesEmpty, Expr.allMatchEmpty]

theorem Expr.matchesEmpty_ofBranches {branches : List Expr}
    (full : ∀ branch ∈ branches, branch.matchesEmpty = false) :
    (ofBranches branches).matchesEmpty = false := by
  have none : someMatchesEmpty branches = false := by
    induction branches with
    | nil => rfl
    | cons branch branches ih =>
        obtain ⟨here, later⟩ := List.forall_mem_cons.mp full
        rw [someMatchesEmpty, here, ih later]
        rfl
  unfold ofBranches
  split
  · exact full _ List.mem_cons_self
  · exact none

namespace Choice

variable (choice : Choice)

theorem matchesEmpty_branches :
    (Expr.ofBranches (choice.texts.map spelled)).matchesEmpty = false := by
  apply Expr.matchesEmpty_ofBranches
  exact List.forall_mem_map.mpr fun text member =>
    matchesEmpty_spelled (choice.isWord_of_mem_texts text member)

/-- Words alone do not match the empty text, and a group around them changes nothing of that. -/
theorem matchesEmpty_eq_false (noStart : choice.atStart = false) (noEnd : choice.atEnd = false)
    (parsed : Expr.parse? choice.pattern.toList = some expr) : expr.matchesEmpty = false := by
  have run := Expr.run_of_parse? parsed
  have text : choice.parts.text = choice.parts.body := by
    simp [Anchored.text, parts, noStart, noEnd]
  rw [pattern, String.toList_ofList, text] at run
  by_cases bare : choice.wrapping = .bare
  · have body : choice.parts.body = ['|'].intercalate choice.texts ++ [] := by
      rw [parts, bare, Wrapping.around, joined_eq, List.append_nil]
    rw [body] at run
    obtain ⟨last, run, _, ended, whole⟩ :=
      Run.words [] [] (by simp) choice.isWord_of_mem_texts choice.texts_ne_nil run
    cases whole.symm.trans (run.body_of_nil ended)
    exact choice.matchesEmpty_branches
  · obtain ⟨kind, keeps, reads⟩ :=
      Anchored.unwrapGroup?_reads (choice.unwrapGroup?_of_group bare) []
    rw [List.append_nil] at reads
    obtain ⟨next, applies, run⟩ := run.onward rfl reads
    have run : Run ⟨[.group [] kind false], [], false, kind.names, choice.joined ++ [')']⟩ expr := by
      rcases keeps with rfl | rfl <;> cases applies <;> exact run
    rw [joined_eq] at run
    obtain ⟨last, run, counts, ahead, whole⟩ :=
      Run.words [.group [] kind false] [] (by simp) choice.isWord_of_mem_texts
        choice.texts_ne_nil run
    have closes : Action.Reads false last.rest .closes [] := ahead ▸ .closes []
    obtain ⟨next, applies, run⟩ := run.onward counts closes
    cases applies with
    | closes opened =>
        cases whole.symm.trans opened
        cases run.body_of_nil rfl
        exact choice.matchesEmpty_branches

end Choice

end Reading

section Comparison

/-- Whoever tells which patterns are valid, and which of them match the empty text, takes no text
for a pattern that does not denote one, and tells of a pattern what a search for it does. -/
def EmptyMatch.Documented (tables : CharTables) (emptyMatch : EmptyMatch) : Prop :=
  ∀ pattern empty, emptyMatch pattern = some empty →
    ∃ expr, Expr.parse? pattern.toList = some expr ∧
      (empty = true ↔ ∃ start finish : Place, start.text = [] ∧ expr.Matches tables {} start finish)

variable {tables : CharTables} {emptyMatch : EmptyMatch}

/-- An anchor keeps a pattern from matching everything, and words do. -/
theorem Choice.not_matchesEverything (documented : emptyMatch.Documented tables) (choice : Choice)
    {empty : Bool} (valid : emptyMatch choice.pattern = some empty) :
    matchesEverything choice.pattern.toList empty = false := by
  have asserts (part : List Char) (listed : part ∈ assertions)
      (inside : part <:+: choice.parts.text) :
      matchesEverything choice.pattern.toList empty = false := by
    have found : assertions.any (hasInfix · choice.pattern.toList) = true := by
      rw [List.any_eq_true, pattern, String.toList_ofList]
      exact ⟨part, listed, hasInfix_iff.mpr inside⟩
    rw [matchesEverything, found]
    rfl
  cases start : choice.atStart with
  | true =>
      apply asserts ['^'] (by decide)
      refine ⟨[], choice.parts.body ++ if choice.atEnd then ['$'] else [], ?_⟩
      simp [Anchored.text, parts, start]
  | false =>
      cases finish : choice.atEnd with
      | true =>
          apply asserts ['$'] (by decide)
          exact ⟨choice.parts.body, [], by simp [Anchored.text, parts, start, finish]⟩
      | false =>
          obtain ⟨expr, parsed, told⟩ := documented _ _ valid
          have fails : empty = false := by
            rw [Bool.eq_false_iff, ne_eq, told]
            rintro ⟨_, _, whole, matched⟩
            have empties := Expr.matchesEmpty_of_text whole matched
            rw [choice.matchesEmpty_eq_false start finish parsed] at empties
            cases empties
          rw [fails, matchesEverything, Bool.and_false]

theorem Anchored.compare?_self (parts : Anchored) : parts.compare? parts = some .equivalent := by
  unfold compare?
  cases parts.atStart <;> cases parts.atEnd <;> rfl

theorem compareBranches?_eq (old new : List (List Char)) :
    compareBranches? old new =
      if old ⊆ new then if new ⊆ old then some .equivalent else some .looser
      else if new ⊆ old then some .stricter else none := by
  have kept (first second : List (List Char)) :
      first.all (second.contains ·) = decide (first ⊆ second) := by
    rw [Bool.eq_iff_iff]
    simp [List.subset_def]
  simp only [compareBranches?, kept]
  by_cases forth : old ⊆ new <;> by_cases back : new ⊆ old <;> simp [forth, back]

/-- The comparison of two choices with the same anchors is the comparison of their words. -/
theorem compare?_eq_compareBranches? (documented : emptyMatch.Documented tables) {old new : Choice}
    (sameStart : old.atStart = new.atStart) (sameEnd : old.atEnd = new.atEnd)
    (valid : (emptyMatch old.pattern).isSome = true)
    (valid' : (emptyMatch new.pattern).isSome = true) :
    compare? emptyMatch old.pattern new.pattern = compareBranches? old.texts new.texts := by
  have alike (same : old.parts = new.parts) :
      some .equivalent = compareBranches? old.texts new.texts := by
    have texts : some old.texts = some new.texts := by
      rw [← old.branches?_parts, ← new.branches?_parts, same]
    rw [Option.some_inj.mp texts, compareBranches?_eq]
    simp
  obtain ⟨oldEmpty, oldValid⟩ := Option.isSome_iff_exists.mp valid
  obtain ⟨newEmpty, newValid⟩ := Option.isSome_iff_exists.mp valid'
  rw [compare?, oldValid, newValid]
  dsimp only
  rw [old.not_matchesEverything documented oldValid, new.not_matchesEverything documented newValid]
  dsimp only
  rw [old.ofPattern_pattern, new.ofPattern_pattern]
  split_ifs with same
  · refine alike ?_
    rw [← old.ofPattern_pattern, same, new.ofPattern_pattern]
  · unfold compareParts?
    have start : old.parts.atStart = new.parts.atStart := sameStart
    have finish : old.parts.atEnd = new.parts.atEnd := sameEnd
    split_ifs with body anchors
    · have parts : old.parts = new.parts := by
        rw [Anchored.mk.injEq]
        exact ⟨start, finish, body⟩
      rw [← alike parts, parts, Anchored.compare?_self]
    · simp [start, finish] at anchors
    · rw [old.branches?_parts, new.branches?_parts]
      rfl

/-- Choices of words with the same anchors are always told apart: they count as equivalent exactly
where they have the same words, as looser or stricter where the one has words that the other lacks but
not the other way round, and as undecided where each has some of its own. -/
theorem compare?_words (documented : emptyMatch.Documented tables) {old new : Choice}
    (sameStart : old.atStart = new.atStart) (sameEnd : old.atEnd = new.atEnd)
    (valid : (emptyMatch old.pattern).isSome = true)
    (valid' : (emptyMatch new.pattern).isSome = true) :
    (compare? emptyMatch old.pattern new.pattern = some .equivalent ↔
      old.words.toFinset = new.words.toFinset) ∧
    (compare? emptyMatch old.pattern new.pattern = some .looser ↔
      old.words.toFinset ⊂ new.words.toFinset) ∧
    (compare? emptyMatch old.pattern new.pattern = some .stricter ↔
      new.words.toFinset ⊂ old.words.toFinset) ∧
    (compare? emptyMatch old.pattern new.pattern = none ↔
      ¬old.words.toFinset ⊆ new.words.toFinset ∧ ¬new.words.toFinset ⊆ old.words.toFinset) := by
  have subset (first second : Choice) :
      first.texts ⊆ second.texts ↔ first.words.toFinset ⊆ second.words.toFinset := by
    rw [Choice.texts, Choice.texts, List.map_subset_iff _ fun _ _ => String.toList_injective]
    simp [Finset.subset_iff, List.subset_def]
  rw [compare?_eq_compareBranches? documented sameStart sameEnd valid valid',
    compareBranches?_eq]
  simp only [subset, Finset.Subset.antisymm_iff, ssubset_iff_subset_not_subset]
  split_ifs with forth back back <;> simp [forth, back]

theorem documented_emptyMatch (fits : SizeTest) : (Pattern.emptyMatch fits).Documented tables := by
  intro pattern empty found
  obtain ⟨expr, valid, rfl⟩ := Option.map_eq_some_iff.mp found
  have search : Accepts fits tables pattern "" ↔ expr.matchesEmpty = true := accepts_empty_iff valid
  refine ⟨expr, Expr.parse?_of_ofText? valid, ?_⟩
  rw [← search]
  constructor
  · rintro ⟨_, valid', matched⟩
    cases valid.symm.trans valid'
    exact matched
  · exact fun matched => ⟨expr, valid, matched⟩

/-- A choice of colours between anchors that gets one more, in another group and another order. -/
theorem compare?_words_colours :
    let emptyMatch := Pattern.emptyMatch fun _ => true
    let old : Choice := {
      words := ["red", "green"], wrapping := .captured, atStart := true, atEnd := true
      nonempty := by decide, isWord := by decide, grouped := by decide }
    let new : Choice := {
      words := ["green", "blue3", "red", "green"], wrapping := .uncaptured
      atStart := true, atEnd := true
      nonempty := by decide, isWord := by decide, grouped := by decide }
    emptyMatch.Documented .ascii ∧
      old.pattern = "^(red|green)$" ∧ new.pattern = "^(?:green|blue3|red|green)$" ∧
      (emptyMatch old.pattern).isSome = true ∧ (emptyMatch new.pattern).isSome = true ∧
      compare? emptyMatch old.pattern new.pattern = some .looser := by
  intro emptyMatch old new
  have documented : emptyMatch.Documented .ascii := documented_emptyMatch _
  have valid : (emptyMatch old.pattern).isSome = true := by decide +kernel
  have valid' : (emptyMatch new.pattern).isSome = true := by decide +kernel
  refine ⟨documented, by decide +kernel, by decide +kernel, valid, valid', ?_⟩
  have outcome := @compare?_words .ascii emptyMatch documented old new rfl rfl valid valid'
  exact outcome.2.1.mpr (by decide +kernel)

end Comparison

end Pattern

end SchemaEvolution
