import Mathlib
import SchemaEvolution.Pattern.Parser

/-! # What the readers of pieces take

Every reader of a small piece of a pattern takes a piece off the front of the text, and it takes
characters only that mean nothing to a scan for groups, classes and bars.
-/

namespace SchemaEvolution

namespace Pattern

/-- The characters that change what a scan of a pattern knows, and the bar. -/
def scanned : List Char := ['\\', '[', ']', '(', ')', '|']

/-- The text is the rest with a piece before it. Where blanks count, the piece has no character
that a scan looks at. -/
def Takes (ignore : Bool) (text rest : List Char) : Prop :=
  ∃ piece, text = piece ++ rest ∧ (ignore = false → ∀ c ∈ piece, c ∉ scanned)

namespace Takes

variable {ignore : Bool} {text middle rest : List Char}

theorem refl : Takes ignore text text :=
  ⟨[], rfl, by simp⟩

theorem trans (first : Takes ignore text middle) (second : Takes ignore middle rest) :
    Takes ignore text rest := by
  obtain ⟨piece, rfl, passive⟩ := first
  obtain ⟨piece', rfl, passive'⟩ := second
  refine ⟨piece ++ piece', (List.append_assoc ..).symm, ?_⟩
  intro counts c member
  rcases List.mem_append.mp member with member | member
  · exact passive counts c member
  · exact passive' counts c member

theorem cons {c : Char} (passive : ignore = false → c ∉ scanned) (taken : Takes ignore text rest) :
    Takes ignore (c :: text) rest :=
  trans ⟨[c], rfl, fun counts _ member => List.mem_singleton.mp member ▸ passive counts⟩ taken

theorem suffix (taken : Takes ignore text rest) : rest <:+ text := by
  obtain ⟨piece, rfl, _⟩ := taken
  exact List.suffix_append piece rest

end Takes

theorem not_scanned {c : Char} (test : Char → Bool) (fails : scanned.all (!test ·) = true)
    (passes : test c = true) : c ∉ scanned := by
  intro member
  have := List.all_eq_true.mp fails c member
  simp [passes] at this

theorem hexValue?_not_scanned {c : Char} {digit : Nat} (read : Text.hexValue? c = some digit) :
    c ∉ scanned :=
  not_scanned (fun c => (Text.hexValue? c).isSome) (by decide) (by simp [read])

section Readers

variable {ignore : Bool} {text rest : List Char}

theorem skip_suffix (inComment : Bool) (text : List Char) :
    skipBlanks.skip inComment text <:+ text := by
  induction text generalizing inComment with
  | nil => exact List.suffix_rfl
  | cons c text ih =>
      rw [skipBlanks.skip]
      split_ifs
      · exact (ih _).trans (List.suffix_cons c text)
      · exact (ih _).trans (List.suffix_cons c text)
      · exact (ih _).trans (List.suffix_cons c text)
      · exact List.suffix_rfl

@[simp] theorem skipBlanks_false : skipBlanks false text = text := rfl

theorem takes_skipBlanks (ignore : Bool) (text : List Char) :
    Takes ignore text (skipBlanks ignore text) := by
  cases ignore with
  | false => exact .refl
  | true =>
      obtain ⟨piece, whole⟩ := skip_suffix false text
      exact ⟨piece, whole.symm, by simp⟩

theorem takes_of_hexDigits? {code count value : Nat}
    (read : hexDigits? ignore code count text = some (value, rest)) : Takes ignore text rest := by
  induction count generalizing code text with
  | zero =>
      cases Option.some.inj read
      exact .refl
  | succ count ih =>
      cases text with
      | nil => cases read
      | cons c text =>
          obtain ⟨digit, isHex, read⟩ := Option.bind_eq_some_iff.mp read
          exact .cons (fun _ => hexValue?_not_scanned isHex) ((takes_skipBlanks _ _).trans (ih read))

theorem braced?_read {found name : List Char} {fuel : Nat}
    (read : braced?.read ignore found text fuel = some (name, rest)) :
    ∃ inner piece, name = found.reverse ++ inner ∧ '}' ∉ inner ∧ text = piece ++ rest ∧
      (ignore = false → piece = inner ++ ['}']) := by
  induction fuel generalizing found text with
  | zero => cases text <;> cases read
  | succ fuel ih =>
      cases text with
      | nil => cases read
      | cons c text =>
          by_cases closes : c = '}'
          · subst closes
            cases Option.some.inj read
            exact ⟨[], ['}'], by simp, by simp, rfl, by simp⟩
          · have read : braced?.read ignore (c :: found) (skipBlanks ignore text) fuel =
                some (name, rest) := by
              rw [← read, braced?.read]
              simpa using closes
            obtain ⟨inner, piece, rfl, fresh, whole, same⟩ := ih read
            obtain ⟨blanks, skipped, _⟩ := takes_skipBlanks ignore text
            refine ⟨c :: inner, c :: (blanks ++ piece), by simp, ?_, ?_, ?_⟩
            · simp [fresh, Ne.symm closes]
            · rw [skipped, whole]
              simp
            · intro counts
              subst counts
              have none : blanks = [] := by simpa using skipped
              simp [none, same rfl]

theorem braced?_read_shorter {found name : List Char} {fuel : Nat}
    (read : braced?.read ignore found text fuel = some (name, rest)) :
    rest.length < text.length := by
  induction fuel generalizing found text with
  | zero => cases text <;> cases read
  | succ fuel ih =>
      cases text with
      | nil => cases read
      | cons c text =>
          rw [List.length_cons, Nat.lt_succ_iff]
          by_cases closes : c = '}'
          · subst closes
            cases Option.some.inj read
            exact le_rfl
          · rw [braced?.read] at read
            · exact (ih read).le.trans (takes_skipBlanks _ _).suffix.length_le
            · simpa using closes

theorem braced?_eq_some {name : List Char} (read : braced? ignore text = some (name, rest)) :
    '}' ∉ name ∧ rest <:+ text ∧ ((∀ c ∈ name, c ∉ scanned) → Takes ignore text rest) := by
  obtain ⟨inner, piece, rfl, fresh, whole, same⟩ := braced?_read read
  have taken := takes_skipBlanks ignore text
  rw [whole] at taken
  refine ⟨by simpa using fresh, (List.suffix_append piece rest).trans taken.suffix, ?_⟩
  intro passive
  refine taken.trans ⟨piece, rfl, ?_⟩
  intro counts c member
  rw [same counts] at member
  rcases List.mem_append.mp member with member | member
  · exact passive c (by simpa using member)
  · cases List.mem_singleton.mp member
    decide

theorem bracedHex?_digits {digits : List Char} {code : Option Nat} {value : Nat}
    (read : bracedHex? code (digits ++ ['}']) = some (value, rest)) (fresh : '}' ∉ digits) :
    ∀ c ∈ digits, c ∉ scanned := by
  induction digits generalizing code with
  | nil => simp
  | cons c digits ih =>
      obtain ⟨open_, fresh⟩ := List.ne_and_not_mem_of_not_mem_cons fresh
      rw [List.cons_append, bracedHex?] at read
      · obtain ⟨digit, isHex, read⟩ := Option.bind_eq_some_iff.mp read
        intro d member
        rcases List.mem_cons.mp member with rfl | member
        · exact hexValue?_not_scanned isHex
        · exact ih read fresh d member
      · exact fun same => open_ same.symm

theorem takes_of_hexEscape? {kind : Char} {literal : Literal}
    (read : hexEscape? ignore kind text = some (literal, rest)) : Takes ignore text rest := by
  unfold hexEscape? at read
  split at read
  · simp only [Option.bind_eq_bind, Option.bind_eq_some_iff, Option.pure_def, Option.some.injEq,
      Prod.mk.injEq] at read
    obtain ⟨⟨digits, after⟩, bracesRead, ⟨code, _⟩, hexRead, char, _, _, rfl⟩ := read
    obtain ⟨fresh, _, taken⟩ := braced?_eq_some bracesRead
    have taken := taken (bracedHex?_digits hexRead fresh)
    exact .cons (fun _ => by decide) (taken.trans (takes_skipBlanks _ _))
  · simp only [Option.bind_eq_bind, Option.bind_eq_some_iff, Option.pure_def, Option.some.injEq,
      Prod.mk.injEq] at read
    obtain ⟨⟨code, after⟩, digitsRead, char, _, _, rfl⟩ := read
    exact takes_of_hexDigits? digitsRead

theorem hexEscape?_shorter {kind : Char} {literal : Literal} {inner : List Char}
    (read : hexEscape? ignore kind ('{' :: inner) = some (literal, rest)) :
    rest.length < ('{' :: inner).length := by
  simp only [hexEscape?, Option.bind_eq_bind, Option.bind_eq_some_iff, Option.pure_def] at read
  obtain ⟨⟨digits, after⟩, bracesRead, _, _, char, _, same⟩ := read
  cases same
  have inside := (braced?_eq_some bracesRead).2.1.length_le
  exact Nat.lt_succ_of_le ((takes_skipBlanks _ _).suffix.length_le.trans inside)

theorem takes_of_wordBoundary? {kind : Assertion}
    (read : wordBoundary? ignore text = some (kind, rest)) : Takes ignore text rest := by
  unfold wordBoundary? at read
  simp only at read
  split at read
  · split at read
    · cases read
    · rename_i opened c inner same
      split at read
      · simp only [Option.bind_eq_bind, Option.bind_eq_some_iff] at read
        obtain ⟨⟨name, after⟩, bracesRead, read⟩ := read
        split at read
        · rename_i letters
          simp only [Option.pure_def, Option.bind_eq_some_iff, Option.some.injEq,
            Prod.mk.injEq] at read
          obtain ⟨_, _, _, rfl⟩ := read
          have passive : ∀ c ∈ name, c ∉ scanned := by
            intro c member
            exact not_scanned (fun c => c.isAlpha || c == '-') (by decide)
              (List.all_eq_true.mp letters c member)
          have taken := (braced?_eq_some bracesRead).2.2 passive
          rw [← same] at taken
          exact .cons (fun _ => by decide) ((takes_skipBlanks _ _).trans taken)
        · cases read
      · cases read
        exact .refl
  · cases read
    exact .refl

theorem takes_of_dropWhile_isBlank : Takes ignore text (text.dropWhile Text.isBlank) := by
  induction text with
  | nil => exact .refl
  | cons c text ih =>
      rw [List.dropWhile_cons]
      split_ifs with blank
      · exact .cons (fun _ => not_scanned Text.isBlank (by decide) blank) ih
      · exact .refl

theorem takes_countDigits (found : Option Nat) (fuel : Nat) :
    Takes ignore text (countDigits ignore found text fuel).2 := by
  induction fuel generalizing found text with
  | zero => cases text <;> exact .refl
  | succ fuel ih =>
      cases text with
      | nil => exact .refl
      | cons c text =>
          rw [countDigits]
          split_ifs with digit
          · exact .cons (fun _ => not_scanned Char.isDigit (by decide) digit)
              ((takes_skipBlanks _ _).trans (ih _))
          · exact .refl

theorem takes_of_count? {value : Option Nat} (read : count? ignore text = some (value, rest)) :
    Takes ignore text rest := by
  have digits : Takes ignore (text.dropWhile Text.isBlank) _ :=
    takes_countDigits none (text.dropWhile Text.isBlank).length
  have taken := ((takes_of_dropWhile_isBlank.trans digits).trans
    takes_of_dropWhile_isBlank).trans (takes_skipBlanks _ _)
  simp only [count?] at read
  split at read
  · split_ifs at read
    cases read
    exact taken
  · cases read
    exact taken

theorem takes_of_repetitionCounts? {min : Nat} {max : Option Nat}
    (read : repetitionCounts? ignore text = some (min, max, rest)) : Takes ignore text rest := by
  simp only [repetitionCounts?, Option.bind_eq_bind, Option.bind_eq_some_iff] at read
  obtain ⟨⟨first, after⟩, firstRead, least, _, read⟩ := read
  refine ((takes_skipBlanks _ _).trans (takes_of_count? firstRead)).trans ?_
  simp only at read
  split at read
  · cases read
    exact .cons (fun _ => by decide) .refl
  · split at read
    · rename_i same
      cases read
      refine .cons (fun _ => by decide) ((takes_skipBlanks _ _).trans ?_)
      rw [same]
      exact .cons (fun _ => by decide) .refl
    · simp only [Option.bind_eq_some_iff] at read
      obtain ⟨⟨last, after⟩, lastRead, most, _, read⟩ := read
      refine .cons (fun _ => by decide)
        ((takes_skipBlanks _ _).trans ((takes_of_count? lastRead).trans ?_))
      simp only at read
      split at read
      · split_ifs at read
        cases read
        exact .cons (fun _ => by decide) .refl
      · cases read
  · cases read

theorem repetitionCounts?_ordered {min : Nat} {max : Option Nat}
    (read : repetitionCounts? ignore text = some (min, max, rest)) :
    ∀ most, max = some most → min ≤ most := by
  simp only [repetitionCounts?, Option.bind_eq_bind, Option.bind_eq_some_iff] at read
  obtain ⟨⟨first, after⟩, _, least, _, read⟩ := read
  intro most limit
  subst limit
  simp only at read
  split at read
  · cases read
    exact le_rfl
  · split at read
    · cases read
    · simp only [Option.bind_eq_some_iff] at read
      obtain ⟨⟨last, after⟩, _, bound, _, read⟩ := read
      simp only at read
      split at read
      · split_ifs at read with ordered
        cases read
        exact ordered
      · cases read
  · cases read

theorem property?_eq_some {negated : Bool} {expr : Expr}
    (read : property? ignore negated text = some (expr, rest)) :
    (∃ name negated, expr = .property name negated) ∧ rest <:+ text := by
  unfold property? at read
  split at read
  · cases read
  · simp only [Option.bind_eq_bind, Option.bind_eq_some_iff, Option.pure_def, Option.some.injEq,
      Prod.mk.injEq] at read
    obtain ⟨⟨written, after⟩, bracesRead, rfl, rfl⟩ := read
    exact ⟨⟨_, _, rfl⟩, (braced?_eq_some bracesRead).2.1.trans (List.suffix_cons _ _)⟩
  · cases read
  · cases read
    exact ⟨⟨_, _, rfl⟩, (takes_skipBlanks _ _).suffix.trans (List.suffix_cons _ _)⟩

theorem property?_shorter {negated : Bool} {expr : Expr}
    (read : property? ignore negated text = some (expr, rest)) : rest.length < text.length := by
  cases text with
  | nil => cases read
  | cons c text =>
      rw [List.length_cons, Nat.lt_succ_iff]
      by_cases opens : c = '{'
      · subst opens
        obtain ⟨⟨_, _⟩, bracesRead, found⟩ := Option.bind_eq_some_iff.mp read
        cases found
        exact (braced?_eq_some bracesRead).2.1.length_le
      · by_cases backslash : c = '\\'
        · subst backslash
          cases read
        · rw [property?.eq_4 _ _ _ _ opens backslash] at read
          cases read
          exact (takes_skipBlanks _ _).suffix.length_le

/-- The assertions of escapes with angle brackets, the only ones that no listed text tells. -/
def Assertion.IsWordEdge (kind : Assertion) : Prop := kind = .wordStart ∨ kind = .wordEnd

/-- A part that is one piece: a character, a class or an assertion. -/
def Expr.isPiece : Expr → Bool
  | .literal _ | .dot | .assertion _ | .short _ _ | .property _ _ | .bracketed _ _ => true
  | _ => false

/-- What an escape is, by the character after the backslash: no escape, a code, a property, an
assertion that may have a name, or one part whatever follows. -/
theorem escape?_form (ignore : Bool) (c : Char) :
    (∀ text, escape? ignore (c :: text) = none) ∨
    (∀ text, escape? ignore (c :: text) = (hexEscape? ignore c (skipBlanks ignore text)).bind
      fun (literal, rest) => some (.literal literal, rest)) ∨
    (∀ text, escape? ignore (c :: text) =
      property? ignore (c == 'P') (skipBlanks ignore text)) ∨
    (c = 'b' ∧ ∀ text, escape? ignore (c :: text) = (wordBoundary? ignore text).bind
      fun (kind, rest) => some (.assertion kind, rest)) ∨
    ∃ expr, (∀ text, escape? ignore (c :: text) = some (expr, text)) ∧
      expr.isPiece = true ∧
      ∀ kind, expr = .assertion kind → kind.IsWordEdge ∨ c = 'A' ∨ c = 'z' ∨ c = 'B' := by
  by_cases digit : c.isDigit
  · exact .inl fun _ => by simp [escape?, digit]
  by_cases hex : c = 'x' ∨ c = 'u' ∨ c = 'U'
  · refine .inr (.inl fun _ => ?_)
    rcases hex with rfl | rfl | rfl <;> rfl
  by_cases property : c = 'p' ∨ c = 'P'
  · refine .inr (.inr (.inl fun _ => ?_))
    rcases property with rfl | rfl <;> rfl
  by_cases boundary : c = 'b'
  · subst boundary
    exact .inr (.inr (.inr (.inl ⟨rfl, fun _ => rfl⟩)))
  by_cases escapable : isEscapable c
  · refine .inr (.inr (.inr (.inr ⟨.literal { char := c }, ?_, rfl, by simp⟩)))
    intro text
    simp only [not_or] at hex property
    simp [escape?, digit, hex, property, escapable]
  by_cases letter : c ∈ ['d', 'D', 's', 'S', 'w', 'W', 'a', 'f', 't', 'n', 'r', 'v', 'A', 'z', 'B',
      '<', '>']
  · simp only [List.mem_cons, List.not_mem_nil, or_false] at letter
    refine .inr (.inr (.inr (.inr ?_)))
    rcases letter with rfl | rfl | rfl | rfl | rfl | rfl | rfl | rfl | rfl | rfl | rfl | rfl | rfl |
      rfl | rfl | rfl | rfl
    all_goals exact ⟨_, fun _ => rfl, rfl, by simp [Assertion.IsWordEdge]⟩
  · refine .inl fun text => ?_
    simp only [not_or] at hex property
    simp only [List.mem_cons, List.not_mem_nil, or_false, not_or] at letter
    simp [escape?, digit, hex, property, escapable, letter]

theorem takes_of_escape? {c : Char} {expr : Expr}
    (read : escape? ignore (c :: text) = some (expr, rest)) :
    expr.isPiece = true ∧ rest <:+ text ∧
      (Takes ignore text rest ∨ ∃ name negated, expr = .property name negated) := by
  rcases escape?_form ignore c with form | form | form | ⟨rfl, form⟩ | ⟨_, form, piece, _⟩ <;>
    rw [form] at read
  · cases read
  · obtain ⟨⟨_, _⟩, hexRead, same⟩ := Option.bind_eq_some_iff.mp read
    cases same
    have taken := (takes_skipBlanks _ _).trans (takes_of_hexEscape? hexRead)
    exact ⟨rfl, taken.suffix, .inl taken⟩
  · obtain ⟨⟨name, negated, rfl⟩, suffix⟩ := property?_eq_some read
    exact ⟨rfl, suffix.trans (takes_skipBlanks _ _).suffix, .inr ⟨name, negated, rfl⟩⟩
  · obtain ⟨⟨_, _⟩, boundaryRead, same⟩ := Option.bind_eq_some_iff.mp read
    cases same
    have taken := takes_of_wordBoundary? boundaryRead
    exact ⟨rfl, taken.suffix, .inl taken⟩
  · cases read
    exact ⟨piece, List.suffix_rfl, .inl .refl⟩

theorem assertion_of_escape? {c : Char} {kind : Assertion}
    (read : escape? ignore (c :: text) = some (.assertion kind, rest)) :
    kind.IsWordEdge ∨ c = 'A' ∨ c = 'z' ∨ c = 'B' ∨ c = 'b' := by
  rcases escape?_form ignore c with form | form | form | ⟨rfl, form⟩ | ⟨_, form, _, edge⟩ <;>
    rw [form] at read
  · cases read
  · obtain ⟨_, _, same⟩ := Option.bind_eq_some_iff.mp read
    cases same
  · obtain ⟨⟨name, negated, same⟩, _⟩ := property?_eq_some read
    cases same
  · simp
  · cases read
    have := edge kind rfl
    tauto

theorem groupName?_suffix {isLetter isLetterOrDigit : Char → Bool} {found : List Char}
    {name : String} (read : groupName? isLetter isLetterOrDigit found text = some (name, rest)) :
    rest <:+ text ∧ rest.length < text.length := by
  induction text generalizing found with
  | nil => cases read
  | cons c text ih =>
      rw [List.length_cons, Nat.lt_succ_iff]
      by_cases closes : c = '>'
      · subst closes
        rw [groupName?] at read
        split_ifs at read
        cases read
        exact ⟨List.suffix_cons _ _, le_rfl⟩
      · rw [groupName?.eq_3 _ _ _ _ _ closes] at read
        split_ifs at read
        all_goals exact ⟨(ih read).1.trans (List.suffix_cons _ _), (ih read).2.le⟩

/-- Flags end at a colon or a closing parenthesis, and nothing else of them is scanned for. -/
theorem flags?_eq_some {change found : FlagChange} {negative : Bool} {last : Char}
    (read : flags? change negative text = some (found, last, rest)) :
    ∃ piece, text = piece ++ last :: rest ∧ (∀ c ∈ piece, c ∉ scanned) ∧
      (last = ':' ∨ last = ')') := by
  induction text generalizing change negative with
  | nil => cases read
  | cons c text ih =>
      rw [flags?] at read
      have more {change : FlagChange} {negative : Bool} (passive : c ∉ scanned)
          (read : flags? change negative text = some (found, last, rest)) :
          ∃ piece, c :: text = piece ++ last :: rest ∧ (∀ c ∈ piece, c ∉ scanned) ∧
            (last = ':' ∨ last = ')') := by
        obtain ⟨piece, rfl, others, ends⟩ := ih read
        exact ⟨c :: piece, rfl, List.forall_mem_cons.mpr ⟨passive, others⟩, ends⟩
      split_ifs at read with ends empty hyphen
      · cases read
        exact ⟨[], rfl, by simp, by simpa using ends⟩
      · subst hyphen
        exact more (by decide) read
      all_goals
        obtain ⟨flag, isFlag, read⟩ := Option.bind_eq_some_iff.mp read
        have passive : c ∉ scanned :=
          not_scanned (fun c => (flag? c).isSome) (by decide) (by simp only [isFlag, Option.isSome])
        split_ifs at read
        exact more passive read

end Readers

namespace NamedClass
theorem ofName?_eq_some {name : String} {kind : NamedClass} :
    ofName? name = some kind ↔ name = kind.name := by
  constructor
  · intro found
    have := List.find?_some found
    exact (beq_iff_eq.mp this).symm
  · rintro rfl
    cases kind <;> decide
end NamedClass
namespace ClassReading
variable {ignore : Bool} {text rest : List Char} {reading : ClassReading}

/-- The text of a named class after its first bracket. -/
def namedText (kind : NamedClass) (negated : Bool) : List Char :=
  ':' :: ((if negated then ['^'] else []) ++ kind.name.toList ++ [':', ']'])

/-- A negation sign is read whenever it stands there, so an unnegated name does not start with one. -/
theorem namedClass?_signed {set : ClassSet} (negated : Bool)
    (unsigned : negated = false → ∀ after, text ≠ '^' :: after) :
    namedClass? (':' :: ((if negated then ['^'] else []) ++ text)) = some (set, rest) ↔
      ∃ kind, set = .named kind negated ∧ text = kind.name.toList ++ ':' :: ']' :: rest := by
  have letters (kind : NamedClass) : ∀ c ∈ kind.name.toList, (c != ':') = true := by
    cases kind <;> simp [NamedClass.name]
  have parts (kind : NamedClass) : text = kind.name.toList ++ ':' :: ']' :: rest ↔
      NamedClass.ofName? (String.ofList (text.takeWhile (· != ':'))) = some kind ∧
        text.dropWhile (· != ':') = ':' :: ']' :: rest := by
    constructor
    · rintro rfl
      rw [List.takeWhile_append_of_pos (letters kind), List.dropWhile_append_of_pos (letters kind)]
      simp [NamedClass.ofName?_eq_some]
    · rintro ⟨found, closed⟩
      rw [← NamedClass.ofName?_eq_some.mp found, String.toList_ofList, ← closed,
        List.takeWhile_append_dropWhile]
  simp only [parts]
  have closed {after : List Char} (ends : text.dropWhile (· != ':') = ':' :: ']' :: after) :
      (NamedClass.ofName? (String.ofList (text.takeWhile (· != ':')))).map
          (fun kind => (ClassSet.named kind negated, after)) = some (set, rest) ↔
        ∃ kind, set = .named kind negated ∧
          NamedClass.ofName? (String.ofList (text.takeWhile (· != ':'))) = some kind ∧
          text.dropWhile (· != ':') = ':' :: ']' :: rest := by
    constructor
    · intro read
      obtain ⟨kind, found, same⟩ := Option.map_eq_some_iff.mp read
      cases same
      exact ⟨kind, rfl, found, ends⟩
    · rintro ⟨kind, rfl, found, ends'⟩
      cases ends.symm.trans ends'
      rw [found, Option.map_some]
  cases negated with
  | true =>
      simp only [if_true, List.singleton_append, namedClass?]
      split
      · exact closed ‹_›
      · rename_i unclosed
        simpa using fun _ _ _ => unclosed rest
  | false =>
      simp only [Bool.false_eq_true, if_false, List.nil_append]
      rw [namedClass?]
      · split
        · exact closed ‹_›
        · rename_i unclosed
          simpa using fun _ _ _ => unclosed rest
      · exact unsigned rfl

theorem namedClass?_eq_some {set : ClassSet} :
    namedClass? text = some (set, rest) ↔
      ∃ kind negated, set = .named kind negated ∧ text = namedText kind negated ++ rest := by
  constructor
  · intro read
    cases text with
    | nil => cases read
    | cons c text =>
        by_cases opens : c = ':'
        · subst opens
          by_cases caret : ∃ after, text = '^' :: after
          · obtain ⟨after, rfl⟩ := caret
            obtain ⟨kind, rfl, rfl⟩ := (namedClass?_signed true (by simp)).mp read
            exact ⟨kind, true, rfl, by simp [namedText]⟩
          · obtain ⟨kind, rfl, rfl⟩ :=
              (namedClass?_signed false fun _ after same => caret ⟨after, same⟩).mp read
            exact ⟨kind, false, rfl, by simp [namedText]⟩
        · rw [namedClass?] at read
          · cases read
          · simpa using opens
  · rintro ⟨kind, negated, rfl, rfl⟩
    have unsigned (after : List Char) : kind.name.toList ++ ':' :: ']' :: rest ≠ '^' :: after := by
      cases kind <;> simp [NamedClass.name]
    have read := (namedClass?_signed negated fun _ => unsigned).mpr ⟨kind, rfl, rfl⟩
    simpa [namedText] using read

theorem leadingHyphens_suffix (items : List ClassSet) (text : List Char) (fuel : Nat) :
    (leadingHyphens ignore items text fuel).2 <:+ text := by
  induction fuel generalizing items text with
  | zero =>
      rw [leadingHyphens]
      simp
  | succ fuel ih =>
      by_cases hyphen : ∃ after, text = '-' :: after
      · obtain ⟨after, rfl⟩ := hyphen
        exact ((ih _ _).trans (takes_skipBlanks _ _).suffix).trans (List.suffix_cons _ _)
      · rw [leadingHyphens]
        exact fun after _ same _ => hyphen ⟨after, same⟩

def leadingCaret (ignore : Bool) : List Char → Bool × List Char
  | '^' :: rest => (true, skipBlanks ignore rest)
  | text => (false, text)

/-- The closing bracket at the start of a set, which stands for itself. -/
def leadingBracket (ignore : Bool) (items : List ClassSet) (text : List Char) :
    List ClassSet × List Char :=
  match items, text with
  | [], ']' :: rest => ([.literal { char := ']' }], skipBlanks ignore rest)
  | items, text => (items, text)

theorem openBracket?_eq (frames : List ClassFrame) (before : List ClassSet) :
    openBracket? ignore frames before text =
      let caret := leadingCaret ignore (skipBlanks ignore text)
      let hyphens := leadingHyphens ignore [] caret.2 caret.2.length
      let start := leadingBracket ignore hyphens.1 hyphens.2
      if start.2.isEmpty then none
      else some ⟨.bracket before caret.1 :: frames, start.1, start.2⟩ :=
  rfl

theorem leadingCaret_suffix : (leadingCaret ignore text).2 <:+ text := by
  unfold leadingCaret
  split
  · exact (takes_skipBlanks _ _).suffix.trans (List.suffix_cons _ _)
  · exact List.suffix_rfl

theorem leadingBracket_suffix (items : List ClassSet) :
    (leadingBracket ignore items text).2 <:+ text := by
  unfold leadingBracket
  split
  · exact (takes_skipBlanks _ _).suffix.trans (List.suffix_cons _ _)
  · exact List.suffix_rfl

theorem openBracket?_suffix {frames : List ClassFrame} {before : List ClassSet}
    (read : openBracket? ignore frames before text = some reading) : reading.rest <:+ text := by
  rw [openBracket?_eq] at read
  simp only at read
  split_ifs at read
  cases read
  exact (leadingBracket_suffix _).trans <| (leadingHyphens_suffix _ _ _).trans <|
    leadingCaret_suffix.trans (takes_skipBlanks _ _).suffix

theorem item?_suffix {item : Expr} (read : item? ignore text = some (item, rest)) :
    rest <:+ text ∧ rest.length < text.length := by
  unfold item? at read
  split at read
  · cases read
  · rename_i after
    cases after with
    | nil => cases read
    | cons c after =>
        have suffix := (takes_of_escape? read).2.1
        refine ⟨(suffix.trans (List.suffix_cons _ _)).trans (List.suffix_cons _ _), ?_⟩
        have := suffix.length_le
        simp only [List.length_cons]
        omega
  · cases read
    exact ⟨List.suffix_cons _ _, by simp⟩

theorem readItem?_suffix {next : ClassReading} (read : readItem? ignore reading = some next) :
    next.rest <:+ reading.rest ∧ next.rest.length < reading.rest.length := by
  unfold readItem? at read
  simp only [Option.bind_eq_bind, Option.bind_eq_some_iff, Option.pure_def] at read
  obtain ⟨⟨first, rest⟩, firstRead, read⟩ := read
  obtain ⟨suffix, shorter⟩ := item?_suffix firstRead
  have skip := takes_skipBlanks ignore rest |>.suffix
  have before := skip.trans suffix
  have length := skip.length_le
  simp only at read
  split at read
  · cases read
  · rename_i after same
    rw [same] at before length
    split_ifs at read
    · obtain ⟨_, _, same⟩ := Option.bind_eq_some_iff.mp read
      cases same
      exact ⟨before, by simp at length ⊢; omega⟩
    · simp only [Option.bind_eq_some_iff] at read
      obtain ⟨⟨last, rest⟩, lastRead, _, _, same⟩ := read
      cases same
      obtain ⟨suffix, shorter⟩ := item?_suffix lastRead
      have skip := takes_skipBlanks ignore after |>.suffix
      have further := (suffix.trans skip).trans (List.suffix_cons '-' after)
      refine ⟨further.trans before, ?_⟩
      have := further.length_le
      simp only at this ⊢
      omega
  · obtain ⟨_, _, same⟩ := Option.bind_eq_some_iff.mp read
    cases same
    exact ⟨before, by simp only; omega⟩

/-- The text ahead of a class that was read to its end or further. -/
def ahead : (Expr × List Char) ⊕ ClassReading → List Char
  | .inl (_, rest) => rest
  | .inr reading => reading.rest

theorem close?_ahead {next : (Expr × List Char) ⊕ ClassReading}
    (read : reading.close? rest = some next) : ahead next = rest := by
  unfold close? at read
  simp only at read
  split at read
  · cases read; rfl
  · cases read; rfl
  · cases read

theorem step?_suffix {next : (Expr × List Char) ⊕ ClassReading}
    (read : reading.step? ignore = some next) :
    ahead next <:+ reading.rest ∧ (ahead next).length < reading.rest.length := by
  have skip := takes_skipBlanks ignore reading.rest |>.suffix
  have shorter : ahead next <:+ skipBlanks ignore reading.rest ∧
      (ahead next).length < (skipBlanks ignore reading.rest).length := by
    have drop {c : Char} {after rest : List Char} (suffix : rest <:+ after) :
        rest <:+ c :: after ∧ rest.length < (c :: after).length :=
      ⟨suffix.trans (List.suffix_cons _ _), Nat.lt_succ_of_le suffix.length_le⟩
    unfold step? at read
    generalize skipBlanks ignore reading.rest = text at read
    simp only [Option.map_eq_map] at read
    split at read
    · cases read
    · split at read
      · rename_i set rest named
        cases read
        obtain ⟨kind, negated, rfl, rfl⟩ := namedClass?_eq_some.mp named
        exact drop (List.suffix_append _ _)
      · obtain ⟨reading, opened, rfl⟩ := Option.map_eq_some_iff.mp read
        exact drop (openBracket?_suffix opened)
    · rw [close?_ahead read]
      exact drop List.suffix_rfl
    · cases read
      exact drop (List.suffix_cons _ _)
    · cases read
      exact drop (List.suffix_cons _ _)
    · cases read
      exact drop (List.suffix_cons _ _)
    · obtain ⟨reading, item, rfl⟩ := Option.map_eq_some_iff.mp read
      exact readItem?_suffix item
  exact ⟨shorter.1.trans skip, lt_of_lt_of_le shorter.2 skip.length_le⟩

theorem close?_bracketed {part : Expr} {rest' : List Char}
    (read : reading.close? rest = some (.inl (part, rest'))) :
    ∃ negated set, part = .bracketed negated set := by
  unfold close? at read
  simp only at read
  split at read
  · cases read
    exact ⟨_, _, rfl⟩
  · cases read
  · cases read

theorem step?_bracketed {part : Expr} (read : reading.step? ignore = some (.inl (part, rest))) :
    ∃ negated set, part = .bracketed negated set := by
  unfold step? at read
  generalize skipBlanks ignore reading.rest = text at read
  simp only [Option.map_eq_map] at read
  split at read
  · cases read
  · split at read
    · cases read
    · obtain ⟨_, _, same⟩ := Option.map_eq_some_iff.mp read
      cases same
  · exact close?_bracketed read
  · cases read
  · cases read
  · cases read
  · obtain ⟨_, _, same⟩ := Option.map_eq_some_iff.mp read
    cases same

theorem run?_bracketed {fuel : Nat} {part : Expr}
    (read : reading.run? ignore fuel = some (part, rest)) :
    ∃ negated set, part = .bracketed negated set := by
  induction fuel generalizing reading with
  | zero => cases read
  | succ fuel ih =>
      rw [run?] at read
      split at read
      · cases read
      · rename_i step
        cases read
        exact step?_bracketed step
      · exact ih read

theorem run?_suffix {fuel : Nat} {part : Expr}
    (read : reading.run? ignore fuel = some (part, rest)) : rest <:+ reading.rest := by
  induction fuel generalizing reading with
  | zero => cases read
  | succ fuel ih =>
      rw [run?] at read
      split at read
      · cases read
      · rename_i step
        cases read
        exact (step?_suffix step).1
      · rename_i step
        exact (ih read).trans (step?_suffix step).1

end ClassReading

theorem class?_suffix {ignore : Bool} {text rest : List Char} {part : Expr}
    (read : class? ignore text = some (part, rest)) : rest <:+ text := by
  obtain ⟨reading, opened, read⟩ := Option.bind_eq_some_iff.mp read
  exact (ClassReading.run?_suffix read).trans (ClassReading.openBracket?_suffix opened)

theorem class?_bracketed {ignore : Bool} {text rest : List Char} {part : Expr}
    (read : class? ignore text = some (part, rest)) :
    ∃ negated set, part = .bracketed negated set := by
  obtain ⟨reading, _, read⟩ := Option.bind_eq_some_iff.mp read
  exact ClassReading.run?_bracketed read

end Pattern

end SchemaEvolution
