import Mathlib
import SchemaEvolution.Pattern.Classes
import SchemaEvolution.Pattern.EmptyMatch

/-! # What a pattern accepts

A pattern accepts the texts in which a search for it succeeds. A match goes from one place of a text
to another under the settings in force, and a directive changes those for all that follows it in its
group, across the bars too. Which letters differ in case only and which characters have a property
is told by tables that are left open here.
-/

namespace SchemaEvolution

namespace Pattern

open Text

/-- What a pattern needs to know of characters. -/
structure CharTables where
  /-- Both are the same letter if case is ignored. -/
  SameLetter : Char → Char → Prop
  HasProperty : PropertyName → Char → Prop

/-- A place in a text: the characters before it, the nearest first, and those after it. -/
structure Place where
  before : List Char
  after : List Char

namespace Place

def text (place : Place) : List Char := place.before.reverse ++ place.after

/-- The second place is one character further than the first, and the character passes a test. -/
def Passes (test : Char → Prop) (start finish : Place) : Prop :=
  ∃ c rest, start.after = c :: rest ∧ test c ∧ finish = ⟨c :: start.before, rest⟩

end Place

namespace Settings

def isWord (settings : Settings) (c : Char) : Bool :=
  CharRanges.has (ShortClass.word.ranges settings.unicode) c

/-- The character passes the test, or another case of it does where case is ignored. Without the
Unicode flag only the letters of ASCII have two cases. -/
def Folded (settings : Settings) (tables : CharTables) (test : Char → Prop) (c : Char) : Prop :=
  test c ∨ settings.caseInsensitive = true ∧ ∃ d, test d ∧
    if settings.unicode then tables.SameLetter d c else d.toLower = c.toLower

end Settings

def Negated (negated : Bool) (holds : Prop) : Prop := if negated then ¬holds else holds

namespace Assertion

def startsLine (settings : Settings) (place : Place) : Bool :=
  match place.before with
  | [] => true
  | c :: _ =>
    if settings.crlf then c == '\n' || (c == '\r' && place.after.head? != some '\n')
    else c == '\n'

def endsLine (settings : Settings) (place : Place) : Bool :=
  match place.after with
  | [] => true
  | c :: _ =>
    if settings.crlf then c == '\r' || (c == '\n' && place.before.head? != some '\r')
    else c == '\n'

/-- Whether an assertion holds at a place. -/
def holds (settings : Settings) (place : Place) (kind : Assertion) : Bool :=
  let wordBefore := place.before.head?.any settings.isWord
  let wordAfter := place.after.head?.any settings.isWord
  match kind with
  | .lineStart => if settings.multiLine then startsLine settings place else place.before.isEmpty
  | .lineEnd => if settings.multiLine then endsLine settings place else place.after.isEmpty
  | .textStart => place.before.isEmpty
  | .textEnd => place.after.isEmpty
  | .wordBoundary => wordBefore != wordAfter
  | .notWordBoundary => wordBefore == wordAfter
  | .wordStart => !wordBefore && wordAfter
  | .wordEnd => wordBefore && !wordAfter
  | .wordStartHalf => !wordBefore
  | .wordEndHalf => !wordAfter

end Assertion

namespace ClassSet

mutual

/-- A character is in a set. Brackets and operators ignore case on what stands in them, before they
negate or combine. -/
def Has (tables : CharTables) (settings : Settings) : ClassSet → Char → Prop
  | .empty, _ => False
  | .literal value, c => c = value.char
  | .range first last, c => first.char ≤ c ∧ c ≤ last.char
  | .named kind negated, c => Negated negated (CharRanges.has kind.ranges c = true)
  | .short kind negated, c =>
    Negated negated (CharRanges.has (kind.ranges settings.unicode) c = true)
  | .property name negated, c =>
    Negated negated (settings.Folded tables (tables.HasProperty name) c)
  | .bracketed negated set, c => Negated negated (settings.Folded tables (Has tables settings set) c)
  | .union items, c => SomeHas tables settings items c
  | .combined operator left right, c =>
    let inLeft := settings.Folded tables (Has tables settings left) c
    let inRight := settings.Folded tables (Has tables settings right) c
    match operator with
    | .intersection => inLeft ∧ inRight
    | .difference => inLeft ∧ ¬inRight
    | .symmetricDifference => Xor inLeft inRight

def SomeHas (tables : CharTables) (settings : Settings) : List ClassSet → Char → Prop
  | [], _ => False
  | set :: rest, c => Has tables settings set c ∨ SomeHas tables settings rest c

end

end ClassSet

/-- So many times one after another. -/
def Repeated (once : Place → Place → Prop) : Nat → Place → Place → Prop
  | 0, start, finish => start = finish
  | count + 1, start, finish => ∃ middle, once start middle ∧ Repeated once count middle finish

namespace Expr

mutual

/-- The pattern matches what is between two places of a text. -/
def Matches (tables : CharTables) (settings : Settings) : Expr → Place → Place → Prop
  | .empty, start, finish => start = finish
  | .flags _, start, finish => start = finish
  | .literal value, start, finish =>
    start.Passes (settings.Folded tables (· = value.char)) finish
  | .dot, start, finish => start.Passes (CharRanges.has settings.lineEnds · = false) finish
  | .assertion kind, start, finish => start = finish ∧ kind.holds settings start = true
  | .short kind negated, start, finish =>
    start.Passes (ClassSet.Has tables settings (.short kind negated)) finish
  | .property name negated, start, finish =>
    start.Passes (ClassSet.Has tables settings (.property name negated)) finish
  | .bracketed negated set, start, finish =>
    start.Passes (ClassSet.Has tables settings (.bracketed negated set)) finish
  | .repetition body min max _, start, finish =>
    ∃ count, min ≤ count ∧ (∀ most, max = some most → count ≤ most) ∧
      Repeated (Matches tables settings body) count start finish
  | .group kind body, start, finish => Matches tables (settings.inside kind) body start finish
  | .alternation branches, start, finish => SomeMatch tables settings branches start finish
  | .concat parts, start, finish => MatchInTurn tables settings parts start finish

/-- One of the branches matches, under the settings that those before it leave. -/
def SomeMatch (tables : CharTables) (settings : Settings) : List Expr → Place → Place → Prop
  | [], _, _ => False
  | expr :: rest, start, finish =>
    Matches tables settings expr start finish ∨
      SomeMatch tables (settingsAfter settings expr) rest start finish

def MatchInTurn (tables : CharTables) (settings : Settings) : List Expr → Place → Place → Prop
  | [], start, finish => start = finish
  | expr :: rest, start, finish =>
    ∃ middle, Matches tables settings expr start middle ∧
      MatchInTurn tables (settingsAfter settings expr) rest middle finish

end

end Expr

/-- The text of a valid pattern, in which a search for it succeeds. -/
def Accepts (fits : SizeTest) (tables : CharTables) (pattern text : String) : Prop :=
  ∃ expr, Expr.ofText? fits pattern = some expr ∧
    ∃ start finish, start.text = text.toList ∧ expr.Matches tables {} start finish

section EmptyMatches

/-! Whether a pattern matches the empty text is read off its parts. What they ask for nowhere else
but at the ends of a text, they ask for only by assertions. -/

namespace Expr

mutual

/-- A pattern asserts only what is allowed, and repeats between bounds that are in order. -/
def Tame (allowed : Assertion → Prop) : Expr → Prop
  | .assertion kind => allowed kind
  | .repetition body min max _ => (∀ most, max = some most → min ≤ most) ∧ Tame allowed body
  | .group _ body => Tame allowed body
  | .alternation branches => AllTame allowed branches
  | .concat parts => AllTame allowed parts
  | .empty | .flags _ | .literal _ | .dot | .short _ _ | .property _ _ | .bracketed _ _ => True

def AllTame (allowed : Assertion → Prop) : List Expr → Prop
  | [] => True
  | expr :: rest => Tame allowed expr ∧ AllTame allowed rest

end

theorem allTame_iff {allowed : Assertion → Prop} {exprs : List Expr} :
    AllTame allowed exprs ↔ ∀ expr ∈ exprs, expr.Tame allowed := by
  induction exprs with
  | nil => simp [AllTame]
  | cons expr rest ih => simp [AllTame, ih]

end Expr

variable {tables : CharTables}

theorem repeated_self {once : Place → Place → Prop} {place : Place} (stays : once place place)
    (count : Nat) : Repeated once count place place := by
  induction count with
  | zero => rfl
  | succ count ih => exact ⟨place, stays, ih⟩

theorem eq_of_repeated {once : Place → Place → Prop} {start finish : Place}
    (stays : ∀ next, once start next → next = start) {count : Nat}
    (matched : Repeated once count start finish) : finish = start := by
  induction count with
  | zero => exact matched.symm
  | succ count ih =>
      obtain ⟨middle, first, others⟩ := matched
      cases stays middle first
      exact ih others

theorem Place.not_passes_end {test : Char → Prop} {before : List Char} {finish : Place} :
    ¬Place.Passes test ⟨before, []⟩ finish := by
  rintro ⟨c, rest, ahead, -⟩
  cases ahead

namespace Expr

mutual

/-- A pattern that matches the empty text matches without a character wherever its assertions
hold. -/
theorem matches_of_matchesEmpty {allowed : Assertion → Prop} {place : Place}
    (held : ∀ settings kind, allowed kind → (assertion kind).matchesEmpty = true →
      kind.holds settings place = true) :
    ∀ (expr : Expr) (settings : Settings), expr.Tame allowed → expr.matchesEmpty = true →
      expr.Matches tables settings place place
  | .empty, _, _, _ | .flags _, _, _, _ => rfl
  | .assertion kind, settings, tame, nullable => ⟨rfl, held settings kind tame nullable⟩
  | .repetition body min max _, settings, tame, nullable => by
      rcases Bool.or_eq_true_iff.mp nullable with none | nullable
      · exact ⟨0, (beq_iff_eq.mp none).le, fun _ _ => Nat.zero_le _, rfl⟩
      · have once := matches_of_matchesEmpty held body settings tame.2 nullable
        exact ⟨min, le_rfl, tame.1, repeated_self once min⟩
  | .group kind body, settings, tame, nullable =>
      matches_of_matchesEmpty held body (settings.inside kind) tame nullable
  | .alternation branches, settings, tame, nullable =>
      someMatch_of_someMatchesEmpty held branches settings tame nullable
  | .concat parts, settings, tame, nullable =>
      matchInTurn_of_allMatchEmpty held parts settings tame nullable

theorem someMatch_of_someMatchesEmpty {allowed : Assertion → Prop} {place : Place}
    (held : ∀ settings kind, allowed kind → (assertion kind).matchesEmpty = true →
      kind.holds settings place = true) :
    ∀ (exprs : List Expr) (settings : Settings), AllTame allowed exprs →
      someMatchesEmpty exprs = true → SomeMatch tables settings exprs place place
  | expr :: rest, settings, tame, nullable => by
      rcases Bool.or_eq_true_iff.mp nullable with first | later
      · exact .inl (matches_of_matchesEmpty held expr settings tame.1 first)
      · exact .inr (someMatch_of_someMatchesEmpty held rest _ tame.2 later)

theorem matchInTurn_of_allMatchEmpty {allowed : Assertion → Prop} {place : Place}
    (held : ∀ settings kind, allowed kind → (assertion kind).matchesEmpty = true →
      kind.holds settings place = true) :
    ∀ (exprs : List Expr) (settings : Settings), AllTame allowed exprs →
      allMatchEmpty exprs = true → MatchInTurn tables settings exprs place place
  | [], _, _, _ => rfl
  | expr :: rest, settings, tame, nullable => by
      obtain ⟨first, others⟩ := Bool.and_eq_true_iff.mp nullable
      exact ⟨place, matches_of_matchesEmpty held expr settings tame.1 first,
        matchInTurn_of_allMatchEmpty held rest _ tame.2 others⟩

end

mutual

/-- In the empty text a pattern matches only if it was found to. -/
theorem matchesEmpty_of_matches {finish : Place} :
    ∀ (expr : Expr) (settings : Settings), expr.Matches tables settings ⟨[], []⟩ finish →
      expr.matchesEmpty = true ∧ finish = ⟨[], []⟩
  | .empty, _, matched | .flags _, _, matched => ⟨rfl, matched.symm⟩
  | .literal _, _, matched | .dot, _, matched | .short _ _, _, matched
  | .property _ _, _, matched | .bracketed _ _, _, matched => absurd matched Place.not_passes_end
  | .assertion kind, settings, ⟨stays, held⟩ => by
      refine ⟨?_, stays.symm⟩
      cases kind <;> simp [Assertion.holds, matchesEmpty] at held ⊢
  | .repetition body min max _, settings, ⟨count, least, _, matched⟩ => by
      refine ⟨?_, eq_of_repeated (fun _ once =>
        (matchesEmpty_of_matches body settings once).2) matched⟩
      cases count with
      | zero => simp [matchesEmpty, Nat.le_zero.mp least]
      | succ count =>
          obtain ⟨_, once, _⟩ := matched
          simp [matchesEmpty, (matchesEmpty_of_matches body settings once).1]
  | .group kind body, settings, matched =>
      matchesEmpty_of_matches body (settings.inside kind) matched
  | .alternation branches, settings, matched =>
      someMatchesEmpty_of_someMatch branches settings matched
  | .concat parts, settings, matched => allMatchEmpty_of_matchInTurn parts settings matched

theorem someMatchesEmpty_of_someMatch {finish : Place} :
    ∀ (exprs : List Expr) (settings : Settings),
      SomeMatch tables settings exprs ⟨[], []⟩ finish →
        someMatchesEmpty exprs = true ∧ finish = ⟨[], []⟩
  | expr :: rest, settings, .inl matched => by
      obtain ⟨nullable, stays⟩ := matchesEmpty_of_matches expr settings matched
      exact ⟨Bool.or_eq_true_iff.mpr (.inl nullable), stays⟩
  | expr :: rest, settings, .inr matched => by
      obtain ⟨nullable, stays⟩ := someMatchesEmpty_of_someMatch rest _ matched
      exact ⟨Bool.or_eq_true_iff.mpr (.inr nullable), stays⟩

theorem allMatchEmpty_of_matchInTurn {finish : Place} :
    ∀ (exprs : List Expr) (settings : Settings),
      MatchInTurn tables settings exprs ⟨[], []⟩ finish →
        allMatchEmpty exprs = true ∧ finish = ⟨[], []⟩
  | [], _, matched => ⟨rfl, matched.symm⟩
  | expr :: rest, settings, ⟨_, first, others⟩ => by
      obtain ⟨nullable, rfl⟩ := matchesEmpty_of_matches expr settings first
      obtain ⟨later, stays⟩ := allMatchEmpty_of_matchInTurn rest _ others
      exact ⟨Bool.and_eq_true_iff.mpr ⟨nullable, later⟩, stays⟩

end

end Expr

end EmptyMatches

namespace Expr

variable {tables : CharTables} {settings : Settings}

theorem settingsAfter_ofParts (parts : List Expr) :
    settingsAfter settings (ofParts parts) = settingsAfterList settings parts := by
  cases parts with
  | nil => rfl
  | cons part rest =>
      cases rest <;> rfl

theorem matches_ofParts {parts : List Expr} {start finish : Place} :
    (ofParts parts).Matches tables settings start finish ↔
      MatchInTurn tables settings parts start finish := by
  cases parts with
  | nil => rfl
  | cons part rest =>
      cases rest with
      | nil => simp [ofParts, MatchInTurn]
      | cons => rfl

theorem matchInTurn_append {first second : List Expr} {start finish : Place} :
    MatchInTurn tables settings (first ++ second) start finish ↔
      ∃ middle, MatchInTurn tables settings first start middle ∧
        MatchInTurn tables (settingsAfterList settings first) second middle finish := by
  induction first generalizing settings start with
  | nil => simp [MatchInTurn, settingsAfterList]
  | cons expr rest ih =>
      simp only [List.cons_append, MatchInTurn, settingsAfterList, ih]
      constructor
      · rintro ⟨place, matched, middle, others, last⟩
        exact ⟨middle, ⟨place, matched, others⟩, last⟩
      · rintro ⟨middle, ⟨place, matched, others⟩, last⟩
        exact ⟨place, matched, middle, others, last⟩

end Expr

end Pattern

/-- What a relation says of the texts that two patterns accept. -/
def Restrictiveness.Holds (fits : Pattern.SizeTest) (tables : Pattern.CharTables)
    (old new : String) : Restrictiveness → Prop
  | .looser => ∀ text, Pattern.Accepts fits tables old text → Pattern.Accepts fits tables new text
  | .stricter => ∀ text, Pattern.Accepts fits tables new text → Pattern.Accepts fits tables old text
  | .equivalent =>
    ∀ text, Pattern.Accepts fits tables old text ↔ Pattern.Accepts fits tables new text

end SchemaEvolution
