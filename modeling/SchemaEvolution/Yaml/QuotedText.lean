import SchemaEvolution.Text.Hex
import SchemaEvolution.Yaml.Gap

/-!
# Quoted scalars

Between single quotes a quote is written twice and nothing else is special. Between double quotes a
backslash starts an escape, also of a line break. Both run over several lines, whose breaks are
folded as gaps between words.
-/

namespace SchemaEvolution.Yaml

/-- The two kinds of quotes. -/
inductive QuoteStyle where
  | single
  | double
  deriving DecidableEq

namespace QuoteStyle

def mark : QuoteStyle → Char
  | .single => '\''
  | .double => '"'

end QuoteStyle

def shortEscape? : Char → Option Char
  | '0' => some '\x00'
  | 'a' => some '\x07'
  | 'b' => some '\x08'
  | 't' => some '\t'
  | '\t' => some '\t'
  | 'n' => some '\n'
  | 'v' => some '\x0b'
  | 'f' => some '\x0c'
  | 'r' => some '\r'
  | 'e' => some '\x1b'
  | ' ' => some ' '
  | '"' => some '"'
  | '/' => some '/'
  | '\\' => some '\\'
  | 'N' => some '\u0085'
  | '_' => some '\u00a0'
  | 'L' => some '\u2028'
  | 'P' => some '\u2029'
  | _ => none

def codeLength? : Char → Option Nat
  | 'x' => some 2
  | 'u' => some 4
  | 'U' => some 8
  | _ => none

/-- The character that the text after a backslash denotes, and how many characters do it. -/
def escape? : List Char → Option (Char × Nat)
  | [] => none
  | letter :: rest =>
    match codeLength? letter with
    | none => (shortEscape? letter).map (·, 1)
    | some count =>
      let digits := rest.take count
      if digits.length < count then none
      else
        ((Text.valueInBase? 16 0 digits).bind Text.charOf?).map (·, count + 1)

/-- A word between quotes. -/
structure QuotedWord where
  text : List Char
  /-- Whether an escaped line break ends it. -/
  escapesBreak : Bool
  next : Cursor

namespace Cursor

/-- The word between quotes that stands here, up to a blank, a line break, the closing quote or the
end of the text. -/
def quotedWord? (style : QuoteStyle) (c : Cursor) : Option QuotedWord :=
  read c.remaining [] c
where
  /-- Reads on after the characters so far, which are in reverse. -/
  read : Nat → List Char → Cursor → Option QuotedWord
    | 0, text, c => some ⟨text.reverse, false, c⟩
    | fuel + 1, text, c =>
      match c.rest with
      | [] => some ⟨text.reverse, false, c⟩
      | first :: rest =>
        if !isWordChar first then some ⟨text.reverse, false, c⟩
        else if style = .single && first == '\'' && rest.head? = some '\'' then
          read fuel ('\'' :: text) (c.advance 2)
        else if first = style.mark then some ⟨text.reverse, false, c⟩
        else if style = .double && first == '\\' then
          if rest.head?.any isBreak then some ⟨text.reverse, true, (c.advance 1).skipBreak⟩
          else
            (escape? rest).bind fun (char, used) =>
              read fuel (char :: text) (c.advance (used + 1))
        else read fuel (first :: text) (c.advance 1)

/-- The text between here, after an opening quote, and the closing one, and the place after that.
No document may start or end inside. -/
def quotedText? (style : QuoteStyle) (c : Cursor) : Option (List Char × Cursor) :=
  read c.remaining [] c
where
  /-- Reads on after the text so far. -/
  read : Nat → List Char → Cursor → Option (List Char × Cursor)
    | 0, _, _ => none
    | fuel + 1, text, c => do
      if c.startsDocumentMark || c.rest.isEmpty then none
      let word ← c.quotedWord? style
      let text := text ++ word.text
      if word.next.rest.head? = some style.mark then return (text, word.next.advance 1)
      let (gap, next) ←
        if word.escapesBreak then
          (word.next.blankLines? 0).map fun (further, last) => (Gap.breaks [] further, last)
        else word.next.gap? 0
      read fuel (text ++ gap.text) next

end Cursor

end SchemaEvolution.Yaml
