import SchemaEvolution.Yaml.Gap

/-!
# Plain scalars

Scalars without quotes: words with gaps between them, up to what ends a scalar. They may run over
several lines as long as these are indented beyond the block they stand in.
-/

namespace SchemaEvolution.Yaml

/-- The characters that mark a flow collection. -/
def flowMarks : List Char := [',', '[', ']', '{', '}']

/-- Whether a plain scalar starts with this text. The characters with a meaning of their own start
none, except a hyphen before a word and, outside flow collections, a question mark or a colon
before a word. -/
def startsPlain (inFlow : Bool) : List Char → Bool
  | [] => false
  | c :: rest =>
    if c == '-' then !(rest.head?.any isBlank)
    else if c == '?' || c == ':' then !inFlow && !endsWord rest
    else
      isWordChar c && !flowMarks.contains c &&
        !(['#', '&', '*', '!', '|', '>', '\'', '"', '%', '@', '\x60'].contains c)

/-- The word of a plain scalar that a text starts with; it is empty where the scalar ends. In a
flow collection a colon directly before a mark of the collection is refused. -/
def plainWord? (inFlow : Bool) : List Char → Option (List Char)
  | [] => some []
  | c :: rest =>
    if !isWordChar c then some []
    else if inFlow && c == ':' && startsWithAny ('?' :: flowMarks) rest then none
    else if (c == ':' && endsWord rest) || (inFlow && flowMarks.contains c) then some []
    else (plainWord? inFlow rest).map (c :: ·)

/-- A plain scalar as far as it is read. -/
structure PlainText where
  text : List Char
  /-- Whether a line has ended since the last word. -/
  endedLine : Bool
  next : Cursor

namespace Cursor

/-- The plain scalar that stands here. Lines that go on with it keep to the margin. -/
def plainText? (inFlow : Bool) (margin : Nat) (c : Cursor) : Option PlainText :=
  read c.remaining [] (.blanks []) c
where
  /-- Reads on after a gap. -/
  read : Nat → List Char → Gap → Cursor → Option PlainText
    | 0, text, gap, c => some ⟨text, gap.hasBreak, c⟩
    | fuel + 1, text, gap, c => do
      if c.startsDocumentMark || c.rest.head? = some '#' then return ⟨text, gap.hasBreak, c⟩
      let word ← plainWord? inFlow c.rest
      if word.isEmpty then return ⟨text, gap.hasBreak, c⟩
      let text := text ++ gap.text ++ word
      let (gap, next) ← (c.advance word.length).gap? margin
      if !inFlow && next.column < margin then return ⟨text, gap.hasBreak, next⟩
      read fuel text gap next

end Cursor

end SchemaEvolution.Yaml
