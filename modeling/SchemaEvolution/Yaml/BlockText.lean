import SchemaEvolution.Yaml.Cursor
import SchemaEvolution.Number.Decimal

/-!
# Block scalars

Scalars that fill indented lines: literal ones keep each line break, folded ones turn a break
between two lines that start with a word into a space. A header says what becomes of the breaks at
the end, and may give the indentation; otherwise the first line with text gives it.
-/

namespace SchemaEvolution.Yaml

/-- The two kinds of block scalars. -/
inductive BlockStyle where
  | literal
  | folded
  deriving DecidableEq

/-- What becomes of the line breaks at the end of a block scalar. -/
inductive Chomping where
  /-- None stays. -/
  | strip
  /-- The break that ends the last line stays. -/
  | clip
  /-- All stay. -/
  | keep
  deriving DecidableEq

/-- The header of a block scalar. -/
structure BlockHeader where
  chomping : Chomping := .clip
  /-- The indentation relative to the block around it, or zero to find it out. -/
  increment : Nat := 0

/-- The chomping that a sign in a header stands for. -/
def chomping? : Char → Option Chomping
  | '+' => some .keep
  | '-' => some .strip
  | _ => none

def increment? (c : Char) : Option Nat :=
  if c.isDigit && c != '0' then some (Decimal.digitValue c) else none

/-- The lines after a place up to the next one with text. -/
structure BlankLines where
  breaks : List Char
  /-- The column that the text must start at to belong to the scalar. -/
  indent : Nat
  next : Cursor

namespace Cursor

/-- The header that stands here, and the place after it. A sign and a digit may stand in either
order. -/
def blockHeader? (c : Cursor) : Option (BlockHeader × Cursor) :=
  match c.rest with
  | first :: rest =>
    match chomping? first, increment? first with
    | some chomping, _ =>
      match rest with
      | second :: _ =>
        match increment? second with
        | some increment => some ({ chomping, increment }, c.advance 2)
        | none => if second = '0' then none else some ({ chomping }, c.advance 1)
      | [] => some ({ chomping }, c.advance 1)
    | none, some increment =>
      match rest.head?.bind chomping? with
      | some chomping => some ({ chomping, increment }, c.advance 2)
      | none => some ({ increment }, c.advance 1)
    | none, none => if first = '0' then none else some ({}, c)
  | [] => some ({}, c)

/-- The place after blanks, a comment and the end of the line, where nothing else may stand. -/
def lineEnd? (c : Cursor) : Option Cursor :=
  let next := (c.skipWhile isBlank).skipComment
  if endsLine next.rest then some next.skipBreak else none

/-- The blank lines from here on. Spaces count as indentation up to `indent`, or without end if
that is zero; then the indentation is that of the widest of these lines and of the next one, but
at least one column and at least the margin. -/
def blankBlockLines? (margin indent : Nat) (c : Cursor) : Option BlankLines :=
  read c.remaining [] 0 c
where
  /-- Reads on after the breaks so far, in lines of at most that width. -/
  read : Nat → List Char → Nat → Cursor → Option BlankLines
    | fuel, breaks, width, c =>
      let spaces := (c.rest.takeWhile (· == ' ')).length
      let next := c.advance (if indent = 0 then spaces else min spaces (indent - c.column))
      let width := max width next.column
      if (indent = 0 || next.column < indent) && next.rest.head? = some '\t' then none
      else
        match fuel, next.lineBreak? with
        | fuel + 1, some (text, line) => read fuel (breaks ++ text) width line
        | _, _ =>
          let indent := if indent = 0 then max (max width margin) 1 else indent
          some ⟨breaks, indent, next⟩

end Cursor

/-- A block scalar as far as it is read. -/
structure BlockText where
  text : List Char
  /-- The break that ended the last line. -/
  lastBreak : List Char
  /-- The breaks of the blank lines after it. -/
  furtherBreaks : List Char
  /-- Whether the last line started with a blank. -/
  blankStart : Bool

namespace BlockText

/-- The text so far with what the breaks before one more line stand for. -/
def joined (style : BlockStyle) (block : BlockText) (blankStart : Bool) : List Char :=
  let folds :=
    style = .folded && block.lastBreak == ['\n'] && !block.blankStart && !blankStart
  if folds then
    block.text ++ (if block.furtherBreaks.isEmpty then [' '] else []) ++ block.furtherBreaks
  else block.text ++ block.lastBreak ++ block.furtherBreaks

/-- The text with those of the breaks at its end that stay. -/
def chomped (chomping : Chomping) (block : BlockText) : List Char :=
  match chomping with
  | .strip => block.text
  | .clip => block.text ++ block.lastBreak
  | .keep => block.text ++ block.lastBreak ++ block.furtherBreaks

end BlockText

namespace Cursor

/-- The block scalar whose header stands here, and the place after it. -/
def blockText? (style : BlockStyle) (margin : Nat) (c : Cursor) :
    Option (List Char × Cursor) := do
  let (header, c) ← c.blockHeader?
  let start ← c.lineEnd?
  let indent := if header.increment = 0 then 0 else margin - 1 + header.increment
  let lines ← start.blankBlockLines? margin indent
  let (block, next) ←
    read lines.indent start.remaining ⟨[], [], lines.breaks, false⟩ lines.next
  return (block.chomped header.chomping, next)
where
  /-- Reads on at the start of a line. -/
  read (indent : Nat) : Nat → BlockText → Cursor → Option (BlockText × Cursor)
    | 0, block, c => some (block, c)
    | fuel + 1, block, c =>
      if c.column = indent && !c.rest.isEmpty then do
        let blankStart := c.rest.head?.any isBlank
        let line := c.rest.takeWhile fun char => !isBreak char
        let ended := c.advance line.length
        let (lastBreak, start) := ended.lineBreak?.getD ([], ended)
        let lines ← start.blankBlockLines? margin indent
        read indent fuel
          ⟨block.joined style blankStart ++ line, lastBreak, lines.breaks, blankStart⟩ lines.next
      else some (block, c)

end Cursor

end SchemaEvolution.Yaml
