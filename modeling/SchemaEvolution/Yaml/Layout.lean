import SchemaEvolution.Yaml.BlockText
import SchemaEvolution.Yaml.PlainText
import SchemaEvolution.Yaml.QuotedText
import SchemaEvolution.Yaml.Tag

/-!
# Layout

From text to tokens. Indentation opens and closes blocks. A key is known only by the colon after
it, so the place of each possible key is kept until the colon comes or can no longer come; then the
tokens of the key are put in before those that were read since.
-/

namespace SchemaEvolution.Yaml

/-- A place where a key may have started. -/
structure KeyPlace where
  /-- How many tokens come before it. -/
  position : Nat
  index : Nat
  line : Nat
  column : Nat
  /-- Whether the block around it has room for nothing but a key there. -/
  isRequired : Bool

/-- How far a colon may stand from the start of its key. -/
def maxKeyLength : Nat := 1024

/-- Whether a colon at a cursor comes too late for a key: on another line, or too far away. -/
def KeyPlace.isStale (place : KeyPlace) (c : Cursor) : Bool :=
  place.line < c.line || place.index + maxKeyLength < c.index

/-- What is known of a text that is read up to a cursor. -/
structure Layout where
  cursor : Cursor
  tokens : Array Token := #[]
  /-- The columns of the open blocks, the innermost first. -/
  blocks : List Nat := []
  /-- Whether a key may start at the cursor. -/
  keyAllowed : Bool := true
  /-- The possible key of the innermost collection that is open. -/
  keyPlace : Option KeyPlace := none
  /-- The possible keys around each flow collection that is open, the innermost first. -/
  outerKeyPlaces : List (Option KeyPlace) := []

namespace Layout

/-- Whether a flow collection is open. -/
def inFlow (layout : Layout) : Bool := !layout.outerKeyPlaces.isEmpty

/-- The least column that lies inside the innermost block. -/
def margin (layout : Layout) : Nat :=
  match layout.blocks with
  | [] => 0
  | column :: _ => column + 1

/-- Adds a token, after which the text goes on at a cursor. -/
def emit (layout : Layout) (token : Token) (next : Cursor) : Layout :=
  { layout with tokens := layout.tokens.push token, cursor := next }

def emitMark (layout : Layout) (token : Token) (length : Nat) : Layout :=
  layout.emit token (layout.cursor.advance length)

/-- Opens a block at a column beyond the innermost one; its token comes at a position among the
others. A flow collection holds no blocks. -/
def openBlock (layout : Layout) (column position : Nat) (token : Token) : Layout :=
  if !layout.inFlow && layout.margin ≤ column then
    { layout with
      blocks := column :: layout.blocks
      tokens := layout.tokens.insertIdxIfInBounds position token }
  else layout

def openBlockHere (layout : Layout) (token : Token) : Layout :=
  layout.openBlock layout.cursor.column layout.tokens.size token

/-- Closes the blocks that satisfy a test on their columns, from the innermost one on. -/
def closeBlocks (isOver : Nat → Bool) (layout : Layout) : Layout :=
  if layout.inFlow then layout
  else
    let closed := (layout.blocks.takeWhile isOver).length
    { layout with
      blocks := layout.blocks.drop closed
      tokens := layout.tokens ++ Array.replicate closed Token.blockEnd }

/-- Gives up the possible key of the innermost collection, which must not be a required one. -/
def dropKey? (layout : Layout) : Option Layout :=
  match layout.keyPlace with
  | some place => if place.isRequired then none else some { layout with keyPlace := none }
  | none => some layout

/-- Notes that a key may start at the cursor, if it may. -/
def noteKey? (layout : Layout) : Option Layout :=
  if layout.keyAllowed then
    (layout.dropKey?).map fun layout =>
      let c := layout.cursor
      { layout with
        keyPlace := some
          { position := layout.tokens.size
            index := c.index
            line := c.line
            column := c.column
            isRequired := !layout.inFlow && layout.margin = c.column + 1 } }
  else some layout

/-- Gives up a possible key that has become stale. -/
def freshKey? (c : Cursor) (place : Option KeyPlace) : Option (Option KeyPlace) :=
  match place with
  | some key =>
    if key.isStale c then if key.isRequired then none else some none else some (some key)
  | none => some none

/-- Gives up all possible keys that have become stale. -/
def dropStaleKeys? (layout : Layout) : Option Layout := do
  let outerKeyPlaces ← layout.outerKeyPlaces.mapM (freshKey? layout.cursor)
  let keyPlace ← freshKey? layout.cursor layout.keyPlace
  return { layout with outerKeyPlaces, keyPlace }

/-- Goes on to the next token, past blanks, comments and line breaks. In a block, a tab is no blank
where a key may start, and on each new line a key may start. -/
def skipGap (layout : Layout) : Layout :=
  skip layout.cursor.remaining layout
where
  /-- Skips on, line by line. -/
  skip : Nat → Layout → Layout
    | fuel, layout =>
      let c := layout.cursor
      let c := if c.column = 0 && c.rest.head? = some '\ufeff' then c.advance 1 else c
      let tabs := layout.inFlow || !layout.keyAllowed
      let c := (c.skipWhile fun char => char == ' ' || (tabs && char == '\t')).skipComment
      match fuel, c.lineBreak? with
      | fuel + 1, some (_, next) =>
        skip fuel { layout with cursor := next, keyAllowed := layout.keyAllowed || !layout.inFlow }
      | _, _ => { layout with cursor := c }

/-- Closes all blocks, where the next line does not go on with any. -/
def endBlocks? (layout : Layout) : Option Layout :=
  (layout.closeBlocks fun _ => true).dropKey?.map ({ · with keyAllowed := false })

def directive? (layout : Layout) : Option Layout := do
  let layout ← layout.endBlocks?
  let start := layout.cursor.advance 1
  let name := start.rest.takeWhile isNameChar
  let next := start.advance name.length
  if !endsWord next.rest then none
  let (token, next) ←
    match String.ofList name with
    | "YAML" => next.version?
    | "TAG" => next.tagHandle?
    | _ => none
  return layout.emit token (← next.lineEnd?)

def documentMark? (layout : Layout) (token : Token) : Option Layout :=
  layout.endBlocks?.map (·.emitMark token 3)

/-- Reads the mark that opens a flow collection, which may itself be a key. -/
def openFlow? (layout : Layout) (token : Token) : Option Layout :=
  layout.noteKey?.map fun layout =>
    { layout.emitMark token 1 with
      keyPlace := none
      outerKeyPlaces := layout.keyPlace :: layout.outerKeyPlaces
      keyAllowed := true }

def closeFlow? (layout : Layout) (token : Token) : Option Layout :=
  layout.dropKey?.map fun layout =>
    let layout := { layout.emitMark token 1 with keyAllowed := false }
    match layout.outerKeyPlaces with
    | [] => layout
    | keyPlace :: outerKeyPlaces => { layout with keyPlace, outerKeyPlaces }

def flowEntry? (layout : Layout) : Option Layout :=
  layout.dropKey?.map fun layout => { layout.emitMark .flowEntry 1 with keyAllowed := true }

/-- Opens a block for the mark at the cursor, where that is needed. In a block the mark may only
stand where a key may. -/
def markedBlock? (layout : Layout) (token : Token) : Option Layout :=
  if layout.inFlow then some layout
  else if layout.keyAllowed then some (layout.openBlockHere token)
  else none

def blockEntry? (layout : Layout) : Option Layout := do
  let layout ← (← layout.markedBlock? .blockSequenceStart).dropKey?
  return { layout.emitMark .blockEntry 1 with keyAllowed := true }

def key? (layout : Layout) : Option Layout := do
  let layout ← (← layout.markedBlock? .blockMappingStart).dropKey?
  return { layout.emitMark .key 1 with keyAllowed := !layout.inFlow }

/-- Reads the colon before a value: if a key may have started, it did. -/
def value? (layout : Layout) : Option Layout :=
  match layout.keyPlace with
  | some place =>
    let marked :=
      { layout with tokens := layout.tokens.insertIdxIfInBounds place.position .key }
    let opened := marked.openBlock place.column place.position .blockMappingStart
    some { opened.emitMark .value 1 with keyPlace := none, keyAllowed := false }
  | none =>
    (layout.markedBlock? .blockMappingStart).map fun layout =>
      { layout.emitMark .value 1 with keyAllowed := !layout.inFlow }

/-- Reads a token that may be a key, or start one. -/
def keyLike? (layout : Layout) (read : Cursor → Option (Token × Cursor)) : Option Layout := do
  let layout ← layout.noteKey?
  let (token, next) ← read layout.cursor
  return { layout.emit token next with keyAllowed := false }

def quoted? (layout : Layout) (style : QuoteStyle) : Option Layout :=
  layout.keyLike? fun c =>
    ((c.advance 1).quotedText? style).map fun (text, next) =>
      (.scalar (String.ofList text) false, next)

def block? (layout : Layout) (style : BlockStyle) : Option Layout := do
  let layout ← layout.dropKey?
  let (text, next) ← (layout.cursor.advance 1).blockText? style layout.margin
  return { layout.emit (.scalar (String.ofList text) false) next with keyAllowed := true }

/-- Reads a plain scalar. If it runs on over the end of a line, a key may start after it. -/
def plain? (layout : Layout) : Option Layout := do
  let layout ← layout.noteKey?
  let found ← layout.cursor.plainText? layout.inFlow layout.margin
  return { layout.emit (.scalar (String.ofList found.text) true) found.next with
    keyAllowed := found.endedLine }

/-- Reads the token that stands at the cursor, of which the first character is given. -/
def token? (layout : Layout) (first : Char) : Option Layout :=
  let c := layout.cursor
  let after := c.rest.drop 1
  let inFlow := layout.inFlow
  if c.column = 0 && first == '%' then layout.directive?
  else if c.startsMark '-' then layout.documentMark? .documentStart
  else if c.startsMark '.' then layout.documentMark? .documentEnd
  else if first == '[' then layout.openFlow? .flowSequenceStart
  else if first == '{' then layout.openFlow? .flowMappingStart
  else if first == ']' then layout.closeFlow? .flowSequenceEnd
  else if first == '}' then layout.closeFlow? .flowMappingEnd
  else if first == ',' then layout.flowEntry?
  else if first == '-' && endsWord after then layout.blockEntry?
  else if first == '?' && (inFlow || endsWord after) then layout.key?
  else if first == ':' && (inFlow || endsWord after) then layout.value?
  else if first == '*' then
    layout.keyLike? fun c => c.name?.map fun (name, next) => (.reference name, next)
  else if first == '&' then
    layout.keyLike? fun c => c.name?.map fun (name, next) => (.anchor name, next)
  else if first == '!' then layout.keyLike? (·.tag? inFlow)
  else if first == '|' && !inFlow then layout.block? .literal
  else if first == '>' && !inFlow then layout.block? .folded
  else if first == '\'' then layout.quoted? .single
  else if first == '"' then layout.quoted? .double
  else if startsPlain inFlow c.rest then layout.plain?
  else none

/-- Ends the text: all blocks close, and no key may be missing. -/
def finish? (layout : Layout) : Option Layout :=
  (layout.closeBlocks fun _ => true).dropKey?

def readAll? : Nat → Layout → Option Layout
  | 0, _ => none
  | fuel + 1, layout => do
    let layout ← layout.skipGap.dropStaleKeys?
    match layout.cursor.rest with
    | [] => layout.finish?
    | first :: _ =>
      let column := layout.cursor.column
      readAll? fuel (← (layout.closeBlocks fun block => column < block).token? first)

end Layout

def tokens? (text : List Char) : Option (List Token) :=
  if text.all isAllowed then
    let start := Cursor.ofText text
    (Layout.readAll? (start.size + 1) { cursor := start }).map (·.tokens.toList)
  else none

end SchemaEvolution.Yaml
