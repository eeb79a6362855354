import SchemaEvolution.Yaml.Cursor

/-!
# Gaps between words

The blanks and line breaks between two words of a scalar that runs over several lines, and what
they stand for: blanks inside a line stand for themselves, a single line break for a space, and of
several breaks the first is dropped.
-/

namespace SchemaEvolution.Yaml

/-- What stands between two words. -/
inductive Gap where
  /-- Blanks inside a line. -/
  | blanks (text : List Char)
  /-- A line break, and the further ones after it. -/
  | breaks (first further : List Char)

namespace Gap

def text : Gap → List Char
  | .blanks text => text
  | .breaks first further =>
    if first = ['\n'] then if further.isEmpty then [' '] else further
    else first ++ further

def hasBreak : Gap → Bool
  | .blanks _ => false
  | .breaks _ _ => true

end Gap

namespace Cursor

/-- The breaks of blank lines from the start of a line on, and the place of the next word. A tab
must not stand in the margin. -/
def blankLines? (margin : Nat) (c : Cursor) : Option (List Char × Cursor) :=
  let blanks := c.rest.takeWhile isBlank
  if (blanks.take (margin - c.column)).contains '\t' then none
  else
    let next := c.advance blanks.length
    match _found : next.lineBreak? with
    | none => some ([], next)
    | some (text, line) =>
      (blankLines? margin line).map fun (further, last) => (text ++ further, last)
termination_by c.rest.length
decreasing_by
  have := length_rest_lineBreak _found
  have := length_rest_advance (c.rest.takeWhile isBlank).length c
  simp only [next, blanks] at *
  omega

/-- The gap that stands here, and the place of the next word. After the first line break no tab
may stand in the margin. -/
def gap? (margin : Nat) (c : Cursor) : Option (Gap × Cursor) :=
  let blanks := c.rest.takeWhile isBlank
  let next := c.advance blanks.length
  match next.lineBreak? with
  | none => some (.blanks blanks, next)
  | some (first, line) =>
    (line.blankLines? margin).map fun (further, last) => (.breaks first further, last)

end Cursor

end SchemaEvolution.Yaml
