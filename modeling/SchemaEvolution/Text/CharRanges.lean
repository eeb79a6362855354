/-!
# Ranges of characters

A set of characters as a list of ranges of codes, each given by its first and last code.
-/

namespace SchemaEvolution.Text

/-- A set of characters, as ranges of codes with both ends included. -/
abbrev CharRanges := List (Nat × Nat)

namespace CharRanges

def greatest : Nat := 0x10FFFF

def has (ranges : CharRanges) (c : Char) : Bool :=
  ranges.any fun range => range.1 ≤ c.toNat && c.toNat ≤ range.2

/-- Ranges by their first codes, with those that touch joined to the range before them. -/
def join (current : Nat × Nat) : CharRanges → CharRanges
  | [] => [current]
  | next :: rest =>
    if next.1 ≤ current.2 + 1 then join (current.1, max current.2 next.2) rest
    else current :: join next rest

/-- The same set as ranges in order, none of which touch. -/
def normalize (ranges : CharRanges) : CharRanges :=
  match ranges.mergeSort fun a b => a.1 ≤ b.1 with
  | [] => []
  | first :: rest => join first rest

def union (a b : CharRanges) : CharRanges := normalize (a ++ b)

/-- The codes from `start` on that are in none of some ranges in order. -/
def gaps (start : Nat) : CharRanges → CharRanges
  | [] => if start ≤ greatest then [(start, greatest)] else []
  | range :: rest =>
    if start < range.1 then (start, range.1 - 1) :: gaps (range.2 + 1) rest
    else gaps (range.2 + 1) rest

def complement (ranges : CharRanges) : CharRanges := gaps 0 (normalize ranges)

def inter (a b : CharRanges) : CharRanges :=
  complement (union (complement a) (complement b))

end CharRanges

end SchemaEvolution.Text
