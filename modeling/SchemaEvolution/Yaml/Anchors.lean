import SchemaEvolution.Names
import SchemaEvolution.Yaml.Tree

/-!
# Anchors

Names of anchors give way to numbers: an anchor takes the count of the names so far as its number,
and a reference the number that its name has at that place. A name that is used again does not
raise the count, so that a later anchor may take the same number; the later one then holds it.
-/

namespace SchemaEvolution.Yaml

/-- The numbers that names of anchors have. -/
abbrev AnchorNumbers := NameTable Nat

namespace Properties

/-- The properties with the anchor's name replaced by its number, and the numbers from there on. -/
def number (numbers : AnchorNumbers) (properties : Properties String) :
    Properties Nat × AnchorNumbers :=
  match properties.anchor with
  | none => ({ anchor := none, tag := properties.tag }, numbers)
  | some name =>
    let n := numbers.length
    ({ anchor := some n, tag := properties.tag }, NameTable.put name n numbers)

end Properties

namespace Tree

mutual

/-- The tree with names replaced by numbers, and the numbers after it; none if it refers to a name
that no anchor before has. -/
def number? (numbers : AnchorNumbers) : Tree String → Option (Tree Nat × AnchorNumbers)
  | .reference name => (NameTable.get? name numbers).map fun n => (.reference n, numbers)
  | .scalar properties text isPlain =>
    let (properties, numbers) := properties.number numbers
    some (.scalar properties text isPlain, numbers)
  | .sequence properties elements => do
    let (properties, numbers) := properties.number numbers
    let (elements, numbers) ← numberElements? numbers elements
    return (.sequence properties elements, numbers)
  | .mapping properties entries => do
    let (properties, numbers) := properties.number numbers
    let (entries, numbers) ← numberEntries? numbers entries
    return (.mapping properties entries, numbers)

def numberElements? (numbers : AnchorNumbers) :
    List (Tree String) → Option (List (Tree Nat) × AnchorNumbers)
  | [] => some ([], numbers)
  | element :: rest => do
    let (element, numbers) ← number? numbers element
    let (rest, numbers) ← numberElements? numbers rest
    return (element :: rest, numbers)

def numberEntries? (numbers : AnchorNumbers) :
    List (Tree String × Tree String) → Option (List (Tree Nat × Tree Nat) × AnchorNumbers)
  | [] => some ([], numbers)
  | (key, value) :: rest => do
    let (key, numbers) ← number? numbers key
    let (value, numbers) ← number? numbers value
    let (rest, numbers) ← numberEntries? numbers rest
    return ((key, value) :: rest, numbers)

end

variable {α : Type}

/-- The properties of a node. A reference has none. -/
def properties : Tree α → Properties α
  | .reference _ => {}
  | .scalar properties _ _ | .sequence properties _ | .mapping properties _ => properties

mutual

/-- The nodes of a tree in the order in which they start. -/
def nodes : Tree α → List (Tree α)
  | .sequence properties elements =>
    .sequence properties elements :: nodesOfElements elements
  | .mapping properties entries => .mapping properties entries :: nodesOfEntries entries
  | leaf => [leaf]

def nodesOfElements : List (Tree α) → List (Tree α)
  | [] => []
  | element :: rest => nodes element ++ nodesOfElements rest

def nodesOfEntries : List (Tree α × Tree α) → List (Tree α)
  | [] => []
  | (key, value) :: rest => nodes key ++ nodes value ++ nodesOfEntries rest

end

def isCollection : Tree α → Bool
  | .sequence _ _ | .mapping _ _ => true
  | _ => false

/-- How many marks the nodes of a tree have: one for a leaf, and one at either end of a
collection. -/
def markCount (tree : Tree α) : Nat :=
  tree.nodes.length + tree.nodes.countP isCollection

end Tree

end SchemaEvolution.Yaml
