import SchemaEvolution.Json.Parser
import SchemaEvolution.Yaml.Anchors
import SchemaEvolution.Yaml.Layout
import SchemaEvolution.Yaml.Scalar

/-!
# YAML documents as JSON values

A document is a JSON value if its tags are known and its keys are scalars, which stand for their
text. References are replaced by what they refer to, within two limits: on how deep collections
nest, and on how many references are followed.
-/

namespace SchemaEvolution.Yaml

/-- How deep collections may nest. -/
def maxDepth : Nat := 128

/-- How many references may be followed for each mark of a document. -/
def maxFollowedPerMark : Nat := 100

/-- Working out a value with a number of references that may still be followed. -/
abbrev Following := StateT Nat Option

/-- Takes one of the references that may still be followed. -/
def follow : Following Unit := fun left => if left = 0 then none else some ((), left - 1)

/-- The nodes of a document, latest first, among which an anchor's number is looked up. -/
abbrev AnchoredNodes := List (Tree Nat)

/-- What a number refers to. -/
def AnchoredNodes.get? (nodes : AnchoredNodes) (number : Nat) : Option (Tree Nat) :=
  nodes.find? fun node => node.properties.anchor = some number

def dereference (nodes : AnchoredNodes) (node : Tree Nat) : Following (Tree Nat) :=
  match node with
  | .reference number => do
    follow
    StateT.lift (nodes.get? number)
  | node => pure node

/-- The text of a key, which is a scalar. Its tag does not count. -/
def keyText (nodes : AnchoredNodes) (key : Tree Nat) : Following String := do
  match ← dereference nodes key with
  | .scalar _ text _ => return text
  | _ => StateT.lift none

/-- A collection must not have a local tag. -/
def isUntagged (properties : Properties Nat) : Bool :=
  !properties.tag.any isLocalTag

/-- The value of a node inside which collections may nest so deep. A key that comes again keeps its
place and takes the later value. -/
def value (nodes : AnchoredNodes) : Nat → Tree Nat → Following Json
  | 0, node => do
    match ← dereference nodes node with
    | .scalar properties text isPlain =>
      StateT.lift (scalarValue? properties.tag text isPlain)
    | _ => StateT.lift none
  | depth + 1, node => do
    match ← dereference nodes node with
    | .scalar properties text isPlain =>
      StateT.lift (scalarValue? properties.tag text isPlain)
    | .sequence properties elements =>
      if isUntagged properties then
        return .array (← elements.mapM (value nodes depth))
      else StateT.lift none
    | .mapping properties entries =>
      if isUntagged properties then
        let members ← entries.foldlM
          (fun members (key, node) => do
            let name ← keyText nodes key
            return Json.Machine.addMember members name (← value nodes depth node)) []
        return .object members.reverse
      else StateT.lift none
    | .reference _ => StateT.lift none

/-- The JSON value of a tree. -/
def Tree.toJson? (tree : Tree String) : Option Json := do
  let (tree, _) ← tree.number? []
  let (found, _) ←
    (value tree.nodes.reverse maxDepth tree).run (maxFollowedPerMark * tree.markCount)
  return found

/-- The JSON value that a YAML text denotes. -/
def parse? (text : String) : Option Json := do
  (← Tree.ofTokens? (← tokens? text.toList)).toJson?

end SchemaEvolution.Yaml
