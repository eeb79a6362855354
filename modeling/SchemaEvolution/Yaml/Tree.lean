import SchemaEvolution.Yaml.Token

/-!
# Trees of nodes

The node tree that tokens denote. A node is a scalar, a sequence, a mapping or a reference to an
anchor; all but references may carry an anchor and a tag.
-/

namespace SchemaEvolution.Yaml

/-- What a node may carry: the anchor that names it, and a tag. -/
structure Properties (α : Type) where
  anchor : Option α := none
  tag : Option Octets := none
  deriving DecidableEq

/-- A tree of nodes with anchors named by an `α`. -/
inductive Tree (α : Type) where
  | reference (name : α)
  | scalar (properties : Properties α) (text : String) (isPlain : Bool)
  | sequence (properties : Properties α) (elements : List (Tree α))
  | mapping (properties : Properties α) (entries : List (Tree α × Tree α))

/-- The handles that directives have defined, with the starts of tags that they stand for. -/
abbrev TagHandles := List (String × Octets)

/-- What every tag of the format's own kinds starts with. -/
def coreTagStart : String := "tag:yaml.org,2002:"

namespace TagHandles

/-- The start of tags that a handle stands for. Two handles have a meaning without a directive. -/
def start? (handles : TagHandles) (handle : String) : Option Octets :=
  match handles.lookup handle with
  | some start => some start
  | none =>
    match handle with
    | "" => some []
    | "!" => some "!".toUTF8.toList
    | "!!" => some coreTagStart.toUTF8.toList
    | _ => none

end TagHandles

/-- Where a node stands, which decides the forms it may take. -/
inductive Position where
  /-- Inside a flow collection: no blocks. -/
  | flow
  /-- A document or an element: any form. -/
  | block
  /-- A key or a value of a block mapping: any form, also a block sequence that is not indented and
  so has no mark of its own where it starts and ends. -/
  | entry
  deriving DecidableEq

namespace Tree

/-- The node that stands for what is not written. -/
def absent (properties : Properties String) : Tree String :=
  .scalar properties "" true

/-- The anchor and the tag at the start of tokens, in either order, and the tokens after them. -/
def properties? (handles : TagHandles) (tokens : List Token) :
    Option (Properties String × List Token) :=
  let full (handle : String) (suffix : Octets) : Option (Option Octets) :=
    (handles.start? handle).map fun start => some (start ++ suffix)
  match tokens with
  | .anchor name :: .tag handle suffix :: rest | .tag handle suffix :: .anchor name :: rest =>
    (full handle suffix).map fun tag => ({ anchor := some name, tag }, rest)
  | .anchor name :: rest => some ({ anchor := some name }, rest)
  | .tag handle suffix :: rest => (full handle suffix).map fun tag => ({ tag }, rest)
  | _ => some ({}, tokens)

/-- The properties of a scalar: the tag of a single exclamation mark only says that the scalar is
one. -/
def scalarProperties (properties : Properties String) : Properties String :=
  if properties.tag = some "!".toUTF8.toList then { properties with tag := none } else properties

/-- A node may be absent only where properties are written. -/
def absent? (properties : Properties String) (tokens : List Token) :
    Option (Tree String × List Token) :=
  if properties = {} then none else some (absent properties, tokens)

/-- The tokens after the comma that must stand before all but the first entry of a flow
collection. -/
def afterComma? (isFirst : Bool) (tokens : List Token) : Option (List Token) :=
  if isFirst then some tokens
  else
    match tokens with
    | .flowEntry :: rest => some rest
    | _ => none

mutual

/-- The node that tokens start with, and the tokens after it. -/
def node? (handles : TagHandles) : Nat → Position → List Token →
    Option (Tree String × List Token)
  | 0, _, _ => none
  | _ + 1, _, .reference name :: rest => some (.reference name, rest)
  | fuel + 1, position, tokens => do
    let (properties, tokens) ← properties? handles tokens
    match tokens with
    | .scalar text isPlain :: rest =>
      return (.scalar (scalarProperties properties) text isPlain, rest)
    | .flowSequenceStart :: rest =>
      let (elements, rest) ← flowElements? handles fuel true rest
      return (.sequence properties elements, rest)
    | .flowMappingStart :: rest =>
      let (entries, rest) ← flowEntries? handles fuel true rest
      return (.mapping properties entries, rest)
    | .blockEntry :: _ =>
      if position = .entry then
        let (elements, rest) ← elements? handles fuel true tokens
        return (.sequence properties elements, rest)
      else absent? properties tokens
    | .blockSequenceStart :: rest =>
      if position = .flow then absent? properties tokens
      else
        let (elements, rest) ← elements? handles fuel false rest
        return (.sequence properties elements, rest)
    | .blockMappingStart :: rest =>
      if position = .flow then absent? properties tokens
      else
        let (entries, rest) ← entries? handles fuel rest
        return (.mapping properties entries, rest)
    | _ => absent? properties tokens

/-- A node, or what stands for it where one of the tokens follows that end it. -/
def nodeUnless? (handles : TagHandles) :
    Nat → Position → (Token → Bool) → List Token → Option (Tree String × List Token)
  | 0, _, _, _ => none
  | _ + 1, _, _, [] => none
  | fuel + 1, position, ends, token :: rest =>
    if ends token then some (absent {}, token :: rest)
    else node? handles fuel position (token :: rest)

/-- The elements of a block sequence, and the tokens after its end. A sequence without marks of its
own ends with what is no element. -/
def elements? (handles : TagHandles) : Nat → Bool → List Token →
    Option (List (Tree String) × List Token)
  | 0, _, _ => none
  | fuel + 1, isUnmarked, tokens =>
    match tokens with
    | .blockEntry :: rest => do
      let ends (token : Token) : Bool :=
        token = .blockEntry || token = .blockEnd ||
          (isUnmarked && (token = .key || token = .value))
      let (element, rest) ← nodeUnless? handles fuel .block ends rest
      let (elements, rest) ← elements? handles fuel isUnmarked rest
      return (element :: elements, rest)
    | tokens =>
      if isUnmarked then some ([], tokens)
      else
        match tokens with
        | .blockEnd :: rest => some ([], rest)
        | _ => none

def entries? (handles : TagHandles) : Nat → List Token →
    Option (List (Tree String × Tree String) × List Token)
  | 0, _ => none
  | fuel + 1, tokens =>
    let ends (token : Token) : Bool := token = .key || token = .value || token = .blockEnd
    match tokens with
    | .key :: rest => do
      let (key, rest) ← nodeUnless? handles fuel .entry ends rest
      let (value, rest) ←
        match rest with
        | .value :: rest => nodeUnless? handles fuel .entry ends rest
        | rest => some (absent {}, rest)
      let (entries, rest) ← entries? handles fuel rest
      return ((key, value) :: entries, rest)
    | .blockEnd :: rest => some ([], rest)
    | _ => none

/-- The elements of a flow sequence, and the tokens after its end. An entry among them is a mapping
of its own; where its key is not written, the mark after the place of the key goes with it. -/
def flowElements? (handles : TagHandles) : Nat → Bool → List Token →
    Option (List (Tree String) × List Token)
  | 0, _, _ => none
  | fuel + 1, isFirst, tokens => do
    let ends (token : Token) : Bool := token = .flowEntry || token = .flowSequenceEnd
    match tokens with
    | .flowSequenceEnd :: rest => return ([], rest)
    | tokens =>
      match ← afterComma? isFirst tokens with
      | .flowSequenceEnd :: rest => return ([], rest)
      | .key :: rest =>
        let (key, rest) ←
          match rest with
          | [] => none
          | token :: after =>
            if ends token || token = .value then some (absent {}, after)
            else node? handles fuel .flow rest
        let (value, rest) ←
          match rest with
          | .value :: rest => nodeUnless? handles fuel .flow ends rest
          | rest => some (absent {}, rest)
        let (elements, rest) ← flowElements? handles fuel false rest
        return (.mapping {} [(key, value)] :: elements, rest)
      | tokens =>
        let (element, rest) ← node? handles fuel .flow tokens
        let (elements, rest) ← flowElements? handles fuel false rest
        return (element :: elements, rest)

def flowEntries? (handles : TagHandles) : Nat → Bool → List Token →
    Option (List (Tree String × Tree String) × List Token)
  | 0, _, _ => none
  | fuel + 1, isFirst, tokens => do
    let ends (token : Token) : Bool := token = .flowEntry || token = .flowMappingEnd
    match tokens with
    | .flowMappingEnd :: rest => return ([], rest)
    | tokens =>
      match ← afterComma? isFirst tokens with
      | .flowMappingEnd :: rest => return ([], rest)
      | .key :: rest =>
        let (key, rest) ← nodeUnless? handles fuel .flow (fun t => ends t || t = .value) rest
        let (value, rest) ←
          match rest with
          | .value :: rest => nodeUnless? handles fuel .flow ends rest
          | rest => some (absent {}, rest)
        let (entries, rest) ← flowEntries? handles fuel false rest
        return ((key, value) :: entries, rest)
      | tokens =>
        let (key, rest) ← node? handles fuel .flow tokens
        let (entries, rest) ← flowEntries? handles fuel false rest
        return ((key, absent {}) :: entries, rest)

end

/-- The handles that directives define, and the tokens after the directives. The version may be
given once and each handle once. -/
def directives? : TagHandles → Bool → List Token → Option (TagHandles × List Token)
  | handles, hasVersion, .version major minor :: rest =>
    if hasVersion || major ≠ 1 || (minor ≠ 1 && minor ≠ 2) then none
    else directives? handles true rest
  | handles, hasVersion, .tagHandle handle start :: rest =>
    if (handles.lookup handle).isSome then none
    else directives? ((handle, start) :: handles) hasVersion rest
  | handles, _, tokens => some (handles, tokens)

/-- Whether a token stands before a document or after it. -/
def isAroundDocument : Token → Bool
  | .version _ _ | .tagHandle _ _ | .documentStart | .documentEnd => true
  | _ => false

/-- The tree of the only document, if there is one at all. A document without a mark where it
starts has no directives. -/
def ofTokens? (tokens : List Token) : Option (Tree String) := do
  let fuel := 4 * (tokens.length + 1)
  let (tree, rest) ←
    match tokens with
    | [] => some (absent {}, [])
    | .version _ _ :: _ | .tagHandle _ _ :: _ | .documentStart :: _ =>
      match ← directives? [] false tokens with
      | (handles, .documentStart :: rest) =>
        if rest.isEmpty then some (absent {}, rest)
        else nodeUnless? handles fuel .block isAroundDocument rest
      | _ => none
    | tokens => node? [] fuel .block tokens
  if (rest.dropWhile (· = .documentEnd)).isEmpty then return tree
  none

end Tree

end SchemaEvolution.Yaml
