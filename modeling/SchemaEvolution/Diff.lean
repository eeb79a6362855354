import SchemaEvolution.Change

/-!
# Difference of two schemas

Both schemas are walked together, and every difference is one change. Where both declare types
and the types differ, only the keywords that apply to every type are compared; otherwise a family
of keywords is compared when one side or the other constrains it.
-/

namespace SchemaEvolution

namespace Diff

/-- The change of a keyword from one value, or none, to another. -/
def ofValues (path : Path) (keyword : Keyword) : Option Json → Option Json → List Change
  | none, none => []
  | none, some value => [.added path keyword value]
  | some value, none => [.removed path keyword value]
  | some a, some b => if a.equivalent b then [] else [.modified path keyword a b]

/-- The change of a keyword that is compared as one value. -/
def scalar (path : Path) (old new : Facets) (keyword : Keyword) : List Change :=
  ofValues path keyword (old.valueOf keyword) (new.valueOf keyword)

def scalars (path : Path) (old new : Facets) (keywords : List Keyword) : List Change :=
  keywords.flatMap (scalar path old new)

/-- The changes of the keywords that are not recognized, by name. -/
def extensions (path : Path) (old new : Facets) : List Change :=
  let names := NameSet.ofList
    (NameTable.names old.extensions ++ NameTable.names new.extensions)
  scalars path old new (names.map .other)

/-- The options among the first ones that none of the second ones equals. -/
def optionsMissing (options others : List Json) : List Json :=
  options.filter fun option => !others.any (·.equivalent option)

/-- The changes of `enum`: the options that came, then those that went. -/
def enumeration (path : Path) : Option (List Json) → Option (List Json) → List Change
  | none, none => []
  | none, some options => [.added path .enum (.array options)]
  | some options, none => [.removed path .enum (.array options)]
  | some before, some after =>
    (optionsMissing after before).map (.memberAdded path .enum) ++
      (optionsMissing before after).map (.memberRemoved path .enum)

def dependentPairs (table : List (String × NameSet)) : List (String × String) :=
  table.flatMap fun (name, required) => required.map fun other => (name, other)

/-- The changes of `dependentRequired`: the pairs that came, then those that went. -/
def dependentRequired (path : Path) (old new : List (String × NameSet)) : List Change :=
  let before := dependentPairs old
  let after := dependentPairs new
  let value (pair : String × String) : Json := .object [(pair.1, .string pair.2)]
  (after.filter (!before.contains ·)).map (fun p => .memberAdded path .dependentRequired (value p))
    ++ (before.filter (!after.contains ·)).map
      (fun p => .memberRemoved path .dependentRequired (value p))

/-- The keywords that apply to every type, those that only describe first. -/
def shared (path : Path) (old new : Facets) : List Change :=
  scalars path old new Keyword.metadata ++ extensions path old new ++
    scalar path old new .type ++ enumeration path old.enumeration new.enumeration ++
    scalar path old new .format

/-- Whether both sides declare types, and different ones. -/
def typeChanged (old new : Facets) : Bool :=
  match old.types, new.types with
  | some a, some b => a != b
  | _, _ => false

def applies (old new : Facets) (family : Family) : Bool :=
  old.constrains family || new.constrains family

/-- The changes of a family's keywords that are compared as one value, if it is compared. -/
def family (path : Path) (old new : Facets) (family : Family) (keywords : List Keyword) :
    List Change :=
  if applies old new family then scalars path old new keywords else []

def removedProperties (path : Path) (old new : Node) : List Change :=
  (old.properties.filter fun entry => !NameTable.has entry.1 new.properties).map fun entry =>
    .propertyRemoved (path ++ [.property entry.1]) entry.2.toJson
      { required := old.required.contains entry.1
        additionalProperties := new.extraProperties }

/-- The names that one side requires and the other does not, in order. -/
def requiredFlips (old new : NameSet) : NameSet :=
  (NameSet.ofList (old ++ new)).filter fun name => old.contains name != new.contains name

/-- The names that became required or optional. A name that only one side lists as a property is
left out: its addition or removal tells. -/
def required (path : Path) (old new : Node) : List Change :=
  let told (name : String) : Bool :=
    NameTable.has name old.properties != NameTable.has name new.properties
  ((requiredFlips old.required new.required).filter (!told ·)).map fun name =>
    let now := new.required.contains name
    .modified (path ++ [.property name]) .required (.bool !now) (.bool now)

/-- The positions from `index` on that only the old side has. -/
def removedSlots (base : Path) (keyword : Keyword) (index : Nat) : List SubSchema → List Change
  | [] => []
  | sub :: rest =>
    .memberRemoved base keyword (slotValue index sub) ::
      removedSlots base keyword (index + 1) rest
where
  /-- A position and its schema as one value. -/
  slotValue (index : Nat) (sub : SubSchema) : Json :=
    .object [("position", .ofPosition index), ("schema", sub.toJson)]

mutual

/-- The changes from one node to another at a path. -/
def node (path : Path) (old : Node) : Node → List Change
  | ⟨facets, items, prefixItems, contains, properties, additionalProperties⟩ =>
    let new : Node := ⟨facets, items, prefixItems, contains, properties, additionalProperties⟩
    shared path old.toFacets facets ++
      if typeChanged old.toFacets facets then []
      else
        family path old.toFacets facets .numeric Keyword.numericScalars ++
        family path old.toFacets facets .string Keyword.stringScalars ++
        family path old.toFacets facets .array Keyword.arrayScalars ++
        (if applies old.toFacets facets .array then
          itemsValue path old.effectiveItems items ++
          tupleValue path .prefixItems old.prefixItems prefixItems ++
          subValue path .contains old.contains contains
        else []) ++
        family path old.toFacets facets .object Keyword.objectScalars ++
        (if applies old.toFacets facets .object then
          presentProperties path old facets.required properties ++
          removedProperties path old new ++
          required path old new ++
          slot path (path ++ [.subSchema .additionalProperties]) .additionalProperties
            old.additionalProperties additionalProperties ++
          dependentRequired path old.dependentRequired facets.dependentRequired
        else [])
termination_by structural new => new

/-- The changes in a place for a schema: two schemas are walked at `nested`, any other difference
is one change at `place`. -/
def slot (place nested : Path) (keyword : Keyword) (old : SubSchema) : SubSchema → List Change
  | .flag b =>
    match old with
    | .flag a => if a = b then [] else [.modified place keyword (.bool a) (.bool b)]
    | .schema a => [.modified place keyword a.source (.bool b)]
  | .schema b =>
    match old with
    | .flag a => [.modified place keyword (.bool a) b.source]
    | .schema a => node nested a b
termination_by structural new => new

def subValue (path : Path) (keyword : Keyword) (old : Option SubSchema) :
    Option SubSchema → List Change
  | none =>
    match old with
    | none => []
    | some a => [.removed path keyword a.toJson]
  | some b =>
    match old with
    | none => [.added path keyword b.toJson]
    | some a => slot path (path ++ [.subSchema keyword]) keyword a b
termination_by structural new => new

/-- The changes of `items`, where the old value is the effective one. -/
def itemsValue (path : Path) (old : Option Items) : Option Items → List Change
  | none | some (.single (.flag true)) =>
    match old with
    | none => []
    | some a => [.removed path .items a.toJson]
  | some (.single b) =>
    match old with
    | none => [.added path .items b.toJson]
    | some (.single a) => slot path (path ++ [.subSchema .items]) .items a b
    | some (.tuple as) => [.modified path .items (Items.tuple as).toJson b.toJson]
  | some (.tuple bs) =>
    match old with
    | none => [.added path .items (Items.tuple bs).toJson]
    | some (.single a) => [.modified path .items a.toJson (Items.tuple bs).toJson]
    | some (.tuple as) => slots (path ++ [.subSchema .items]) .items 0 as bs
termination_by structural new => new

/-- The changes of a keyword that may hold a list of sub-schemas. -/
def tupleValue (path : Path) (keyword : Keyword) (old : Option (List SubSchema)) :
    Option (List SubSchema) → List Change
  | none =>
    match old with
    | none => []
    | some as => [.removed path keyword (Items.tuple as).toJson]
  | some bs =>
    match old with
    | none => [.added path keyword (Items.tuple bs).toJson]
    | some as => slots (path ++ [.subSchema keyword]) keyword 0 as bs
termination_by structural new => new

/-- The changes between two lists of sub-schemas from a position on. Positions that both have
are walked, the others are members that came or went. -/
def slots (base : Path) (keyword : Keyword) (index : Nat) (old : List SubSchema) :
    List SubSchema → List Change
  | [] => removedSlots base keyword index old
  | b :: bs =>
    match old with
    | [] =>
      .memberAdded base keyword (removedSlots.slotValue index b) ::
        slots base keyword (index + 1) [] bs
    | a :: as =>
      let place := base ++ [.position index]
      slot place place keyword a b ++ slots base keyword (index + 1) as bs
termination_by structural new => new

/-- The changes of the properties that the new side lists. -/
def presentProperties (path : Path) (old : Node) (required : NameSet) :
    List (String × SubSchema) → List Change
  | [] => []
  | (name, b) :: rest =>
    let place := path ++ [.property name]
    (match NameTable.get? name old.properties with
      | some a => slot place place .properties a b
      | none =>
        [.propertyAdded place b.toJson
          { required := required.contains name
            additionalProperties := old.extraProperties }]) ++
      presentProperties path old required rest
termination_by structural new => new

end

end Diff

/-- The changes from one schema to another. -/
def Node.diff (old new : Node) : List Change := Diff.node [] old new

end SchemaEvolution
