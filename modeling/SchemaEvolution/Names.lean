/-!
# Names in order

Sets of names and tables keyed by names, both kept as lists in strictly increasing
code point order, so that listing one needs no sorting.
-/

namespace SchemaEvolution

/-- A set of names, listed in code point order. -/
abbrev NameSet := List String

namespace NameSet

def insert (name : String) : NameSet → NameSet
  | [] => [name]
  | first :: rest =>
    if name < first then name :: first :: rest
    else if name = first then first :: rest
    else first :: insert name rest

def ofList (names : List String) : NameSet :=
  names.foldr insert []

end NameSet

/-- A table keyed by names, listed in code point order of the names. -/
abbrev NameTable (α : Type) := List (String × α)

namespace NameTable

variable {α : Type}

/-- The table in which `name` holds `value`, whatever it held before. -/
def put (name : String) (value : α) : List (String × α) → List (String × α)
  | [] => [(name, value)]
  | first :: rest =>
    if name < first.1 then (name, value) :: first :: rest
    else if name = first.1 then (name, value) :: rest
    else first :: put name value rest

def get? (name : String) : List (String × α) → Option α
  | [] => none
  | first :: rest => if name = first.1 then some first.2 else get? name rest

def has (name : String) (table : List (String × α)) : Bool :=
  (get? name table).isSome

def names (table : List (String × α)) : NameSet :=
  table.map (·.1)

theorem get?_put_self (name : String) (value : α) (table : List (String × α)) :
    get? name (put name value table) = some value := by
  induction table with
  | nil => simp [put, get?]
  | cons first rest ih =>
    simp only [put]
    split
    · simp [get?]
    · split
      · simp [get?]
      · simp_all [get?]

theorem get?_put_of_ne {name other : String} (h : other ≠ name) (value : α)
    (table : List (String × α)) : get? other (put name value table) = get? other table := by
  induction table with
  | nil => simp [put, get?, h]
  | cons first rest ih =>
    simp only [put]
    split
    · simp [get?, h]
    · split
      · simp_all [get?]
      · simp [get?, ih]

end NameTable

end SchemaEvolution
