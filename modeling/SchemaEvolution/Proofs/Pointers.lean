import Mathlib
import SchemaEvolution.Json.Basic
import SchemaEvolution.Schema.Pointer
import SchemaEvolution.Proofs.JsonEquality

/-! # Reading pointers

The text of a pointer is read by cutting it at the slashes and restoring the slashes and tildes that
were in the names. What is read from a written pointer is that pointer, but for the root, which is
written like the empty name. A pointer is followed from a document by the names of members and the
positions of elements.
-/

namespace SchemaEvolution

namespace Pointer

/-- Puts a character for each tilde with that digit behind it. -/
def restore (digit c : Char) : List Char → List Char
  | '~' :: next :: rest =>
    if next = digit then c :: restore digit c rest else '~' :: restore digit c (next :: rest)
  | first :: rest => first :: restore digit c rest
  | [] => []

/-- The name that a token writes: first the slashes are restored, then the tildes. -/
def unescape (token : List Char) : List Char := restore '0' '~' (restore '1' '/' token)

/-- The pointer that a text writes, if it is empty or starts with a slash. -/
def ofText? (text : String) : Option Pointer :=
  match text.toList.splitOn '/' with
  | [] :: tokens => some (tokens.map fun token => String.ofList (unescape token))
  | _ => none

/-- The position that a token writes, in decimal digits without zeros in front. -/
def index? (token : String) : Option Nat :=
  if positionToken (Decimal.value token.toList) = token then some (Decimal.value token.toList)
  else none

section Escapes

variable {digit c first next : Char} {rest : List Char}

theorem restore_of_ne (h : first ≠ '~') :
    restore digit c (first :: rest) = first :: restore digit c rest := by
  rw [restore.eq_2]
  rintro _ _ rfl _
  exact h rfl

theorem restore_tilde :
    restore digit c ('~' :: next :: rest) =
      if next = digit then c :: restore digit c rest
      else '~' :: restore digit c (next :: rest) := by
  rw [restore]

/-- Restoring the slashes leaves the tildes as they are written. -/
theorem restore_slashes (token : List Char) :
    restore '1' '/' (token.flatMap escapeChar) =
      token.flatMap fun c => if c = '~' then ['~', '0'] else [c] := by
  induction token with
  | nil => rfl
  | cons c rest ih =>
      rw [List.flatMap_cons, List.flatMap_cons, ← ih, escapeChar]
      split_ifs with tilde slash
      · simp [restore_tilde, restore_of_ne]
      · simp [restore_tilde, slash]
      · simp [restore_of_ne tilde]

theorem restore_tildes (token : List Char) :
    restore '0' '~' (token.flatMap fun c => if c = '~' then ['~', '0'] else [c]) = token := by
  induction token with
  | nil => rfl
  | cons c rest ih =>
      rw [List.flatMap_cons]
      split_ifs with tilde
      · simp [restore_tilde, ih, tilde]
      · simp [restore_of_ne tilde, ih]

theorem unescape_escape (token : List Char) : unescape (token.flatMap escapeChar) = token := by
  rw [unescape, restore_slashes, restore_tildes]

theorem slash_not_mem_escape (token : List Char) : '/' ∉ token.flatMap escapeChar := by
  intro h
  obtain ⟨c, _, member⟩ := List.mem_flatMap.mp h
  unfold escapeChar at member
  split_ifs at member with tilde slash
  · simp at member
  · simp at member
  · exact slash (List.mem_singleton.mp member).symm

end Escapes

variable {pointer : Pointer}

theorem text_of_ne (below : pointer ≠ []) :
    pointer.text = String.join (pointer.map fun token => "/" ++ escape token) := by
  cases pointer with
  | nil => exact absurd rfl below
  | cons => rfl

theorem toList_join_slashes (tokens : List String) :
    (String.join (tokens.map ("/" ++ ·))).toList =
      ['/'].intercalate ([] :: tokens.map String.toList) := by
  rw [String.toList_join]
  induction tokens with
  | nil => rfl
  | cons token rest ih =>
      rw [List.map_cons, List.flatMap_cons, ih, List.map_cons, List.intercalate_cons_cons]
      cases rest <;> simp

theorem toList_text (below : pointer ≠ []) :
    pointer.text.toList =
      ['/'].intercalate ([] :: pointer.map fun token => token.toList.flatMap escapeChar) := by
  have written := toList_join_slashes (pointer.map escape)
  rw [List.map_map, List.map_map] at written
  rw [text_of_ne below]
  simpa [Function.comp_def, escape] using written

/-- What a pointer below the root is written as reads back as the pointer. -/
theorem ofText?_text (below : pointer ≠ []) : ofText? pointer.text = some pointer := by
  have cut : pointer.text.toList.splitOn '/' =
      [] :: pointer.map fun token => token.toList.flatMap escapeChar := by
    rw [toList_text below]
    refine List.splitOn_intercalate '/' ?_ (List.cons_ne_nil _ _)
    rintro _ (_ | ⟨_, listed⟩)
    · exact List.not_mem_nil
    · obtain ⟨token, _, rfl⟩ := List.mem_map.mp listed
      exact slash_not_mem_escape token.toList
  rw [ofText?, cut]
  simp [Function.comp_def, unescape_escape]

theorem text_eq_root_iff : pointer.text = "/" ↔ pointer = [] ∨ pointer = [""] := by
  constructor
  · intro h
    by_cases below : pointer = []
    · exact .inl below
    · have read := ofText?_text below
      rw [h] at read
      exact .inr (Option.some_inj.mp (read.symm.trans (by decide)))
  · rintro (rfl | rfl) <;> decide

theorem index?_positionToken (n : Nat) : index? (positionToken n) = some n := by
  have read : Decimal.value (positionToken n).toList = n := by
    rw [positionToken, String.toList_ofList]
    exact Nat.ofDigitChars_toDigits (by decide) (by decide)
  simp [index?, read]

end Pointer

namespace Json

/-- The members of an object or the elements of an array in their order, each with its token. -/
def children : Json → List (String × Json)
  | .array elements => elements.mapIdx fun index e => (Pointer.positionToken index, e)
  | .object members => members
  | _ => []

/-- What a token leads to from a value. -/
def child? (token : String) : Json → Option Json
  | .array elements => (Pointer.index? token).bind (elements[·]?)
  | .object members => NameTable.get? token members
  | _ => none

/-- What a pointer leads to from a value. -/
def resolve? (value : Json) : Pointer → Option Json
  | [] => some value
  | token :: rest => (value.child? token).bind (resolve? · rest)

theorem child?_of_mem_children {value child : Json} {token : String} (distinct : value.Distinct)
    (listed : (token, child) ∈ value.children) : value.child? token = some child := by
  cases value with
  | array elements =>
      obtain ⟨index, inside, same⟩ := List.mem_mapIdx.mp listed
      cases same
      simp [child?, Pointer.index?_positionToken, inside]
  | object members => exact (NameTable.get?_eq_some_iff distinct.names).mpr listed
  | _ => cases listed

theorem Distinct.child {value child : Json} {token : String} (distinct : value.Distinct)
    (listed : (token, child) ∈ value.children) : child.Distinct := by
  cases value with
  | array elements =>
      obtain ⟨index, inside, same⟩ := List.mem_mapIdx.mp listed
      cases same
      exact distinct.elements _ (List.getElem_mem inside)
  | object members => exact distinct.member listed
  | _ => cases listed

end Json

end SchemaEvolution
