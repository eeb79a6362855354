import Mathlib
import SchemaEvolution.Path
import SchemaEvolution.Proofs.Pointers

/-! # Reading paths

The text of a path has a slash before each step. Where no step has one inside, it is cut at the slashes
into the texts of the steps. The names of properties are written so that none has, and are restored
from what is written, so that a path of properties is told by its text.
-/

namespace SchemaEvolution

namespace Path

variable {path : Path} {names : List String}

/-- The path along properties of these names. -/
def ofNames (names : List String) : Path := names.map .property

/-- The names that a text tells of: what stands between the slashes behind the first one, with the
slashes and then the tildes restored in each. -/
def namesOfText (text : String) : List String :=
  (text.toList.tail.splitOn '/').map fun part => String.ofList (Pointer.unescape part)

theorem text_of_ne (below : path ≠ []) :
    path.text = String.join (path.map fun step => "/" ++ step.text) := by
  cases path with
  | nil => exact absurd rfl below
  | cons => rfl

theorem toList_text (below : path ≠ []) :
    path.text.toList = '/' :: ['/'].intercalate (path.map fun step => step.text.toList) := by
  have written := Pointer.toList_join_slashes (path.map Step.text)
  rw [List.map_map, List.map_map] at written
  rw [text_of_ne below]
  cases path with
  | nil => exact absurd rfl below
  | cons step rest => exact written

theorem splitOn_text (below : path ≠ []) (solid : ∀ step ∈ path, '/' ∉ step.text.toList) :
    path.text.toList.tail.splitOn '/' = path.map fun step => step.text.toList := by
  rw [toList_text below, List.tail_cons]
  apply List.splitOn_intercalate
  · exact List.forall_mem_map.mpr solid
  · simpa using below

theorem solid_ofNames : ∀ step ∈ ofNames names, '/' ∉ step.text.toList := by
  intro step member
  obtain ⟨name, _, rfl⟩ := List.mem_map.mp member
  rw [Step.text, Pointer.escape, String.toList_ofList]
  exact Pointer.slash_not_mem_escape name.toList

theorem namesOfText_ofNames (nonempty : names ≠ []) :
    namesOfText (text (ofNames names)) = names := by
  have below : ofNames names ≠ [] := by simpa [ofNames] using nonempty
  rw [namesOfText, splitOn_text below solid_ofNames, ofNames, List.map_map, List.map_map]
  apply List.map_id''
  intro name
  simp [Step.text, Pointer.escape, Pointer.unescape_escape]

/-- A path along properties starts with a slash, and is told by its text whatever its names are:
between the slashes stand the names, so that no other path along properties is written alike. -/
theorem names_of_text (nonempty : names ≠ []) :
    (text (ofNames names)).toList.head? = some '/' ∧
    namesOfText (text (ofNames names)) = names ∧
    ∀ others, others ≠ [] → text (ofNames others) = text (ofNames names) →
      ofNames others = ofNames names := by
  refine ⟨?_, namesOfText_ofNames nonempty, ?_⟩
  · have below : ofNames names ≠ [] := by simpa [ofNames] using nonempty
    rw [toList_text below, List.head?_cons]
  · intro others nonempty' same
    have read := namesOfText_ofNames nonempty'
    rw [same, namesOfText_ofNames nonempty] at read
    rw [read]

/-- Names that look like several steps, like an escaped slash and like nothing at all. -/
theorem names_of_text_escaped :
    let names := ["a/b", "~1", "", "~"]
    names ≠ [] ∧ text (ofNames names) = "/a~1b/~01//~0" ∧ namesOfText "/a~1b/~01//~0" = names ∧
      text (ofNames ["a", "b", "/", "", "~"]) ≠ text (ofNames names) := by
  intro names
  have nonempty : names ≠ [] := by decide
  have written : text (ofNames names) = "/a~1b/~01//~0" := by decide +kernel
  obtain ⟨-, read, alone⟩ := names_of_text nonempty
  refine ⟨nonempty, written, written ▸ read, ?_⟩
  intro same
  exact absurd (alone _ (by decide) same) (by decide)

/-- A property may still be written like another kind of step. -/
example : text (ofNames ["[items]"]) = text [.subSchema .items] := by decide

end Path

end SchemaEvolution
