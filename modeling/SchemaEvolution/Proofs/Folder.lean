import Mathlib
import SchemaEvolution.Proofs.Commands

/-! # A folder keeps what is written

Of all that stands in a folder, writing to a path changes what stands at that path alone. The folders
on the way there are still folders, so the path leads to the same place, where the text is read.
-/

namespace SchemaEvolution

namespace Files

variable {files : Files} {place : FilePlace} {octets : ByteArray}

def put (files : Files) (place : FilePlace) (octets : ByteArray) : Files :=
  files.filter (fun (names, _) => names ≠ place.names) ++ [(place.names, .file octets)]

theorem write?_eq_some {path text : String} {after : Files}
    (h : files.write? path text = some after) :
    ∃ place, files.place? path = some place ∧ place.levelsUp = 0 ∧ files.isFolder place = false ∧
      after = files.put place text.toUTF8 := by
  obtain ⟨place, found, h⟩ := Option.bind_eq_some_iff.mp h
  dsimp only at h
  split at h
  · cases h
  · rename_i plain
    obtain ⟨here, noFolder⟩ := not_or.mp (Bool.or_eq_true _ _ ▸ plain)
    split at h
    · cases h
    · cases h
      refine ⟨place, found, ?_, Bool.eq_false_iff.mpr noFolder, rfl⟩
      simpa using here

theorem lookup_filter_of_ne {names other : List String} (apart : names ≠ other) :
    (files.filter fun entry => entry.1 ≠ other).lookup names = files.lookup names := by
  induction files with
  | nil => rfl
  | cons entry rest ih =>
      obtain ⟨here, content⟩ := entry
      by_cases same : here = other
      · have missed : (names == here) = false := by simpa [same] using apart
        rw [List.filter_cons_of_neg (by simp [same]), ih, List.lookup_cons, missed]
      · rw [List.filter_cons_of_pos (by simp [same]), List.lookup_cons, List.lookup_cons, ih]

theorem lookup_put : (files.put place octets).lookup place.names = some (.file octets) := by
  have others : (files.filter fun entry => entry.1 ≠ place.names).lookup place.names = none := by
    rw [List.lookup_eq_none_iff]
    intro entry listed
    have apart : entry.1 ≠ place.names := by simpa using (List.mem_filter.mp listed).2
    simpa using apart.symm
  have single : List.lookup place.names [(place.names, FileEntry.file octets)] =
      some (.file octets) := by simp
  exact List.lookup_append.trans (by rw [others, single]; rfl)

theorem isFolder_iff {folder : FilePlace} :
    files.isFolder folder = true ↔ folder.names = [] ∨ folder.levelsUp = 0 ∧
      (files.lookup folder.names = some .folder ∨
        files.lookup folder.names = none ∧ ∃ entry ∈ files, folder.names <+: entry.1) := by
  rw [isFolder, standing?]
  by_cases root : folder.names = []
  · simp [root]
  · have named : ¬folder.names.isEmpty = true := by simpa using root
    rw [if_neg named]
    by_cases level : folder.levelsUp = 0
    · rw [if_neg (by omega)]
      cases found : files.lookup folder.names with
      | some entry => cases entry <;> simp [root, level]
      | none =>
          have behind : files.any (folder.names.isPrefixOf ·.1) = true ↔
              ∃ entry ∈ files, folder.names <+: entry.1 := by
            simp only [List.any_eq_true, List.isPrefixOf_iff_prefix]
          rw [← behind]
          dsimp only
          split_ifs with some <;> simp [root, level, some]
    · rw [if_pos (by omega)]
      simp [root, level]

theorem isFolder_put (level : place.levelsUp = 0) (plain : files.isFolder place = false)
    {folder : FilePlace} (h : files.isFolder folder = true) :
    (files.put place octets).isFolder folder = true := by
  rw [isFolder_iff] at h ⊢
  refine h.imp_right fun ⟨here, stands⟩ => ⟨here, ?_⟩
  have apart : folder.names ≠ place.names := by
    intro same
    rw [same] at stands
    have folder := isFolder_iff.mpr (.inr ⟨level, stands⟩)
    rw [plain] at folder
    cases folder
  have kept : (files.put place octets).lookup folder.names = files.lookup folder.names := by
    have missed : List.lookup folder.names [(place.names, FileEntry.file octets)] = none := by
      simpa using apart
    refine List.lookup_append.trans ?_
    rw [missed, Option.or_none]
    exact lookup_filter_of_ne apart
  rw [kept]
  refine stands.imp_right (And.imp_right ?_)
  rintro ⟨entry, listed, behind⟩
  by_cases same : entry.1 = place.names
  · exact ⟨(place.names, .file octets), List.mem_append_right _ List.mem_cons_self, same ▸ behind⟩
  · have others : entry ∈ files.filter fun entry => entry.1 ≠ place.names :=
      List.mem_filter.mpr ⟨listed, by simpa using same⟩
    exact ⟨entry, List.mem_append_left _ others, behind⟩

theorem step?_put (level : place.levelsUp = 0) (plain : files.isFolder place = false)
    {start next : FilePlace} {component : String} (h : files.step? start component = some next) :
    (files.put place octets).step? start component = some next := by
  rw [step?] at h ⊢
  cases folder : files.isFolder start with
  | false => simp [folder] at h
  | true =>
      rw [isFolder_put level plain folder]
      rwa [folder] at h

theorem foldlM_step?_put (level : place.levelsUp = 0) (plain : files.isFolder place = false)
    {components : List String} {start found : FilePlace}
    (h : components.foldlM files.step? start = some found) :
    components.foldlM (files.put place octets).step? start = some found := by
  induction components generalizing start with
  | nil => exact h
  | cons component rest ih =>
      rw [List.foldlM_cons] at h ⊢
      obtain ⟨next, stepped, further⟩ := Option.bind_eq_some_iff.mp h
      exact Option.bind_eq_some_iff.mpr ⟨next, step?_put level plain stepped, ih further⟩

theorem place?_put (level : place.levelsUp = 0) (plain : files.isFolder place = false)
    {path : String} {found : FilePlace} (h : files.place? path = some found) :
    (files.put place octets).place? path = some found := by
  rw [place?] at h ⊢
  split_ifs at h ⊢
  · exact foldlM_step?_put level plain h
  · exact foldlM_step?_put level plain h

theorem standing?_put (level : place.levelsUp = 0) (plain : files.isFolder place = false) :
    standing? (files.put place octets) place = some (.file octets) := by
  have named : ¬place.names.isEmpty = true := by
    intro root
    have folder : files.isFolder place = true :=
      isFolder_iff.mpr (.inl (List.isEmpty_iff.mp root))
    rw [plain] at folder
    cases folder
  rw [standing?, if_neg named, if_neg (by omega), lookup_put]

theorem content_toUTF8 (text : String) : (FileEntry.file text.toUTF8).content = .text text := by
  have read : String.fromUTF8? text.toUTF8 = some text := dif_pos text.isValidUTF8
  rw [FileEntry.content, read]

/-- A text that is written to a path of a folder can be read there. -/
theorem keeps_host (path : String) : host.Keeps path := by
  intro files text after h
  unfold host at h
  dsimp only at h
  split at h
  · rename_i written
    cases h
    obtain ⟨place, found, level, plain, rfl⟩ := write?_eq_some written
    change (files.put place text.toUTF8).read path = .text text
    rw [read, place?_put level plain found, Option.bind_some, standing?_put level plain]
    exact content_toUTF8 text
  · cases h

end Files

end SchemaEvolution
