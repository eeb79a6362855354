import Mathlib
import SchemaEvolution.Version

/-! # Version texts

A text is read as a version exactly if it is three numerals between hyphens, maybe behind a `v`, with
nothing around them but blanks. A version's own text is one of those that are read as it.
-/

namespace SchemaEvolution

namespace Text

variable {before text after : List Char}

/-- Nothing but blanks. -/
def Blank (text : List Char) : Prop := ∀ c ∈ text, isBlank c = true

/-- A text that neither begins nor ends with a blank. -/
def Solid (text : List Char) : Prop :=
  (∀ c ∈ text.head?, isBlank c = false) ∧ ∀ c ∈ text.getLast?, isBlank c = false

theorem trimStart_blank_append (blank : Blank before) (solid : ∀ c ∈ text.head?, isBlank c = false) :
    trimStart (before ++ text) = text := by
  rw [trimStart, List.dropWhile_append_of_pos blank]
  cases text with
  | nil => rfl
  | cons c rest => exact List.dropWhile_cons_of_neg (by simpa using solid c rfl)

theorem trimEnd_append_blank (blank : Blank after) (solid : ∀ c ∈ text.getLast?, isBlank c = false) :
    trimEnd (text ++ after) = text := by
  have turned : trimStart (after.reverse ++ text.reverse) = text.reverse :=
    trimStart_blank_append (fun c member => blank c (List.mem_reverse.mp member))
      (by rwa [List.head?_reverse])
  rw [trimEnd, List.reverse_append]
  exact (congrArg List.reverse turned).trans text.reverse_reverse

theorem trim_append (start : Blank before) (rear : Blank after) (solid : Solid text)
    (nonempty : text ≠ []) : trim (before ++ text ++ after) = text := by
  have ahead : (text ++ after).head? = text.head? := List.head?_append_of_ne_nil _ nonempty
  rw [trim, List.append_assoc, trimStart_blank_append start (ahead ▸ solid.1),
    trimEnd_append_blank rear solid.2]

theorem exists_trim (text : List Char) :
    ∃ before after, Blank before ∧ Blank after ∧ text = before ++ trim text ++ after := by
  refine ⟨text.takeWhile isBlank, ((trimStart text).reverse.takeWhile isBlank).reverse, ?_, ?_, ?_⟩
  · exact fun c member => List.mem_takeWhile_imp member
  · exact fun c member => List.mem_takeWhile_imp (List.mem_reverse.mp member)
  · rw [List.append_assoc, trim, trimEnd, ← List.reverse_append, List.takeWhile_append_dropWhile,
      List.reverse_reverse, trimStart, List.takeWhile_append_dropWhile]

end Text

theorem Decimal.value_eq_ofDigits (text : List Char) :
    Decimal.value text = Nat.ofDigits 10 (text.reverse.map Decimal.digitValue) := by
  induction text using List.reverseRecOn with
  | nil => rfl
  | append_singleton text c ih =>
      rw [Decimal.value, List.foldl_append, List.reverse_concat, List.map_cons, Nat.ofDigits_cons,
        ← ih, Nat.add_comm]
      rfl

namespace Version

/-- A run of decimal digits, and the number that it denotes. -/
structure IsNumeral (digits : List Char) (n : Nat) : Prop where
  nonempty : digits ≠ []
  isDigit : ∀ c ∈ digits, c.isDigit = true
  value : Nat.ofDigits 10 (digits.reverse.map Decimal.digitValue) = n

/-- Three numerals between hyphens. -/
inductive Numerals : List Char → Version → Prop
  | intro {model revision addition : List Char} {version : Version}
      (isModel : IsNumeral model version.model.toNat)
      (isRevision : IsNumeral revision version.revision.toNat)
      (isAddition : IsNumeral addition version.addition.toNat) :
      Numerals (model ++ '-' :: revision ++ '-' :: addition) version

/-- The text denotes the version: its numerals, maybe behind a `v`, and blanks around them. -/
inductive Denotes : List Char → Version → Prop
  | plain {before numerals after : List Char} {version : Version} (start : Text.Blank before)
      (rear : Text.Blank after) (three : Numerals numerals version) :
      Denotes (before ++ numerals ++ after) version
  | marked {before numerals after : List Char} {version : Version} (start : Text.Blank before)
      (rear : Text.Blank after) (three : Numerals numerals version) :
      Denotes (before ++ 'v' :: numerals ++ after) version

namespace IsNumeral

variable {digits : List Char} {n : Nat}

theorem hyphen_not_mem (numeral : IsNumeral digits n) : '-' ∉ digits := fun member =>
  Bool.false_ne_true (numeral.isDigit _ member)

theorem not_blank (numeral : IsNumeral digits n) {c : Char} (member : c ∈ digits) :
    Text.isBlank c = false := by
  have digit : 48 ≤ c.toNat ∧ c.toNat ≤ 57 := by
    simpa [Char.isDigit, UInt32.le_iff_toNat_le] using numeral.isDigit c member
  simp [Text.isBlank]
  omega

theorem ne_mark (numeral : IsNumeral digits n) {c : Char} (member : c ∈ digits) : c ≠ 'v' := by
  rintro rfl
  exact Bool.false_ne_true (numeral.isDigit _ member)

theorem of_digits (n : Nat) : IsNumeral (Decimal.digits n) n where
  nonempty := Nat.toDigits_ne_nil
  isDigit := fun c member => Nat.isDigit_of_mem_toDigits (by decide) (by decide) member
  value := by
    rw [← Decimal.value_eq_ofDigits]
    exact Nat.ofDigitChars_toDigits (by decide) (by decide)

end IsNumeral

theorem component?_eq_some_iff {digits : List Char} {n : UInt64} :
    component? digits = some n ↔ IsNumeral digits n.toNat := by
  have formed : (digits.isEmpty || !digits.all Char.isDigit) = true ↔
      ¬(digits ≠ [] ∧ ∀ c ∈ digits, c.isDigit = true) := by
    simp only [Bool.or_eq_true, List.isEmpty_iff, Bool.not_eq_true', ← Bool.not_eq_true,
      List.all_eq_true]
    tauto
  unfold component?
  by_cases wellFormed : digits ≠ [] ∧ ∀ c ∈ digits, c.isDigit = true
  · rw [if_neg (mt formed.mp (not_not.mpr wellFormed))]
    have numeral : IsNumeral digits n.toNat ↔ Decimal.value digits = n.toNat := by
      rw [Decimal.value_eq_ofDigits]
      exact ⟨fun numeral => numeral.value, fun value => ⟨wellFormed.1, wellFormed.2, value⟩⟩
    rw [numeral]
    dsimp only
    split_ifs with fits
    · rw [Option.some_inj, ← UInt64.toNat_inj, UInt64.toNat_ofNat_of_lt' fits]
    · simp only [false_iff]
      intro same
      exact fits (same ▸ n.toNat_lt)
  · rw [if_pos (formed.mpr wellFormed)]
    simp only [false_iff, reduceCtorEq]
    exact fun numeral => wellFormed ⟨numeral.nonempty, numeral.isDigit⟩

namespace Numerals

variable {numerals : List Char} {version : Version}

theorem exists_head (three : Numerals numerals version) :
    ∃ c rest, numerals = c :: rest ∧ Text.isBlank c = false ∧ c ≠ 'v' := by
  obtain @⟨model, _, _, _, isModel, -, -⟩ := three
  cases model with
  | nil => exact absurd rfl isModel.nonempty
  | cons c rest =>
      exact ⟨c, _, rfl, isModel.not_blank List.mem_cons_self, isModel.ne_mark List.mem_cons_self⟩

theorem last_not_blank (three : Numerals numerals version) :
    ∀ c ∈ numerals.getLast?, Text.isBlank c = false := by
  obtain @⟨_, _, addition, _, -, -, isAddition⟩ := three
  intro c member
  rw [List.append_cons, List.getLast?_append_of_ne_nil _ isAddition.nonempty] at member
  exact isAddition.not_blank (List.mem_of_getLast? member)

theorem solid (three : Numerals numerals version) : Text.Solid numerals := by
  obtain ⟨c, rest, rfl, blank, -⟩ := three.exists_head
  exact ⟨by simpa using blank, three.last_not_blank⟩

theorem solid_marked (three : Numerals numerals version) : Text.Solid ('v' :: numerals) := by
  refine ⟨?_, fun c member => three.last_not_blank c ?_⟩
  · rintro c ⟨⟩
    decide
  · obtain ⟨d, rest, rfl, -⟩ := three.exists_head
    rwa [List.getLast?_cons_cons] at member

theorem stripMark_eq (three : Numerals numerals version) : stripMark numerals = numerals := by
  obtain ⟨c, rest, rfl, -, unmarked⟩ := three.exists_head
  unfold stripMark
  split
  · rename_i same
    cases same
    exact absurd rfl unmarked
  · rfl

theorem splitOn_eq {model revision addition : List Char}
    (fresh : ∀ part ∈ [model, revision, addition], '-' ∉ part) :
    (model ++ '-' :: revision ++ '-' :: addition).splitOn '-' = [model, revision, addition] := by
  rw [← List.splitOn_intercalate '-' fresh (by simp)]
  simp [List.intercalate]

theorem joined {text model revision addition : List Char}
    (cut : text.splitOn '-' = [model, revision, addition]) :
    text = model ++ '-' :: revision ++ '-' :: addition := by
  calc text = ['-'].intercalate (text.splitOn '-') := (List.intercalate_splitOn '-').symm
    _ = model ++ '-' :: revision ++ '-' :: addition := by simp [cut, List.intercalate]

end Numerals

/-- The components of a text between its hyphens. -/
def ofNumerals? (text : List Char) : Option Version :=
  match text.splitOn '-' with
  | [model, revision, addition] => do
    return { model := ← component? model
             revision := ← component? revision
             addition := ← component? addition }
  | _ => none

theorem ofNumerals?_eq_some_iff {text : List Char} {version : Version} :
    ofNumerals? text = some version ↔ Numerals text version := by
  constructor
  · intro read
    unfold ofNumerals? at read
    split at read
    · rename_i model revision addition cut
      obtain ⟨x, isModel, read⟩ := Option.bind_eq_some_iff.mp read
      obtain ⟨y, isRevision, read⟩ := Option.bind_eq_some_iff.mp read
      obtain ⟨z, isAddition, same⟩ := Option.bind_eq_some_iff.mp read
      cases same
      rw [Numerals.joined cut]
      exact .intro (component?_eq_some_iff.mp isModel) (component?_eq_some_iff.mp isRevision)
        (component?_eq_some_iff.mp isAddition)
    · cases read
  · rintro ⟨isModel, isRevision, isAddition⟩
    have fresh := Numerals.splitOn_eq (List.forall_mem_cons.mpr ⟨isModel.hyphen_not_mem,
      List.forall_mem_cons.mpr ⟨isRevision.hyphen_not_mem,
        List.forall_mem_singleton.mpr isAddition.hyphen_not_mem⟩⟩)
    rw [ofNumerals?, fresh]
    dsimp only
    rw [component?_eq_some_iff.mpr isModel, component?_eq_some_iff.mpr isRevision,
      component?_eq_some_iff.mpr isAddition]
    rfl

theorem ofCharacters?_eq_some_iff {text : List Char} {version : Version} :
    ofCharacters? text = some version ↔ Denotes text version := by
  change ofNumerals? (stripMark (Text.trim text)) = some version ↔ _
  rw [ofNumerals?_eq_some_iff]
  constructor
  · intro three
    obtain ⟨before, after, start, rear, whole⟩ := Text.exists_trim text
    rw [whole]
    generalize Text.trim text = inner at three whole ⊢
    unfold stripMark at three
    split at three
    · exact .marked start rear three
    · exact .plain start rear three
  · intro denotes
    cases denotes with
    | plain start rear three =>
        obtain ⟨c, rest, rfl, -⟩ := three.exists_head
        rwa [Text.trim_append start rear three.solid (by simp), three.stripMark_eq]
    | marked start rear three =>
        rwa [Text.trim_append start rear three.solid_marked (by simp)]

theorem numerals_text (version : Version) : Numerals version.text.toList version := by
  rw [text, String.toList_ofList]
  exact .intro (.of_digits _) (.of_digits _) (.of_digits _)

/-- A text is read as a version exactly if it denotes that version, and what denotes none is told as
it was given. A version is read back from its own text, behind a `v` or not, whatever blanks stand
around it. -/
theorem parse_iff_denotes (text : String) (version : Version) :
    (parse text = .ok version ↔ Denotes text.toList version) ∧
    (∀ error, parse text = .error error ↔
      error = .invalidFormat text ∧ ∀ other, ¬Denotes text.toList other) ∧
    ∀ before after : String, Text.Blank before.toList → Text.Blank after.toList →
      parse (before ++ version.text ++ after) = .ok version ∧
      parse (before ++ "v" ++ version.text ++ after) = .ok version := by
  have read (text : String) (version : Version) :
      parse text = .ok version ↔ Denotes text.toList version := by
    rw [← ofCharacters?_eq_some_iff, parse]
    cases ofCharacters? text.toList <;> simp
  refine ⟨read text version, ?_, ?_⟩
  · intro error
    have none : (∀ other, ¬Denotes text.toList other) ↔ ofCharacters? text.toList = none := by
      simp only [← ofCharacters?_eq_some_iff, Option.eq_none_iff_forall_ne_some, ne_eq]
    rw [none, parse]
    cases ofCharacters? text.toList <;> simp [eq_comm]
  · intro before after start rear
    constructor
    · rw [read, String.toList_append, String.toList_append]
      exact .plain start rear (numerals_text version)
    · rw [read, String.toList_append, String.toList_append, String.toList_append]
      simpa using Denotes.marked start rear (numerals_text version)

/-- Blanks of several kinds around the greatest addition there is. -/
theorem parse_iff_denotes_blanks :
    let version : Version := { model := 10, revision := 0, addition := 18446744073709551615 }
    Text.Blank "\t\u2003".toList ∧ Text.Blank "\n".toList ∧
      parse "\t\u200310-0-18446744073709551615\n" = .ok version ∧
      parse "\t\u2003v10-0-18446744073709551615\n" = .ok version := by
  intro version
  have before : Text.Blank "\t\u2003".toList := by simp [Text.Blank, Text.isBlank]
  have after : Text.Blank "\n".toList := by simp [Text.Blank, Text.isBlank]
  have text : version.text = "10-0-18446744073709551615" := by decide +kernel
  have read := (parse_iff_denotes "" version).2.2 _ _ before after
  rw [text] at read
  exact ⟨before, after, read⟩

end Version

end SchemaEvolution
