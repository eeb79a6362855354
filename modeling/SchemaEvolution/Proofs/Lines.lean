import Mathlib
import SchemaEvolution.Change
import SchemaEvolution.Proofs.JsonEquality
import SchemaEvolution.Proofs.PathTexts

/-! # Sentences on one line

The text of a JSON value has no line feed, as one inside a string is escaped. Names are told as they
are, so that the sentence for a change is on one line exactly if the names in it are.
-/

namespace SchemaEvolution

namespace Text

variable {texts : List String}

/-- A text without line feeds. -/
def Inline (text : String) : Prop := '\n' ∉ text.toList

instance (text : String) : Decidable (Inline text) := inferInstanceAs (Decidable (¬_))

theorem inline_append {a b : String} : Inline (a ++ b) ↔ Inline a ∧ Inline b := by
  simp [Inline]

theorem inline_ofList {text : List Char} : Inline (String.ofList text) ↔ '\n' ∉ text := by
  rw [Inline, String.toList_ofList]

theorem inline_join : Inline (String.join texts) ↔ ∀ text ∈ texts, Inline text := by
  simp [Inline]

theorem inline_intercalate {separator : String} (between : Inline separator)
    (inline : ∀ text ∈ texts, Inline text) : Inline (separator.intercalate texts) := by
  induction texts with
  | nil => simp [Inline]
  | cons text texts ih =>
      obtain ⟨here, later⟩ := List.forall_mem_cons.mp inline
      cases texts with
      | nil => simpa using here
      | cons next texts =>
          rw [String.intercalate_cons_cons, inline_append, inline_append]
          exact ⟨⟨here, between⟩, ih later⟩

end Text

open Text

section Numbers

theorem Decimal.lineFeed_not_mem_digits (n : Nat) : '\n' ∉ Decimal.digits n := fun member =>
  Bool.false_ne_true (Nat.isDigit_of_mem_toDigits (by decide) (by decide) member)

namespace Binary64

theorem mem_of_mem_stripZeros {digits : List Char} {c : Char} (member : c ∈ stripZeros digits) :
    c ∈ digits := by
  rw [stripZeros, List.mem_reverse] at member
  exact List.mem_reverse.mp ((List.dropWhile_sublist _).mem member)

theorem lineFeed_not_mem_shortestFrom (units : Nat) (leading : Int) (count fuel : Nat) :
    '\n' ∉ (shortestFrom units leading count fuel).digits := by
  induction fuel generalizing count with
  | zero => simp [shortestFrom]
  | succ fuel ih =>
      rw [shortestFrom]
      dsimp only
      split
      · intro member
        exact Decimal.lineFeed_not_mem_digits _ (mem_of_mem_stripZeros member)
      · exact ih (count + 1)

theorem lineFeed_not_mem_shortest (units : Nat) : '\n' ∉ (shortest units).digits := by
  unfold shortest
  split
  · simp
  · exact lineFeed_not_mem_shortestFrom _ _ _ _

theorem lineFeed_not_mem_magnitudeText (units : Nat) : '\n' ∉ magnitudeText units := by
  have significant := lineFeed_not_mem_shortest units
  unfold magnitudeText
  generalize shortest units = written at significant ⊢
  obtain ⟨digits, exponent⟩ := written
  have power := Decimal.lineFeed_not_mem_digits exponent.natAbs
  have sign : '\n' ≠ if exponent < 0 then '-' else '+' := by
    split <;> decide
  dsimp only at significant ⊢
  split
  · split
    · simpa using significant
    · have padded : '\n' ∉ digits ++ List.replicate (exponent.toNat + 1 - digits.length) '0' := by
        simpa using significant
      rw [List.mem_append, List.mem_append, not_or, not_or]
      refine ⟨⟨mt List.mem_of_mem_take padded, by decide⟩, ?_⟩
      split
      · decide
      · exact mt List.mem_of_mem_drop padded
  · split
    · exact List.not_mem_nil
    · simp_all
    · simp_all

theorem inline_text (x : Binary64) : Inline x.text := by
  rw [text, inline_ofList, List.mem_append, not_or]
  refine ⟨?_, lineFeed_not_mem_magnitudeText x.units⟩
  split <;> decide

end Binary64

theorem Number.inline_text (n : Number) : Inline n.text := by
  cases n with
  | integer n =>
      rw [text, inline_ofList, List.mem_append, not_or]
      refine ⟨?_, Decimal.lineFeed_not_mem_digits _⟩
      split <;> decide
  | double x => exact x.inline_text

end Numbers

namespace Json

theorem lineFeed_ne_hexDigit (n : Nat) : '\n' ≠ hexDigit n := by
  rcases Nat.lt_or_ge n 16 with below | beyond
  · interval_cases n <;> decide
  · rw [hexDigit, Nat.digitChar_eq_star.mpr beyond]
    decide

theorem lineFeed_not_mem_escapeChar (c : Char) : '\n' ∉ escapeChar c := by
  by_cases lineFeed : c = '\n'
  · rw [lineFeed]
    decide
  · unfold escapeChar
    split
    case h_8 =>
      split
      · simp [lineFeed_ne_hexDigit]
      · simpa using Ne.symm lineFeed
    all_goals decide

theorem inline_quote (s : String) : Inline (quote s) := by
  rw [quote, inline_append, inline_append]
  refine ⟨⟨by decide, inline_ofList.mpr ?_⟩, by decide⟩
  intro member
  obtain ⟨c, _, escaped⟩ := List.mem_flatMap.mp member
  exact lineFeed_not_mem_escapeChar c escaped

theorem inline_compactElements {elements : List Json}
    (inline : ∀ e ∈ elements, Inline e.compact) :
    ∀ text ∈ compactElements elements, Inline text := by
  induction elements with
  | nil => simp [compactElements]
  | cons e elements ih =>
      obtain ⟨here, later⟩ := List.forall_mem_cons.mp inline
      exact List.forall_mem_cons.mpr ⟨here, ih later⟩

theorem inline_compactMembers {members : List (String × Json)}
    (inline : ∀ m ∈ members, Inline m.2.compact) :
    ∀ text ∈ compactMembers members, Inline text := by
  induction members with
  | nil => simp [compactMembers]
  | cons m members ih =>
      obtain ⟨here, later⟩ := List.forall_mem_cons.mp inline
      refine List.forall_mem_cons.mpr ⟨?_, ih later⟩
      rw [inline_append, inline_append]
      exact ⟨⟨inline_quote m.1, by decide⟩, here⟩

/-- A value is written on one line, whatever strings are in it. -/
theorem inline_compact (value : Json) : Inline value.compact := by
  induction value using rec_strong with
  | null => decide
  | bool b => cases b <;> decide
  | number n => exact n.inline_text
  | string s => exact inline_quote s
  | array elements ih =>
      rw [compact, inline_append, inline_append]
      exact ⟨⟨by decide, inline_intercalate (by decide) (inline_compactElements ih)⟩, by decide⟩
  | object members ih =>
      rw [compact, inline_append, inline_append]
      exact ⟨⟨by decide, inline_intercalate (by decide) (inline_compactMembers ih)⟩, by decide⟩

end Json

/-- The names in the text of a step. -/
def Step.names : Step → List String
  | .property name => [name]
  | .subSchema keyword => [keyword.name]
  | .position _ => []

/-- The names in the sentence for a change: those on its path, and the keyword unless a property
came or went. -/
def Change.names (change : Change) : List String :=
  change.path.flatMap Step.names ++
    if change.property.isSome then [] else [change.keyword.name]

theorem Pointer.inline_escape_iff {token : String} : Inline (escape token) ↔ Inline token := by
  have kept (c : Char) : '\n' ∈ escapeChar c ↔ '\n' = c := by
    unfold escapeChar
    split_ifs with tilde slash
    · simp [tilde]
    · simp [slash]
    · simp
  rw [escape, inline_ofList, Inline, not_iff_not]
  simp [List.mem_flatMap, kept]

theorem Step.inline_text_iff {step : Step} :
    Inline step.text ↔ ∀ name ∈ step.names, Inline name := by
  cases step with
  | property name => simp [Step.text, Step.names, Pointer.inline_escape_iff]
  | subSchema keyword =>
      have left : Inline "[" := by decide
      have right : Inline "]" := by decide
      simp [Step.text, Step.names, inline_append, left, right]
  | position index =>
      simp [Step.text, Step.names, Pointer.positionToken, inline_ofList,
        Decimal.lineFeed_not_mem_digits]

theorem Path.inline_text_iff {path : Path} :
    Inline path.text ↔ ∀ name ∈ path.flatMap Step.names, Inline name := by
  have slash : Inline "/" := by decide
  cases path with
  | nil => simp [Path.text, slash]
  | cons step rest =>
      rw [Path.text_of_ne (List.cons_ne_nil step rest), inline_join, List.forall_mem_map]
      simp only [inline_append, slash, true_and, Step.inline_text_iff, List.mem_flatMap]
      constructor
      · rintro inline name ⟨step, listed, told⟩
        exact inline step listed name told
      · intro inline step listed name told
        exact inline name ⟨step, listed, told⟩

namespace Change

theorem inline_shown (value : Option Json) : Inline (shown value) := by
  cases value with
  | none => decide
  | some value => exact value.inline_compact

theorem inline_propertyText_iff {change : Change} {context : PropertyContext} :
    Inline (change.propertyText context) ↔ Inline change.path.text := by
  have status : Inline (if context.required then "Required" else "Optional") := by
    split <;> decide
  have label : Inline context.additionalProperties.label := by
    cases context.additionalProperties <;> decide
  cases kind : change.kind <;>
    simp +decide only [propertyText, kind, inline_append, status, label, true_and, and_true]

theorem inline_requiredText_iff {change : Change} :
    Inline change.requiredText ↔ Inline change.path.text := by
  unfold requiredText
  split <;> simp +decide only [inline_append, true_and, and_true]

theorem inline_keywordText_iff {change : Change} :
    Inline change.keywordText ↔ Inline change.path.text ∧ Inline change.keyword.name := by
  have label : Inline (if change.keyword.isMetadata then "Metadata" else "Validation") := by
    split <;> decide
  have old := inline_shown change.oldValue
  have new := inline_shown change.newValue
  cases scope : change.scope <;> cases kind : change.kind <;>
    simp +decide only [keywordText, scope, kind, inline_append, label, old, new, true_and, and_true,
      and_comm]

/-- The sentence for a change is on one line exactly if the names in it are. -/
theorem inline_text_iff {change : Change} :
    Inline change.text ↔ ∀ name ∈ change.names, Inline name := by
  rw [names, List.forall_mem_append, ← Path.inline_text_iff, text]
  cases property : change.property with
  | some context =>
      rw [Option.isSome_some, if_pos rfl]
      simpa using inline_propertyText_iff
  | none =>
      rw [Option.isSome_none, if_neg Bool.false_ne_true, List.forall_mem_singleton]
      dsimp only
      split_ifs with required
      · have keyword : Inline change.keyword.name := by
          rw [required]
          decide
        rw [inline_requiredText_iff, and_iff_left keyword]
      · exact inline_keywordText_iff

end Change

end SchemaEvolution
