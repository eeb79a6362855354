import Mathlib
import SchemaEvolution.Json.Printer
import SchemaEvolution.Json.Parser
import SchemaEvolution.Proofs.NearestDoubles

/-! # Numbers are read back from their text

The text of a number is a numeral that denotes that number, where decimals are rounded to the
nearest double. A double is written in one of four forms, and in each of them the numeral stands for
the same rational number as its shortest digits.
-/

namespace SchemaEvolution

namespace Json

section Numerals

variable {whole fraction power digits rest : List Char} {exponent : Option Int} {negative : Bool}

/-- A run of digits that a numeral may begin with. -/
structure IsWhole (whole : List Char) : Prop where
  nonempty : whole ≠ []
  isDigit : ∀ c ∈ whole, c.isDigit = true
  leading : whole = ['0'] ∨ whole.head? ≠ some '0'

theorem digits?_append (nonempty : digits ≠ []) (isDigit : ∀ c ∈ digits, c.isDigit = true)
    (stops : ∀ c ∈ rest.head?, c.isDigit = false) :
    digits? (digits ++ rest) = some (digits, rest) := by
  have none : rest.takeWhile Char.isDigit = [] := by
    cases rest with
    | nil => rfl
    | cons c rest => simp [stops c rfl]
  have all : rest.dropWhile Char.isDigit = rest := by
    cases rest with
    | nil => rfl
    | cons c rest => simp [stops c rfl]
  rw [digits?, List.takeWhile_append_of_pos isDigit, List.dropWhile_append_of_pos isDigit, none,
    all, List.append_nil]
  simp [nonempty]

theorem wholePart?_append (isWhole : IsWhole whole) (stops : ∀ c ∈ rest.head?, c.isDigit = false) :
    wholePart? (whole ++ rest) = some (whole, rest) := by
  obtain ⟨nonempty, isDigit, leading⟩ := isWhole
  rw [wholePart?, digits?_append nonempty isDigit stops]
  rcases leading with rfl | leading
  · rfl
  · split
    · rename_i same
      cases same
      exact absurd rfl leading
    · rename_i same
      cases same
      exact absurd rfl leading
    · rfl

theorem fractionPart?_point (nonempty : fraction ≠ []) (isDigit : ∀ c ∈ fraction, c.isDigit = true)
    (stops : ∀ c ∈ rest.head?, c.isDigit = false) :
    fractionPart? ('.' :: (fraction ++ rest)) = some (fraction, rest) :=
  digits?_append nonempty isDigit stops

theorem exponentPart?_power (exponent : Int) :
    exponentPart? ('e' :: (if exponent < 0 then '-' else '+') :: Decimal.digits exponent.natAbs) =
      some (some exponent, []) := by
  generalize size : exponent.natAbs = n
  have read : digits? (Decimal.digits n) = some (Decimal.digits n, []) := by
    have isDigit : ∀ c ∈ Decimal.digits n, c.isDigit = true :=
      fun _ => Decimal.isDigit_of_mem_digits
    have stops : ∀ c ∈ ([] : List Char).head?, c.isDigit = false := by simp
    have cut := digits?_append Nat.toDigits_ne_nil isDigit stops
    rwa [List.append_nil] at cut
  split_ifs with below
  · simp [exponentPart?, read, Decimal.value_digits]
    omega
  · simp [exponentPart?, read, Decimal.value_digits]
    omega

theorem numeral?_append (isWhole : IsWhole whole) (stops : ∀ c ∈ rest.head?, c.isDigit = false)
    (fractional : fractionPart? rest = some (fraction, power))
    (powered : exponentPart? power = some (exponent, [])) :
    numeral? ((if negative then ['-'] else []) ++ (whole ++ rest)) =
      some ⟨⟨negative, whole, fraction, exponent.getD 0⟩, fraction.isEmpty && exponent.isNone⟩ := by
  have unsigned (tail : List Char) : whole ++ rest ≠ '-' :: tail := by
    intro same
    cases whole with
    | nil => exact absurd rfl isWhole.nonempty
    | cons c whole =>
        cases same
        exact absurd (isWhole.isDigit _ List.mem_cons_self) (by decide)
  cases negative with
  | true => simp [numeral?, wholePart?_append isWhole stops, fractional, powered]
  | false =>
      rw [if_neg Bool.false_ne_true, List.nil_append, numeral?]
      · simp [wholePart?_append isWhole stops, fractional, powered]
      · exact unsigned

end Numerals

section Doubles

variable {units : Nat} {written : Binary64.Digits}

/-- The text is a numeral that stands for the number that the digits of a double do, and no whole
number. -/
def Spells (written : Binary64.Digits) (text : List Char) : Prop :=
  ∀ negative, ∃ d : Decimal,
    numeral? ((if negative then ['-'] else []) ++ text) = some ⟨d, false⟩ ∧ d.negative = negative ∧
      (∀ c ∈ d.whole ++ d.fraction, c.isDigit = true) ∧ d.magnitude = written.value

theorem spells_parts {whole fraction rest power : List Char} {exponent : Option Int}
    (isWhole : IsWhole whole) (stops : ∀ c ∈ rest.head?, c.isDigit = false)
    (fractional : fractionPart? rest = some (fraction, power))
    (powered : exponentPart? power = some (exponent, []))
    (double : (fraction.isEmpty && exponent.isNone) = false)
    (isDigit : ∀ c ∈ fraction, c.isDigit = true)
    (value : (Decimal.value (whole ++ fraction) : ℚ) * 10 ^ (exponent.getD 0 - fraction.length) =
      written.value) : Spells written (whole ++ rest) := by
  intro negative
  have read : numeral? ((if negative then ['-'] else []) ++ (whole ++ rest)) =
      some ⟨⟨negative, whole, fraction, exponent.getD 0⟩, fraction.isEmpty && exponent.isNone⟩ :=
    numeral?_append isWhole stops fractional powered
  rw [double] at read
  refine ⟨_, read, rfl, ?_, value⟩
  intro c member
  rcases List.mem_append.mp member with member | member
  · exact isWhole.isDigit c member
  · exact isDigit c member

theorem spells_point {whole fraction : List Char} (isWhole : IsWhole whole)
    (nonempty : fraction ≠ []) (isDigit : ∀ c ∈ fraction, c.isDigit = true)
    (value : (Decimal.value (whole ++ fraction) : ℚ) * 10 ^ (-fraction.length : Int) =
      written.value) : Spells written (whole ++ '.' :: fraction) := by
  have fractional : fractionPart? ('.' :: (fraction ++ [])) = some (fraction, []) :=
    fractionPart?_point nonempty isDigit (by simp)
  rw [List.append_nil] at fractional
  have powered : exponentPart? [] = some (none, []) := rfl
  refine spells_parts isWhole (by simp) fractional powered (by simp [nonempty]) isDigit ?_
  rw [Option.getD_none, zero_sub]
  exact value

theorem spells_power {first : Char} {rest : List Char} {exponent : Int}
    (isDigit : ∀ c ∈ first :: rest, c.isDigit = true) (leading : first ≠ '0')
    (value : (Decimal.value (first :: rest) : ℚ) * 10 ^ (exponent - rest.length) = written.value) :
    Spells written (match rest with
      | [] => first :: 'e' :: (if exponent < 0 then '-' else '+') :: Decimal.digits exponent.natAbs
      | rest => first :: '.' :: rest ++
          'e' :: (if exponent < 0 then '-' else '+') :: Decimal.digits exponent.natAbs) := by
  have powered := exponentPart?_power exponent
  generalize ((if exponent < 0 then '-' else '+') :: Decimal.digits exponent.natAbs) = power at *
  have isWhole : IsWhole [first] :=
    ⟨List.cons_ne_nil _ _, fun c member => isDigit c (by simp_all), .inr (by simpa using leading)⟩
  cases rest with
  | nil => exact spells_parts isWhole (by simp) rfl powered rfl (by simp) value
  | cons second rest =>
      have tail : ∀ c ∈ second :: rest, c.isDigit = true :=
        fun c member => isDigit c (List.mem_cons_of_mem _ member)
      have fractional : fractionPart? ('.' :: (second :: rest ++ 'e' :: power)) =
          some (second :: rest, 'e' :: power) :=
        fractionPart?_point (List.cons_ne_nil _ _) tail (by simp)
      change Spells written ([first] ++ '.' :: (second :: rest ++ 'e' :: power))
      exact spells_parts isWhole (by simp) fractional powered rfl tail value

theorem spells_below {digits : List Char} {exponent : Int} (nonempty : digits ≠ [])
    (isDigit : ∀ c ∈ digits, c.isDigit = true) (below : exponent < 0) :
    Spells ⟨digits, exponent⟩
      (['0', '.'] ++ List.replicate (-exponent - 1).toNat '0' ++ digits) := by
  have fraction : ∀ c ∈ List.replicate (-exponent - 1).toNat '0' ++ digits, c.isDigit = true := by
    intro c member
    rcases List.mem_append.mp member with member | member
    · rw [List.eq_of_mem_replicate member]
      rfl
    · exact isDigit c member
  have isWhole : IsWhole ['0'] := ⟨List.cons_ne_nil _ _, by simp, .inl rfl⟩
  change Spells _ (['0'] ++ '.' :: (List.replicate (-exponent - 1).toNat '0' ++ digits))
  refine spells_point isWhole (by simp [nonempty]) fraction ?_
  have zeros : Decimal.value ('0' :: List.replicate (-exponent - 1).toNat '0') = 0 := by
    rw [← List.replicate_succ]
    exact Decimal.value_replicate_zero _
  rw [← List.append_assoc, List.singleton_append, Decimal.value_append, zeros, Nat.zero_mul,
    Nat.zero_add, Binary64.Digits.value, List.length_append, List.length_replicate]
  congr 2
  push_cast
  omega

theorem spells_above {digits : List Char} {exponent : Int} (nonempty : digits ≠ [])
    (isDigit : ∀ c ∈ digits, c.isDigit = true) (leading : digits.head? ≠ some '0')
    (above : 0 ≤ exponent) :
    let whole := exponent.toNat + 1
    let padded := digits ++ List.replicate (whole - digits.length) '0'
    let fraction := padded.drop whole
    Spells ⟨digits, exponent⟩
      (padded.take whole ++ ['.'] ++ (if fraction.isEmpty then ['0'] else fraction)) := by
  intro whole padded fraction
  have every : ∀ c ∈ padded, c.isDigit = true := by
    intro c member
    rcases List.mem_append.mp member with member | member
    · exact isDigit c member
    · rw [List.eq_of_mem_replicate member]
      rfl
  have isWhole : IsWhole (padded.take whole) := by
    cases digits with
    | nil => exact absurd rfl nonempty
    | cons first rest =>
        have front : ∀ c ∈ padded.take whole, c.isDigit = true :=
          fun c member => every c (List.mem_of_mem_take member)
        refine ⟨List.cons_ne_nil _ _, front, .inr ?_⟩
        simpa [padded, whole] using leading
  have value : Decimal.value padded =
      Decimal.value digits * 10 ^ (whole - digits.length) := by
    rw [Decimal.value_append, Decimal.value_replicate_zero, List.length_replicate, Nat.add_zero]
  have length : fraction.length = digits.length - whole := by
    simp [fraction, padded]
    omega
  rw [List.append_assoc, List.singleton_append]
  split_ifs with none
  · rw [List.isEmpty_iff] at none
    have short : digits.length ≤ whole := by
      have zero := congrArg List.length none
      rw [length, List.length_nil] at zero
      omega
    have all : padded.take whole = padded := by
      rw [← List.append_nil (padded.take whole), ← none]
      exact List.take_append_drop whole padded
    have last : Decimal.value (padded ++ ['0']) = Decimal.value padded * 10 := by
      rw [Decimal.value_append]
      rfl
    refine spells_point isWhole (List.cons_ne_nil _ _) (by simp) ?_
    rw [all, last, value, Binary64.Digits.value, List.length_singleton]
    push_cast
    rw [mul_assoc _ (10 : ℚ), ← zpow_one_add₀ (by norm_num), ← zpow_natCast, mul_assoc,
      ← zpow_add₀ (by norm_num)]
    congr 2
    omega
  · rw [List.isEmpty_iff] at none
    refine spells_point isWhole none (fun c member => every c (List.mem_of_mem_drop member)) ?_
    have long : whole ≤ digits.length := by
      have some := List.length_pos_iff.mpr none
      omega
    rw [List.take_append_drop, value, length, Binary64.Digits.value, Nat.sub_eq_zero_of_le long,
      pow_zero, Nat.mul_one]
    congr 2
    push_cast [long]
    omega

/-- The digits of a double, however they are laid out, stand for the same number. -/
theorem spells_magnitudeText (readsBack : (Binary64.shortest units).ReadsBack units) :
    Spells (Binary64.shortest units) (Binary64.magnitudeText units) := by
  obtain ⟨nonempty, isDigit, leading, -⟩ := readsBack
  unfold Binary64.magnitudeText
  generalize Binary64.shortest units = written at *
  obtain ⟨digits, exponent⟩ := written
  dsimp only at nonempty isDigit leading ⊢
  split
  · split
    · rename_i below
      exact spells_below nonempty isDigit below
    · rename_i above
      exact spells_above nonempty isDigit leading (not_lt.mp above)
  · cases digits with
    | nil => exact absurd rfl nonempty
    | cons first rest =>
        have written : (Decimal.value (first :: rest) : ℚ) * 10 ^ (exponent - rest.length) =
            Binary64.Digits.value ⟨first :: rest, exponent⟩ := by
          rw [Binary64.Digits.value, List.length_cons]
          congr 2
          push_cast
          omega
        have spelled := spells_power isDigit (by simpa using leading) written
        cases rest with
        | nil => exact spelled
        | cons second rest => exact spelled

end Doubles

section BareChars

variable {text found rest : List Char} {fraction : List Char} {exponent : Option Int}

theorem isBareChar_of_isDigit {c : Char} (isDigit : c.isDigit = true) : isBareChar c = true := by
  simp [isBareChar, Char.isAlphanum, isDigit]

theorem isBareChar_of_digits? (cut : digits? text = some (found, rest)) {c : Char}
    (member : c ∈ text) : isBareChar c = true ∨ c ∈ rest := by
  rw [digits?] at cut
  split_ifs at cut
  cases cut
  rw [← List.takeWhile_append_dropWhile (p := Char.isDigit) (l := text)] at member
  exact (List.mem_append.mp member).imp_left fun front =>
    isBareChar_of_isDigit (List.mem_takeWhile_imp front)

theorem isBareChar_of_wholePart? (cut : wholePart? text = some (found, rest)) {c : Char}
    (member : c ∈ text) : isBareChar c = true ∨ c ∈ rest := by
  rw [wholePart?] at cut
  split at cut
  · rename_i same
    cases cut
    exact isBareChar_of_digits? same member
  · cases cut
  · exact isBareChar_of_digits? cut member

theorem isBareChar_of_fractionPart? (cut : fractionPart? text = some (fraction, rest)) {c : Char}
    (member : c ∈ text) : isBareChar c = true ∨ c ∈ rest := by
  unfold fractionPart? at cut
  split at cut
  · rcases List.mem_cons.mp member with rfl | member
    · exact .inl rfl
    · exact isBareChar_of_digits? cut member
  · cases cut
    exact .inr member

theorem isBareChar_of_exponentPart? (cut : exponentPart? text = some (exponent, rest)) {c : Char}
    (member : c ∈ text) : isBareChar c = true ∨ c ∈ rest := by
  unfold exponentPart? at cut
  split at cut
  · cases member
  · rename_i first text
    split_ifs at cut with marks
    · have mark : isBareChar first = true := by
        rcases (by simpa using marks : first = 'e' ∨ first = 'E') with rfl | rfl <;> rfl
      rcases List.mem_cons.mp member with rfl | member
      · exact .inl mark
      · split at cut
        rename_i negative unsigned signed
        obtain ⟨⟨digits, after⟩, read, same⟩ := Option.map_eq_some_iff.mp cut
        cases same
        have tail : isBareChar c = true ∨ c ∈ unsigned := by
          split at signed
          all_goals cases signed
          · exact (List.mem_cons.mp member).imp_left (by rintro rfl; rfl)
          · exact (List.mem_cons.mp member).imp_left (by rintro rfl; rfl)
          · exact .inr member
        exact tail.elim .inl (isBareChar_of_digits? read)
    · cases cut
      exact .inr member

theorem isBareChar_of_numeral? {numeral : Numeral} (read : numeral? text = some numeral) {c : Char}
    (member : c ∈ text) : isBareChar c = true := by
  unfold numeral? at read
  split at read
  rename_i negative unsigned signed
  have tail : isBareChar c = true ∨ c ∈ unsigned := by
    split at signed
    all_goals cases signed
    · exact (List.mem_cons.mp member).imp_left (by rintro rfl; rfl)
    · exact .inr member
  obtain ⟨⟨whole, afterWhole⟩, cut, read⟩ := Option.bind_eq_some_iff.mp read
  obtain ⟨⟨fraction, afterFraction⟩, cut', read⟩ := Option.bind_eq_some_iff.mp read
  obtain ⟨⟨exponent, rest⟩, cut'', read⟩ := Option.bind_eq_some_iff.mp read
  have none : rest = [] := by
    by_contra more
    simp [more] at read
  rcases tail with bare | tail
  · exact bare
  · rcases isBareChar_of_wholePart? cut tail with bare | tail
    · exact bare
    · rcases isBareChar_of_fractionPart? cut' tail with bare | tail
      · exact bare
      · rcases isBareChar_of_exponentPart? cut'' tail with bare | tail
        · exact bare
        · rw [none] at tail
          cases tail

end BareChars

section Texts

theorem bareScalar?_of_numeral? {double? : Decimal → Option Binary64} {text : List Char}
    {numeral : Numeral} (read : numeral? text = some numeral) :
    bareScalar? double? text = (numeral.number? double?).map .number := by
  have word (word : String) (none : numeral? word.toList = none) : String.ofList text ≠ word := by
    rintro rfl
    rw [String.toList_ofList, read] at none
    cases none
  unfold bareScalar?
  split
  · exact absurd ‹_› (word _ rfl)
  · exact absurd ‹_› (word _ rfl)
  · exact absurd ‹_› (word _ rfl)
  · rw [read, Option.bind_some]

theorem isWhole_digits (n : Nat) : IsWhole (Decimal.digits n) := by
  refine ⟨Nat.toDigits_ne_nil, fun _ => Decimal.isDigit_of_mem_digits, ?_⟩
  rcases Nat.eq_zero_or_pos n with rfl | positive
  · exact .inl rfl
  · exact .inr (Decimal.head?_digits_ne_zero positive)

/-- The text of a number is a numeral that denotes the number. -/
theorem numeral?_text (n : Number) : ∃ numeral, numeral? n.text.toList = some numeral ∧
    numeral.number? Decimal.nearest? = some n := by
  cases n with
  | integer n bounded =>
      have stops : ∀ c ∈ ([] : List Char).head?, c.isDigit = false := by simp
      have read : numeral? ((if decide (n < 0) then ['-'] else []) ++
          (Decimal.digits n.natAbs ++ [])) =
          some ⟨⟨decide (n < 0), Decimal.digits n.natAbs, [], 0⟩, true⟩ :=
        numeral?_append (isWhole_digits n.natAbs) stops rfl rfl
      refine ⟨⟨⟨decide (n < 0), Decimal.digits n.natAbs, [], 0⟩, true⟩, ?_, ?_⟩
      · simpa [Number.text] using read
      · have same : (if n < 0 then -(n.natAbs : Int) else n.natAbs) = n := by
          split_ifs <;> omega
        have signed : ¬(n < 0 ∧ n.natAbs = 0) := by omega
        simp only [Numeral.number?, if_true, Decimal.value_digits, decide_eq_true_eq, same,
          Bool.and_eq_true, if_neg signed, Number.ofInt?, dif_pos bounded]
  | double x =>
      obtain ⟨negative, units, representable⟩ := x
      rcases Nat.eq_zero_or_pos units with rfl | positive
      · refine ⟨⟨⟨negative, ['0'], ['0'], 0⟩, false⟩, ?_, ?_⟩
        · rw [Number.text, Binary64.text, String.toList_ofList]
          cases negative <;> rfl
        · have none : Decimal.significand ⟨negative, ['0'], ['0'], 0⟩ = 0 := rfl
          have zero : Decimal.nearest? ⟨negative, ['0'], ['0'], 0⟩ =
              some ⟨negative, 0, representable⟩ := by
            rw [Decimal.nearest?, if_pos (by rw [none]; rfl), Binary64.ofUnits?,
              dif_pos representable]
          simp [Numeral.number?, zero]
      · have readsBack := Binary64.readsBack_shortest representable positive
        obtain ⟨d, read, rfl, isDigit, value⟩ := spells_magnitudeText readsBack negative
        refine ⟨⟨d, false⟩, ?_, ?_⟩
        · rw [Number.text, Binary64.text, String.toList_ofList]
          exact read
        · have nearest := Decimal.nearest?_of_rounds isDigit representable positive
            (value ▸ readsBack.rounds)
          simp [Numeral.number?, nearest]

theorem bareScalar?_text (n : Number) :
    bareScalar? Decimal.nearest? n.text.toList = some (.number n) := by
  obtain ⟨numeral, read, number⟩ := numeral?_text n
  rw [bareScalar?_of_numeral? read, number, Option.map_some]

theorem text_ne_nil (n : Number) : n.text.toList ≠ [] := by
  obtain ⟨numeral, read, -⟩ := numeral?_text n
  intro none
  rw [none] at read
  cases read

theorem isBareChar_of_mem_text {n : Number} {c : Char} (member : c ∈ n.text.toList) :
    isBareChar c = true := by
  obtain ⟨numeral, read, -⟩ := numeral?_text n
  exact isBareChar_of_numeral? read member

end Texts

end Json

end SchemaEvolution
