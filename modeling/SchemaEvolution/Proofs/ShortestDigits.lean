import Mathlib
import SchemaEvolution.Proofs.RoundingIntervals

/-! # Shortest digits read back

The digits of a double are a point of the first decimal grid with a point that rounds to the double.
There is such a grid, as the grid of `10^-1074` holds every double exactly. Whatever numeral is made
of the digits, what counts is the rational number that they stand for.
-/

namespace SchemaEvolution

namespace Decimal

theorem value_append (first second : List Char) :
    value (first ++ second) = value first * 10 ^ second.length + value second := by
  induction second using List.reverseRecOn with
  | nil => simp [value]
  | append_singleton second c ih =>
      have last (digits : List Char) :
          value (digits ++ [c]) = 10 * value digits + digitValue c := by
        simp [value]
      rw [← List.append_assoc, last, last, ih, List.length_append, List.length_singleton, pow_succ]
      ring

theorem value_replicate_zero (count : Nat) : value (List.replicate count '0') = 0 := by
  induction count with
  | zero => rfl
  | succ count ih =>
      have zero : value ['0'] = 0 := rfl
      rw [List.replicate_succ, ← List.singleton_append, value_append, ih, zero,
        Nat.zero_mul]

theorem value_digits (n : Nat) : value (digits n) = n :=
  Nat.ofDigitChars_toDigits (by decide) (by decide)

theorem isDigit_of_mem_digits {n : Nat} {c : Char} (member : c ∈ digits n) : c.isDigit = true :=
  Nat.isDigit_of_mem_toDigits (by decide) (by decide) member

theorem head?_digits_ne_zero {n : Nat} (positive : 0 < n) : (digits n).head? ≠ some '0' := by
  induction n using Nat.strong_induction_on with
  | _ n ih =>
      rw [digits, Nat.toDigits_eq_if (by decide)]
      split_ifs with small
      · have each : ∀ d < 10, 0 < d → [Nat.digitChar d].head? ≠ some '0' := by decide
        exact each n small positive
      · have shorter := ih (n / 10) (by omega) (by omega)
        rwa [List.head?_append_of_ne_nil _ Nat.toDigits_ne_nil]

end Decimal

namespace Binary64

section Grid

variable {units n : Nat} {exponent : Int}

/-- The number is in the interval, in units. -/
def RoundingInterval.Spans (interval : RoundingInterval) (point : ℚ) : Prop :=
  if interval.closed then interval.low ≤ 4 * point ∧ 4 * point ≤ interval.high
  else interval.low < 4 * point ∧ 4 * point < interval.high

theorem RoundingInterval.has_iff {interval : RoundingInterval} {numerator denominator : Nat}
    (positive : 0 < denominator) :
    interval.has numerator denominator = true ↔
      interval.Spans (numerator / denominator) := by
  have room : (0 : ℚ) < denominator := by exact_mod_cast positive
  have scaled : 4 * ((numerator : ℚ) / denominator) = (4 * numerator : ℕ) / denominator := by
    push_cast
    ring
  unfold has Spans
  rw [scaled]
  dsimp only
  split_ifs
  · rw [Bool.and_eq_true, decide_eq_true_eq, decide_eq_true_eq, le_div_iff₀ room, div_le_iff₀ room]
    exact_mod_cast Iff.rfl
  · rw [Bool.and_eq_true, decide_eq_true_eq, decide_eq_true_eq, lt_div_iff₀ room, div_lt_iff₀ room]
    exact_mod_cast Iff.rfl

theorem gridPoint_pos (n : Nat) (exponent : Int) : 0 < (gridPoint n exponent).2 := by
  unfold gridPoint
  split_ifs
  · exact Nat.one_pos
  · exact Nat.pow_pos (by decide)

theorem gridPoint_eq (n : Nat) (exponent : Int) :
    ((gridPoint n exponent).1 : ℚ) / (gridPoint n exponent).2 = n * 10 ^ exponent * one := by
  unfold gridPoint
  generalize one = unit
  split_ifs with whole
  · obtain ⟨power, rfl⟩ := Int.eq_ofNat_of_zero_le whole
    simp
  · obtain ⟨power, same⟩ : ∃ power : Nat, exponent = -power := ⟨(-exponent).toNat, by omega⟩
    subst same
    simp
    ring

theorem has_gridPoint_one (n : Nat) (exponent : Int) (interval : RoundingInterval) :
    interval.has (n * (gridPoint 1 exponent).1) (gridPoint 1 exponent).2 =
      interval.has (gridPoint n exponent).1 (gridPoint n exponent).2 := by
  rw [Bool.eq_iff_iff, RoundingInterval.has_iff (gridPoint_pos 1 exponent),
    RoundingInterval.has_iff (gridPoint_pos n exponent), gridPoint_eq, Nat.cast_mul, mul_div_assoc,
    gridPoint_eq]
  ring_nf

theorem has_of_onGrid? (found : onGrid? units exponent = some n) :
    (roundingInterval units).has (gridPoint n exponent).1 (gridPoint n exponent).2 = true := by
  rw [← has_gridPoint_one]
  have reads := List.find?_some found
  exact reads

theorem has_self (positive : 0 < units) {denominator : Nat} (room : 0 < denominator) :
    (roundingInterval units).has (units * denominator) denominator = true := by
  have gap := gapBelow_pos units
  have low : (roundingInterval units).low < 4 * units := by
    rw [low_roundingInterval]
    omega
  have high : 4 * units < (roundingInterval units).high := by
    have := spacing_pos units
    change 4 * units < 4 * units + 2 * spacing units
    omega
  have lower := Nat.mul_lt_mul_of_pos_right low room
  have upper := Nat.mul_lt_mul_of_pos_right high room
  rw [Nat.mul_assoc] at lower upper
  unfold RoundingInterval.has
  dsimp only
  split_ifs <;> simp only [Bool.and_eq_true, decide_eq_true_eq] <;> omega

theorem pow_two_dvd {bits power : Nat} (few : bits ≤ power) : Nat.pow 2 bits ∣ Nat.pow 10 power :=
  (pow_dvd_pow 2 few).trans (pow_dvd_pow_of_dvd (by decide) power)

theorem onGrid?_isSome (positive : 0 < units) (fine : exponent ≤ -1074) :
    (onGrid? units exponent).isSome = true := by
  obtain ⟨share, exact⟩ : one ∣ Nat.pow 10 (-exponent).toNat := by
    obtain ⟨shift, same, bits⟩ := one_eq_pow
    rw [same]
    exact pow_two_dvd (by omega)
  have point : gridPoint 1 exponent = (one, one * share) := by
    rw [gridPoint, if_neg (by omega), Nat.one_mul, exact]
  have room : 0 < one * share := by
    rw [← exact]
    exact Nat.pow_pos (by decide)
  have whole : units * (one * share) = one * (units * share) := Nat.mul_left_comm _ _ _
  have reads : (roundingInterval units).has (units * share * one) (one * share) = true := by
    rw [Nat.mul_comm _ one, ← whole]
    exact has_self positive room
  unfold onGrid?
  simp only [point, whole, Nat.mul_div_cancel_left _ one_pos, Nat.mul_mod_right, Nat.mul_zero,
    one_pos, decide_true, Bool.true_or, if_true, List.find?_cons, reads, Option.isSome_some]

end Grid

section Shortest

variable {units : Nat}

def Digits.value (written : Digits) : ℚ :=
  Decimal.value written.digits * 10 ^ (written.exponent - written.digits.length + 1)

/-- Digits from which the double can be read back. The first of them is not zero. -/
structure Digits.ReadsBack (units : Nat) (written : Digits) : Prop where
  nonempty : written.digits ≠ []
  isDigit : ∀ c ∈ written.digits, c.isDigit = true
  leading : written.digits.head? ≠ some '0'
  rounds : ∀ numerator denominator : Nat, 0 < denominator →
    (numerator : ℚ) / denominator = written.value * one → roundUnits numerator denominator = units

theorem exists_stripZeros (digits : List Char) :
    ∃ count, stripZeros digits ++ List.replicate count '0' = digits := by
  have zeros : ∀ c ∈ digits.reverse.takeWhile (· == '0'), c = '0' := by
    intro c member
    simpa using List.mem_takeWhile_imp member
  have split : digits.reverse.takeWhile (· == '0') ++ digits.reverse.dropWhile (· == '0') =
      digits.reverse := List.takeWhile_append_dropWhile
  refine ⟨(digits.reverse.takeWhile (· == '0')).length, ?_⟩
  rw [List.eq_replicate_of_mem zeros] at split
  have turned := congrArg List.reverse split
  rwa [List.reverse_append, List.reverse_replicate, List.reverse_reverse] at turned

/-- The digits of a point of a grid that reads back, without the zeros at their end. -/
theorem readsBack_of_onGrid? {n : Nat} {exponent : Int} (representable : Representable units)
    (positive : 0 < units) (found : onGrid? units exponent = some n) :
    Digits.ReadsBack units
      ⟨stripZeros (Decimal.digits n), exponent + (Decimal.digits n).length - 1⟩ := by
  have inside := has_of_onGrid? found
  obtain ⟨count, whole⟩ := exists_stripZeros (Decimal.digits n)
  have nonzero : 0 < n := by
    rw [Nat.pos_iff_ne_zero]
    rintro rfl
    have zero : (gridPoint 0 exponent).1 = 0 := by
      unfold gridPoint
      split_ifs <;> simp
    have lower := (near_of_has positive inside).lower
    have gap := Nat.mul_le_mul_right (gridPoint 0 exponent).2
      ((gapBelow_le units).trans (spacing_le positive))
    have some := Nat.mul_pos positive (gridPoint_pos 0 exponent)
    rw [zero] at lower
    omega
  have nonempty : stripZeros (Decimal.digits n) ≠ [] := by
    intro empty
    rw [empty, List.nil_append] at whole
    have := Decimal.value_digits n
    rw [← whole, Decimal.value_replicate_zero] at this
    omega
  have value : Digits.value
      ⟨stripZeros (Decimal.digits n), exponent + (Decimal.digits n).length - 1⟩ =
      n * 10 ^ exponent := by
    have sum := Decimal.value_append (stripZeros (Decimal.digits n)) (List.replicate count '0')
    rw [whole, Decimal.value_digits, Decimal.value_replicate_zero, Nat.add_zero,
      List.length_replicate] at sum
    have length := congrArg List.length whole
    rw [List.length_append, List.length_replicate] at length
    have places : exponent + (Decimal.digits n).length - 1 -
        (stripZeros (Decimal.digits n)).length + 1 = count + exponent := by omega
    rw [Digits.value, places, zpow_add₀ (by norm_num), zpow_natCast, ← mul_assoc]
    conv_rhs => rw [sum]
    push_cast
    rfl
  refine ⟨nonempty, ?_, ?_, ?_⟩
  · intro c member
    apply Decimal.isDigit_of_mem_digits (n := n)
    rw [← whole]
    exact List.mem_append_left _ member
  · have leading := Decimal.head?_digits_ne_zero nonzero
    rwa [← whole, List.head?_append_of_ne_nil _ nonempty] at leading
  · intro numerator denominator room same
    refine roundUnits_of_has representable positive.ne' room ?_
    rw [RoundingInterval.has_iff (gridPoint_pos n exponent), gridPoint_eq] at inside
    rw [RoundingInterval.has_iff room, same, value]
    exact inside

theorem readsBack_shortestFrom (representable : Representable units) (positive : 0 < units)
    {leading : Int} {count fuel : Nat} (enough : leading + 1075 < count + fuel)
    (some : 0 < fuel) : (shortestFrom units leading count fuel).ReadsBack units := by
  induction fuel generalizing count with
  | zero => exact absurd some (lt_irrefl 0)
  | succ fuel ih =>
      rw [shortestFrom]
      dsimp only
      split
      · rename_i n found
        exact readsBack_of_onGrid? representable positive found
      · rename_i missing
        have coarse : ¬leading - count + 1 ≤ -1074 := by
          intro fine
          have found := onGrid?_isSome positive fine
          rw [missing] at found
          cases found
        apply ih <;> push_cast at * <;> omega

theorem leadingExponent_ge (units : Nat) : -324 ≤ leadingExponent units := by
  unfold leadingExponent
  dsimp only
  split_ifs <;> omega

/-- The digits that a double is written with read back. -/
theorem readsBack_shortest (representable : Representable units) (positive : 0 < units) :
    (shortest units).ReadsBack units := by
  have deep := leadingExponent_ge units
  rw [shortest, if_neg positive.ne']
  apply readsBack_shortestFrom representable positive <;> omega

end Shortest

end Binary64

end SchemaEvolution
