import Mathlib
import SchemaEvolution.Pattern.BestEffort
import SchemaEvolution.Proofs.Literals
import SchemaEvolution.Rule.Engine

/-! # Divisors that are multiples of others

The quotient of two divisors is rounded to a double and counts as whole if it is close enough to a
whole number. So the rule tells whether a divisor is a multiple of another where doubles hold both of
them, unless their quotient is close to a whole number without being one.
-/

namespace SchemaEvolution

namespace Binary64

section Error

variable {numerator denominator : Nat}

theorem abs_roundHalfEven_sub_le (positive : 0 < denominator) :
    |(roundHalfEven numerator denominator : ℚ) * denominator - numerator| ≤ denominator / 2 := by
  have whole : (numerator : ℚ) =
      denominator * (numerator / denominator : ℕ) + (numerator % denominator : ℕ) := by
    exact_mod_cast (Nat.div_add_mod numerator denominator).symm
  have below : ((numerator % denominator : ℕ) : ℚ) < denominator := by
    exact_mod_cast Nat.mod_lt numerator positive
  have nonnegative : (0 : ℚ) ≤ (numerator % denominator : ℕ) := Nat.cast_nonneg _
  have down (near : 2 * (numerator % denominator) ≤ denominator) :
      |((numerator / denominator : ℕ) : ℚ) * denominator - numerator| ≤ denominator / 2 := by
    have near : 2 * ((numerator % denominator : ℕ) : ℚ) ≤ denominator := by exact_mod_cast near
    rw [whole, abs_le]
    constructor <;> linarith
  have up (near : denominator ≤ 2 * (numerator % denominator)) :
      |((numerator / denominator + 1 : ℕ) : ℚ) * denominator - numerator| ≤ denominator / 2 := by
    have near : (denominator : ℚ) ≤ 2 * (numerator % denominator : ℕ) := by exact_mod_cast near
    rw [whole, Nat.cast_add_one, abs_le]
    constructor <;> linarith
  unfold roundHalfEven
  dsimp only
  split_ifs with less greater
  · exact down less.le
  · exact up greater.le
  · exact down (not_lt.mp greater)
  · exact up (not_lt.mp less)

/-- From `2 ^ 52` units on, doubles are close to each other for their size. -/
theorem spacing_mul_le {units : Nat} (large : 2 ^ 52 ≤ units) : spacing units * 2 ^ 52 ≤ units := by
  have positive : units ≠ 0 := by
    rintro rfl
    simp at large
  have bits : 52 ≤ units.log2 := (Nat.le_log2 positive).mpr large
  calc spacing units * 2 ^ 52 = 2 ^ (units.log2 - 52 + 52) := (Nat.pow_add ..).symm
    _ = 2 ^ units.log2 := by rw [Nat.sub_add_cancel bits]
    _ ≤ units := Nat.log2_self_le positive

/-- A quotient is off by a part in `2 ^ 53` at most after rounding. -/
theorem abs_roundUnits_sub_le (large : 2 ^ 52 ≤ numerator / denominator) :
    |(roundUnits numerator denominator : ℚ) * denominator - numerator| ≤ numerator / 2 ^ 53 := by
  have positive : 0 < denominator := by
    rcases Nat.eq_zero_or_pos denominator with rfl | positive
    · simp at large
    · exact positive
  unfold roundUnits
  dsimp only
  have fine : denominator * spacing (numerator / denominator) * 2 ^ 52 ≤ numerator :=
    calc denominator * spacing (numerator / denominator) * 2 ^ 52
        = denominator * (spacing (numerator / denominator) * 2 ^ 52) := Nat.mul_assoc ..
      _ ≤ denominator * (numerator / denominator) := Nat.mul_le_mul_left _ (spacing_mul_le large)
      _ ≤ numerator := Nat.mul_div_le _ _
  have spaced := spacing_pos (numerator / denominator)
  generalize spacing (numerator / denominator) = step at *
  have near := @abs_roundHalfEven_sub_le numerator (denominator * step) (Nat.mul_pos positive spaced)
  have fine : (denominator : ℚ) * step * 2 ^ 52 ≤ numerator := by exact_mod_cast fine
  calc |((roundHalfEven numerator (denominator * step) * step : ℕ) : ℚ) * denominator - numerator|
      = |(roundHalfEven numerator (denominator * step) : ℚ) * (denominator * step : ℕ) -
          numerator| := by
        push_cast
        ring_nf
    _ ≤ (denominator * step : ℕ) / 2 := near
    _ ≤ numerator / 2 ^ 53 := by
        push_cast
        linarith

theorem roundUnits_mul {units : Nat} (positive : 0 < denominator) (exact : spacing units ∣ units) :
    roundUnits (units * denominator) denominator = units := by
  obtain ⟨quotient, same⟩ := exact
  simp only [roundUnits, Nat.mul_div_cancel _ positive]
  have spaced := spacing_pos units
  generalize spacing units = step at same spaced ⊢
  have regrouped : units * denominator = quotient * (denominator * step) := by rw [same]; ring
  rw [regrouped, roundHalfEven_mul (Nat.mul_pos positive spaced), same, Nat.mul_comm]

end Error

end Binary64

namespace Divisibility

open Binary64

section Exact

/-! Whole numbers that doubles hold have 53 bits and zeros behind them, and so have their divisors. -/

theorem roundUnits_eq_self_iff {units : Nat} : roundUnits units 1 = units ↔ spacing units ∣ units := by
  constructor
  · intro same
    rw [roundUnits_one] at same
    exact Dvd.intro_left _ same
  · exact roundUnits_of_dvd

theorem unitsOfInt_natCast (n : Nat) : unitsOfInt n = (roundUnits (n * one) 1 : Nat) := by
  rw [unitsOfInt, if_neg (Int.natCast_nonneg n).not_gt, Int.natAbs_natCast]

theorem isExact_iff {n : Nat} {bounded : Number.IsWord n} :
    (Number.integer n bounded).IsExact ↔ spacing (n * one) ∣ n * one := by
  change unitsOfInt n = (n : Int) * one ↔ _
  rw [unitsOfInt_natCast, ← Nat.cast_mul, Nat.cast_inj, roundUnits_eq_self_iff]

theorem spacing_dvd_shift {bits : Nat} (few : bits < 2 ^ 53) (zeros : Nat) :
    spacing (bits * 2 ^ zeros * one) ∣ bits * 2 ^ zeros * one := by
  obtain ⟨shift, same, _⟩ := one_eq_pow
  have shifted : bits * 2 ^ zeros * one = bits * Nat.pow 2 (zeros + shift) := by
    rw [same, Nat.mul_assoc]
    exact congrArg (bits * ·) (Nat.pow_add ..).symm
  rw [shifted]
  exact lowBits_dvd few _

theorem exists_bits {n : Nat} (exact : spacing (n * one) ∣ n * one) :
    ∃ bits < 2 ^ 53, ∃ zeros, n = bits * 2 ^ zeros := by
  obtain ⟨shift, same, _⟩ := one_eq_pow
  rw [same] at exact
  change 2 ^ ((n * 2 ^ shift).log2 - 52) ∣ n * 2 ^ shift at exact
  have below : n * 2 ^ shift < 2 ^ ((n * 2 ^ shift).log2 + 1) := Nat.lt_log2_self
  generalize (n * 2 ^ shift).log2 = log at exact below
  by_cases deep : log - 52 ≤ shift
  · refine ⟨n, ?_, 0, (Nat.mul_one n).symm⟩
    have wide : n * 2 ^ shift < 2 ^ 53 * 2 ^ shift := by
      rw [← Nat.pow_add]
      exact below.trans_le (Nat.pow_le_pow_right two_pos (by omega))
    exact Nat.lt_of_mul_lt_mul_right wide
  · obtain ⟨zeros, rfl⟩ : ∃ zeros, log = zeros + shift + 52 := ⟨log - 52 - shift, by omega⟩
    rw [Nat.add_sub_cancel, Nat.pow_add] at exact
    obtain ⟨bits, rfl⟩ := Nat.dvd_of_mul_dvd_mul_right (Nat.two_pow_pos shift) exact
    refine ⟨bits, ?_, zeros, Nat.mul_comm _ _⟩
    have wide : bits * 2 ^ (zeros + shift) < 2 ^ 53 * 2 ^ (zeros + shift) := by
      rw [← Nat.pow_add, Nat.pow_add _ zeros, ← Nat.mul_assoc, Nat.mul_comm bits]
      exact below.trans_eq (congrArg (2 ^ ·) (by omega))
    exact Nat.lt_of_mul_lt_mul_right wide

theorem spacing_dvd_of_dvd {m n : Nat} (positive : 0 < n) (divides : m ∣ n)
    (exact : spacing (n * one) ∣ n * one) : spacing (m * one) ∣ m * one := by
  obtain ⟨bits, few, zeros, rfl⟩ := exists_bits exact
  have nonzero : m ≠ 0 := ne_zero_of_dvd_ne_zero positive.ne' divides
  obtain ⟨trailing, odd, isOdd, rfl⟩ := Nat.exists_eq_two_pow_mul_odd nonzero
  have inside : odd ∣ bits := by
    apply Nat.Coprime.dvd_of_dvd_mul_right (n := 2 ^ zeros)
    · exact (Nat.coprime_two_right.mpr isOdd).pow_right zeros
    · exact (Nat.dvd_mul_left _ _).trans divides
  have small := Nat.le_of_dvd (Nat.pos_of_mul_pos_right positive) inside
  rw [Nat.mul_comm (2 ^ trailing)]
  exact spacing_dvd_shift (small.trans_lt few) trailing

end Exact

section Quotient

variable {old new : Nat}

def ofUnits (units : Nat) : ℚ := units / one

theorem ofUnits_lt_iff {x y : Nat} : ofUnits x < ofUnits y ↔ x < y := by
  have positive : (0 : ℚ) < one := by exact_mod_cast Binary64.one_pos
  rw [ofUnits, ofUnits, div_lt_div_iff_of_pos_right positive, Nat.cast_lt]

theorem ofUnits_le_iff {x y : Nat} : ofUnits x ≤ ofUnits y ↔ x ≤ y := by
  rw [← not_lt, ofUnits_lt_iff, not_lt]

theorem ofUnits_add (x y : Nat) : ofUnits (x + y) = ofUnits x + ofUnits y := by
  rw [ofUnits, Nat.cast_add, add_div, ofUnits, ofUnits]

theorem ofUnits_mul (n units : Nat) : ofUnits (n * units) = n * ofUnits units := by
  rw [ofUnits, Nat.cast_mul, mul_div_assoc, ofUnits]

theorem ofUnits_one : ofUnits one = 1 := by
  have positive : (0 : ℚ) < one := by exact_mod_cast Binary64.one_pos
  exact div_self positive.ne'

theorem ofUnits_sub {x y : Nat} (le : y ≤ x) : ofUnits (x - y) = ofUnits x - ofUnits y := by
  rw [ofUnits, Nat.cast_sub le, sub_div, ofUnits, ofUnits]

/-- A unit count is as far from a whole number as it is from the nearest one. -/
theorem ofUnits_wholeDistance (units : Nat) :
    ofUnits (wholeDistance units) = |ofUnits units - nearestWhole units| := by
  have nearest : ofUnits (nearestWhole units * one) = nearestWhole units := by
    rw [ofUnits_mul, ofUnits_one, mul_one]
  rw [← nearest, wholeDistance]
  generalize nearestWhole units * one = whole
  split_ifs with below
  · rw [ofUnits_sub below, abs_sub_comm, abs_of_nonneg (sub_nonneg.mpr (ofUnits_le_iff.mpr below))]
  · have le := (not_le.mp below).le
    rw [ofUnits_sub le, abs_of_nonneg (sub_nonneg.mpr (ofUnits_le_iff.mpr le))]

theorem round_ofUnits (units : Nat) : round (ofUnits units) = nearestWhole units := by
  have upper : nearestWhole units * (2 * one) ≤ 2 * units + one := Nat.div_mul_le_self _ _
  have lower : 2 * units + one < 2 * one * (nearestWhole units + 1) :=
    Nat.lt_mul_div_succ _ (Nat.mul_pos two_pos Binary64.one_pos)
  rw [← ofUnits_le_iff] at upper
  rw [← ofUnits_lt_iff, Nat.mul_comm (2 * one)] at lower
  simp only [ofUnits_add, ofUnits_mul, ofUnits_one] at upper lower
  push_cast at upper lower
  rw [round_eq, Int.floor_eq_iff, Int.cast_natCast]
  constructor <;> linarith

theorem abs_sub_nearestWhole_le (units n : Nat) :
    |ofUnits units - nearestWhole units| ≤ |ofUnits units - n| := by
  have closest := round_le (ofUnits units) n
  rwa [round_ofUnits, Int.cast_natCast, Int.cast_natCast] at closest

theorem nearestWhole_mul (n : Nat) : nearestWhole (n * one) = n := by
  have positive := Binary64.one_pos
  unfold nearestWhole
  generalize one = unit at positive ⊢
  rw [show 2 * (n * unit) + unit = unit + n * (2 * unit) by ring,
    Nat.add_mul_div_right _ _ (Nat.mul_pos two_pos positive),
    Nat.div_eq_of_lt (by omega), Nat.zero_add]

theorem wholeDistance_mul (n : Nat) : wholeDistance (n * one) = 0 := by
  unfold wholeDistance
  rw [nearestWhole_mul]
  simp

/-- What the constants come to: a tolerance that is a billionth up to its own rounding, the least
quotient that counts as one, and doubles that reach from far below whole words to far above them. -/
theorem constants :
    (one ≤ 10 ^ 9 * quotientTolerance ∧
      2 ^ 53 * (10 ^ 9 * quotientTolerance) ≤ 2 ^ 53 * one + one) ∧
    (one ≤ 2 * roundUnits (one - quotientTolerance) 1 ∧
      roundUnits (one - quotientTolerance) 1 ≤ one ∧
      2 ^ 54 * (roundUnits (one - quotientTolerance) 1 + quotientTolerance) ≤
        2 ^ 54 * one + one) ∧
    (0 < quotientTolerance ∧ 0 < wholeTolerance) ∧ 2 ^ 116 ≤ one ∧ 2 ^ 65 * one < limit := by
  decide +kernel

theorem ofUnits_quotientTolerance :
    1 / 10 ^ 9 ≤ ofUnits quotientTolerance ∧
      ofUnits quotientTolerance ≤ (1 + 1 / 2 ^ 53) / 10 ^ 9 := by
  obtain ⟨⟨below, above⟩, -⟩ := constants
  rw [← ofUnits_le_iff] at below above
  simp only [ofUnits_add, ofUnits_mul, ofUnits_one] at below above
  push_cast at below above
  constructor <;> linarith

theorem ofUnits_least_le :
    ofUnits (roundUnits (one - quotientTolerance) 1) ≤ 1 - 1 / 10 ^ 9 + 1 / 2 ^ 54 := by
  have tolerance := ofUnits_quotientTolerance.1
  obtain ⟨-, ⟨-, -, whole⟩, -⟩ := constants
  rw [← ofUnits_le_iff] at whole
  simp only [ofUnits_add, ofUnits_mul, ofUnits_one] at whole
  push_cast at whole
  linarith

/-- The rounded quotient of two whole numbers is off by a part in `2 ^ 53` at most. -/
theorem abs_quotient_sub_le (hold : 0 < old) (word : old < 2 ^ 64) (hnew : 0 < new) :
    |ofUnits (divUnits (new * one) (old * one)) - (new / old : ℚ)| ≤ (new / old : ℚ) / 2 ^ 53 := by
  have large : 2 ^ 52 ≤ new * one * one / (old * one) := by
    rw [Nat.mul_div_mul_right _ _ Binary64.one_pos, Nat.le_div_iff_mul_le hold]
    obtain ⟨-, -, -, fine, -⟩ := constants
    calc 2 ^ 52 * old ≤ 2 ^ 52 * 2 ^ 64 := Nat.mul_le_mul_left _ word.le
      _ = 2 ^ 116 := by norm_num
      _ ≤ one := fine
      _ ≤ new * one := Nat.le_mul_of_pos_left _ hnew
  have near : |(divUnits (new * one) (old * one) : ℚ) * (old * one : ℕ) - (new * one * one : ℕ)| ≤
      (new * one * one : ℕ) / 2 ^ 53 := abs_roundUnits_sub_le large
  have positive : (0 : ℚ) < one := by exact_mod_cast Binary64.one_pos
  have divisor : (0 : ℚ) < old := by exact_mod_cast hold
  unfold ofUnits
  generalize (divUnits (new * one) (old * one) : ℚ) = quotient at *
  push_cast at near
  generalize (one : ℚ) = unit at *
  have scaled : quotient / unit - new / old =
      (quotient * (old * unit) - new * unit * unit) / (old * unit * unit) := by
    field_simp
  rw [scaled, abs_div, abs_of_pos (mul_pos (mul_pos divisor positive) positive)]
  calc _ ≤ (new * unit * unit / 2 ^ 53 : ℚ) / (old * unit * unit) :=
        div_le_div_of_nonneg_right near (by positivity)
    _ = (new / old : ℚ) / 2 ^ 53 := by field_simp

/-- The quotient of two divisors is whole, or further from every positive whole number than rounding
and the tolerance reach. -/
def Separated (old new : Nat) : Prop :=
  ∀ n : Nat, 0 < n → new ≠ n * old →
    1 / 10 ^ 9 + (new / old : ℚ) / 2 ^ 52 ≤ |(new / old : ℚ) - n|

/-- So it is for all divisors of a few hundred millions and less. -/
theorem separated_of_small (hold : 0 < old) (small : old * 2 ^ 52 + new * 10 ^ 9 ≤ 10 ^ 9 * 2 ^ 52) :
    Separated old new := by
  intro n _ apart
  have divisor : (0 : ℚ) < old := by exact_mod_cast hold
  have small : (old : ℚ) * 2 ^ 52 + new * 10 ^ 9 ≤ 10 ^ 9 * 2 ^ 52 := by exact_mod_cast small
  have gap : (1 : ℚ) ≤ |(new : ℚ) - n * old| := by
    have gap : (1 : ℤ) ≤ |(new : ℤ) - n * old| := by
      refine Int.one_le_abs (sub_ne_zero.mpr ?_)
      exact_mod_cast apart
    exact_mod_cast gap
  have distance : |(new / old : ℚ) - n| = |(new : ℚ) - n * old| / old := by
    rw [← abs_of_pos divisor, ← abs_div, abs_of_pos divisor]
    congr 1
    field_simp
  calc 1 / 10 ^ 9 + (new / old : ℚ) / 2 ^ 52
      = ((old : ℚ) * 2 ^ 52 + new * 10 ^ 9) / (10 ^ 9 * 2 ^ 52) / old := by
        field_simp
    _ ≤ (1 : ℚ) / old := div_le_div_of_nonneg_right ((div_le_one (by norm_num)).mpr small) divisor.le
    _ ≤ |(new / old : ℚ) - n| := distance ▸ div_le_div_of_nonneg_right gap divisor.le

/-- The quotient is closer to a positive whole number than the tolerance, whatever rounding adds. -/
def Near (old new : Nat) : Prop :=
  ∃ n : Nat, 0 < n ∧ |(new / old : ℚ) - n| + (new / old : ℚ) / 2 ^ 52 < 1 / 10 ^ 9

theorem dvd_of_isMultiple (hold : 0 < old) (word : old < 2 ^ 64) (hnew : 0 < new)
    (separated : Separated old new) (multiple : isMultiple (old * one) (new * one) = true) :
    old ∣ new := by
  simp only [isMultiple, Bool.and_eq_true, decide_eq_true_eq] at multiple
  obtain ⟨⟨-, least⟩, close⟩ := multiple
  have rounded := abs_quotient_sub_le hold word hnew
  generalize divUnits (new * one) (old * one) = quotient at *
  obtain ⟨-, ⟨half, -, -⟩, -⟩ := constants
  replace half : one ≤ 2 * quotient := half.trans (Nat.mul_le_mul_left 2 least)
  have counted : 0 < nearestWhole quotient :=
    Nat.div_pos (by linarith) (Nat.mul_pos two_pos Binary64.one_pos)
  have within : |ofUnits quotient - nearestWhole quotient| < (1 + 1 / 2 ^ 53) / 10 ^ 9 := by
    rw [← ofUnits_wholeDistance]
    exact (ofUnits_lt_iff.mpr close).trans_le ofUnits_quotientTolerance.2
  rw [← ofUnits_le_iff, ofUnits_mul, ofUnits_one] at half
  push_cast at half
  by_contra apart
  have away := separated (nearestWhole quotient) counted fun same =>
    apart (same ▸ Nat.dvd_mul_left _ _)
  have sides := abs_sub_le (new / old : ℚ) (ofUnits quotient) (nearestWhole quotient)
  rw [abs_sub_comm (new / old : ℚ) (ofUnits quotient)] at sides
  have above := (abs_le.mp rounded).2
  linarith

theorem mul_one_lt_limit {n : Nat} (word : n ≤ 2 ^ 65) : n * one < limit := by
  obtain ⟨-, -, -, -, wide⟩ := constants
  exact (Nat.mul_le_mul_right _ word).trans_lt wide

theorem isMultiple_of_near (hold : 0 < old) (wordOld : old < 2 ^ 64) (hnew : 0 < new)
    (wordNew : new < 2 ^ 64) (near : Near old new) :
    isMultiple (old * one) (new * one) = true := by
  obtain ⟨n, counted, close⟩ := near
  have rounded := abs_quotient_sub_le hold wordOld hnew
  simp only [isMultiple, Bool.and_eq_true, decide_eq_true_eq]
  generalize divUnits (new * one) (old * one) = quotient at rounded ⊢
  have first : (1 : ℚ) ≤ n := by exact_mod_cast counted
  have sides := abs_sub_le (ofUnits quotient) (new / old) n
  have error := abs_nonneg ((new / old : ℚ) - n)
  have most : (new / old : ℚ) ≤ 2 ^ 64 := by
    have divisor : (1 : ℚ) ≤ old := by exact_mod_cast hold
    have dividend : (new : ℚ) ≤ 2 ^ 64 := by exact_mod_cast wordNew.le
    exact (div_le_self (Nat.cast_nonneg new) divisor).trans dividend
  generalize (new / old : ℚ) = exact at *
  refine ⟨⟨?bounded, ?least⟩, ?within⟩
  case bounded =>
    refine lt_of_le_of_lt ?_ (mul_one_lt_limit le_rfl)
    rw [← ofUnits_le_iff, ofUnits_mul, ofUnits_one]
    push_cast
    linarith [(abs_le.mp rounded).2]
  case least =>
    rw [← ofUnits_le_iff]
    refine ofUnits_least_le.trans ?_
    linarith [(abs_le.mp rounded).1, neg_abs_le (exact - n)]
  case within =>
    rw [← ofUnits_lt_iff, ofUnits_wholeDistance]
    have nearest := abs_sub_nearestWhole_le quotient n
    have tolerance := ofUnits_quotientTolerance.1
    linarith [(abs_nonneg _).trans rounded]

theorem isMultiple_of_dvd (hnew : 0 < new) (word : new < 2 ^ 64)
    (exact : spacing (new * one) ∣ new * one) (divides : old ∣ new) :
    isMultiple (old * one) (new * one) = true := by
  obtain ⟨n, rfl⟩ := divides
  obtain ⟨hold, hn⟩ := CanonicallyOrderedAdd.mul_pos.mp hnew
  have exact' := spacing_dvd_of_dvd hnew (Nat.dvd_mul_left n old) exact
  have quotient : divUnits (old * n * one) (old * one) = n * one := by
    rw [divUnits, show old * n * one * one = n * one * (old * one) by ring]
    exact roundUnits_mul (Nat.mul_pos hold Binary64.one_pos) exact'
  have small : n ≤ 2 ^ 65 := by
    have := Nat.le_mul_of_pos_left n hold
    omega
  obtain ⟨-, ⟨-, first, -⟩, ⟨tolerance, -⟩, -⟩ := constants
  have least : roundUnits (one - quotientTolerance) 1 ≤ n * one :=
    first.trans (Nat.le_mul_of_pos_left _ hn)
  simp only [isMultiple, quotient, wholeDistance_mul, Bool.and_eq_true, decide_eq_true_eq]
  exact ⟨⟨mul_one_lt_limit small, least⟩, tolerance⟩

end Quotient

section Direction

variable {old new : Nat}

theorem scaledWhole?_mul (word : new < 2 ^ 64) (exact : spacing (new * one) ∣ new * one) :
    scaledWhole? (new * one) 1 = some new := by
  have scaled : mulUnits (new * one) (1 * one) = new * one := by
    rw [mulUnits, Nat.one_mul]
    exact roundUnits_mul Binary64.one_pos exact
  obtain ⟨-, -, ⟨-, tolerance⟩, -⟩ := constants
  have bounded : new * one < limit := mul_one_lt_limit (by omega)
  have fits : new < Decimal.wordLimit := word
  simp only [scaledWhole?, scaled, nearestWhole_mul, wholeDistance_mul, bounded, tolerance,
    fits.le, decide_true, Bool.and_self, if_true]
  rw [Nat.min_eq_left (Nat.le_sub_one_of_lt fits)]

theorem scaledPair?_of_whole {x y a b : Nat} (first : scaledWhole? x 1 = some a)
    (second : scaledWhole? y 1 = some b) : scaledPair? x y 1 = some (a, b) := by
  rw [scaledPair?, first, second]
  rfl

theorem findSome?_range_succ {α : Type} {f : Nat → Option α} {found : α} (first : f 0 = some found)
    (n : Nat) : (List.range (n + 1)).findSome? f = some found := by
  rw [List.range_succ_eq_map, List.findSome?_cons, first]

theorem wholePair?_of_scaledPair? {x y : Nat} {pair : Nat × Nat}
    (unscaled : scaledPair? x y 1 = some pair) : wholePair? x y = some pair := by
  rw [show 1 = Nat.pow 10 0 from rfl] at unscaled
  exact findSome?_range_succ (f := fun n => scaledPair? x y (Nat.pow 10 n)) unscaled 9

/-- Divisors that doubles hold: the rule goes by their quotient first, then by their common
factors. -/
theorem direction_mul (hold : 0 < old) (hnew : 0 < new) (wordOld : old < 2 ^ 64)
    (wordNew : new < 2 ^ 64) (exactOld : spacing (old * one) ∣ old * one)
    (exactNew : spacing (new * one) ∣ new * one) :
    direction ((old * one : ℕ) : ℤ) ((new * one : ℕ) : ℤ) =
      if isMultiple (old * one) (new * one) then .multiple
      else if 1 < Nat.gcd old new then .commonFactor else .noCommonFactor := by
  have positive (n : Nat) (counted : 0 < n) : ¬((n * one : ℕ) : ℤ) ≤ 0 := by
    rw [not_le]
    exact_mod_cast Nat.mul_pos counted Binary64.one_pos
  have signs :
      ¬(decide (((old * one : ℕ) : ℤ) ≤ 0) || decide (((new * one : ℕ) : ℤ) ≤ 0)) = true := by
    simp only [positive old hold, positive new hnew, decide_false, Bool.or_self,
      Bool.false_eq_true, not_false_eq_true]
  rw [direction, if_neg signs, Int.toNat_natCast, Int.toNat_natCast, wholePair?_of_scaledPair?
      (scaledPair?_of_whole (scaledWhole?_mul wordOld exactOld) (scaledWhole?_mul wordNew exactNew))]

end Direction

end Divisibility

open Divisibility

/-- The row of a divisor that takes the place of another, where doubles hold both. Unless the new
divisor is close to a multiple of the old one without being one, the row says whether it is a
multiple, and if not whether the two have a factor in common. One that is close counts as a
multiple. -/
theorem rule?_multipleOf (engine : RuleEngine) (path : Path) {old new : Nat}
    {wordOld : Number.IsWord old} {wordNew : Number.IsWord new} (hold : 0 < old) (hnew : 0 < new)
    (exactOld : (Number.integer old wordOld).IsExact)
    (exactNew : (Number.integer new wordNew).IsExact) :
    let row := engine.rule? (.modified path .multipleOf (.number (.integer old wordOld))
      (.number (.integer new wordNew)))
    (Separated old new →
      (row = some (.multipleOf, .multiple) ↔ old ∣ new) ∧
      (row = some (.multipleOf, .commonFactor) ↔ ¬old ∣ new ∧ 1 < Nat.gcd old new) ∧
      (row = some (.multipleOf, .noCommonFactor) ↔ Nat.gcd old new = 1 ∧ ¬old ∣ new)) ∧
    (Near old new → row = some (.multipleOf, .multiple)) := by
  intro row
  have smallOld : old < 2 ^ 64 := by exact_mod_cast wordOld.2
  have smallNew : new < 2 ^ 64 := by exact_mod_cast wordNew.2
  have told : row = some (.multipleOf, if isMultiple (old * Binary64.one) (new * Binary64.one)
      then .multiple else if 1 < Nat.gcd old new then .commonFactor else .noCommonFactor) := by
    rw [← direction_mul hold hnew smallOld smallNew (isExact_iff.mp exactOld)
      (isExact_iff.mp exactNew), Nat.cast_mul, Nat.cast_mul]
    change some (RuleCategory.multipleOf, direction (Number.integer old wordOld).signedUnits
      (Number.integer new wordNew).signedUnits) = _
    rw [exactOld, exactNew]
    rfl
  have whole (separated : Separated old new) :
      isMultiple (old * Binary64.one) (new * Binary64.one) = true ↔ old ∣ new :=
    ⟨dvd_of_isMultiple hold smallOld hnew separated,
      isMultiple_of_dvd hnew smallNew (isExact_iff.mp exactNew)⟩
  have close := isMultiple_of_near hold smallOld hnew smallNew
  generalize isMultiple (old * Binary64.one) (new * Binary64.one) = counts at told whole close
  rw [told]
  constructor
  · intro separated
    have positive : 0 < Nat.gcd old new := Nat.gcd_pos_of_pos_left _ hold
    by_cases divides : old ∣ new
    · rw [if_pos ((whole separated).mpr divides)]
      simp [divides]
    · rw [if_neg (mt (whole separated).mp divides)]
      split_ifs with shared
      · simp [divides, shared, shared.ne']
      · simp [divides, shared]
        omega
  · intro near
    rw [if_pos (close near)]

/-- A multiple, a common factor, and a divisor that only comes close. -/
theorem rule?_multipleOf_steps :
    let engine : RuleEngine := { patterns := Pattern.bestEffort }
    let steps (old new : Nat) (wordOld : Number.IsWord old) (wordNew : Number.IsWord new) :=
      engine.rule? (.modified [] .multipleOf (.number (.integer old wordOld))
        (.number (.integer new wordNew)))
    (Separated 12 1000000000000008 ∧ 12 ∣ 1000000000000008 ∧
      steps 12 1000000000000008 (by decide) (by decide) = some (.multipleOf, .multiple)) ∧
    (Separated 12 18 ∧ (¬12 ∣ 18 ∧ 1 < Nat.gcd 12 18) ∧
      steps 12 18 (by decide) (by decide) = some (.multipleOf, .commonFactor)) ∧
    (Near 10000000000 10000000001 ∧
      steps 10000000000 10000000001 (by decide) (by decide) = some (.multipleOf, .multiple)) := by
  intro engine steps
  have told {old new : Nat} (hold : 0 < old) (hnew : 0 < new) (small : old < 2 ^ 53)
      (small' : new < 2 ^ 53) (wordOld : Number.IsWord old) (wordNew : Number.IsWord new) :=
    rule?_multipleOf engine [] hold hnew (Number.isExact_integer small wordOld)
      (Number.isExact_integer small' wordNew)
  refine ⟨⟨?_, ?_, ?_⟩, ⟨?_, ?_, ?_⟩, ?_, ?_⟩
  · exact separated_of_small (by decide) (by decide)
  · decide
  · exact ((told (by decide) (by decide) (by decide) (by decide) _ _).1
      (separated_of_small (by decide) (by decide))).1.mpr (by decide)
  · exact separated_of_small (by decide) (by decide)
  · decide
  · exact ((told (by decide) (by decide) (by decide) (by decide) _ _).1
      (separated_of_small (by decide) (by decide))).2.1.mpr (by decide)
  · exact ⟨1, by decide, by norm_num⟩
  · exact (told (by decide) (by decide) (by decide) (by decide) _ _).2 ⟨1, by decide, by norm_num⟩

/-- A great divisor counts as a multiple of the one next to it, and a great multiple that no double
holds does not count as one. -/
theorem multiples_not_by_divisibility :
    let engine : RuleEngine := { patterns := Pattern.bestEffort }
    let steps (old new : Nat) (wordOld : Number.IsWord old) (wordNew : Number.IsWord new) :=
      engine.rule? (.modified [] .multipleOf (.number (.integer old wordOld))
        (.number (.integer new wordNew)))
    (¬10000000000 ∣ 10000000001 ∧ Nat.gcd 10000000000 10000000001 = 1 ∧
      steps 10000000000 10000000001 (by decide) (by decide) = some (.multipleOf, .multiple)) ∧
    (642 ∣ 18014398509481986 ∧
      steps 642 18014398509481986 (by decide) (by decide) = some (.multipleOf, .commonFactor)) := by
  decide +kernel

end SchemaEvolution
