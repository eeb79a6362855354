import Mathlib
import SchemaEvolution.Json.Basic

/-! # Whole numbers as doubles

A whole number of at most 53 bits is a double, so rounding leaves it as it is.
-/

namespace SchemaEvolution

namespace Binary64

theorem spacing_pos (units : Nat) : 0 < spacing units := Nat.two_pow_pos _

theorem roundHalfEven_mul {quotient denominator : Nat} (positive : 0 < denominator) :
    roundHalfEven (quotient * denominator) denominator = quotient := by
  unfold roundHalfEven
  simp [Nat.mul_div_cancel _ positive, positive]

theorem roundUnits_of_dvd {units : Nat} (exact : spacing units ∣ units) :
    roundUnits units 1 = units := by
  obtain ⟨quotient, same⟩ := exact
  simp only [roundUnits, Nat.div_one, Nat.one_mul]
  have positive := spacing_pos units
  generalize spacing units = step at same positive ⊢
  rw [same, Nat.mul_comm step quotient, roundHalfEven_mul positive]

theorem lowBits_dvd {n : Nat} (small : n < 2 ^ 53) (shift : Nat) :
    Nat.pow 2 ((n * Nat.pow 2 shift).log2 - 52) ∣ n * Nat.pow 2 shift := by
  change 2 ^ ((n * 2 ^ shift).log2 - 52) ∣ n * 2 ^ shift
  rcases Nat.eq_zero_or_pos n with rfl | positive
  · rw [Nat.zero_mul]
    exact Nat.dvd_zero _
  · have below : n * 2 ^ shift < 2 ^ (53 + shift) := by
      rw [Nat.pow_add]
      exact Nat.mul_lt_mul_of_pos_right small (Nat.two_pow_pos shift)
    have bits : (n * 2 ^ shift).log2 < 53 + shift :=
      (Nat.log2_lt (Nat.mul_pos positive (Nat.two_pow_pos shift)).ne').mpr below
    exact (Nat.pow_dvd_pow 2 (by omega)).trans (Nat.dvd_mul_left _ _)

theorem one_eq_pow : ∃ shift, one = Nat.pow 2 shift ∧ shift = 1074 := by
  unfold one
  exact ⟨_, rfl, rfl⟩

theorem one_pos : 0 < one := by
  obtain ⟨shift, same, _⟩ := one_eq_pow
  rw [same]
  exact Nat.two_pow_pos shift

theorem spacing_dvd {n : Nat} (small : n < 2 ^ 53) : spacing (n * one) ∣ n * one := by
  obtain ⟨shift, same, _⟩ := one_eq_pow
  rw [same]
  exact lowBits_dvd small shift

theorem unitsOfInt_eq {n : Int} (nonnegative : 0 ≤ n) (small : n < 2 ^ 53) :
    unitsOfInt n = n * one := by
  obtain ⟨m, rfl⟩ := Int.eq_ofNat_of_zero_le nonnegative
  have fits : m < 2 ^ 53 := by exact_mod_cast small
  unfold unitsOfInt
  rw [if_neg (not_lt.mpr nonnegative), Int.natAbs_natCast, roundUnits_of_dvd (spacing_dvd fits)]
  exact Int.natCast_mul m one

end Binary64

theorem Number.signedUnits_whole {n : Nat} (small : n < 2 ^ 53) (bounded : IsWord n) :
    (integer n bounded).signedUnits = n * (Binary64.one : Int) :=
  Binary64.unitsOfInt_eq (Int.natCast_nonneg n) (by exact_mod_cast small)

/-- Whole numbers of at most 53 bits are ordered as their doubles are. -/
theorem Number.signedUnits_lt_iff {m n : Nat} (hm : m < 2 ^ 53) (hn : n < 2 ^ 53)
    {boundedOld : IsWord m} {boundedNew : IsWord n} :
    (integer m boundedOld).signedUnits < (integer n boundedNew).signedUnits ↔ m < n := by
  rw [signedUnits_whole hm, signedUnits_whole hn,
    Int.mul_lt_mul_right (by exact_mod_cast Binary64.one_pos), Nat.cast_lt]

theorem Number.signedUnits_eq_iff {m n : Nat} (hm : m < 2 ^ 53) (hn : n < 2 ^ 53)
    {boundedOld : IsWord m} {boundedNew : IsWord n} :
    (integer m boundedOld).signedUnits = (integer n boundedNew).signedUnits ↔ m = n := by
  have below := @signedUnits_lt_iff m n hm hn boundedOld boundedNew
  have above := @signedUnits_lt_iff n m hn hm boundedNew boundedOld
  omega

end SchemaEvolution
