import Mathlib
import SchemaEvolution.Proofs.WholeUnits

/-! # Rounding keeps the order

A number has no greater double than a greater number has. So wherever two doubles differ, the
numbers that they were rounded from differ the same way.
-/

namespace SchemaEvolution

namespace Binary64

theorem div_le_roundHalfEven (numerator denominator : Nat) :
    numerator / denominator ≤ roundHalfEven numerator denominator := by
  unfold roundHalfEven
  dsimp only
  split_ifs <;> omega

theorem roundHalfEven_le_succ (numerator denominator : Nat) :
    roundHalfEven numerator denominator ≤ numerator / denominator + 1 := by
  unfold roundHalfEven
  dsimp only
  split_ifs <;> omega

theorem roundHalfEven_mono {a b : Nat} (le : a ≤ b) (denominator : Nat) :
    roundHalfEven a denominator ≤ roundHalfEven b denominator := by
  have quotients : a / denominator ≤ b / denominator := Nat.div_le_div_right le
  rcases quotients.lt_or_eq with apart | same
  · have below := roundHalfEven_le_succ a denominator
    have above := div_le_roundHalfEven b denominator
    omega
  · have rests : a % denominator ≤ b % denominator := by
      have splitA := Nat.div_add_mod a denominator
      have splitB := Nat.div_add_mod b denominator
      rw [same] at splitA
      omega
    unfold roundHalfEven
    rw [same]
    dsimp only
    split_ifs <;> omega

theorem roundUnits_one (units : Nat) :
    roundUnits units 1 = roundHalfEven units (spacing units) * spacing units := by
  simp only [roundUnits, Nat.div_one, Nat.one_mul]

theorem spacing_dvd_pow {units bits : Nat} (fine : units.log2 ≤ bits) :
    spacing units ∣ 2 ^ bits :=
  Nat.pow_dvd_pow 2 (by omega)

theorem roundHalfEven_of_dvd {units step : Nat} (positive : 0 < step) (exact : step ∣ units) :
    roundHalfEven units step * step = units := by
  obtain ⟨quotient, rfl⟩ := exact
  rw [Nat.mul_comm step, roundHalfEven_mul positive]

theorem roundUnits_le_pow {units : Nat} : roundUnits units 1 ≤ 2 ^ (units.log2 + 1) := by
  rw [roundUnits_one]
  calc roundHalfEven units (spacing units) * spacing units
      ≤ roundHalfEven (2 ^ (units.log2 + 1)) (spacing units) * spacing units :=
        Nat.mul_le_mul_right _ (roundHalfEven_mono Nat.lt_log2_self.le _)
    _ = 2 ^ (units.log2 + 1) :=
        roundHalfEven_of_dvd (spacing_pos _) (spacing_dvd_pow (Nat.le_succ _))

theorem pow_le_roundUnits {units : Nat} (positive : units ≠ 0) :
    2 ^ units.log2 ≤ roundUnits units 1 := by
  rw [roundUnits_one]
  calc 2 ^ units.log2
      = roundHalfEven (2 ^ units.log2) (spacing units) * spacing units :=
        (roundHalfEven_of_dvd (spacing_pos _) (spacing_dvd_pow le_rfl)).symm
    _ ≤ roundHalfEven units (spacing units) * spacing units :=
        Nat.mul_le_mul_right _ (roundHalfEven_mono (Nat.log2_self_le positive) _)

theorem log2_mono {a b : Nat} (le : a ≤ b) : a.log2 ≤ b.log2 := by
  rw [Nat.log2_eq_log_two, Nat.log2_eq_log_two]
  exact Nat.log_mono_right le

theorem roundUnits_mono {a b : Nat} (le : a ≤ b) : roundUnits a 1 ≤ roundUnits b 1 := by
  rcases (log2_mono le).lt_or_eq with apart | same
  · -- A power of two lies between the two numbers, and neither passes it.
    have positive : b ≠ 0 := by
      rintro rfl
      simp at apart
    calc roundUnits a 1 ≤ 2 ^ (a.log2 + 1) := roundUnits_le_pow
      _ ≤ 2 ^ b.log2 := Nat.pow_le_pow_right two_pos apart
      _ ≤ roundUnits b 1 := pow_le_roundUnits positive
  · rw [roundUnits_one, roundUnits_one, show spacing a = spacing b by rw [spacing, spacing, same]]
    exact Nat.mul_le_mul_right _ (roundHalfEven_mono le _)

/-- A signed unit count rounded to that of a double. -/
def roundSigned (units : Int) : Int :=
  if units < 0 then -(roundUnits units.natAbs 1 : Int) else roundUnits units.natAbs 1

theorem roundSigned_mono {a b : Int} (le : a ≤ b) : roundSigned a ≤ roundSigned b := by
  unfold roundSigned
  rcases lt_or_ge a 0 with negA | posA <;> rcases lt_or_ge b 0 with negB | posB
  · rw [if_pos negA, if_pos negB, neg_le_neg_iff, Nat.cast_le]
    exact roundUnits_mono (by omega)
  · rw [if_pos negA, if_neg posB.not_gt]
    omega
  · omega
  · rw [if_neg posA.not_gt, if_neg posB.not_gt, Nat.cast_le]
    exact roundUnits_mono (by omega)

theorem unitsOfInt_eq_roundSigned (n : Int) : unitsOfInt n = roundSigned (n * one) := by
  have sign : n * one < 0 ↔ n < 0 := by
    have positive : (0 : Int) < one := by exact_mod_cast one_pos
    constructor
    · intro negative
      by_contra nonnegative
      exact absurd negative (Int.mul_nonneg (by omega) positive.le).not_gt
    · exact fun negative => Int.mul_neg_of_neg_of_pos negative positive
  simp only [unitsOfInt, roundSigned, sign, Int.natAbs_mul, Int.natAbs_natCast]

theorem roundSigned_signedUnits (x : Binary64) : roundSigned x.signedUnits = x.signedUnits := by
  have exact : roundUnits x.units 1 = x.units :=
    roundUnits_of_dvd (Nat.dvd_of_mod_eq_zero x.representable.2)
  have zero : roundUnits 0 1 = 0 := roundUnits_of_dvd (Nat.dvd_zero _)
  unfold roundSigned signedUnits
  split_ifs with negative below below <;> simp only [Int.natAbs_neg, Int.natAbs_natCast] at * <;>
    omega

end Binary64

namespace Number

def units : Number → Int
  | .integer n _ => n * Binary64.one
  | .double x => x.signedUnits

def value (n : Number) : ℚ := n.units / Binary64.one

theorem signedUnits_eq_roundSigned (n : Number) : n.signedUnits = Binary64.roundSigned n.units := by
  cases n with
  | integer n bounded => exact Binary64.unitsOfInt_eq_roundSigned n
  | double x => exact (Binary64.roundSigned_signedUnits x).symm

theorem value_le_iff {m n : Number} : m.value ≤ n.value ↔ m.units ≤ n.units := by
  have positive : (0 : ℚ) < Binary64.one := by exact_mod_cast Binary64.one_pos
  rw [value, value, div_le_div_iff_of_pos_right positive, Int.cast_le]

theorem value_lt_of_signedUnits_lt {m n : Number} (less : m.signedUnits < n.signedUnits) :
    m.value < n.value := by
  rw [← not_le, value_le_iff]
  intro le
  have rounded := Binary64.roundSigned_mono le
  rw [← signedUnits_eq_roundSigned, ← signedUnits_eq_roundSigned] at rounded
  omega

end Number

end SchemaEvolution
