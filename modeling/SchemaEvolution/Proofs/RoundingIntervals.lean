import Mathlib
import SchemaEvolution.Number.Shortest
import SchemaEvolution.Proofs.Rounding

/-! # The numbers that round to a double

A number rounds to a double exactly if it lies no further from it than half way to its neighbours.
Below a power of two the doubles are twice as dense as above it, so a number that rounds to one may
lie in the binade below, where the spacing is another.
-/

namespace SchemaEvolution

namespace Binary64

theorem roundHalfEven_eq {numerator denominator nearest : Nat} (positive : 0 < denominator)
    (lower : 2 * (nearest * denominator) ≤ 2 * numerator + denominator)
    (upper : 2 * numerator ≤ 2 * (nearest * denominator) + denominator)
    (tie : 2 * (nearest * denominator) = 2 * numerator + denominator ∨
      2 * numerator = 2 * (nearest * denominator) + denominator → nearest % 2 = 0) :
    roundHalfEven numerator denominator = nearest := by
  have split : denominator * (numerator / denominator) + numerator % denominator = numerator :=
    Nat.div_add_mod numerator denominator
  have rest := Nat.mod_lt numerator positive
  unfold roundHalfEven
  generalize numerator / denominator = quotient at split ⊢
  generalize numerator % denominator = left at split rest ⊢
  have cases : nearest = quotient ∨ nearest = quotient + 1 := by
    have below : denominator * nearest < denominator * (quotient + 2) := by
      rw [Nat.mul_comm nearest] at lower
      rw [Nat.mul_add]
      omega
    have above : denominator * quotient < denominator * (nearest + 1) := by
      rw [Nat.mul_comm nearest] at upper
      rw [Nat.mul_add]
      omega
    have := Nat.lt_of_mul_lt_mul_left below
    have := Nat.lt_of_mul_lt_mul_left above
    omega
  rcases cases with rfl | rfl
  · rw [Nat.mul_comm nearest] at lower upper tie
    dsimp only
    split_ifs <;> omega
  · rw [Nat.mul_comm (quotient + 1), Nat.mul_add] at lower upper tie
    dsimp only
    split_ifs <;> omega

section Interval

variable {units numerator denominator : Nat}

theorem spacing_le (positive : 0 < units) : spacing units ≤ units :=
  (Nat.pow_le_pow_right two_pos (Nat.sub_le _ _)).trans (Nat.log2_self_le positive.ne')

theorem spacing_of_pow {exponent : Nat} (lower : 2 ^ exponent ≤ units)
    (upper : units < 2 ^ (exponent + 1)) : spacing units = 2 ^ (exponent - 52) := by
  have nonzero : units ≠ 0 := ((Nat.two_pow_pos exponent).trans_le lower).ne'
  rw [spacing, (Nat.log2_eq_iff nonzero).mpr ⟨lower, upper⟩]
  rfl

/-- The distance to the double below. -/
def gapBelow (units : Nat) : Nat :=
  if 1 < spacing units ∧ units % (spacing units * 2 ^ 52) = 0 then spacing units / 2
  else spacing units

theorem gapBelow_le (units : Nat) : gapBelow units ≤ spacing units := by
  unfold gapBelow
  split_ifs
  · exact Nat.div_le_self _ _
  · exact le_rfl

theorem gapBelow_pos (units : Nat) : 0 < gapBelow units := by
  have := spacing_pos units
  unfold gapBelow
  split_ifs <;> omega

theorem low_roundingInterval (units : Nat) :
    (roundingInterval units).low = 4 * units - 2 * gapBelow units := by
  simp [roundingInterval, gapBelow]

/-- The number lies at most half way from the double to either neighbour, and half way only if the
double has an even significand. -/
structure Near (units numerator denominator : Nat) : Prop where
  lower : 2 * (units * denominator) ≤ 2 * numerator + gapBelow units * denominator
  upper : 2 * numerator ≤ 2 * (units * denominator) + spacing units * denominator
  tie : 2 * (units * denominator) = 2 * numerator + gapBelow units * denominator ∨
    2 * numerator = 2 * (units * denominator) + spacing units * denominator →
      units / spacing units % 2 = 0

theorem near_of_has (positive : 0 < units)
    (inside : (roundingInterval units).has numerator denominator = true) :
    Near units numerator denominator := by
  have room : gapBelow units ≤ units := (gapBelow_le units).trans (spacing_le positive)
  have high : (roundingInterval units).high = 4 * units + 2 * spacing units := rfl
  have closed : (roundingInterval units).closed = decide (units / spacing units % 2 = 0) := rfl
  have lowPoint : (4 * units - 2 * gapBelow units) * denominator =
      4 * (units * denominator) - 2 * (gapBelow units * denominator) := by
    rw [Nat.sub_mul, Nat.mul_assoc, Nat.mul_assoc]
  have highPoint : (4 * units + 2 * spacing units) * denominator =
      4 * (units * denominator) + 2 * (spacing units * denominator) := by
    rw [Nat.add_mul, Nat.mul_assoc, Nat.mul_assoc]
  unfold RoundingInterval.has at inside
  rw [low_roundingInterval, high, closed, lowPoint, highPoint] at inside
  dsimp only at inside
  split_ifs at inside with even
  · simp only [decide_eq_true_eq] at even
    simp only [Bool.and_eq_true, decide_eq_true_eq] at inside
    exact ⟨by omega, by omega, fun _ => even⟩
  · simp only [Bool.and_eq_true, decide_eq_true_eq] at inside
    exact ⟨by omega, by omega, by omega⟩

theorem roundUnits_of_near {step : Nat} (positive : 0 < denominator)
    (same : spacing (numerator / denominator) = step) (exact : step ∣ units)
    (lower : 2 * (units * denominator) ≤ 2 * numerator + step * denominator)
    (upper : 2 * numerator ≤ 2 * (units * denominator) + step * denominator)
    (tie : 2 * (units * denominator) = 2 * numerator + step * denominator ∨
      2 * numerator = 2 * (units * denominator) + step * denominator → units / step % 2 = 0) :
    roundUnits numerator denominator = units := by
  obtain ⟨significand, rfl⟩ := exact
  have room : 0 < step := same ▸ spacing_pos _
  rw [Nat.mul_div_cancel_left significand room] at tie
  unfold roundUnits
  dsimp only
  rw [same]
  have point : step * significand * denominator = significand * (denominator * step) := by
    rw [Nat.mul_comm step, Nat.mul_assoc, Nat.mul_comm step]
  rw [point, Nat.mul_comm step denominator] at lower upper tie
  rw [roundHalfEven_eq (Nat.mul_pos positive room) lower upper tie, Nat.mul_comm]

namespace Near

theorem roundUnits_of_same (near : Near units numerator denominator) (positive : 0 < denominator)
    (exact : spacing units ∣ units)
    (same : spacing (numerator / denominator) = spacing units) :
    roundUnits numerator denominator = units := by
  have below := Nat.mul_le_mul_right denominator (gapBelow_le units)
  obtain ⟨lower, upper, tie⟩ := near
  refine roundUnits_of_near positive same exact (by omega) upper ?_
  rintro (half | half)
  · exact tie (.inl (by omega))
  · exact tie (.inr half)

theorem add_le_of_dvd {step a b : Nat} (first : step ∣ a) (second : step ∣ b) (less : a < b) :
    a + step ≤ b := by
  have apart : step ∣ b - a := Nat.dvd_sub second first
  have := Nat.le_of_dvd (by omega) apart
  omega

theorem div_lt_pow (near : Near units numerator denominator) (positive : 0 < denominator)
    (exact : spacing units ∣ units) : numerator / denominator < 2 ^ (units.log2 + 1) := by
  have room : units + spacing units ≤ 2 ^ (units.log2 + 1) :=
    add_le_of_dvd exact (spacing_dvd_pow (Nat.le_succ _)) Nat.lt_log2_self
  have scaled := Nat.mul_le_mul_right denominator room
  have gap := Nat.mul_pos (spacing_pos units) positive
  rw [Nat.add_mul] at scaled
  have upper := near.upper
  rw [Nat.div_lt_iff_lt_mul positive]
  omega

theorem eq_pow_of_div_lt (near : Near units numerator denominator) (positive : 0 < denominator)
    (nonzero : units ≠ 0) (exact : spacing units ∣ units)
    (below : numerator / denominator < 2 ^ units.log2) (coarse : 1 < spacing units) :
    units = 2 ^ units.log2 ∧ gapBelow units = spacing units / 2 := by
  have deep : 52 < units.log2 := by
    by_contra shallow
    have fine : spacing units = 1 := by
      rw [spacing, Nat.sub_eq_zero_of_le (not_lt.mp shallow)]
    omega
  have binade : spacing units * 2 ^ 52 = 2 ^ units.log2 := by
    change 2 ^ (units.log2 - 52) * 2 ^ 52 = _
    rw [← Nat.pow_add, Nat.sub_add_cancel deep.le]
  have bottom := Nat.log2_self_le nonzero
  have top : units < 2 * 2 ^ units.log2 := by
    rw [← Nat.pow_succ']
    exact Nat.lt_log2_self
  have lower := near.lower
  rw [Nat.div_lt_iff_lt_mul positive] at below
  by_cases aligned : units % (spacing units * 2 ^ 52) = 0
  · have gap : gapBelow units = spacing units / 2 := if_pos ⟨coarse, aligned⟩
    refine ⟨?_, gap⟩
    rw [binade] at aligned
    obtain ⟨multiple, same⟩ := Nat.dvd_of_mod_eq_zero aligned
    have one : multiple = 1 := by
      have some : multiple ≠ 0 := by
        rintro rfl
        omega
      have few : multiple < 2 := by
        by_contra many
        have := Nat.mul_le_mul_left (2 ^ units.log2) (not_lt.mp many)
        omega
      omega
    rw [one, Nat.mul_one] at same
    exact same
  · exfalso
    have gap : gapBelow units = spacing units := if_neg fun h => aligned h.2
    have apart : 2 ^ units.log2 ≠ units := by
      intro same
      rw [binade, same] at aligned
      simp at aligned
    have far := add_le_of_dvd (spacing_dvd_pow le_rfl) exact (bottom.lt_of_ne apart)
    have scaled := Nat.mul_le_mul_right denominator far
    rw [Nat.add_mul] at scaled
    rw [gap] at lower
    omega

/-- Where the number lies in the binade below, the double is a power of two. -/
theorem roundUnits_of_below (near : Near units numerator denominator) (positive : 0 < denominator)
    (nonzero : units ≠ 0) (exact : spacing units ∣ units)
    (below : numerator / denominator < 2 ^ units.log2) (coarse : 1 < spacing units) :
    roundUnits numerator denominator = units := by
  obtain ⟨power, gap⟩ := near.eq_pow_of_div_lt positive nonzero exact below coarse
  obtain ⟨lower, -, -⟩ := near
  rw [gap] at lower
  rw [Nat.div_lt_iff_lt_mul positive] at below
  generalize bits : units.log2 = exponent at *
  obtain ⟨rest, rfl⟩ : ∃ rest, exponent = rest + 53 := by
    refine ⟨exponent - 53, ?_⟩
    by_contra shallow
    have fine : spacing units = 1 := by
      rw [spacing, bits, Nat.sub_eq_zero_of_le (by omega)]
    omega
  have half : spacing units / 2 = 2 ^ rest := by
    rw [spacing, bits]
    change 2 ^ (rest + 53 - 52) / 2 = 2 ^ rest
    rw [show rest + 53 - 52 = rest + 1 by omega, Nat.pow_succ, Nat.mul_div_cancel _ two_pos]
  have whole : units = 2 ^ rest * 2 ^ 53 := by rw [power, Nat.pow_add]
  rw [half] at lower
  have same : spacing (numerator / denominator) = 2 ^ rest := by
    have gap : 2 ^ rest * denominator ≤ 2 ^ (rest + 53) * denominator :=
      Nat.mul_le_mul_right _ (Nat.pow_le_pow_right two_pos (Nat.le_add_right _ _))
    have above : 2 ^ (rest + 52) ≤ numerator / denominator := by
      have double : 2 ^ (rest + 53) * denominator = 2 * (2 ^ (rest + 52) * denominator) := by
        rw [Nat.pow_succ', Nat.mul_assoc]
      rw [power] at lower
      rw [Nat.le_div_iff_mul_le positive]
      omega
    rw [spacing_of_pow above ((Nat.div_lt_iff_lt_mul positive).mpr below), Nat.add_sub_cancel]
  refine roundUnits_of_near positive same ⟨2 ^ 53, whole⟩ lower ?_ ?_
  · rw [power]
    omega
  · intro _
    rw [whole, Nat.mul_div_cancel_left _ (Nat.two_pow_pos rest)]
    decide

end Near

/-- A number in the interval of a double rounds to it. -/
theorem roundUnits_of_has (representable : Representable units) (nonzero : units ≠ 0)
    (positive : 0 < denominator)
    (inside : (roundingInterval units).has numerator denominator = true) :
    roundUnits numerator denominator = units := by
  have near := near_of_has (Nat.pos_of_ne_zero nonzero) inside
  have exact : spacing units ∣ units := Nat.dvd_of_mod_eq_zero representable.2
  by_cases below : numerator / denominator < 2 ^ units.log2
  · by_cases coarse : 1 < spacing units
    · exact near.roundUnits_of_below positive nonzero exact below coarse
    · have fine : spacing units = 1 := by
        have := spacing_pos units
        omega
      have bits := log2_mono below.le
      rw [Nat.log2_two_pow] at bits
      refine near.roundUnits_of_same positive exact (Nat.le_antisymm ?_ ?_)
      · exact Nat.pow_le_pow_right two_pos (Nat.sub_le_sub_right bits 52)
      · rw [fine]
        exact spacing_pos _
  · exact near.roundUnits_of_same positive exact
      (spacing_of_pow (not_lt.mp below) (near.div_lt_pow positive exact))

end Interval

end Binary64

end SchemaEvolution
