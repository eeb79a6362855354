import Mathlib
import SchemaEvolution.Proofs.ShortestDigits

/-! # The double nearest to a decimal

`Decimal.nearest?` decides decimals far beyond the doubles by the place of their leading digit alone.
It agrees there with what rounding the exact value would give.
-/

namespace SchemaEvolution

namespace Binary64

theorem pow_le_roundUnits_div {numerator denominator power : Nat}
    (large : 2 ^ power ≤ numerator / denominator) :
    2 ^ power ≤ roundUnits numerator denominator := by
  have nonzero : numerator / denominator ≠ 0 := ((Nat.two_pow_pos power).trans_le large).ne'
  have bits : power ≤ (numerator / denominator).log2 := by
    rw [Nat.le_log2 nonzero]
    exact large
  obtain ⟨share, same⟩ : spacing (numerator / denominator) ∣ 2 ^ (numerator / denominator).log2 :=
    spacing_dvd_pow le_rfl
  have room := spacing_pos (numerator / denominator)
  calc 2 ^ power ≤ 2 ^ (numerator / denominator).log2 := Nat.pow_le_pow_right two_pos bits
    _ = share * spacing (numerator / denominator) := by rw [same, Nat.mul_comm]
    _ ≤ numerator / denominator / spacing (numerator / denominator) *
          spacing (numerator / denominator) := by
        apply Nat.mul_le_mul_right
        rw [Nat.le_div_iff_mul_le room, Nat.mul_comm, ← same]
        exact Nat.log2_self_le nonzero
    _ ≤ roundUnits numerator denominator := by
        rw [Nat.div_div_eq_div_mul]
        exact Nat.mul_le_mul_right _ (div_le_roundHalfEven _ _)

theorem roundUnits_eq_zero {numerator denominator : Nat} (small : 2 * numerator < denominator) :
    roundUnits numerator denominator = 0 := by
  have none : numerator / denominator = 0 := Nat.div_eq_of_lt (by omega)
  have fine : spacing 0 = 1 := rfl
  unfold roundUnits roundHalfEven
  simp only [none, fine, Nat.mul_one, Nat.mod_eq_of_lt (show numerator < denominator by omega),
    if_pos small]

end Binary64

namespace Decimal

open Binary64

/-- What the decimal stands for, but for its sign. -/
def magnitude (d : Decimal) : ℚ := d.significand * 10 ^ d.scale

theorem digitValue_le {c : Char} (isDigit : c.isDigit = true) : digitValue c ≤ 9 := by
  have digit : 48 ≤ c.toNat ∧ c.toNat ≤ 57 := by
    simpa [Char.isDigit, UInt32.le_iff_toNat_le] using isDigit
  have zero : '0'.toNat = 48 := rfl
  unfold digitValue
  omega

theorem value_lt_pow {text : List Char} (isDigit : ∀ c ∈ text, c.isDigit = true) :
    value text < 10 ^ text.length := by
  induction text using List.reverseRecOn with
  | nil => exact Nat.one_pos
  | append_singleton text c ih =>
      have here := digitValue_le (isDigit c (by simp))
      have front := ih fun d member => isDigit d (List.mem_append_left _ member)
      have last : value [c] = digitValue c := by simp [value]
      rw [value_append, last, List.length_append, List.length_singleton, pow_succ 10 text.length,
        pow_one]
      omega

theorem value_dropWhile (text : List Char) : value (text.dropWhile (· == '0')) = value text := by
  have zeros : ∀ c ∈ text.takeWhile (· == '0'), c = '0' := by
    intro c member
    simpa using List.mem_takeWhile_imp member
  have split : text.takeWhile (· == '0') ++ text.dropWhile (· == '0') = text :=
    List.takeWhile_append_dropWhile
  conv_rhs => rw [← split]
  rw [List.eq_replicate_of_mem zeros, value_append, value_replicate_zero, Nat.zero_mul,
    Nat.zero_add]

theorem pow_le_value {first : Char} {rest : List Char} (isDigit : first.isDigit = true)
    (nonzero : first ≠ '0') : 10 ^ rest.length ≤ value (first :: rest) := by
  have counts : 1 ≤ value [first] := by
    have digit : 48 ≤ first.toNat := by
      simpa [Char.isDigit, UInt32.le_iff_toNat_le] using (Bool.and_eq_true_iff.mp isDigit).1
    have zero : '0'.toNat = 48 := rfl
    have other : first.toNat ≠ 48 := fun same => nonzero (Char.toNat_inj.mp same)
    have last : value [first] = digitValue first := by simp [value]
    rw [last, digitValue]
    omega
  rw [← List.singleton_append, value_append]
  calc 10 ^ rest.length = 1 * 10 ^ rest.length := (Nat.one_mul _).symm
    _ ≤ value [first] * 10 ^ rest.length := Nat.mul_le_mul_right _ counts
    _ ≤ _ := Nat.le_add_right _ _

/-- The magnitude of a decimal that is not zero, between the powers of ten around its place. -/
theorem magnitude_bounds {d : Decimal} (isDigit : ∀ c ∈ d.whole ++ d.fraction, c.isDigit = true)
    (nonzero : d.significand ≠ 0) :
    (10 : ℚ) ^ (d.place - 1) ≤ d.magnitude ∧ d.magnitude < 10 ^ d.place := by
  have same : d.significand = value ((d.whole ++ d.fraction).dropWhile (· == '0')) :=
    (value_dropWhile _).symm
  rw [magnitude, place, same]
  rw [same] at nonzero
  have each : ∀ c ∈ (d.whole ++ d.fraction).dropWhile (· == '0'), c.isDigit = true :=
    fun c member => isDigit c ((List.dropWhile_sublist _).mem member)
  have first := List.head?_dropWhile_not (· == '0') (d.whole ++ d.fraction)
  generalize (d.whole ++ d.fraction).dropWhile (· == '0') = digits at *
  have scaled : (0 : ℚ) < 10 ^ d.scale := zpow_pos (by norm_num) _
  have top : (10 : ℚ) ^ (d.scale + digits.length) = 10 ^ digits.length * 10 ^ d.scale := by
    rw [zpow_add₀ (by norm_num), zpow_natCast, mul_comm]
  cases digits with
  | nil => exact absurd rfl nonzero
  | cons c rest =>
      have other : c ≠ '0' := by simpa using first
      constructor
      · have bottom : (10 : ℚ) ^ (d.scale + (c :: rest).length - 1) =
            10 ^ rest.length * 10 ^ d.scale := by
          rw [List.length_cons, Nat.cast_succ, ← add_assoc, add_sub_cancel_right,
            zpow_add₀ (by norm_num), zpow_natCast, mul_comm]
        rw [bottom]
        apply mul_le_mul_of_nonneg_right _ scaled.le
        exact_mod_cast pow_le_value (each c List.mem_cons_self) other
      · rw [top]
        apply mul_lt_mul_of_pos_right _ scaled
        exact_mod_cast value_lt_pow each

theorem two_pow_le (places : Nat) : 2 ^ (3 * places) ≤ 10 ^ places := by
  rw [pow_mul]
  exact Nat.pow_le_pow_left (by decide) places

theorem two_mul_one_le : ∃ places, 2 * one ≤ 10 ^ places ∧ places = 401 := by
  obtain ⟨shift, same, bits⟩ := one_eq_pow
  obtain ⟨places, few, same'⟩ : ∃ places, shift + 1 ≤ 3 * places ∧ places = 401 :=
    ⟨401, by omega, rfl⟩
  refine ⟨places, ?_, same'⟩
  calc 2 * one = 2 ^ (shift + 1) := by rw [same, pow_succ']; rfl
    _ ≤ 2 ^ (3 * places) := Nat.pow_le_pow_right two_pos few
    _ ≤ 10 ^ places := two_pow_le places

theorem limit_le : ∃ power places, limit = 2 ^ power ∧ 2 ^ power ≤ 10 ^ places * one ∧
    places = 400 := by
  obtain ⟨power, top, bits⟩ : ∃ power, limit = Nat.pow 2 power ∧ power = 2098 := by
    unfold limit
    exact ⟨_, rfl, rfl⟩
  obtain ⟨shift, same, bits'⟩ := one_eq_pow
  obtain ⟨places, few, same'⟩ : ∃ places, power ≤ 3 * places + shift ∧ places = 400 :=
    ⟨400, by omega, rfl⟩
  refine ⟨power, places, top, ?_, same'⟩
  calc 2 ^ power ≤ 2 ^ (3 * places + shift) := Nat.pow_le_pow_right two_pos few
    _ = 2 ^ (3 * places) * one := by rw [same, pow_add]; rfl
    _ ≤ 10 ^ places * one := Nat.mul_le_mul_right _ (two_pow_le places)

section Far

variable {d : Decimal} {numerator denominator unit places power : Nat}

theorem half_lt_of_far (small : 2 * unit ≤ 10 ^ places) (far : d.place ≤ -places)
    (upper : d.magnitude < 10 ^ d.place) (some : 0 < unit) (room : 0 < denominator)
    (point : (numerator : ℚ) / denominator = d.magnitude * unit) :
    2 * numerator < denominator := by
  have positive : (0 : ℚ) < unit := by exact_mod_cast some
  have wide : (0 : ℚ) < denominator := by exact_mod_cast room
  have tiny : d.magnitude < (10 ^ places)⁻¹ := by
    apply upper.trans_le
    rw [← zpow_natCast, ← zpow_neg]
    exact zpow_le_zpow_right₀ (by norm_num) far
  have doubled : (2 * unit : ℚ) ≤ 10 ^ places := by exact_mod_cast small
  have half : (numerator : ℚ) / denominator < 1 / 2 := by
    calc (numerator : ℚ) / denominator = d.magnitude * unit := point
      _ < (10 ^ places)⁻¹ * unit := by gcongr
      _ ≤ 1 / 2 := by
          rw [inv_mul_le_iff₀ (by positivity)]
          linarith
  rw [div_lt_div_iff₀ wide (by norm_num), one_mul] at half
  have less : (2 * numerator : ℚ) < denominator := by linarith
  exact_mod_cast less

theorem pow_le_of_far (large : 2 ^ power ≤ 10 ^ places * unit) (far : places < d.place)
    (lower : (10 : ℚ) ^ (d.place - 1) ≤ d.magnitude) (room : 0 < denominator)
    (point : (numerator : ℚ) / denominator = d.magnitude * unit) :
    2 ^ power ≤ roundUnits numerator denominator := by
  have wide : (0 : ℚ) < denominator := by exact_mod_cast room
  have huge : (10 : ℚ) ^ places ≤ d.magnitude := by
    refine le_trans ?_ lower
    rw [← zpow_natCast]
    exact zpow_le_zpow_right₀ (by norm_num) (by omega)
  have above : (2 : ℚ) ^ power ≤ numerator / denominator := by
    calc (2 : ℚ) ^ power ≤ 10 ^ places * unit := by exact_mod_cast large
      _ ≤ d.magnitude * unit := by gcongr
      _ = numerator / denominator := point.symm
  apply pow_le_roundUnits_div
  rw [Nat.le_div_iff_mul_le room]
  rw [le_div_iff₀ wide] at above
  exact_mod_cast above

end Far

theorem nearest?_of_rounds {d : Decimal} {units : Nat}
    (isDigit : ∀ c ∈ d.whole ++ d.fraction, c.isDigit = true)
    (representable : Representable units) (positive : 0 < units)
    (rounds : ∀ numerator denominator : Nat, 0 < denominator →
      (numerator : ℚ) / denominator = d.magnitude * one →
        roundUnits numerator denominator = units) :
    d.nearest? = some ⟨d.negative, units, representable⟩ := by
  have room := gridPoint_pos d.significand d.scale
  have point : ((gridPoint d.significand d.scale).1 : ℚ) / (gridPoint d.significand d.scale).2 =
      d.magnitude * one := by
    rw [gridPoint_eq, magnitude]
  have rounded := rounds _ _ room point
  have nonzero : d.significand ≠ 0 := by
    intro zero
    have none := rounds 0 1 Nat.one_pos (by
      rw [magnitude, zero, Nat.cast_zero, zero_mul, zero_mul, zero_div])
    rw [roundUnits_eq_zero (by decide)] at none
    omega
  obtain ⟨lower, upper⟩ := magnitude_bounds isDigit nonzero
  have near : ¬d.place < -400 := by
    intro far
    obtain ⟨places, small, same⟩ := two_mul_one_le
    have none := half_lt_of_far small (by omega) upper Binary64.one_pos room point
    rw [roundUnits_eq_zero none] at rounded
    omega
  have close : ¬400 < d.place := by
    intro far
    obtain ⟨power, places, top, large, same⟩ := limit_le
    have above := pow_le_of_far large (by omega) lower room point
    rw [rounded, ← top] at above
    exact absurd representable.1 above.not_gt
  have same : (if 0 ≤ d.scale then
      roundUnits (d.significand * Nat.pow 10 d.scale.toNat * one) 1
      else roundUnits (d.significand * one) (Nat.pow 10 (-d.scale).toNat)) = units := by
    rw [← rounded, gridPoint]
    split_ifs <;> rfl
  unfold nearest?
  rw [if_neg (by simp [nonzero, near]), if_neg close]
  dsimp only
  rw [same]
  exact dif_pos representable

end Decimal

end SchemaEvolution
