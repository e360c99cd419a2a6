import Intake.Proofs.Decimals

/-!
# Which decimals are cut down

Whether a decimal is cut down to an integer is decided without computing its value, by the number
of its digits less its scale. For a decimal other than zero that difference is where its first
digit stands (`Decimal.lt_digits_sub_scale_iff`), so the decimal is refused exactly if its integer
part has more than 1024 digits.

Zero has one digit, which stands nowhere in particular: behind a great exponent it is counted as if
zeros had to be appended to it. So there are zeros that are refused, and no other number is refused
without need (`Decimal.truncate?_by_magnitude`). All this is about decimals whose difference can be
counted (`Decimal.CountFits`).
-/

namespace Intake

/-- How many digits a number has before the point; below one it is the single digit zero. -/
def integerDigits (q : ℚ) : ℕ := (digitsOf (integerPart q).natAbs).length

/-- The integer part of a number reaches a power of ten exactly if the number does. -/
theorem pow_le_natAbs_integerPart_iff (q : ℚ) (n : ℕ) :
    10 ^ n ≤ (integerPart q).natAbs ↔ (10 : ℚ) ^ n ≤ |q| := by
  have hcut := cutsTo_integerPart q
  have habs : |(integerPart q : ℚ)| = ((integerPart q).natAbs : ℚ) := by
    rw [Nat.cast_natAbs, Int.cast_abs]
  constructor
  · intro h
    calc (10 : ℚ) ^ n ≤ ((integerPart q).natAbs : ℚ) := by exact_mod_cast h
      _ = |(integerPart q : ℚ)| := habs.symm
      _ ≤ |q| := hcut.abs_le
  · intro h
    -- Nothing lies between the integer part and the next integer, where the number is.
    have hlt : (10 : ℚ) ^ n < ((integerPart q).natAbs : ℚ) + 1 :=
      calc (10 : ℚ) ^ n ≤ |q| := h
        _ < |(integerPart q : ℚ)| + 1 := hcut.lt_abs_add_one
        _ = ((integerPart q).natAbs : ℚ) + 1 := by rw [habs]
    exact Nat.le_of_lt_succ (by exact_mod_cast hlt)

theorem lt_integerDigits_iff (q : ℚ) {n : ℕ} (hn : 0 < n) :
    n < integerDigits q ↔ (10 : ℚ) ^ n ≤ |q| := by
  rw [← pow_le_natAbs_integerPart_iff, integerDigits, ← not_le, length_digitsOf_le_iff hn, not_lt]

namespace Decimal

theorem pow_le_natAbs {d : Decimal} (h : d.int ≠ 0) : 10 ^ (d.digits - 1) ≤ d.int.natAbs := by
  rcases Nat.eq_zero_or_pos (d.digits - 1) with hone | hmore
  · rw [hone]
    exact Int.natAbs_pos.mpr h
  · refine Nat.le_of_not_lt fun hlt => ?_
    have hle : d.digits ≤ d.digits - 1 := (length_digitsOf_le_iff hmore).mpr hlt
    omega

/-- The digits of a decimal other than zero and its scale bound its value from below. -/
theorem pow_le_abs_value {d : Decimal} (h : d.int ≠ 0) :
    (10 : ℚ) ^ ((d.digits : ℤ) - 1 - d.scale) ≤ |d.value| := by
  have hpos := d.digits_pos
  have hcast : (d.digits : ℤ) - 1 = (d.digits - 1 : ℕ) := by omega
  have hint : (10 : ℚ) ^ ((d.digits : ℤ) - 1) ≤ d.int.natAbs := by
    rw [hcast, zpow_natCast]
    exact_mod_cast pow_le_natAbs h
  have hscale : (0 : ℚ) < 10 ^ (-d.scale) := zpow_pos (by norm_num) _
  calc (10 : ℚ) ^ ((d.digits : ℤ) - 1 - d.scale)
      = 10 ^ ((d.digits : ℤ) - 1) * 10 ^ (-d.scale) := by
        rw [← zpow_add₀ (by norm_num), ← sub_eq_add_neg]
    _ ≤ d.int.natAbs * 10 ^ (-d.scale) := mul_le_mul_of_nonneg_right hint hscale.le
    _ = |d.value| := d.abs_value.symm

/-- The digits of a decimal other than zero less its scale say which powers of ten it reaches. -/
theorem lt_digits_sub_scale_iff {d : Decimal} (h : d.int ≠ 0) (n : ℤ) :
    n < d.digits - d.scale ↔ (10 : ℚ) ^ n ≤ |d.value| := by
  have hten : (1 : ℚ) < 10 := by norm_num
  constructor
  · intro hlt
    calc (10 : ℚ) ^ n ≤ 10 ^ ((d.digits : ℤ) - 1 - d.scale) :=
          zpow_le_zpow_right₀ hten.le (by omega)
      _ ≤ |d.value| := pow_le_abs_value h
  · intro hle
    exact (zpow_lt_zpow_iff_right₀ hten).mp (hle.trans_lt d.abs_value_lt)

theorem digits_of_int_eq_zero {d : Decimal} (h : d.int = 0) : d.digits = 1 := by
  rw [digits, h]
  rfl

/-- A decimal is refused for its magnitude, or for being a zero with a great exponent. -/
theorem CountFits.truncate?_eq_none_iff_magnitude {d : Decimal} (hfits : d.CountFits) :
    d.truncate? = none ↔ (10 : ℚ) ^ 1024 ≤ |d.value| ∨ d.int = 0 ∧ 1023 < -d.scale := by
  rw [hfits.truncate?_eq_none_iff, maxIntegerDigits]
  by_cases hzero : d.int = 0
  · have hvalue : ¬(10 : ℚ) ^ 1024 ≤ |d.value| := by
      rw [value, hzero, Int.cast_zero, zero_mul, abs_zero, not_le]
      exact pow_pos (by norm_num) 1024
    rw [digits_of_int_eq_zero hzero, or_iff_right hvalue, and_iff_right hzero]
    omega
  · rw [lt_digits_sub_scale_iff hzero, zpow_ofNat]
    exact (or_iff_left fun h => hzero h.1).symm

/-- Of the decimals whose digits before the point can be counted, one is refused if its value is not
below ten to the power of 1024, which is to say that its integer part has more than 1024 digits, or
if it is a zero with an exponent above 1023. Every other one is cut down to its integer part. -/
theorem truncate?_by_magnitude (d : Decimal) (hfits : d.CountFits) :
    (d.truncate? = none ↔ (10 : ℚ) ^ 1024 ≤ |d.value| ∨ d.int = 0 ∧ 1023 < -d.scale)
      ∧ ((10 : ℚ) ^ 1024 ≤ |d.value| ↔ 1024 < integerDigits d.value)
      ∧ ∀ i, d.truncate? = some i → i = integerPart d.value :=
  ⟨hfits.truncate?_eq_none_iff_magnitude, (lt_integerDigits_iff d.value (by norm_num)).symm,
    fun _ => hfits.truncate?_eq_some⟩

/-- A negative number that ends in zeros, at the greatest magnitude that is not refused. -/
theorem truncate?_by_magnitude_widest :
    CountFits ⟨-100, -1021⟩ ∧ ¬(10 : ℚ) ^ 1024 ≤ |value ⟨-100, -1021⟩|
      ∧ ∃ i, truncate? ⟨-100, -1021⟩ = some i ∧ i = integerPart (value ⟨-100, -1021⟩) := by
  have hfits : CountFits ⟨-100, -1021⟩ := ⟨by decide, by decide, by decide⟩
  obtain ⟨hnone, -, hpart⟩ := truncate?_by_magnitude ⟨-100, -1021⟩ hfits
  obtain ⟨i, hi⟩ : ∃ i, truncate? ⟨-100, -1021⟩ = some i := ⟨_, rfl⟩
  refine ⟨hfits, fun hlarge => ?_, i, hi, hpart i hi⟩
  cases hi.symm.trans (hnone.mpr (Or.inl hlarge))

/-- A zero with the exponent 2000 is read, and it is refused for its one digit. -/
theorem truncate?_refuses_zero :
    ofText? "0e2000" = some ⟨0, -2000⟩ ∧ |value ⟨0, -2000⟩| < 10 ^ 1024
      ∧ integerPart (value ⟨0, -2000⟩) = 0 ∧ truncate? ⟨0, -2000⟩ = none := by
  have hvalue : value ⟨0, -2000⟩ = 0 := by rw [value, Int.cast_zero, zero_mul]
  refine ⟨by decide, ?_, ?_, rfl⟩
  · rw [hvalue, abs_zero]
    exact pow_pos (by norm_num) 1024
  · rw [hvalue]
    exact integerPart_intCast 0

end Decimal

end Intake
