import Mathlib.Algebra.Order.Field.Power
import Mathlib.Data.Rat.Floor
import Mathlib.Tactic.Linarith
import Intake.Proofs.Digits
import Intake.Proofs.SpelledNumbers

/-!
# The value of a number

A decimal and a JSON number write a rational (`Decimal.value`, `Numeral.value`). The text of a
JSON number is a spelled number (`Numeral.exists_spelled`), so it is read as a decimal, and that
keeps its value (`Numeral.value_of_decimal?`), with any number of digits and any exponent that can
be read.

Whether a decimal is cut down is decided by the number of its digits and its scale, and these bound
its value by a power of ten (`Decimal.abs_value_lt`). Where their difference can be counted
(`Decimal.CountFits`), what is left is the integer part of the value, toward zero. Where it is so
great that the count wraps (`Decimal.CountWraps`), what is left is zero (`Decimal.truncate?_cases`).
-/

namespace Intake

/-- The integer that is left of a number without its fraction, toward zero. -/
def integerPart (q : ℚ) : ℤ := if 0 ≤ q then ⌊q⌋ else ⌈q⌉

theorem integerPart_intCast (i : ℤ) : integerPart i = i := by
  rw [integerPart, Int.floor_intCast, Int.ceil_intCast, ite_self]

/-- The integer part of a fraction is its truncated quotient. -/
theorem integerPart_div (i : ℤ) {n : ℕ} (hn : 0 < n) :
    integerPart ((i : ℚ) / n) = i.tdiv n := by
  have hn' : (0 : ℚ) < n := Nat.cast_pos.mpr hn
  rcases le_or_gt 0 i with hi | hi
  · have hq : 0 ≤ (i : ℚ) / n := div_nonneg (Int.cast_nonneg hi) hn'.le
    rw [integerPart, if_pos hq, Rat.floor_intCast_div_natCast, Int.tdiv_eq_ediv_of_nonneg hi]
  · have hq : ¬0 ≤ (i : ℚ) / n := not_le.mpr (div_neg_of_neg_of_pos (Int.cast_lt_zero.mpr hi) hn')
    have hquotient : i.tdiv n = -(-i / n) := by
      rw [← Int.tdiv_eq_ediv_of_nonneg (by omega : 0 ≤ -i), Int.neg_tdiv, Int.neg_neg]
    rw [integerPart, if_neg hq, Rat.ceil_intCast_div_natCast, hquotient]

/-- The number is so far or less than one farther from zero than the integer, and on the same
side of it. -/
structure CutsTo (q : ℚ) (i : ℤ) : Prop where
  abs_le : |(i : ℚ)| ≤ |q|
  lt_abs_add_one : |q| < |(i : ℚ)| + 1
  mul_nonneg : 0 ≤ (i : ℚ) * q

theorem cutsTo_integerPart (q : ℚ) : CutsTo q (integerPart q) := by
  rcases le_or_gt 0 q with hq | hq
  · have hfloor : (0 : ℚ) ≤ ⌊q⌋ := Int.cast_nonneg (Int.floor_nonneg.mpr hq)
    rw [integerPart, if_pos hq]
    refine ⟨?_, ?_, mul_nonneg hfloor hq⟩
    · rw [abs_of_nonneg hfloor, abs_of_nonneg hq]
      exact Int.floor_le q
    · rw [abs_of_nonneg hfloor, abs_of_nonneg hq]
      exact Int.lt_floor_add_one q
  · have hceil : (⌈q⌉ : ℚ) ≤ 0 := Int.cast_nonpos.mpr (Int.ceil_le.mpr (by simpa using hq.le))
    rw [integerPart, if_neg (not_le.mpr hq)]
    refine ⟨?_, ?_, mul_nonneg_of_nonpos_of_nonpos hceil hq.le⟩
    · rw [abs_of_nonpos hceil, abs_of_neg hq]
      exact neg_le_neg (Int.le_ceil q)
    · rw [abs_of_nonpos hceil, abs_of_neg hq]
      linarith only [Int.ceil_lt_add_one q]

theorem cutsTo_intCast (i : ℤ) : CutsTo i i := by
  have h := cutsTo_integerPart i
  rwa [integerPart_intCast] at h

namespace Decimal

/-- The number that a decimal writes. -/
def value (d : Decimal) : ℚ := d.int * 10 ^ (-d.scale)

theorem value_of_nonneg {d : Decimal} (h : 0 ≤ d.scale) :
    d.value = (d.int : ℚ) / (powerOfTen d.scale.toNat : ℕ) := by
  obtain ⟨n, hn⟩ := Int.eq_ofNat_of_zero_le h
  rw [value, hn, Int.toNat_natCast, zpow_neg, zpow_natCast, div_eq_mul_inv]
  norm_num [powerOfTen]

theorem value_of_nonpos {d : Decimal} (h : d.scale ≤ 0) :
    d.value = ((d.int * (powerOfTen (-d.scale).toNat : ℕ) : ℤ) : ℚ) := by
  obtain ⟨n, hn⟩ := Int.eq_ofNat_of_zero_le (Int.neg_nonneg_of_nonpos h)
  rw [value, hn, Int.toNat_natCast, zpow_natCast]
  norm_num [powerOfTen]

theorem value_integer (i : ℤ) : value ⟨i, 0⟩ = i := by
  rw [value, Int.neg_zero, zpow_zero, mul_one]

theorem digits_pos (d : Decimal) : 0 < d.digits :=
  List.length_pos_of_ne_nil Nat.toDigits_ne_nil

theorem abs_value (d : Decimal) : |d.value| = (d.int.natAbs : ℚ) * 10 ^ (-d.scale) := by
  have hscale : (0 : ℚ) < 10 ^ (-d.scale) := zpow_pos (by norm_num) _
  rw [value, abs_mul, abs_of_pos hscale, Nat.cast_natAbs, Int.cast_abs]

/-- The digits of a decimal and its scale bound its value. -/
theorem abs_value_lt (d : Decimal) : |d.value| < 10 ^ ((d.digits : ℤ) - d.scale) := by
  have hlt : d.int.natAbs < 10 ^ d.digits :=
    (length_digitsOf_le_iff d.digits_pos).mp (Nat.le_refl _)
  have hint : (d.int.natAbs : ℚ) < 10 ^ (d.digits : ℤ) := by
    rw [zpow_natCast]
    exact_mod_cast hlt
  have hscale : (0 : ℚ) < 10 ^ (-d.scale) := zpow_pos (by norm_num) _
  calc |d.value| = d.int.natAbs * 10 ^ (-d.scale) := d.abs_value
    _ < 10 ^ (d.digits : ℤ) * 10 ^ (-d.scale) := mul_lt_mul_of_pos_right hint hscale
    _ = 10 ^ ((d.digits : ℤ) - d.scale) := by
      rw [← zpow_add₀ (by norm_num), ← sub_eq_add_neg]

/-- A decimal whose digits all stand after the point is cut down to zero. -/
theorem tdiv_eq_zero_of_digits_le {d : Decimal} (h : (d.digits : ℤ) ≤ d.scale) :
    d.int.tdiv (powerOfTen d.scale.toNat) = 0 := by
  have hpos := d.digits_pos
  have hlt : d.int.natAbs < 10 ^ d.scale.toNat :=
    (length_digitsOf_le_iff (by omega)).mp (by rw [digits] at h; omega)
  rw [← Int.natAbs_eq_zero, Int.natAbs_tdiv, Int.natAbs_natCast]
  exact Nat.div_eq_of_lt hlt

/-! ### Counting the digits before the point -/

/-- The digits before the point can be counted in 64 bits with a sign. -/
structure CountFits (d : Decimal) : Prop where
  digits_lt : d.digits < 0x8000000000000000
  le : -0x8000000000000000 ≤ (d.digits : ℤ) - d.scale
  lt : (d.digits : ℤ) - d.scale < 0x8000000000000000

/-- The scale puts more digits before the point than can be counted so. -/
structure CountWraps (d : Decimal) : Prop where
  digits_lt : d.digits < 0x8000000000000000
  le : 0x8000000000000000 ≤ (d.digits : ℤ) - d.scale

theorem CountFits.wholeDigits? {d : Decimal} (h : d.CountFits) :
    d.wholeDigits? = some (d.digits - d.scale) := by
  rw [Decimal.wholeDigits?, if_pos h.digits_lt, Int.bmod_eq_of_le h.le h.lt]

/-- A count that wraps is negative. -/
theorem CountWraps.wholeDigits? {d : Decimal} (h : d.CountWraps) (hscale : scaleOK d.scale = true) :
    ∃ n < 0, d.wholeDigits? = some n := by
  refine ⟨_, ?_, if_pos h.digits_lt⟩
  have hlt := h.digits_lt
  have hle := h.le
  rw [scaleOK, decide_eq_true_iff] at hscale
  rw [Int.bmod_def]
  split <;> omega

/-- A decimal whose digits are counted at all has a count that fits or one that wraps. -/
theorem countFits_or_countWraps {d : Decimal} (hscale : scaleOK d.scale = true)
    (hdigits : d.digits < 0x8000000000000000) : d.CountFits ∨ d.CountWraps := by
  rw [scaleOK, decide_eq_true_iff] at hscale
  rcases Int.lt_or_le ((d.digits : ℤ) - d.scale) 0x8000000000000000 with hlt | hle
  · exact Or.inl ⟨hdigits, by omega, hlt⟩
  · exact Or.inr ⟨hdigits, hle⟩

theorem CountFits.not_countWraps {d : Decimal} (h : d.CountFits) : ¬d.CountWraps :=
  fun hwraps => not_lt.mpr hwraps.le h.lt

/-! ### What is cut down -/

theorem truncate?_eq_none_of_digits {d : Decimal} (h : 0x8000000000000000 ≤ d.digits) :
    d.truncate? = none := by
  rw [truncate?, wholeDigits?, if_neg (Nat.not_lt.mpr h)]
  rfl

/-- A decimal is refused for the number of its digits before the point, and for nothing else. -/
theorem CountFits.truncate?_eq_none_iff {d : Decimal} (h : d.CountFits) :
    d.truncate? = none ↔ maxIntegerDigits < d.digits - d.scale := by
  rw [Decimal.truncate?, h.wholeDigits?]
  simp only [Option.bind_eq_bind, Option.bind_some]
  split
  · next hlong => exact iff_of_true rfl hlong
  · next hshort =>
      refine iff_of_false ?_ hshort
      split
      · exact Option.some_ne_none _
      · split <;> exact Option.some_ne_none _

/-- A decimal is cut down to the integer part of its value, if its digits can be counted. -/
theorem CountFits.truncate?_eq_some {d : Decimal} (hfits : d.CountFits) {i : ℤ}
    (h : d.truncate? = some i) : i = integerPart d.value := by
  have hpow : ∀ n, 0 < powerOfTen n := fun n => Nat.pow_pos (by decide)
  rw [truncate?, hfits.wholeDigits?] at h
  simp only [Option.bind_eq_bind, Option.bind_some] at h
  split at h
  · cases h
  · split at h
    · next hdigits =>
        -- No digit stands before the point, so there are places after it.
        have hpos := d.digits_pos
        rw [value_of_nonneg (by omega), integerPart_div _ (hpow _),
          tdiv_eq_zero_of_digits_le (by omega)]
        exact (Option.some.inj h).symm
    · split at h
      · next hscale =>
          rw [value_of_nonneg hscale, integerPart_div _ (hpow _)]
          exact (Option.some.inj h).symm
      · next hscale =>
          rw [value_of_nonpos (by omega), integerPart_intCast]
          exact (Option.some.inj h).symm

/-- A decimal whose count wraps is cut down to zero. -/
theorem CountWraps.truncate? {d : Decimal} (h : d.CountWraps) (hscale : scaleOK d.scale = true) :
    d.truncate? = some 0 := by
  obtain ⟨n, hn, hdigits⟩ := h.wholeDigits? hscale
  rw [Decimal.truncate?, hdigits]
  have hshort : ¬n > maxIntegerDigits := by
    rw [maxIntegerDigits]
    omega
  simp only [Option.bind_eq_bind, Option.bind_some, if_neg hshort, if_pos hn.le]

/-- What a decimal is cut down to: its integer part, or zero where its count wraps. -/
theorem truncate?_cases {d : Decimal} (hscale : scaleOK d.scale = true) {i : ℤ}
    (h : d.truncate? = some i) :
    d.CountFits ∧ i = integerPart d.value ∨ d.CountWraps ∧ i = 0 := by
  have hdigits : d.digits < 0x8000000000000000 := by
    refine Nat.lt_of_not_le fun hmany => ?_
    cases (truncate?_eq_none_of_digits hmany).symm.trans h
  rcases countFits_or_countWraps hscale hdigits with hfits | hwraps
  · exact Or.inl ⟨hfits, hfits.truncate?_eq_some h⟩
  · exact Or.inr ⟨hwraps, (Option.some.inj ((hwraps.truncate? hscale).symm.trans h)).symm⟩

theorem exists_truncate?_iff {d : Decimal} (hscale : scaleOK d.scale = true) :
    (∃ i, d.truncate? = some i)
      ↔ d.CountFits ∧ d.digits - d.scale ≤ maxIntegerDigits ∨ d.CountWraps := by
  constructor
  · rintro ⟨i, hi⟩
    refine (truncate?_cases hscale hi).imp (fun h => ⟨h.1, not_lt.mp fun hlong => ?_⟩) And.left
    cases (h.1.truncate?_eq_none_iff.mpr hlong).symm.trans hi
  · rintro (⟨hfits, hshort⟩ | hwraps)
    · exact Option.ne_none_iff_exists'.mp fun hnone =>
        not_lt.mpr hshort (hfits.truncate?_eq_none_iff.mp hnone)
    · exact ⟨0, hwraps.truncate? hscale⟩

theorem abs_lt_of_truncate? {d : Decimal} (hscale : scaleOK d.scale = true) {i : ℤ}
    (h : d.truncate? = some i) : |i| < 10 ^ 1024 := by
  rcases truncate?_cases hscale h with ⟨hfits, hi⟩ | ⟨-, rfl⟩
  · have hdigits : (d.digits : ℤ) - d.scale ≤ 1024 := by
      refine Int.not_lt.mp fun hmany => ?_
      cases (hfits.truncate?_eq_none_iff.mpr hmany).symm.trans h
    have hvalue : |(i : ℚ)| < 10 ^ (1024 : ℤ) :=
      calc |(i : ℚ)| ≤ |d.value| := hi ▸ (cutsTo_integerPart d.value).abs_le
        _ < 10 ^ ((d.digits : ℤ) - d.scale) := d.abs_value_lt
        _ ≤ 10 ^ (1024 : ℤ) := zpow_le_zpow_right₀ (by norm_num) hdigits
    rw [zpow_ofNat] at hvalue
    refine (Int.cast_lt (R := ℚ)).mp ?_
    rwa [Int.cast_abs, Int.cast_pow, Int.cast_ofNat]
  · rw [abs_zero]
    exact pow_pos (by norm_num) 1024

/-! ### Integers -/

theorem countFits_integer {i : ℤ} (h : digits ⟨i, 0⟩ < 0x8000000000000000) :
    CountFits ⟨i, 0⟩ :=
  ⟨h, by simp only [Int.sub_zero]; omega, by simp only [Int.sub_zero]; omega⟩

theorem truncate?_integer {i : ℤ} (h : (digits ⟨i, 0⟩ : ℤ) ≤ maxIntegerDigits) :
    truncate? ⟨i, 0⟩ = some i := by
  have hpos := digits_pos ⟨i, 0⟩
  have hfits : CountFits ⟨i, 0⟩ := countFits_integer (by rw [maxIntegerDigits] at h; omega)
  rw [truncate?, hfits.wholeDigits?]
  simp only [Option.bind_eq_bind, Option.bind_some, Int.sub_zero]
  rw [if_neg (by omega), if_neg (by omega), if_pos (Int.le_refl 0)]
  exact congrArg some (Int.tdiv_one i)

/-- An integer of too many digits is refused, be they so many that they cannot be counted. -/
theorem truncate?_integer_eq_none {i : ℤ} (h : maxIntegerDigits < digits ⟨i, 0⟩) :
    truncate? ⟨i, 0⟩ = none := by
  rcases Nat.lt_or_ge (digits ⟨i, 0⟩) 0x8000000000000000 with hdigits | hmany
  · refine (countFits_integer hdigits).truncate?_eq_none_iff.mpr ?_
    rwa [Int.sub_zero]
  · exact truncate?_eq_none_of_digits hmany

end Decimal

/-! ## JSON numbers -/

namespace SpelledNumber

/-- JSON knows fewer spellings: no plus in front, no leading zero, and no point without digits on
both sides. -/
structure IsJson (w : SpelledNumber) : Prop where
  sign_ne : w.sign ≠ .plus
  whole_ok : wholeOK w.whole = true
  fraction_ne : w.fraction ≠ some []

theorem all_isDigit_fraction (w : SpelledNumber) : (w.fraction.getD []).all Char.isDigit = true :=
  List.all_eq_true.mpr fun c hc =>
    isDigit_of_digitsOK w.digits_ok c (List.mem_append_right _ hc)

/-- The number in the form in which JSON keeps it: a point has no spellings, and an exponent has
only one. -/
def numeral (w : SpelledNumber) (h : w.IsJson) : Numeral where
  negative := w.sign.isMinus
  whole := w.whole
  fraction := w.fraction.getD []
  exponent := w.exponent.map fun e => (e.sign.isMinus, e.digits)
  whole_ok := h.whole_ok
  fraction_ok := w.all_isDigit_fraction
  exponent_ok := by
    cases w.exponent with
    | none => rfl
    | some e => exact e.digits_ok

end SpelledNumber

namespace Numeral

/-- The exponent of a number, zero if none is written. -/
def exponentValue (n : Numeral) : ℤ :=
  match n.exponent with
  | none => 0
  | some (negative, digits) => signed negative (digitsValue digits)

/-- The number that a JSON number writes. -/
def value (n : Numeral) : ℚ :=
  signed n.negative (digitsValue (n.whole ++ n.fraction))
    * 10 ^ (n.exponentValue - n.fraction.length)

def signedWhole (n : Numeral) : List Char := (if n.negative then ['-'] else []) ++ n.whole

def mantissaChars (n : Numeral) : List Char :=
  n.signedWhole ++ (if n.fraction.isEmpty then [] else '.' :: n.fraction)

theorem digitsOK_whole (n : Numeral) : digitsOK n.whole = true :=
  (Bool.and_eq_true_iff.mp n.whole_ok).1

theorem digitsOK_whole_append_fraction (n : Numeral) : digitsOK (n.whole ++ n.fraction) = true :=
  digitsOK_append n.digitsOK_whole (List.all_eq_true.mp n.fraction_ok)

theorem mem_signedWhole {n : Numeral} {c : Char} (h : c ∈ n.signedWhole) :
    c = '-' ∨ c.isDigit = true := by
  rcases List.mem_append.mp h with hsign | hwhole
  · split at hsign
    · exact Or.inl (List.mem_singleton.mp hsign)
    · cases hsign
  · exact Or.inr (isDigit_of_digitsOK n.digitsOK_whole c hwhole)

theorem mem_mantissaChars {n : Numeral} {c : Char} (h : c ∈ n.mantissaChars) :
    c = '-' ∨ c = '.' ∨ c.isDigit = true := by
  rcases List.mem_append.mp h with hwhole | hpoint
  · exact (mem_signedWhole hwhole).imp_right Or.inr
  · split at hpoint
    · cases hpoint
    · rcases List.mem_cons.mp hpoint with rfl | hfraction
      · exact Or.inr (Or.inl rfl)
      · exact Or.inr (Or.inr (List.all_eq_true.mp n.fraction_ok c hfraction))

/-! ### Spellings -/

theorem exists_spelledExponent (n : Numeral) : ∃ e : Option SpelledExponent,
    SpelledExponent.chars e = exponentChars n.exponent
      ∧ e.map (fun e => (e.sign.isMinus, e.digits)) = n.exponent := by
  cases h : n.exponent with
  | none => exact ⟨none, rfl, rfl⟩
  | some e =>
      obtain ⟨negative, digits⟩ := e
      have hdigits : digitsOK digits = true := by simpa [h] using n.exponent_ok
      cases negative with
      | true => exact ⟨some ⟨false, .minus, digits, hdigits⟩, rfl, rfl⟩
      | false => exact ⟨some ⟨false, .plus, digits, hdigits⟩, rfl, rfl⟩

/-- The text of a number is one of the spellings of the number. -/
theorem exists_spelled (n : Numeral) :
    ∃ (w : SpelledNumber) (h : w.IsJson), w.chars = n.chars ∧ w.numeral h = n := by
  obtain ⟨e, hchars, he⟩ := n.exists_spelledExponent
  obtain ⟨fraction, hpoint, hfraction, hne⟩ := exists_pointChars n.fraction
  obtain ⟨sign, hsign, hminus, hplus⟩ : ∃ sign : Sign,
      sign.chars = (if n.negative then ['-'] else []) ∧ sign.isMinus = n.negative
        ∧ sign ≠ .plus := by
    cases n.negative with
    | true => exact ⟨.minus, rfl, rfl, nofun⟩
    | false => exact ⟨.absent, rfl, rfl, nofun⟩
  have hdigits : digitsOK (n.whole ++ fraction.getD []) = true :=
    hfraction ▸ n.digitsOK_whole_append_fraction
  refine ⟨⟨sign, n.whole, fraction, e, hdigits⟩, ⟨hplus, n.whole_ok, hne⟩, ?_, ?_⟩
  · simp only [SpelledNumber.chars, chars, hsign, hpoint, hchars]
  · simp only [SpelledNumber.numeral, hminus, hfraction, he]

theorem exponentValue_numeral {w : SpelledNumber} (h : w.IsJson) :
    (w.numeral h).exponentValue = SpelledExponent.value w.exponent := by
  simp only [exponentValue, SpelledNumber.numeral]
  cases w.exponent <;> rfl

/-- The decimal that a number is read as, if its scale fits. -/
theorem decimal?_eq (n : Numeral) :
    n.decimal? = if Decimal.scaleOK (n.fraction.length - n.exponentValue) then
      some ⟨signed n.negative (digitsValue (n.whole ++ n.fraction)),
        n.fraction.length - n.exponentValue⟩
      else none := by
  obtain ⟨w, h, hchars, hn⟩ := n.exists_spelled
  rw [decimal?, ← hchars, w.ofChars?_chars, ← hn, exponentValue_numeral]
  rfl

theorem decimal?_numeral {w : SpelledNumber} (h : w.IsJson) :
    (w.numeral h).decimal? = w.decimal? := by
  rw [decimal?_eq, exponentValue_numeral]
  rfl

/-- A number and the decimal that it is read as have one value. -/
theorem value_of_decimal? {n : Numeral} {d : Decimal} (h : n.decimal? = some d) :
    d.value = n.value := by
  rw [decimal?_eq] at h
  split at h
  · obtain rfl := Option.some.inj h
    rw [Decimal.value, value, Int.neg_sub]
  · cases h

/-- The digits of a number before its point are more than can be counted. -/
def CountWraps (n : Numeral) : Prop := ∃ d, n.decimal? = some d ∧ d.CountWraps

theorem scaleOK_of_decimal? {n : Numeral} {d : Decimal} (h : n.decimal? = some d) :
    Decimal.scaleOK d.scale = true :=
  Decimal.scaleOK_of_ofChars? h

/-- A number whose digits are too many to be counted is cut down to zero. -/
theorem CountWraps.integer? {n : Numeral} (h : n.CountWraps) : n.integer? = some 0 := by
  obtain ⟨d, hd, hwraps⟩ := h
  rw [Numeral.integer?, hd, Option.bind_some, hwraps.truncate? (scaleOK_of_decimal? hd)]

theorem value_ofInt (i : ℤ) : (ofInt i).value = i := by
  simp [value, ofInt, exponentValue, signed_natAbs]

/-! ### Plain digits -/

/-- The integer that the digits before the point write, with the number's sign. -/
def signedWholeValue (n : Numeral) : ℤ := signed n.negative (digitsValue n.whole)

/-- In plain digits there are no others than those before the point. -/
theorem parts_of_isIntegral {n : Numeral} (h : n.isIntegral = true) :
    n.fraction = [] ∧ n.exponent = none := by
  obtain ⟨hfraction, hexponent⟩ := Bool.and_eq_true_iff.mp h
  exact ⟨List.isEmpty_iff.mp hfraction, Option.isNone_iff_eq_none.mp hexponent⟩

theorem chars_of_isIntegral {n : Numeral} (h : n.isIntegral = true) : n.chars = n.signedWhole := by
  obtain ⟨hfraction, hexponent⟩ := parts_of_isIntegral h
  simp [chars, signedWhole, hfraction, hexponent, exponentChars]

theorem decimal?_of_isIntegral {n : Numeral} (h : n.isIntegral = true) :
    n.decimal? = some ⟨n.signedWholeValue, 0⟩ := by
  obtain ⟨hfraction, hexponent⟩ := parts_of_isIntegral h
  have hscale : (n.fraction.length : ℤ) - n.exponentValue = 0 := by
    rw [hfraction, exponentValue, hexponent]
    rfl
  rw [decimal?_eq, hscale, if_pos (by decide), hfraction, List.append_nil, signedWholeValue]

theorem value_of_isIntegral {n : Numeral} (h : n.isIntegral = true) :
    n.value = n.signedWholeValue := by
  rw [← value_of_decimal? (decimal?_of_isIntegral h), Decimal.value_integer]

/-- The digits before the point are those of the number that they write. -/
theorem digitsOf_whole (n : Numeral) : digitsOf (digitsValue n.whole) = n.whole := by
  have hpadded := padded_digitsValue n.digitsOK_whole
  have hlength : (digitsOf (digitsValue n.whole)).length ≤ n.whole.length :=
    (length_digitsOf_le_iff (List.length_pos_iff.mpr (ne_nil_of_digitsOK n.digitsOK_whole))).mpr
      (digitsValue_lt (isDigit_of_digitsOK n.digitsOK_whole))
  have hpos : 0 < (digitsOf (digitsValue n.whole)).length :=
    List.length_pos_iff.mpr Nat.toDigits_ne_nil
  have hzeros : n.whole.length - (digitsOf (digitsValue n.whole)).length = 0 := by
    have hlead := (Bool.and_eq_true_iff.mp n.whole_ok).2
    rw [Bool.or_eq_true, beq_iff_eq, bne_iff_ne] at hlead
    rcases hlead with hone | hlead
    · omega
    · -- Zeros to fill up with would lead the number.
      refine Nat.eq_zero_of_not_pos fun hmore => hlead ?_
      rw [← hpadded, padded, List.head?_append, List.head?_replicate, if_neg hmore.ne']
      rfl
  rwa [padded, hzeros] at hpadded

theorem digits_of_isIntegral (n : Numeral) :
    Decimal.digits ⟨n.signedWholeValue, 0⟩ = n.whole.length := by
  rw [Decimal.digits, signedWholeValue, natAbs_signed, digitsOf_whole]

end Numeral

end Intake
