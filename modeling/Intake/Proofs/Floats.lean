import Mathlib.Data.String.Basic
import Intake.Proofs.Integers
import Intake.Proofs.Json.Numerals

/-!
# Canonical decimals

A text that is read as a decimal is kept where JSON knows it, and where JSON does not, the text of
the decimal takes its place. JSON knows the text of every decimal, in each of its four layouts, and
it writes the decimal's value (`Decimal.exists_hasJsonText`). So no value is lost or changed, and
nothing is ever out of range (`canonical?_float_value`).

Which texts are read, as decimals or as integers, is said by their spelling
(`canonical?_number_text`).
-/

namespace Intake

/-! ## Digits before the point -/

theorem wholeOK_of_head? {cs : List Char} (hdigits : digitsOK cs = true)
    (hhead : cs.head? ≠ some '0') : wholeOK cs = true := by
  rw [wholeOK, hdigits, Bool.true_and, Bool.or_eq_true, bne_iff_ne]
  exact Or.inr hhead

theorem wholeOK_of_length_eq_one {cs : List Char} (hdigits : digitsOK cs = true)
    (hlength : cs.length = 1) : wholeOK cs = true := by
  rw [wholeOK, hdigits, Bool.true_and, Bool.or_eq_true, beq_iff_eq]
  exact Or.inl hlength

/-- Digits in front of the digits of a positive number do not lead with a zero. -/
theorem wholeOK_take_digitsOf {n k : ℕ} (hn : 0 < n) (hk : 0 < k) :
    wholeOK ((digitsOf n).take k) = true := by
  refine wholeOK_of_head? (digitsOK_take (digitsOK_digitsOf n) hk) ?_
  rw [List.head?_take, if_neg hk.ne']
  exact head?_digitsOf_ne_zero hn

theorem wholeOK_digitsOf_append_zeros {n : ℕ} (hn : 0 < n) (k : ℕ) :
    wholeOK (digitsOf n ++ List.replicate k '0') = true := by
  have hzero : ∀ c ∈ List.replicate k '0', c.isDigit = true := by
    intro c hc
    rw [List.eq_of_mem_replicate hc]
    rfl
  refine wholeOK_of_head? (digitsOK_append (digitsOK_digitsOf n) hzero) ?_
  rw [List.head?_append_of_ne_nil _ (ne_nil_of_digitsOK (digitsOK_digitsOf n))]
  exact head?_digitsOf_ne_zero hn

theorem lt_length_padded (places n : ℕ) : places < (padded (places + 1) n).length := by
  rw [padded, List.length_append, List.length_replicate]
  omega

/-- Where a number is filled up with zeros for the sake of the point, one of them stands before
it. -/
theorem wholeOK_take_padded {n : ℕ} (hn : 0 < n) (places : ℕ) :
    wholeOK ((padded (places + 1) n).take ((padded (places + 1) n).length - places)) = true := by
  have hlt := lt_length_padded places n
  rcases Nat.le_total (digitsOf n).length (places + 1) with hle | hge
  · refine wholeOK_of_length_eq_one (digitsOK_take (digitsOK_padded _ _) (by omega)) ?_
    rw [List.length_take, padded, List.length_append, List.length_replicate]
    omega
  · have hpadded : padded (places + 1) n = digitsOf n := by
      rw [padded, Nat.sub_eq_zero_of_le hge]
      rfl
    rw [hpadded] at hlt ⊢
    exact wholeOK_take_digitsOf hn (by omega)

/-! ## The text of a decimal -/

theorem signed_mul (negative : Bool) (m n : ℕ) :
    signed negative (m * n) = m * signed negative n := by
  cases negative <;> simp [signed]

namespace Decimal

/-- The text is one that JSON knows, and it spells the decimal. -/
def HasJsonText (d : Decimal) (cs : List Char) : Prop :=
  ∃ w : SpelledNumber, w.IsJson ∧ w.chars = cs ∧ w.decimal = d

section

variable {sign : Sign} {n : ℕ}

theorem hasJsonText_of_parts (fraction : Option (List Char)) (e : Option SpelledExponent)
    {whole digits : List Char} (hsign : sign ≠ .plus) (hwhole : wholeOK whole = true)
    (hfraction : fraction ≠ some []) (hdigits : whole ++ fraction.getD [] = digits)
    (hok : digitsOK digits = true) :
    HasJsonText ⟨signed sign.isMinus (digitsValue digits),
        (fraction.getD []).length - SpelledExponent.value e⟩
      (sign.chars ++ (whole ++ pointChars fraction ++ SpelledExponent.chars e)) := by
  subst hdigits
  refine ⟨⟨sign, whole, fraction, e, hok⟩, ⟨hsign, hwhole, hfraction⟩, ?_, rfl⟩
  simp only [SpelledNumber.chars, List.append_assoc]

theorem hasJsonText_scientific (hsign : sign ≠ .plus) (hn : 0 < n) (exponent : ℤ) :
    HasJsonText ⟨signed sign.isMinus n, (digitsOf n).length - 1 - exponent⟩
      (sign.chars ++ scientific (digitsOf n) exponent) := by
  obtain ⟨fraction, hpoint, hfraction, hne⟩ := exists_pointChars ((digitsOf n).drop 1)
  let e : SpelledExponent :=
    ⟨true, .ofInt exponent, digitsOf exponent.natAbs, digitsOK_digitsOf _⟩
  have hdigits : (digitsOf n).take 1 ++ fraction.getD [] = digitsOf n := by
    rw [hfraction, List.take_append_drop]
  have hchars : (digitsOf n).take 1 ++ pointChars fraction ++ SpelledExponent.chars (some e)
      = scientific (digitsOf n) exponent := by
    have he : SpelledExponent.chars (some e) = 'E' :: integerChars exponent := by
      rw [integerChars_eq]
      rfl
    simp only [hpoint, he, scientific, List.isEmpty_iff, List.drop_eq_nil_iff]
  have hvalue : SpelledExponent.value (some e) = exponent := by
    rw [SpelledExponent.value, digitsValue_digitsOf]
    exact Sign.signed_ofInt exponent
  have hlength : ((fraction.getD []).length : ℤ) = (digitsOf n).length - 1 := by
    have := List.length_pos_iff.mpr (ne_nil_of_digitsOK (digitsOK_digitsOf n))
    rw [hfraction, List.length_drop]
    omega
  have htext := hasJsonText_of_parts fraction (some e) hsign
    (wholeOK_take_digitsOf hn Nat.one_pos) hne hdigits (digitsOK_digitsOf n)
  rwa [hchars, hvalue, hlength, digitsValue_digitsOf] at htext

theorem hasJsonText_exponent (n : ℕ) (hsign : sign ≠ .plus) {exponent : ℤ}
    (hexponent : 0 ≤ exponent) :
    HasJsonText ⟨signed sign.isMinus n, -exponent⟩
      (sign.chars ++ (digitsOf n ++ 'e' :: '+' :: integerChars exponent)) := by
  let e : SpelledExponent := ⟨false, .plus, digitsOf exponent.natAbs, digitsOK_digitsOf _⟩
  have hchars : digitsOf n ++ pointChars none ++ SpelledExponent.chars (some e)
      = digitsOf n ++ 'e' :: '+' :: integerChars exponent := by
    rw [integerChars, if_neg (not_lt.mpr hexponent), pointChars, List.append_nil]
    rfl
  have hvalue : SpelledExponent.value (some e) = exponent := by
    rw [SpelledExponent.value, digitsValue_digitsOf]
    exact Int.natAbs_of_nonneg hexponent
  have htext := hasJsonText_of_parts none (some e) hsign (Numeral.wholeOK_digitsOf n)
    (Option.some_ne_none _).symm (List.append_nil _) (digitsOK_digitsOf n)
  rwa [hchars, hvalue, digitsValue_digitsOf, Option.getD_none, List.length_nil, Int.natCast_zero,
    Int.zero_sub] at htext

theorem hasJsonText_zeros (hsign : sign ≠ .plus) (hn : 0 < n) (zeros : ℕ) :
    HasJsonText ⟨signed sign.isMinus (10 ^ zeros * n), 0⟩
      (sign.chars ++ (digitsOf n ++ List.replicate zeros '0')) := by
  have hwhole := wholeOK_digitsOf_append_zeros hn zeros
  have htext := hasJsonText_of_parts none none hsign hwhole (Option.some_ne_none _).symm
    (List.append_nil _) (Bool.and_eq_true_iff.mp hwhole).1
  rwa [pointChars, SpelledExponent.chars, List.append_nil, List.append_nil,
    digitsValue_append_zeros, digitsValue_digitsOf] at htext

theorem hasJsonText_positional (hsign : sign ≠ .plus) (hn : 0 < n) {places : ℕ}
    (hplaces : 0 < places) :
    HasJsonText ⟨signed sign.isMinus n, places⟩
      (sign.chars ++ positional (digitsOf n) places) := by
  have hlt := lt_length_padded places n
  let front := (padded (places + 1) n).length - places
  let behind := (padded (places + 1) n).drop front
  have hlength : behind.length = places := by
    rw [List.length_drop]
    omega
  have hbehind : some behind ≠ some [] := fun h => by
    rw [Option.some.inj h] at hlength
    exact hplaces.ne hlength
  have htext := hasJsonText_of_parts (some behind) none hsign (wholeOK_take_padded hn places)
    hbehind (List.take_append_drop front _) (digitsOK_padded _ _)
  rwa [Option.getD_some, hlength, digitsValue_padded, SpelledExponent.chars, List.append_nil,
    SpelledExponent.value, Int.sub_zero] at htext

end

theorem chars_of_ne_zero {d : Decimal} (h : d.int ≠ 0) :
    d.chars = (Sign.ofInt d.int).chars ++ d.magnitudeChars := by
  rw [chars, if_neg h, Sign.ofInt]
  split <;> rfl

theorem value_of_int_eq_zero {d : Decimal} (h : d.int = 0) : d.value = 0 := by
  rw [value, h, Int.cast_zero, zero_mul]

/-- The text of a decimal is one that JSON knows, and it writes the value of the decimal. -/
theorem exists_hasJsonText (d : Decimal) : ∃ e : Decimal,
    e.HasJsonText d.chars ∧ e.value = d.value ∧ (e.scale = d.scale ∨ e.scale = 0) := by
  by_cases hzero : d.int = 0
  · let w : SpelledNumber := ⟨.absent, ['0'], none, none, rfl⟩
    have hchars : w.chars = d.chars := by
      rw [chars, if_pos hzero]
      rfl
    refine ⟨⟨0, 0⟩, ⟨w, ⟨nofun, rfl, nofun⟩, hchars, rfl⟩, ?_, Or.inr rfl⟩
    rw [value_of_int_eq_zero rfl, value_of_int_eq_zero hzero]
  · have hsign := Sign.ofInt_ne_plus d.int
    have hint := Sign.signed_ofInt d.int
    have hn : 0 < d.int.natAbs := Int.natAbs_pos.mpr hzero
    rw [chars_of_ne_zero hzero]
    unfold magnitudeChars
    dsimp only
    split
    · have htext :=
        hasJsonText_scientific hsign hn ((digitsOf d.int.natAbs).length - 1 - d.scale)
      rw [hint, sub_sub_cancel] at htext
      exact ⟨d, htext, rfl, Or.inl rfl⟩
    · split
      · next hlarge =>
          have hnonneg : 0 ≤ -d.scale := (show 0 ≤ maxTrailingZeros by decide).trans hlarge.le
          have htext := hasJsonText_exponent d.int.natAbs hsign hnonneg
          rw [hint, neg_neg] at htext
          exact ⟨d, htext, rfl, Or.inl rfl⟩
      · split
        · next hscale =>
            refine ⟨_, hasJsonText_zeros hsign hn (-d.scale).toNat, ?_, Or.inr rfl⟩
            rw [value_of_nonpos hscale, value_integer, signed_mul, hint, mul_comm]
            rfl
        · next hscale =>
            have hplaces : 0 < d.scale.toNat := by omega
            have htext := hasJsonText_positional hsign hn hplaces
            rw [hint, Int.toNat_of_nonneg (by omega)] at htext
            exact ⟨d, htext, rfl, Or.inl rfl⟩

end Decimal

/-! ## The rule -/

/-- What is read as a decimal becomes a number, and the number is read as a decimal of the same
value. -/
theorem Numeral.exists_ofDecimalText? {s : String} {d : Decimal} (h : Decimal.ofText? s = some d) :
    ∃ n e, ofDecimalText? s d = some n ∧ n.decimal? = some e ∧ e.value = d.value := by
  rw [ofDecimalText?]
  cases hs : ofText? s with
  | some n => exact ⟨n, d, rfl, (decimal?_of_ofChars? hs).symm.trans h, rfl⟩
  | none =>
      obtain ⟨e, ⟨w, hw, hchars, rfl⟩, hvalue, hscale⟩ := d.exists_hasJsonText
      have hread : ofText? d.text = some (w.numeral hw) := by
        rw [ofText?, Decimal.text, String.toList_ofList, ← hchars, hw.ofChars?_chars]
      have hok : Decimal.scaleOK w.decimal.scale = true := by
        rcases hscale with hscale | hscale
        · rw [hscale]
          exact Decimal.scaleOK_of_ofChars? h
        · rw [hscale]
          rfl
      exact ⟨w.numeral hw, w.decimal, hread, (decimal?_numeral hw).trans (if_pos hok), hvalue⟩

namespace Canonical

theorem not_isEmpty_of_ofText? {s : String} {d : Decimal} (h : Decimal.ofText? s = some d) :
    ¬s.isEmpty = true := by
  rw [String.isEmpty_iff]
  rintro rfl
  cases h

theorem float_of_ofText? {s : String} {d : Decimal} {n : Numeral} (hd : Decimal.ofText? s = some d)
    (hn : Numeral.ofDecimalText? s d = some n) : float (.string s) = .ok (.number n) := by
  simp only [float, if_neg (not_isEmpty_of_ofText? hd), hd, hn]

theorem float_of_not_ofText? {s : String} (h : Decimal.ofText? s = none) :
    float (.string s) = .error (if s.isEmpty then .emptyString else .notANumber) := by
  simp only [float, h]
  split <;> rfl

/-- A text is accepted as a decimal exactly if it is read as one. -/
theorem exists_float_string_iff {s : String} :
    (∃ w, float (.string s) = .ok w) ↔ ∃ d, Decimal.ofText? s = some d := by
  constructor
  · rintro ⟨w, h⟩
    refine Option.ne_none_iff_exists'.mp fun hnone => ?_
    cases (float_of_not_ofText? hnone).symm.trans h
  · rintro ⟨d, hd⟩
    obtain ⟨n, -, hn, -⟩ := Numeral.exists_ofDecimalText? hd
    exact ⟨_, float_of_ofText? hd hn⟩

/-- A text is accepted as an integer if besides it has not too many digits before the point, as
they are counted. -/
theorem exists_int_string_iff {s : String} :
    (∃ w, int (.string s) = .ok w)
      ↔ ∃ d, Decimal.ofText? s = some d
          ∧ (d.CountFits ∧ d.digits - d.scale ≤ Decimal.maxIntegerDigits ∨ d.CountWraps) := by
  constructor
  · rintro ⟨w, h⟩
    rcases int_eq_ok_cases h with ⟨n, hn, -⟩ | htext
    · cases hn
    · obtain ⟨d, i, hd, hi, -⟩ := intOfText_eq_ok htext
      exact ⟨d, hd, (Decimal.exists_truncate?_iff (Decimal.scaleOK_of_ofChars? hd)).mp ⟨i, hi⟩⟩
  · rintro ⟨d, hd, hcount⟩
    obtain ⟨i, hi⟩ := (Decimal.exists_truncate?_iff (Decimal.scaleOK_of_ofChars? hd)).mpr hcount
    exact ⟨_, (if_neg (not_isEmpty_of_ofText? hd)).trans (intOfText_of_truncate? hd hi)⟩

/-- Every text that is a number is accepted, and every other text is refused for that. -/
theorem float_ne_numberOutOfRange (v : Json) : float v ≠ .error .numberOutOfRange := by
  cases v with
  | string s =>
      cases hd : Decimal.ofText? s with
      | none =>
          rw [float_of_not_ofText? hd]
          split <;> nofun
      | some d =>
          obtain ⟨n, -, hn, -⟩ := Numeral.exists_ofDecimalText? hd
          rw [float_of_ofText? hd hn]
          nofun
  | null | bool _ | number _ | array _ | object _ => nofun

end Canonical

namespace FieldType

theorem reason_ne_of_canonicalForm {t : FieldType} {v : Json} {reason : Reason} {r : Rejection}
    (h : t.canonicalForm v ≠ .error reason) (hr : t.canonical? (some v) = .error r) :
    r.reason ≠ reason := by
  rw [canonical?, canonical] at hr
  split at hr
  · cases hr
  · cases hform : t.canonicalForm v with
    | ok w =>
        rw [hform] at hr
        cases hr
    | error reason' =>
        rw [hform] at hr
        obtain rfl := Except.error.inj hr
        rintro rfl
        exact h hform

/-! ## Values -/

/-- A text that is a number becomes a number of the same value, and the text of a number, as well as
the number itself, becomes that number. No value is refused as out of range. -/
theorem canonical?_float_value :
    (∀ s d, Decimal.ofText? s = some d →
        ∃ n e, float.canonical? (some (.string s)) = .ok (some (.number n))
          ∧ Decimal.ofText? n.text = some e ∧ e.value = d.value)
      ∧ (∀ n : Numeral, Decimal.scaleOK (n.fraction.length - n.exponentValue) = true →
          float.canonical? (some (.number n)) = .ok (some (.number n))
            ∧ float.canonical? (some (.string n.text)) = .ok (some (.number n)))
      ∧ ∀ v r, float.canonical? (some v) = .error r → r.reason ≠ .numberOutOfRange := by
  refine ⟨fun s d hd => ?_, fun n hscale => ⟨?_, ?_⟩, fun v r h => ?_⟩
  · obtain ⟨n, e, hn, he, hvalue⟩ := Numeral.exists_ofDecimalText? hd
    refine ⟨n, e, ?_, n.ofText?_text.trans he, hvalue⟩
    exact (canonical?_eq_ok Json.noConfusion).mpr (Canonical.float_of_ofText? hd hn)
  · rfl
  · have hd := n.ofText?_text.trans (n.decimal?_eq.trans (if_pos hscale))
    have hn : Numeral.ofText? n.text = some n := by
      rw [Numeral.ofText?, Numeral.text, String.toList_ofList, n.ofChars?_chars]
    refine (canonical?_eq_ok Json.noConfusion).mpr (Canonical.float_of_ofText? hd ?_)
    rw [Numeral.ofDecimalText?, hn]
    rfl
  · exact reason_ne_of_canonicalForm (t := float) (Canonical.float_ne_numberOutOfRange v) h

/-- A text that JSON does not know, with a decimal that is written with an exponent, the text of
that number, and a text that is refused. -/
theorem canonical?_float_value_small :
    ∃ n e, float.canonical? (some (.string "+.00000025")) = .ok (some (.number n))
      ∧ n.text = "2.5e-7" ∧ Decimal.ofText? n.text = some e ∧ e.value = Decimal.value ⟨25, 8⟩
      ∧ float.canonical? (some (.string n.text)) = .ok (some (.number n))
      ∧ ∃ r, float.canonical? (some (.string "1_000")) = .error r
          ∧ r.reason ≠ .numberOutOfRange := by
  obtain ⟨hvalue, hnumber, hrefused⟩ := canonical?_float_value
  obtain ⟨n, e, hn, he, heq⟩ := hvalue "+.00000025" ⟨25, 8⟩ (by decide)
  have htext : float.canonical? (some (.string "+.00000025"))
      = .ok (some (.number ⟨false, ['2'], ['5'], some (true, ['7']), rfl, rfl, rfl⟩)) := rfl
  obtain rfl := Json.number.inj (Option.some.inj (Except.ok.inj (hn.symm.trans htext)))
  exact ⟨_, e, htext, rfl, he, heq, (hnumber _ rfl).2, _, rfl, hrefused (.string "1_000") _ rfl⟩

/-! ## Accepted texts -/

/-- The texts that are read as decimals are the spelled numbers and those whose sign stands behind
the point, which are not spelled numbers. A text is accepted as a decimal if it is read as one,
and as an integer if besides it has no more than 1024 digits before the point, or more than can be
counted. -/
theorem canonical?_number_text (s : String) :
    (∀ d, Decimal.ofText? s = some d ↔
        (∃ w : SpelledNumber, w.text = s ∧ w.decimal? = some d)
          ∨ ∃ w : SlippedNumber, w.text = s ∧ w.decimal? = some d)
      ∧ ¬((∃ w : SpelledNumber, w.text = s) ∧ ∃ w : SlippedNumber, w.text = s)
      ∧ ((∃ w, float.canonical? (some (.string s)) = .ok (some w))
          ↔ ∃ d, Decimal.ofText? s = some d)
      ∧ ((∃ w, int.canonical? (some (.string s)) = .ok (some w))
          ↔ ∃ d, Decimal.ofText? s = some d
              ∧ (d.CountFits ∧ d.digits - d.scale ≤ 1024 ∨ d.CountWraps)) := by
  refine ⟨fun d => ?_, ?_, ?_, ?_⟩
  · rw [Decimal.ofText?, Decimal.ofChars?_eq_some_iff]
    simp only [SpelledNumber.text, SlippedNumber.text, String.ofList_eq]
  · rintro ⟨⟨u, hu⟩, ⟨w, hw⟩⟩
    exact w.chars_ne u ((String.ofList_eq.mp hu).trans (String.ofList_eq.mp hw).symm)
  · simp only [canonical?_eq_ok (v := .string s) Json.noConfusion]
    exact Canonical.exists_float_string_iff
  · simp only [canonical?_eq_ok (v := .string s) Json.noConfusion]
    exact Canonical.exists_int_string_iff

/-- A five with a plus behind the point is no spelled number, and it is stored as 0.05. -/
theorem canonical?_slipped_sign :
    Decimal.ofText? ".+5" = some ⟨5, 2⟩
      ∧ (∃ n, float.canonical? (some (.string ".+5")) = .ok (some (.number n)) ∧ n.text = "0.05")
      ∧ ¬∃ w : SpelledNumber, w.text = ".+5" := by
  refine ⟨by decide, ⟨⟨false, ['0'], ['0', '5'], none, rfl, rfl, rfl⟩, rfl, rfl⟩, ?_⟩
  rintro ⟨u, hu⟩
  let w : SlippedNumber := ⟨.plus, ['5'], none, nofun, rfl⟩
  exact w.chars_ne u (String.ofList_eq.mp hu)

end FieldType

end Intake
