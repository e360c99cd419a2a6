import Intake.Proofs.Decimals
import Intake.Proofs.FixedPoints

/-!
# Canonical integers

A number in plain digits is its own canonical integer, however many digits it has. Any other
number, and every text, is read as a decimal and cut down to the integer part of its value,
which must not have more than 1024 digits (`canonical?_int_cutsTo`). Only where an exponent puts
more digits before the point than can be counted does zero come of it.

So a number and its text come to one integer. Only a number in more than 1024 plain digits is
taken as it is while its text is refused (`canonical?_int_text`).
-/

namespace Intake

/-- The numeral of an integer is the one without leading zeros. -/
theorem Numeral.text_ofInt (i : ℤ) : (ofInt i).text = toString i := by
  cases i with
  | ofNat n | negSucc n =>
      simp [text, chars, ofInt, exponentChars, toString, Int.repr, Nat.repr, digitsOf]

theorem Numeral.isIntegral_ofInt (i : ℤ) : (ofInt i).isIntegral = true := rfl

theorem Numeral.lt_length_whole_ofInt (n : ℕ) : n < (ofInt (10 ^ n : ℕ)).whole.length :=
  lt_length_digitsOf_pow n

theorem Numeral.ofText?_text (n : Numeral) : Decimal.ofText? n.text = n.decimal? := by
  rw [Decimal.ofText?, text, String.toList_ofList]
  rfl

/-! ## The rule -/

namespace Canonical

theorem intOfText_of_truncate? {text : String} {d : Decimal} {i : ℤ}
    (hd : Decimal.ofText? text = some d) (hi : d.truncate? = some i) :
    intOfText text = .ok (.number (Numeral.ofInt i)) := by
  simp only [intOfText, hd, hi]

theorem intOfText_of_refused {text : String} {d : Decimal} (hd : Decimal.ofText? text = some d)
    (hnone : d.truncate? = none) : intOfText text = .error .numberOutOfRange := by
  simp only [intOfText, hd, hnone]

theorem int_of_not_isIntegral {n : Numeral} (h : ¬n.isIntegral = true) :
    int (.number n) = intOfText n.text :=
  if_neg h

/-- The text of a number is not empty. -/
theorem int_text (n : Numeral) : int (.string n.text) = intOfText n.text := by
  refine if_neg fun hempty => ?_
  have hchars : n.chars = [] := by
    rw [← String.toList_ofList (l := n.chars), ← Numeral.text, String.isEmpty_iff.mp hempty]
    rfl
  simp [Numeral.chars, ne_nil_of_digitsOK n.digitsOK_whole] at hchars

/-- A value that is accepted is a number in plain digits, or its text has been cut down. -/
theorem int_eq_ok_cases {v w : Json} (h : int v = .ok w) :
    (∃ n, v = .number n ∧ n.isIntegral = true ∧ w = .number n) ∨ intOfText v.asText = .ok w := by
  cases v with
  | number n =>
      by_cases hn : n.isIntegral = true
      · rw [int_of_isIntegral hn] at h
        exact Or.inl ⟨n, rfl, hn, (Except.ok.inj h).symm⟩
      · rw [int_of_not_isIntegral hn] at h
        exact Or.inr (by rwa [Json.asText_number])
  | string s =>
      simp only [int] at h
      split at h
      · cases h
      · exact Or.inr h
  | null | bool _ | array _ | object _ => cases h

/-- In plain digits, the text of a number is refused only for their number. -/
theorem intOfText_of_isIntegral {n : Numeral} (h : n.isIntegral = true) :
    (n.whole.length ≤ 1024 → intOfText n.text = .ok (.number (Numeral.ofInt n.signedWholeValue)))
      ∧ (1024 < n.whole.length → intOfText n.text = .error .numberOutOfRange) := by
  have hd : Decimal.ofText? n.text = some ⟨n.signedWholeValue, 0⟩ := by
    rw [n.ofText?_text, Numeral.decimal?_of_isIntegral h]
  have hdigits := n.digits_of_isIntegral
  constructor
  · intro hle
    refine intOfText_of_truncate? hd (Decimal.truncate?_integer ?_)
    rw [hdigits, Decimal.maxIntegerDigits]
    omega
  · intro hlt
    refine intOfText_of_refused hd (Decimal.truncate?_integer_eq_none ?_)
    rw [hdigits, Decimal.maxIntegerDigits]
    omega

end Canonical

namespace FieldType

/-! ## Cutting down -/

/-- The canonical integer of a number or of a text is a row of digits, after a minus or not, and
what it writes is the number in the text, cut off toward zero. It is zero instead only where the
digits before the point are more than can be counted. Unless the value is a number in plain digits,
the integer has 1024 digits at most and no leading zero. -/
theorem canonical?_int_cutsTo (v w : Json) (hv : v ≠ .null)
    (h : int.canonical? (some v) = .ok (some w)) :
    ∃ d n negative ds i, Decimal.ofText? v.asText = some d ∧ w = .number n
      ∧ n.text = String.ofList ((if negative then ['-'] else []) ++ ds) ∧ digitsOK ds = true
      ∧ signed negative (digitsValue ds) = i ∧ (CutsTo d.value i ∨ d.CountWraps ∧ i = 0)
      ∧ ((∀ m, v = .number m → m.isIntegral = false) → |i| < 10 ^ 1024 ∧ n.text = toString i) := by
  rcases Canonical.int_eq_ok_cases ((canonical?_eq_ok hv).mp h) with ⟨n, rfl, hn, rfl⟩ | htext
  · have hd : Decimal.ofText? (Json.number n).asText = some ⟨n.signedWholeValue, 0⟩ := by
      rw [Json.asText_number, n.ofText?_text, Numeral.decimal?_of_isIntegral hn]
    refine ⟨_, n, n.negative, n.whole, n.signedWholeValue, hd, rfl, ?_, n.digitsOK_whole, rfl,
      ?_, fun hother => ?_⟩
    · rw [Numeral.text, Numeral.chars_of_isIntegral hn, Numeral.signedWhole]
    · rw [Decimal.value_integer]
      exact Or.inl (cutsTo_intCast _)
    · cases hn.symm.trans (hother n rfl)
  · obtain ⟨d, i, hd, hi, rfl⟩ := Canonical.intOfText_eq_ok htext
    have hscale := Decimal.scaleOK_of_ofChars? hd
    have hchars : (Numeral.ofInt i).chars
        = (if decide (i < 0) then ['-'] else []) ++ digitsOf i.natAbs :=
      Numeral.chars_of_isIntegral rfl
    refine ⟨d, Numeral.ofInt i, decide (i < 0), digitsOf i.natAbs, i, hd, rfl, ?_,
      digitsOK_digitsOf _, ?_, ?_,
      fun _ => ⟨Decimal.abs_lt_of_truncate? hscale hi, Numeral.text_ofInt i⟩⟩
    · rw [Numeral.text, hchars]
    · rw [digitsValue_digitsOf, signed_natAbs]
    · rcases Decimal.truncate?_cases hscale hi with ⟨-, rfl⟩ | hwraps
      · exact Or.inl (cutsTo_integerPart d.value)
      · exact Or.inr hwraps

/-- A negative number in a text with leading zeros, a fraction and an exponent. -/
theorem canonical?_int_cutsTo_negative :
    int.canonical? (some (.string "-0012.999e1")) = .ok (some (.number (Numeral.ofInt (-129))))
      ∧ ∃ d i, Decimal.ofText? "-0012.999e1" = some d ∧ CutsTo d.value i ∧ toString i = "-129" := by
  have h : int.canonical? (some (.string "-0012.999e1"))
      = .ok (some (.number (Numeral.ofInt (-129)))) := rfl
  obtain ⟨d, n, negative, ds, i, hd, hn, -, -, -, hcuts, hwritten⟩ :=
    canonical?_int_cutsTo (.string "-0012.999e1") _ Json.noConfusion h
  obtain rfl := Json.number.inj hn
  have hread : Decimal.ofText? "-0012.999e1" = some ⟨-12999, 2⟩ := by decide
  have hfits : Decimal.CountFits ⟨-12999, 2⟩ := ⟨by decide, by decide, by decide⟩
  obtain rfl := Option.some.inj (hread.symm.trans hd)
  have hcut := hcuts.resolve_right fun hwraps => hfits.not_countWraps hwraps.1
  exact ⟨h, _, i, hd, hcut, (hwritten nofun).2.symm⟩

/-! ## A number and its text -/

theorem canonical?_int_of_isIntegral {n : Numeral} (h : n.isIntegral = true) :
    int.canonical? (some (.number n)) = .ok (some (.number n)) :=
  (canonical?_eq_ok Json.noConfusion).mpr (Canonical.int_of_isIntegral h)

theorem canonical?_int_text_of_short {n : Numeral} (h : n.isIntegral = true)
    (hshort : n.whole.length ≤ 1024) :
    int.canonical? (some (.string n.text))
      = .ok (some (.number (Numeral.ofInt n.signedWholeValue))) :=
  (canonical?_eq_ok Json.noConfusion).mpr
    ((Canonical.int_text n).trans ((Canonical.intOfText_of_isIntegral h).1 hshort))

theorem canonical?_int_text_of_long {n : Numeral} (h : n.isIntegral = true)
    (hlong : 1024 < n.whole.length) :
    int.canonical? (some (.string n.text))
      = .error ⟨.int, .string n.text, .numberOutOfRange⟩ :=
  (canonical?_eq_error Json.noConfusion).mpr
    ((Canonical.int_text n).trans ((Canonical.intOfText_of_isIntegral h).2 hlong))

/-- A number with a fraction or an exponent is read from its text. -/
theorem canonical?_int_text_of_not_isIntegral {n : Numeral} {w : Json} (h : ¬n.isIntegral = true) :
    int.canonical? (some (.string n.text)) = .ok (some w)
      ↔ int.canonical? (some (.number n)) = .ok (some w) := by
  rw [canonical?_eq_ok Json.noConfusion, canonical?_eq_ok Json.noConfusion, canonicalForm,
    canonicalForm, Canonical.int_text, Canonical.int_of_not_isIntegral h]

/-- A number and its text are both accepted or both refused, unless the number is in more than
1024 plain digits; then it is taken as it is, and its text is out of range. Where both are
accepted they come to one integer. -/
theorem canonical?_int_text (n : Numeral) :
    (((∃ a, int.canonical? (some (.number n)) = .ok (some a))
          ↔ ∃ b, int.canonical? (some (.string n.text)) = .ok (some b))
        ↔ ¬(n.isIntegral = true ∧ 1024 < n.whole.length))
      ∧ (n.isIntegral = true ∧ 1024 < n.whole.length →
          int.canonical? (some (.number n)) = .ok (some (.number n))
            ∧ int.canonical? (some (.string n.text))
                = .error ⟨.int, .string n.text, .numberOutOfRange⟩)
      ∧ ∀ a b, int.canonical? (some (.number n)) = .ok (some a) →
          int.canonical? (some (.string n.text)) = .ok (some b) →
            ∃ m i, a = .number m ∧ m.isIntegral = true ∧ m.value = (i : ℤ)
              ∧ b = .number (Numeral.ofInt i) := by
  by_cases hn : n.isIntegral = true
  · have hnumber := canonical?_int_of_isIntegral hn
    by_cases hlong : 1024 < n.whole.length
    · have htext := canonical?_int_text_of_long hn hlong
      refine ⟨iff_of_false (fun hiff => ?_) (not_not_intro ⟨hn, hlong⟩),
        fun _ => ⟨hnumber, htext⟩, fun a b _ hb => ?_⟩
      · obtain ⟨b, hb⟩ := hiff.mp ⟨_, hnumber⟩
        cases htext.symm.trans hb
      · cases htext.symm.trans hb
    · have htext := canonical?_int_text_of_short hn (Nat.not_lt.mp hlong)
      refine ⟨iff_of_true (iff_of_true ⟨_, hnumber⟩ ⟨_, htext⟩) fun h => hlong h.2,
        fun h => absurd h.2 hlong, fun a b ha hb => ?_⟩
      obtain rfl := Option.some.inj (Except.ok.inj (hnumber.symm.trans ha))
      obtain rfl := Option.some.inj (Except.ok.inj (htext.symm.trans hb))
      exact ⟨n, n.signedWholeValue, rfl, hn, Numeral.value_of_isIntegral hn, rfl⟩
  · have hsame := fun w => canonical?_int_text_of_not_isIntegral hn (w := w)
    refine ⟨iff_of_true (exists_congr fun w => (hsame w).symm) fun h => hn h.1,
      fun h => absurd h.1 hn, fun a b ha hb => ?_⟩
    obtain rfl := Option.some.inj (Except.ok.inj (hb.symm.trans ((hsame a).mpr ha)))
    obtain ⟨_, i, -, -, rfl⟩ := Canonical.intOfText_eq_ok
      ((Canonical.int_text n).symm.trans ((canonical?_eq_ok Json.noConfusion).mp hb))
    exact ⟨Numeral.ofInt i, i, rfl, rfl, Numeral.value_ofInt i, rfl⟩

/-- The number -0 is kept as it is written, and its text becomes 0. -/
theorem canonical?_int_text_minus_zero :
    ∃ n : Numeral, n.text = "-0"
      ∧ int.canonical? (some (.number n)) = .ok (some (.number n))
      ∧ int.canonical? (some (.string "-0")) = .ok (some (.number (Numeral.ofInt 0)))
      ∧ ¬(n.isIntegral = true ∧ 1024 < n.whole.length)
      ∧ ∃ i : ℤ, n.value = i ∧ Numeral.ofInt 0 = Numeral.ofInt i := by
  obtain ⟨n, hn, hintegral⟩ : ∃ n : Numeral, n.text = "-0" ∧ n.isIntegral = true :=
    ⟨⟨true, ['0'], [], none, rfl, rfl, rfl⟩, rfl, rfl⟩
  have hnumber := canonical?_int_of_isIntegral hintegral
  have htext : int.canonical? (some (.string "-0")) = .ok (some (.number (Numeral.ofInt 0))) :=
    rfl
  obtain ⟨hiff, -, hsame⟩ := canonical?_int_text n
  rw [hn] at hiff hsame
  obtain ⟨m, i, hm, -, hi, h⟩ := hsame _ _ hnumber htext
  obtain rfl := Json.number.inj hm
  exact ⟨n, hn, hnumber, htext, hiff.mp (iff_of_true ⟨_, hnumber⟩ ⟨_, htext⟩), i, hi,
    Json.number.inj h⟩

/-- A one and 1024 zeros are an integer as a number, and none as a text. -/
theorem canonical?_int_number_without_text :
    int.canonical? (some (.number (Numeral.ofInt (10 ^ 1024 : ℕ))))
        = .ok (some (.number (Numeral.ofInt (10 ^ 1024 : ℕ))))
      ∧ ¬∃ w, int.canonical? (some (.string (Numeral.ofInt (10 ^ 1024 : ℕ)).text))
          = .ok (some w) := by
  have hintegral := Numeral.isIntegral_ofInt (10 ^ 1024 : ℕ)
  have hlong := Numeral.lt_length_whole_ofInt 1024
  refine ⟨canonical?_int_of_isIntegral hintegral, ?_⟩
  rintro ⟨w, hw⟩
  cases (canonical?_int_text_of_long hintegral hlong).symm.trans hw

end FieldType

end Intake
