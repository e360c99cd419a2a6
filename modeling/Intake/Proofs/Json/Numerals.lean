import Intake.Proofs.Decimals

/-!
# Which texts are JSON numbers

The texts that are read as JSON numbers are the spelled numbers that JSON knows
(`SpelledNumber.IsJson`): no plus in front, no leading zero, and digits on both sides of a point.
Each of them is read as the number that it spells (`SpelledNumber.IsJson.ofChars?_chars`), and no
other text is read (`Numeral.exists_spelled_of_ofChars?`). A text that is read both as a number and
as a decimal is read alike (`Numeral.decimal?_of_ofChars?`).
-/

namespace Intake

theorem noDigit_chars (e : Option SpelledExponent) : NoDigit (SpelledExponent.chars e) := by
  cases e with
  | none => exact noDigit_nil
  | some e =>
      refine noDigit_cons ?_
      rw [SpelledExponent.mark]
      cases e.capital <;> rfl

theorem noDigit_pointChars_append (fraction : Option (List Char)) (e : Option SpelledExponent) :
    NoDigit (pointChars fraction ++ SpelledExponent.chars e) := by
  cases fraction with
  | none => exact noDigit_chars e
  | some digits => exact noDigit_cons rfl

namespace Numeral

/-! ## The exponent -/

theorem exponent?_chars (e : Option SpelledExponent) :
    exponent? (SpelledExponent.chars e)
      = some (e.map fun e => (e.sign.isMinus, e.digits)) := by
  cases e with
  | none => rfl
  | some e =>
      have hmark : (e.mark == 'e' || e.mark == 'E') = true := by
        rw [SpelledExponent.mark]
        cases e.capital <;> rfl
      simp [exponent?, SpelledExponent.chars, hmark, e.sign.takeSign_chars_append e.digits_ok,
        e.digits_ok]

theorem exists_of_exponent? {cs : List Char} {exponent : Option (Bool × List Char)}
    (h : exponent? cs = some exponent) : ∃ e : Option SpelledExponent,
      cs = SpelledExponent.chars e ∧ exponent = e.map fun e => (e.sign.isMinus, e.digits) := by
  cases cs with
  | nil => exact ⟨none, rfl, (Option.some.inj h).symm⟩
  | cons c rest =>
      obtain ⟨hc, h⟩ := Option.ite_none_right_eq_some.mp h
      obtain rfl := Option.some.inj h
      rw [Bool.and_eq_true, Bool.or_eq_true, beq_iff_eq, beq_iff_eq] at hc
      obtain ⟨sign, hrest, hminus⟩ := Sign.exists_of_takeSign rest
      rcases hc with ⟨rfl | rfl, hdigits⟩
      · refine ⟨some ⟨false, sign, _, hdigits⟩, congrArg ('e' :: ·) hrest, ?_⟩
        rw [Option.map_some, ← hminus]
      · refine ⟨some ⟨true, sign, _, hdigits⟩, congrArg ('E' :: ·) hrest, ?_⟩
        rw [Option.map_some, ← hminus]

/-! ## The fraction -/

theorem takeFraction?_pointChars {fraction : Option (List Char)} (hne : fraction ≠ some [])
    (hdigits : (fraction.getD []).all Char.isDigit = true) (e : Option SpelledExponent) :
    takeFraction? (pointChars fraction ++ SpelledExponent.chars e)
      = some (fraction.getD [], SpelledExponent.chars e) := by
  cases fraction with
  | none =>
      cases e with
      | none => rfl
      | some e =>
          rw [pointChars, List.nil_append, SpelledExponent.chars, SpelledExponent.mark]
          cases e.capital <;> rfl
  | some digits =>
      have hok : digitsOK digits = true := by
        cases digits with
        | nil => exact absurd rfl hne
        | cons c rest => exact hdigits
      simp only [pointChars, List.cons_append, takeFraction?,
        takeWhile_isDigit_append hok (noDigit_chars e),
        dropWhile_isDigit_append hok (noDigit_chars e), hok, if_true, Option.getD_some]

theorem exists_of_takeFraction? {cs fraction rest : List Char}
    (h : takeFraction? cs = some (fraction, rest)) : ∃ spelled : Option (List Char),
      cs = pointChars spelled ++ rest ∧ fraction = spelled.getD [] ∧ spelled ≠ some [] := by
  unfold takeFraction? at h
  split at h
  · next behind =>
      obtain ⟨hok, h⟩ := Option.ite_none_right_eq_some.mp h
      obtain ⟨rfl, rfl⟩ := Prod.mk.inj (Option.some.inj h)
      refine ⟨some _, ?_, rfl, fun hnil => ne_nil_of_digitsOK hok (Option.some.inj hnil)⟩
      rw [pointChars, List.cons_append, List.takeWhile_append_dropWhile]
  · obtain ⟨rfl, rfl⟩ := Prod.mk.inj (Option.some.inj h)
    exact ⟨none, rfl, rfl, (Option.some_ne_none _).symm⟩

end Numeral

/-! ## The whole text -/

namespace SpelledNumber

/-- The text behind a minus, or all of the text if there is none. -/
theorem IsJson.unsigned_chars {w : SpelledNumber} (h : w.IsJson) :
    (w.chars.head? == some '-') = w.sign.isMinus
      ∧ (if w.sign.isMinus then w.chars.tail else w.chars)
        = w.whole ++ (pointChars w.fraction ++ SpelledExponent.chars w.exponent) := by
  rw [chars, List.append_assoc, List.append_assoc]
  cases hsign : w.sign with
  | plus => exact absurd hsign h.sign_ne
  | minus => exact ⟨rfl, rfl⟩
  | absent =>
      have hwhole := (Bool.and_eq_true_iff.mp h.whole_ok).1
      obtain ⟨c, rest, hc⟩ := List.exists_cons_of_ne_nil (ne_nil_of_digitsOK hwhole)
      have hne : c ≠ '-' := by
        rintro rfl
        cases isDigit_of_digitsOK hwhole '-' (by rw [hc]; exact List.mem_cons_self)
      refine ⟨?_, rfl⟩
      simp [Sign.chars, Sign.isMinus, hc, hne]

theorem IsJson.ofChars?_chars {w : SpelledNumber} (h : w.IsJson) :
    Numeral.ofChars? w.chars = some (w.numeral h) := by
  have hwhole := (Bool.and_eq_true_iff.mp h.whole_ok).1
  have hrest := noDigit_pointChars_append w.fraction w.exponent
  obtain ⟨hsign, hunsigned⟩ := h.unsigned_chars
  unfold Numeral.ofChars?
  simp only [hsign, hunsigned, takeWhile_isDigit_append hwhole hrest,
    dropWhile_isDigit_append hwhole hrest,
    Numeral.takeFraction?_pointChars h.fraction_ne w.all_isDigit_fraction,
    Numeral.exponent?_chars, Option.bind_eq_bind, Option.bind_some]
  exact dif_pos ⟨h.whole_ok, (w.numeral h).fraction_ok, (w.numeral h).exponent_ok⟩

end SpelledNumber

namespace Numeral

theorem exists_sign (cs : List Char) : ∃ sign : Sign, sign ≠ .plus
    ∧ sign.isMinus = (cs.head? == some '-')
    ∧ cs = sign.chars ++ (if cs.head? == some '-' then cs.tail else cs) := by
  cases h : cs.head? == some '-' with
  | true =>
      refine ⟨.minus, nofun, rfl, ?_⟩
      exact List.eq_cons_of_mem_head? (beq_iff_eq.mp h)
  | false => exact ⟨.absent, nofun, rfl, rfl⟩

/-- A text that is read as a number is one of the number's spellings. -/
theorem exists_spelled_of_ofChars? {cs : List Char} {n : Numeral} (h : ofChars? cs = some n) :
    ∃ (w : SpelledNumber) (hw : w.IsJson), w.chars = cs ∧ w.numeral hw = n := by
  obtain ⟨sign, hplus, hminus, hcs⟩ := exists_sign cs
  obtain ⟨⟨fraction, tail⟩, hfraction, h⟩ := Option.bind_eq_some_iff.mp h
  obtain ⟨exponent, hexponent, h⟩ := Option.bind_eq_some_iff.mp h
  obtain ⟨⟨hwhole, _, _⟩, hn⟩ := Option.dite_none_right_eq_some.mp h
  have hdigits := n.digitsOK_whole_append_fraction
  obtain rfl := Option.some.inj hn
  obtain ⟨spelled, hdrop, rfl, hne⟩ := exists_of_takeFraction? hfraction
  obtain ⟨e, rfl, rfl⟩ := exists_of_exponent? hexponent
  refine ⟨⟨sign, _, spelled, e, hdigits⟩, ⟨hplus, hwhole, hne⟩, ?_, ?_⟩
  · rw [SpelledNumber.chars, List.append_assoc, ← hdrop, List.append_assoc,
      List.takeWhile_append_dropWhile]
    exact hcs.symm
  · simp only [SpelledNumber.numeral, hminus]

/-- A text that is read as a number is read as the decimal that the number is. -/
theorem decimal?_of_ofChars? {cs : List Char} {n : Numeral} (h : ofChars? cs = some n) :
    Decimal.ofChars? cs = n.decimal? := by
  obtain ⟨w, hw, rfl, rfl⟩ := exists_spelled_of_ofChars? h
  rw [w.ofChars?_chars, decimal?_numeral hw]

/-- A number is read back from its text. -/
theorem ofChars?_chars (n : Numeral) : ofChars? n.chars = some n := by
  obtain ⟨w, h, hchars, rfl⟩ := n.exists_spelled
  rw [← hchars, h.ofChars?_chars]

end Numeral

end Intake
