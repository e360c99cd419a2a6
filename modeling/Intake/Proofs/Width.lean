import Intake.Proofs.Calendar.Durations
import Intake.Proofs.Calendar.Lengths
import Intake.Proofs.Compatibility
import Intake.Proofs.FixedPoints

/-!
# Values in text of a bounded width

Fields of five types may become text fields (`FieldType.textWidth?`), and the check
asks that the text be wider than the width that the type has in a table. How long
the values are that have been stored is not asked, neither there nor anywhere else.

So the check leaves room for every value that is no longer than its type's width and
one character, and for all values of a type only where these are bounded at all:
times of day, and calendar dates from a width of twelve on (`fitsIn_iff`). Integers,
decimals and durations may be of any length.
-/

namespace Intake

/-! ## Durations of any length -/

/-- A number of days is a duration, however many digits it has. -/
theorem Duration.isDuration_days {ds : List Char} (hds : digitsOK ds = true) :
    isDuration (String.ofList ('P' :: (ds ++ ['D']))) = true := by
  have hdays : Amount.amountOK false ⟨false, ds, none⟩ = true :=
    Amount.amountOK_iff.mpr ⟨hds, nofun⟩
  have hd : WellFormed ⟨none, none, none, some ⟨false, ds, none⟩, none, none, none⟩ :=
    ⟨rfl, rfl, rfl, hdays, rfl, rfl, rfl, Or.inl rfl⟩
  have htext : text ⟨none, none, none, some ⟨false, ds, none⟩, none, none, none⟩
      = String.ofList ('P' :: (ds ++ ['D'])) := by
    simp [text, chars, amountChars, Amount.chars, hasTime]
  rw [isDuration, ofText?_eq_some_iff.mpr ⟨hd, htext⟩]
  rfl

namespace FieldType

/-- All canonical values of the type fit into text of `n` characters. -/
def FitsIn (t : FieldType) (n : Nat) : Prop :=
  ∀ v w : Json, t.canonical? (some v) = .ok (some w) → w ≠ .null → w.asText.length ≤ n

theorem FitsIn.mono {t : FieldType} {m n : Nat} (h : t.FitsIn m) (hmn : m ≤ n) : t.FitsIn n :=
  fun v w hw hnull => Nat.le_trans (h v w hw hnull) hmn

/-- A value that a rule accepts with more characters than `n` does not fit. -/
theorem not_fitsIn {t : FieldType} {n : Nat} {v w : Json} (hv : v ≠ .null) (hw : w ≠ .null)
    (h : t.canonicalForm v = .ok w) (hlong : n < w.asText.length) : ¬t.FitsIn n := by
  intro hfits
  have hcanonical : t.canonical? (some v) = .ok (some w) :=
    canonical?_some_eq_ok.mpr ((canonical_eq_ok hv).mpr h)
  exact Nat.not_le_of_lt hlong (hfits v w hcanonical hw)

/-! ## Times and dates -/

theorem fitsIn_timeV2 : FitsIn .timeV2 12 := by
  intro v w h hw
  have htime : Canonical.time v = .ok w :=
    canonicalForm_of_canonical (canonical?_some_eq_ok.mp h) hw
  obtain ⟨t, rfl⟩ := Canonical.time_eq_ok htime
  exact Nat.le_of_eq t.length_text

theorem fitsIn_calendarDate : FitsIn .calendarDate 12 := by
  intro v w h hw
  have hdate : Canonical.calendarDate v = .ok w :=
    canonicalForm_of_canonical (canonical?_some_eq_ok.mp h) hw
  cases v with
  | string s =>
      obtain ⟨d, hd, rfl⟩ := Canonical.ofCalendar_eq_ok.mp hdate
      exact Date.length_text_of_read hd
  | null | bool _ | number _ | array _ | object _ => cases hdate

/-- A date that is read from ten bytes may be written in twelve characters. -/
theorem not_fitsIn_calendarDate : ¬FitsIn .calendarDate 11 :=
  not_fitsIn (v := .string "+99999-1-1") (w := .string "+99999-01-01") Json.noConfusion
    Json.noConfusion rfl (by decide)

/-! ## Values of any length -/

theorem lt_length_text_ofInt (n : Nat) : n < (Numeral.ofInt (10 ^ n : Nat)).text.length := by
  have := lt_length_digitsOf_pow n
  rw [Numeral.text, String.length_ofList]
  simp only [Numeral.chars, Numeral.ofInt, List.length_append, Int.natAbs_natCast]
  omega

theorem not_fitsIn_of_number {t : FieldType} {n : Nat} (numeral : Numeral)
    (h : t.canonicalForm (.number numeral) = .ok (.number numeral))
    (hlong : n < numeral.text.length) : ¬t.FitsIn n :=
  not_fitsIn Json.noConfusion Json.noConfusion h (by rwa [Json.asText_number])

theorem not_fitsIn_int (n : Nat) : ¬FitsIn .int n :=
  not_fitsIn_of_number _ (Canonical.int_of_isIntegral rfl) (lt_length_text_ofInt n)

theorem not_fitsIn_float (n : Nat) : ¬FitsIn .float n :=
  not_fitsIn_of_number _ rfl (lt_length_text_ofInt n)

theorem durationV2_string {s : String} (h : Duration.isDuration s = true) :
    canonicalForm .durationV2 (.string s) = .ok (.string s) := by
  have hne : ¬s.isEmpty = true := by
    intro hempty
    rw [String.isEmpty_iff.mp hempty] at h
    cases h
  rw [canonicalForm, Canonical.duration, if_neg hne, if_pos h]

theorem not_fitsIn_durationV2 (n : Nat) : ¬FitsIn .durationV2 n := by
  refine not_fitsIn Json.noConfusion Json.noConfusion
    (durationV2_string (Duration.isDuration_days (digitsOK_digitsOf (10 ^ n)))) ?_
  have := lt_length_digitsOf_pow n
  rw [Json.asText, String.length_ofList, List.length_cons, List.length_append]
  omega

/-! ## Types that may become text -/

/-- A bound on all values of the types that have a width. -/
theorem fitsIn_iff {t : FieldType} {width : Count} (ht : t.textWidth? = some width) {n : Nat}
    (hwidth : width.val < n) : t.FitsIn n ↔ t = .timeV2 ∨ (t = .calendarDate ∧ 12 ≤ n) := by
  cases t with
  | timeV2 =>
      obtain rfl := Option.some.inj ht
      exact iff_of_true (fitsIn_timeV2.mono (Nat.le_of_lt hwidth)) (Or.inl rfl)
  | calendarDate =>
      obtain rfl := Option.some.inj ht
      constructor
      · intro hfits
        refine Or.inr ⟨rfl, Nat.lt_of_not_le fun hle => ?_⟩
        exact not_fitsIn_calendarDate (hfits.mono hle)
      · rintro (h | ⟨-, hle⟩)
        · cases h
        · exact fitsIn_calendarDate.mono hle
  | int => exact iff_of_false (not_fitsIn_int n) (by simp)
  | float => exact iff_of_false (not_fitsIn_float n) (by simp)
  | durationV2 => exact iff_of_false (not_fitsIn_durationV2 n) (by simp)
  | attachmentBlob | attachmentCsv | attachmentJsonBlob | attachmentJsonTable | attachmentV2
  | boolean | inlineJsonBlob | largeTextAttachment | multiChoice | singleChoice | string
  | timestamp => cases ht

end FieldType

namespace Field

/-- Text that takes the place of another type is wider than the width of the type. -/
theorem width_lt_of_isCompatible {old new : Field} {t : FieldType} {width : Count}
    (hold : old.type = some t) (ht : t.textWidth? = some width) (hnew : new.type = some .string)
    (hbounded : new.isUnbounded = false) (h : old.isCompatible new = true) :
    width < new.effectiveMaxLength := by
  cases (isCompatible_iff.mp h).type with
  | same htype _ =>
      obtain rfl := Option.some.inj (hold.symm.trans (htype.trans hnew))
      cases ht
  | decimal _ hfloat => cases hnew.symm.trans hfloat
  | text hold' ht' _ hwidth =>
      obtain rfl := Option.some.inj (hold.symm.trans hold')
      obtain rfl := Option.some.inj (ht.symm.trans ht')
      rcases hwidth with hunbounded | hlt
      · cases hbounded.symm.trans hunbounded
      · exact hlt
  | textLike hold' htext _ _ =>
      obtain rfl := Option.some.inj (hold.symm.trans hold')
      cases ht.symm.trans (textWidth?_of_isTextLike htext)

/-- What fits into the text that takes the place of another type: values that are no
longer than the width of the type and one character, and all values just of times of
day and, from a width of twelve on, of calendar dates. -/
theorem text_fits (old new : Field) (t : FieldType) (width : Count) (hold : old.type = some t)
    (ht : t.textWidth? = some width) (hnew : new.type = some .string)
    (hbounded : new.isUnbounded = false) (h : old.isCompatible new = true) :
    (∀ v w : Json, t.canonical? (some v) = .ok (some w) → w ≠ .null →
        w.asText.length ≤ width.val + 1 → w.asText.length ≤ new.effectiveMaxLength.val)
      ∧ ((∀ v w : Json, t.canonical? (some v) = .ok (some w) → w ≠ .null →
            w.asText.length ≤ new.effectiveMaxLength.val)
          ↔ t = .timeV2 ∨ (t = .calendarDate ∧ 12 ≤ new.effectiveMaxLength.val)) := by
  have hlt : width.val < new.effectiveMaxLength.val :=
    width_lt_of_isCompatible hold ht hnew hbounded h
  exact ⟨fun v w _ _ hshort => Nat.le_trans hshort hlt, FieldType.fitsIn_iff ht hlt⟩

/-- A time of day fits into text of thirteen characters. -/
theorem text_fits_time :
    Field.isCompatible { name := "start", type := some .timeV2 }
        { name := "start", type := some .string, maxLength := some 13 } = true
      ∧ ∀ v w : Json, FieldType.timeV2.canonical? (some v) = .ok (some w) → w ≠ .null →
          w.asText.length ≤ 13 := by
  have h : Field.isCompatible { name := "start", type := some .timeV2 }
      { name := "start", type := some .string, maxLength := some 13 } = true := rfl
  exact ⟨h, (text_fits _ _ .timeV2 12 rfl rfl rfl rfl h).2.mpr (Or.inl rfl)⟩

/-- An integer of twenty-two digits does not fit into the text that is wide enough for
integers. -/
theorem text_overflows :
    Field.isCompatible { name := "count", type := some .int }
        { name := "count", type := some .string, maxLength := some 21 } = true
      ∧ FieldType.int.canonical? (some (.string "1000000000000000000000"))
          = .ok (some (.number (Numeral.ofInt 1000000000000000000000)))
      ∧ Json.number (Numeral.ofInt 1000000000000000000000) ≠ .null
      ∧ ¬(Json.number (Numeral.ofInt 1000000000000000000000)).asText.length
          ≤ (effectiveMaxLength
              { name := "count", type := some .string, maxLength := some 21 }).val := by
  refine ⟨rfl, rfl, Json.noConfusion, ?_⟩
  rw [Json.asText_number]
  decide

end Field

end Intake
