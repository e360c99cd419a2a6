import Intake.Proofs.Calendar.Window
import Intake.Proofs.FixedPoints

/-!
# Canonical calendar dates

The canonical text of a date has ten characters if its year is one from 0 to 9999. Then it is
its own canonical text. A year with a sign makes it longer, and since a date is read from ten
bytes, no such text is its own canonical text: what it is read as lacks a digit of the day, or
there is no day left to read (`canonical?_calendarDate_again`).
-/

namespace Intake

namespace FieldType

theorem canonical?_calendarDate_string (s : String) :
    calendarDate.canonical? (some (.string s))
      = match Date.read s with
        | .ok d => .ok (some (.string d.text))
        | .error e => .error ⟨.calendarDate, .string s, .calendar e⟩ := by
  have hrule : calendarDate.canonicalForm (.string s)
      = Canonical.ofCalendar Date.text (Date.read s) := rfl
  have hnull : (Json.string s).isNull = false := rfl
  rw [canonical?, canonical, hnull, hrule]
  cases Date.read s <;> rfl

/-! ## The text of a date as input -/

/-- Of a year from -1 to -9999, the first digit of the day is taken for the day. -/
theorem canonical?_text_of_negative {d : Date} (hlow : -9999 ≤ d.year) (hneg : d.year < 0)
    (hday : 10 ≤ d.day) :
    ∃ e : Date, e.year = d.year ∧ e.month = d.month ∧ e.day = d.day / 10
      ∧ calendarDate.canonical? (some (.string d.text)) = .ok (some (.string e.text)) := by
  obtain ⟨e, hyear, hmonth, htenth⟩ :
      ∃ e : Date, e.year = d.year ∧ e.month = d.month ∧ e.day = d.day / 10 :=
    ⟨⟨d.year, d.month, d.day / 10, by omega, Nat.le_trans (Nat.div_le_self _ _) d.day_le⟩,
      rfl, rfl, rfl⟩
  have hread := (Date.read_text_of_negative hlow hneg).1 e hyear hmonth htenth
  exact ⟨e, hyear, hmonth, htenth, by rw [canonical?_calendarDate_string, hread]⟩

theorem canonical?_text_of_negative_zero {d : Date} (hlow : -9999 ≤ d.year) (hneg : d.year < 0)
    (hday : d.day < 10) :
    calendarDate.canonical? (some (.string d.text))
      = .error ⟨.calendarDate, .string d.text, .calendar (.outOfRange d.text)⟩ := by
  rw [canonical?_calendarDate_string, (Date.read_text_of_negative hlow hneg).2 hday]

theorem canonical?_text_of_five_digits {d : Date} (hsupported : d.supported = true)
    (hyear : d.year.natAbs < 10 ^ 5) (hlong : d.year < -9999 ∨ 9999 < d.year) :
    calendarDate.canonical? (some (.string d.text))
      = .error ⟨.calendarDate, .string d.text, .calendar (.invalidFormat d.text)⟩ := by
  rw [canonical?_calendarDate_string, Date.read_text_of_five_digits hsupported hyear hlong]

/-- Only the years from 0 to 9999 have texts that are their own canonical text. -/
theorem canonical?_text_eq_iff {d : Date} (hsupported : d.supported = true)
    (hyear : d.year.natAbs < 10 ^ 5) :
    calendarDate.canonical? (some (.string d.text)) = .ok (some (.string d.text))
      ↔ 0 ≤ d.year ∧ d.year ≤ 9999 := by
  constructor
  · intro hagain
    rcases (show 0 ≤ d.year ∧ d.year ≤ 9999 ∨ -9999 ≤ d.year ∧ d.year < 0
        ∨ (d.year < -9999 ∨ 9999 < d.year) by omega) with hplain | ⟨hlow, hneg⟩ | hlong
    · exact hplain
    · by_cases hday : 10 ≤ d.day
      · obtain ⟨e, hyear', -, htenth, he⟩ := canonical?_text_of_negative hlow hneg hday
        have htext := Json.string.inj (Option.some.inj (Except.ok.inj (he.symm.trans hagain)))
        obtain rfl := Date.text_inj (by rwa [Date.supported, hyear']) hsupported htext
        omega
      · cases (canonical?_text_of_negative_zero hlow hneg (by omega)).symm.trans hagain
    · cases (canonical?_text_of_five_digits hsupported hyear hlong).symm.trans hagain
  · rintro ⟨hlow, hhigh⟩
    rw [canonical?_calendarDate_string, Date.read_text hlow hhigh]

/-! ## Canonical dates as input -/

/-- The canonical text of a date is its own canonical text exactly if the year is one from 0 to
9999. Of a year from -1 to -9999 it is taken for the date whose day is the first digit of the
day, and rejected if that digit is a zero; of any other year it is rejected. -/
theorem canonical?_calendarDate_again (s c : String)
    (h : calendarDate.canonical? (some (.string s)) = .ok (some (.string c))) :
    ∃ d, Date.read s = .ok d ∧ c = d.text
      ∧ (calendarDate.canonical? (some (.string c)) = .ok (some (.string c))
          ↔ 0 ≤ d.year ∧ d.year ≤ 9999)
      ∧ (-9999 ≤ d.year → d.year < 0 → 10 ≤ d.day →
          ∃ e : Date, e.year = d.year ∧ e.month = d.month ∧ e.day = d.day / 10
            ∧ calendarDate.canonical? (some (.string c)) = .ok (some (.string e.text)))
      ∧ (-9999 ≤ d.year → d.year < 0 → d.day < 10 →
          calendarDate.canonical? (some (.string c))
            = .error ⟨.calendarDate, .string c, .calendar (.outOfRange c)⟩)
      ∧ (d.year < -9999 ∨ 9999 < d.year →
          calendarDate.canonical? (some (.string c))
            = .error ⟨.calendarDate, .string c, .calendar (.invalidFormat c)⟩) := by
  rw [canonical?_calendarDate_string] at h
  cases hd : Date.read s with
  | error e =>
      rw [hd] at h
      cases h
  | ok d =>
      rw [hd] at h
      obtain rfl := Json.string.inj (Option.some.inj (Except.ok.inj h))
      obtain ⟨-, -, -, -, -, hsupported⟩ := Date.exists_window_of_read hd
      have hyear := Date.natAbs_year_of_read hd
      exact ⟨d, rfl, rfl, canonical?_text_eq_iff hsupported hyear, canonical?_text_of_negative,
        canonical?_text_of_negative_zero, canonical?_text_of_five_digits hsupported hyear⟩

/-- A date of the year 12 before the year 0 is taken for another one of the same month. -/
theorem canonical?_calendarDate_first_digit :
    calendarDate.canonical? (some (.string "-12- 3- 28")) = .ok (some (.string "-0012-03-28"))
      ∧ calendarDate.canonical? (some (.string "-0012-03-28"))
          = .ok (some (.string "-0012-03-02")) := by
  have h : calendarDate.canonical? (some (.string "-12- 3- 28"))
      = .ok (some (.string "-0012-03-28")) := rfl
  obtain ⟨d, hd, -, -, hfirst, -⟩ := canonical?_calendarDate_again _ _ h
  obtain rfl : (⟨-12, 3, 28, by decide, by decide⟩ : Date) = d := Except.ok.inj hd
  obtain ⟨e, hyear, hmonth, hday, he⟩ := hfirst (by decide) (by decide) (by decide)
  obtain rfl : e = ⟨-12, 3, 2, by decide, by decide⟩ := Date.ext_of_parts hyear hmonth hday
  exact ⟨h, he⟩

/-- The canonical text of a date in the year -2015 is not its own canonical text. -/
theorem canonical?_calendarDate_not_again :
    calendarDate.canonical? (some (.string "-2015-1-15")) = .ok (some (.string "-2015-01-15"))
      ∧ calendarDate.canonical? (some (.string "-2015-01-15"))
          ≠ .ok (some (.string "-2015-01-15")) := by
  refine ⟨rfl, ?_⟩
  have h : calendarDate.canonical? (some (.string "-2015-01-15"))
      = .ok (some (.string "-2015-01-01")) := rfl
  rw [h]
  simp

end FieldType

end Intake
