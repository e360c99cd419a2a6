import Intake.Proofs.Calendar.Spellings
import Intake.Proofs.CalendarDates

/-!
# Reading dates as they are written

A date as people write it (`SpelledDate`) is ten characters: four, two and two digits with hyphens
between them. It may open a longer text. A text that begins with it is read as that date if there
is such a date, whatever follows, and the canonical date is the ten characters themselves; if there
is no such date, the text is out of range (`SpelledDate.date_as_written`).
-/

namespace Intake

/-- Four, two and two digits, whatever numbers they write. -/
structure SpelledDate where
  year : DigitRun 4
  month : DigitRun 2
  day : DigitRun 2

namespace SpelledDate

def chars (w : SpelledDate) : List Char :=
  w.year.chars ++ '-' :: w.month.chars ++ '-' :: w.day.chars

def text (w : SpelledDate) : String := String.ofList w.chars

/-- There is such a month, and in it there is such a day. -/
structure InCalendar (w : SpelledDate) : Prop where
  month_pos : 1 ≤ w.month.value
  month_le : w.month.value ≤ 12
  day_pos : 1 ≤ w.day.value
  day_le : w.day.value ≤ daysInMonth w.year.value w.month.value

/-! ## The ten characters -/

theorem length_chars (w : SpelledDate) : w.chars.length = 10 := by
  simp [chars, w.year.length_eq, w.month.length_eq, w.day.length_eq]

theorem ne_nil_chars (w : SpelledDate) : w.chars ≠ [] :=
  List.ne_nil_of_length_eq_add_one w.length_chars

theorem mem_chars {w : SpelledDate} {c : Char} (h : c ∈ w.chars) : c.isDigit = true ∨ c = '-' := by
  simp only [chars, List.mem_append, List.mem_cons] at h
  rcases h with (h | rfl | h) | rfl | h
  · exact Or.inl (w.year.isDigit_of_mem c h)
  · exact Or.inr rfl
  · exact Or.inl (w.month.isDigit_of_mem c h)
  · exact Or.inr rfl
  · exact Or.inl (w.day.isDigit_of_mem c h)

theorem isBlank_of_mem_chars {w : SpelledDate} {c : Char} (h : c ∈ w.chars) :
    isBlank c = false := by
  rcases mem_chars h with hdigit | rfl
  · exact isBlank_of_isDigit hdigit
  · rfl

theorem utf8Size_of_mem_chars {w : SpelledDate} {c : Char} (h : c ∈ w.chars) :
    c.utf8Size = 1 := by
  rcases mem_chars h with hdigit | rfl
  · exact utf8Size_of_isDigit hdigit
  · rfl

/-- Trimming leaves the ten characters at the front of a text. -/
theorem exists_trimBlanks (w : SpelledDate) (after : String) :
    ∃ back, trimBlanks (w.text ++ after).toList = w.chars ++ back := by
  rw [String.toList_append, text, String.toList_ofList]
  exact ⟨_, trimBlanks_front w.ne_nil_chars
    (fun c hc => isBlank_of_mem_chars (List.mem_of_head? hc))
    (fun c hc => isBlank_of_mem_chars (List.mem_of_getLast? hc)) _⟩

/-! ## What the ten characters are read as -/

/-- What comes of the ten characters. -/
def attempt (w : SpelledDate) : Except Fault Date :=
  (Scan.yearMonthDay.whole w.chars).bind Date.ofParts

/-- Of a longer text no more than the ten characters is looked at. -/
theorem read_append (w : SpelledDate) (after : String) :
    Date.read (w.text ++ after)
      = w.attempt.mapError
          (CalendarError.ofFault (String.ofList (trimBlanks (w.text ++ after).toList))) := by
  obtain ⟨back, hback⟩ := w.exists_trimBlanks after
  have htrimmed : trimmed (w.text ++ after) = .ok (w.chars ++ back) := by
    rw [trimmed, hback, if_neg]
    simp [w.ne_nil_chars]
  have hchars : Date.ofChars (w.chars ++ back) = w.attempt :=
    Date.ofChars_append (fun c hc => utf8Size_of_mem_chars hc) w.length_chars back
  rw [Date.read, htrimmed, hback, ← hchars]
  rfl

theorem scan_chars (w : SpelledDate) :
    Scan.TakesIf Scan.yearMonthDay w.chars
      ((1 ≤ w.month.value ∧ w.month.value ≤ 12) ∧ 1 ≤ w.day.value ∧ w.day.value ≤ 31)
      ((w.year.value : Int), w.month.value, w.day.value) [] := by
  have h := Scan.yearMonthDay_runs w.year w.month w.day []
  rwa [List.append_nil] at h

theorem attempt_ne_mismatch (w : SpelledDate) : w.attempt ≠ .error .mismatch := by
  obtain ⟨hin, hout⟩ := w.scan_chars.whole
  refine bind_ne_error ?_ Date.ofParts_ne_mismatch
  by_cases h : (1 ≤ w.month.value ∧ w.month.value ≤ 12) ∧ 1 ≤ w.day.value ∧ w.day.value ≤ 31
  · rw [hin h]
    simp
  · rw [hout h]
    simp

/-- The ten characters are read as a date that has them for its text, and there is such a date. -/
theorem inCalendar_of_attempt {w : SpelledDate} {d : Date} (h : w.attempt = .ok d) :
    w.InCalendar ∧ d.text = w.text := by
  obtain ⟨p, hp, hparts⟩ := bind_eq_ok.mp h
  obtain ⟨⟨hmonth, -⟩, rfl, -⟩ := w.scan_chars.eq_of_ok (Scan.whole_eq_ok.mp hp)
  obtain ⟨hyear, hm, hd⟩ : d.year = w.year.value ∧ d.month = w.month.value
      ∧ d.day = w.day.value := by
    simpa using (Date.ofParts_eq_ok.mp hparts).1
  have hyear_lt := w.year.value_lt
  refine ⟨⟨hmonth.1, hmonth.2, hd ▸ d.day_pos, hyear ▸ hm ▸ hd ▸ d.day_le⟩, ?_⟩
  rw [Date.text, Date.chars, Date.yearChars, hyear, hm, hd, if_pos ⟨by omega, by omega⟩,
    Int.natAbs_natCast, w.year.padded_value, w.month.padded_value, w.day.padded_value]
  rfl

theorem exists_of_inCalendar {w : SpelledDate} (h : w.InCalendar) : ∃ d, w.attempt = .ok d := by
  have hyear := w.year.value_lt
  let date : Date := ⟨w.year.value, w.month.value, w.day.value, h.day_pos, h.day_le⟩
  have hsupported : date.supported = true := decide_eq_true (by simp only [date]; omega)
  have hscan := w.scan_chars.whole.1 ⟨⟨h.month_pos, h.month_le⟩, h.day_pos, date.day_le_31⟩
  exact ⟨date, bind_eq_ok.mpr ⟨_, hscan, Date.ofParts_self hsupported⟩⟩

/-! ## Texts that begin with a date -/

/-- A text that begins with four, two and two digits with hyphens between them is read as a date
exactly if the month is one of twelve and the day is one of that month in that year, whatever
follows. Then these ten characters are the canonical date; otherwise the text is out of range. -/
theorem date_as_written (w : SpelledDate) (after : String) :
    ((∃ d, Date.read (w.text ++ after) = .ok d) ↔ w.InCalendar)
      ∧ (w.InCalendar → FieldType.calendarDate.canonical? (some (.string (w.text ++ after)))
          = .ok (some (.string w.text)))
      ∧ (¬w.InCalendar → Date.read (w.text ++ after)
          = .error (.outOfRange (String.ofList (trimBlanks (w.text ++ after).toList)))) := by
  have hread := w.read_append after
  refine ⟨⟨?_, fun h => ?_⟩, fun h => ?_, fun h => ?_⟩
  · rintro ⟨d, hd⟩
    rw [hread, mapError_eq_ok] at hd
    exact (inCalendar_of_attempt hd).1
  · obtain ⟨d, hd⟩ := exists_of_inCalendar h
    exact ⟨d, hread.trans (mapError_eq_ok.mpr hd)⟩
  · obtain ⟨d, hd⟩ := exists_of_inCalendar h
    rw [FieldType.canonical?_calendarDate_string, hread, hd, ← (inCalendar_of_attempt hd).2]
    rfl
  · rw [hread]
    cases hattempt : w.attempt with
    | ok d => exact absurd (inCalendar_of_attempt hattempt).1 h
    | error e =>
        cases e with
        | mismatch => exact absurd hattempt w.attempt_ne_mismatch
        | outOfRange => rfl

/-- The 29th of February in two years that end a century, before other text. -/
theorem date_as_written_leap :
    FieldType.calendarDate.canonical? (some (.string "2000-02-299 é"))
        = .ok (some (.string "2000-02-29"))
      ∧ Date.read "2100-02-29 @ lunchtime " = .error (.outOfRange "2100-02-29 @ lunchtime") := by
  let leap : SpelledDate :=
    ⟨⟨['2', '0', '0', '0'], rfl, rfl⟩, ⟨['0', '2'], rfl, rfl⟩, ⟨['2', '9'], rfl, rfl⟩⟩
  let plain : SpelledDate :=
    ⟨⟨['2', '1', '0', '0'], rfl, rfl⟩, ⟨['0', '2'], rfl, rfl⟩, ⟨['2', '9'], rfl, rfl⟩⟩
  have hleap : leap.InCalendar := ⟨by decide, by decide, by decide, by decide⟩
  have hplain : ¬plain.InCalendar := fun h => absurd h.day_le (by decide)
  obtain ⟨-, hcanonical, -⟩ := date_as_written leap "9 é"
  obtain ⟨-, -, hnone⟩ := date_as_written plain " @ lunchtime "
  have hleap_text : leap.text ++ "9 é" = "2000-02-299 é" := rfl
  have hplain_text : plain.text ++ " @ lunchtime " = "2100-02-29 @ lunchtime " := rfl
  have htrimmed : String.ofList (trimBlanks "2100-02-29 @ lunchtime ".toList)
      = "2100-02-29 @ lunchtime" := rfl
  rw [hleap_text] at hcanonical
  rw [hplain_text, htrimmed] at hnone
  exact ⟨hcanonical hleap, hnone hplain⟩

end SpelledDate

end Intake
