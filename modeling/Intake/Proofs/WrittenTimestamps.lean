import Intake.Proofs.Calendar.Spellings
import Intake.Proofs.FixedPoints

/-!
# Reading timestamps as they are written

A timestamp as people write it (`Spelling`) is read if it is in range: its date exists, its time
is one that a clock shows, and its offset is less than a day. What is read is what is written,
and the canonical time of day is the written one, at whatever offset. Otherwise the text is out
of range, and not of a wrong form (`Spelling.timestamp_as_written`).
-/

namespace Intake

/-! ## The ends of the text -/

theorem SpelledSeconds.endsWithDigit_chars (s : SpelledSeconds) : EndsWithDigit s.chars := by
  unfold chars
  rcases s.fraction_cases with ⟨-, hchars⟩ | ⟨hdigits, hchars⟩
  · rw [hchars, List.append_nil]
    exact endsWithDigit_of_digitsOK s.second.digitsOK_chars
  · rw [hchars]
    simpa using (endsWithDigit_of_digitsOK hdigits).append_left (s.second.chars ++ ['.'])

/-- An offset ends with a digit, unless it is a `Z`, which is written out. -/
theorem SpelledOffset.chars_end (o : SpelledOffset) :
    (o.chars = ['Z'] ∧ o.spelledOut = ['+', '0', '0', ':', '0', '0'])
      ∨ EndsWithDigit o.chars ∧ o.spelledOut = o.chars := by
  cases o with
  | zulu => exact Or.inl ⟨rfl, rfl⟩
  | hours negative hour =>
      have hend := endsWithDigit_of_digitsOK hour.digitsOK_chars
      exact Or.inr ⟨hend.append_left [sign negative], rfl⟩
  | minutes negative hour colon minute =>
      have hend := (endsWithDigit_of_digitsOK minute.digitsOK_chars).append_left
        (sign negative :: (hour.chars ++ if colon then [':'] else []))
      exact Or.inr ⟨by simpa [chars] using hend, rfl⟩

namespace Spelling

theorem endsWithDigit_clockChars (w : Spelling) : EndsWithDigit w.clockChars := by
  unfold clockChars secondsChars
  cases w.seconds with
  | none =>
      simpa using (endsWithDigit_of_digitsOK w.minute.digitsOK_chars).append_left
        (w.hour.chars ++ [':'])
  | some s =>
      simpa using s.endsWithDigit_chars.append_left (w.hour.chars ++ ':' :: w.minute.chars ++ [':'])

/-- The text ends with a digit, unless it ends with a `Z`, which is written out. -/
theorem trimmedChars_end (w : Spelling) :
    (∃ front, w.trimmedChars = front ++ ['Z']
        ∧ w.spelledOut = front ++ ['+', '0', '0', ':', '0', '0'])
      ∨ EndsWithDigit w.trimmedChars ∧ w.spelledOut = w.trimmedChars := by
  unfold trimmedChars spelledOut offsetChars zoneChars
  cases w.offset with
  | none =>
      right
      simpa using w.endsWithDigit_clockChars.append_left (w.dateChars ++ [w.separator])
  | some o =>
      have hsplit : ∀ offset : List Char,
          w.dateChars ++ w.separator :: (w.clockChars ++ (List.replicate w.spaces ' ' ++ offset))
            = w.dateChars ++ w.separator :: (w.clockChars ++ List.replicate w.spaces ' ')
                ++ offset := by
        simp
      rw [List.append_assoc, List.cons_append]
      simp only [hsplit]
      rcases o.chars_end with ⟨hchars, hspelled⟩ | ⟨hend, hspelled⟩
      · rw [hchars, hspelled]
        exact Or.inl ⟨_, rfl, rfl⟩
      · rw [hspelled]
        exact Or.inr ⟨hend.append_left _, rfl⟩

theorem spellOutZ_trimmedChars (w : Spelling) : spellOutZ w.trimmedChars = w.spelledOut := by
  rcases w.trimmedChars_end with ⟨front, htrimmed, hspelled⟩ | ⟨hend, hspelled⟩
  · rw [htrimmed, hspelled, spellOutZ_append]
  · rw [hspelled, spellOutZ, if_neg (hend.getLast?_ne rfl)]

theorem isBlank_getLast?_trimmedChars (w : Spelling) :
    ∀ c ∈ w.trimmedChars.getLast?, isBlank c = false := by
  intro c hc
  rcases w.trimmedChars_end with ⟨front, htrimmed, -⟩ | ⟨⟨d, hlast, hd⟩, -⟩
  · rw [htrimmed, List.getLast?_append] at hc
    obtain rfl := Option.some.inj hc
    rfl
  · rw [hlast] at hc
    obtain rfl := Option.some.inj hc
    exact isBlank_of_isDigit hd

/-- The text begins with a digit of its year. -/
theorem exists_trimmedChars_cons (w : Spelling) :
    ∃ c tail, w.trimmedChars = c :: tail ∧ isBlank c = false := by
  obtain ⟨c, tail, hyear⟩ := List.exists_cons_of_length_eq_add_one w.year.length_eq
  have hc : isBlank c = false := isBlank_of_isDigit (w.year.isDigit_of_mem c (by simp [hyear]))
  simp only [trimmedChars, dateChars, hyear, List.cons_append]
  exact ⟨c, _, rfl, hc⟩

theorem trimmed_text (w : Spelling) : trimmed w.text = .ok w.trimmedChars := by
  obtain ⟨blank, hchars, hblank⟩ : ∃ blank, w.chars = w.trimmedChars ++ blank
      ∧ ∀ c ∈ blank, isBlank c = true := by
    unfold chars trimmedChars offsetChars
    cases w.offset with
    | none => exact ⟨List.replicate w.spaces ' ', by simp, isBlank_of_mem_spaces⟩
    | some o => exact ⟨[], by simp, fun c hc => by cases hc⟩
  obtain ⟨c, tail, htrimmed, hc⟩ := w.exists_trimmedChars_cons
  rw [text, hchars]
  refine trimmed_append ?_ ?_ w.isBlank_getLast?_trimmedChars hblank
  · rw [htrimmed]
    exact List.cons_ne_nil c tail
  · rw [htrimmed]
    rintro d hd
    obtain rfl := Option.some.inj hd
    exact hc

/-! ## Fractions -/

/-- The digits of the fraction, cut off or filled up with zeros to nine. -/
def nineDigits (w : Spelling) : DigitRun 9 where
  chars := (w.fraction ++ List.replicate 9 '0').take 9
  length_eq := by simp
  all_isDigit := by
    have hfraction : w.fraction.all Char.isDigit = true := by
      unfold fraction
      split
      · next s _ => exact s.all_isDigit
      · rfl
    have hall : (w.fraction ++ List.replicate 9 '0').all Char.isDigit = true := by
      rw [List.all_append, hfraction]
      rfl
    exact List.all_eq_true.mpr fun c hc => List.all_eq_true.mp hall c (List.mem_of_mem_take hc)

/-- The milliseconds are the first three digits of the fraction. -/
theorem padded_millis (w : Spelling) :
    padded 3 (w.nanosecond / 1_000_000) = (w.fraction ++ ['0', '0', '0']).take 3 := by
  have hthree : w.nineDigits.chars.take 3 = (w.fraction ++ ['0', '0', '0']).take 3 := by
    have hzeros : ['0', '0', '0'] = List.replicate 3 '0' := rfl
    rw [nineDigits, hzeros, List.take_take, List.take_append, List.take_append,
      List.take_replicate, List.take_replicate]
    congr 2
    omega
  let millis : DigitRun 3 := ⟨w.nineDigits.chars.take 3, by simp [w.nineDigits.length_eq],
    List.all_eq_true.mpr fun c hc => w.nineDigits.isDigit_of_mem c (List.mem_of_mem_take hc)⟩
  have hvalue : millis.value = w.nanosecond / 1_000_000 := by
    have htake := digitsValue_take w.nineDigits.isDigit_of_mem 3
    rw [w.nineDigits.length_eq] at htake
    exact htake
  rw [← hthree, ← hvalue]
  exact millis.padded_value

/-! ## What the parts come to -/

/-- What comes of the text in its own layout. -/
def attempt (w : Spelling) : Except Fault Timestamp :=
  (w.layout.parts.whole w.spelledOut).bind Timestamp.ofParts

theorem attempt_ne_mismatch (w : Spelling) : w.attempt ≠ .error .mismatch := by
  obtain ⟨hin, hout⟩ := w.parts_spelledOut.whole
  refine bind_ne_error ?_ Timestamp.ofParts_ne_mismatch
  by_cases h : w.NumbersInRange
  · rw [hin h]
    simp
  · rw [hout h]
    simp

/-- With minutes below 60, an offset is less than a day if its hours are 23 at most. -/
theorem ahead_lt_day_iff {o : SpelledOffset} (hminute : o.minuteValue ≤ 59) :
    -1440 < o.ahead ∧ o.ahead < 1440 ↔ o.hourValue ≤ 23 := by
  unfold SpelledOffset.ahead signed
  split <;> omega

theorem ahead_of_mem {w : Spelling} {o : SpelledOffset} (ho : o ∈ w.offset) :
    w.ahead = o.ahead := by
  rw [ahead, Option.mem_def.mp ho]

/-- A timestamp that comes of the text shows what is written, which is then in range. -/
theorem shows_of_attempt {w : Spelling} {t : Timestamp} (h : w.attempt = .ok t) :
    w.InRange ∧ w.Shows t := by
  obtain ⟨p, hp, hparts⟩ := bind_eq_ok.mp h
  obtain ⟨hnumbers, rfl, -⟩ := w.parts_spelledOut.eq_of_ok (Scan.whole_eq_ok.mp hp)
  obtain ⟨hdate, htime, hoffset⟩ := Timestamp.shown_of_ofParts hparts
  have hshows : w.Shows t :=
    ⟨(Date.ofParts_eq_ok.mp hdate).1, TimeOfDay.ofParts_eq_ok.mp htime, hoffset⟩
  obtain ⟨-, ⟨hhour, hminute, hsecond⟩, hzone⟩ := hnumbers
  have hday_pos := t.localDate.day_pos
  have hday_le := t.localDate.day_le
  obtain ⟨hyear, hmonth, hday⟩ : t.localDate.year = w.year.value
      ∧ t.localDate.month = w.month.value ∧ t.localDate.day = w.day.value := by
    simpa using hshows.date
  rw [hday] at hday_pos
  rw [hyear, hmonth, hday] at hday_le
  refine ⟨⟨hday_pos, hday_le, hhour, hminute, hsecond, fun o ho => ?_, hzone⟩, hshows⟩
  rw [← ahead_lt_day_iff (hzone o ho), ← ahead_of_mem ho, ← hshows.offset]
  exact ⟨t.offset.lower, t.offset.upper⟩

theorem exists_of_inRange {w : Spelling} (h : w.InRange) : ∃ t, w.attempt = .ok t := by
  have hyear := w.year.value_lt
  let date : Date := ⟨w.year.value, w.month.value, w.day.value, h.day_pos, h.day_le⟩
  let time : TimeOfDay := ⟨w.hour.value, w.minute.value, w.secondValue, w.nanosecond,
    Nat.lt_succ_of_le h.hour_le, Nat.lt_succ_of_le h.minute_le, h.second_le, w.nineDigits.value_lt⟩
  have hsupported : date.supported = true := decide_eq_true (by simp only [date]; omega)
  have hzone : -1440 < w.ahead ∧ w.ahead < 1440 := by
    unfold ahead
    split
    · next o ho => exact (ahead_lt_day_iff (h.offsetMinute_le o ho)).mpr (h.offsetHour_le o ho)
    · decide
  obtain ⟨t, ht⟩ := Timestamp.exists_ofLocal? ⟨date, time⟩ ⟨w.ahead, hzone.1, hzone.2⟩
    (Int.natCast_nonneg _) (show (w.year.value : Int) ≤ 9999 by omega)
  have hnumbers : w.NumbersInRange :=
    ⟨⟨⟨date.pred_day_lt.1, date.month_le⟩, h.day_pos, date.day_le_31⟩,
      ⟨h.hour_le, h.minute_le, h.second_le⟩, h.offsetMinute_le⟩
  refine ⟨t, bind_eq_ok.mpr ⟨w.parts, w.parts_spelledOut.whole.1 hnumbers, ?_⟩⟩
  have htime : TimeOfDay.ofParts w.parts.2.1 = .ok time := TimeOfDay.ofParts_eq_ok.mpr rfl
  refine Timestamp.ofParts_ok (Date.ofParts_self hsupported) htime ?_
  rw [parts, Offset.ofMinutes?, dif_pos hzone]
  exact ht

/-- A spelling is read as its parts in its own layout. -/
theorem ofChars_trimmedChars (w : Spelling) : Timestamp.ofChars w.trimmedChars = w.attempt := by
  rw [Timestamp.ofChars, spellOutZ_trimmedChars]
  refine Scan.first_eq_of_mem (List.mem_map.mpr ⟨w.layout, Layout.mem_all _, rfl⟩)
    w.attempt_ne_mismatch fun t ht => ?_
  obtain ⟨l, -, hl⟩ := List.mem_map.mp ht
  obtain ⟨p, hp, -⟩ := bind_eq_ok.mp hl
  rw [← hl, eq_layout (Scan.whole_eq_ok.mp hp)]
  rfl

/-- A spelling is read exactly if it is in range; what is read is what is written, and otherwise
the text is out of range. -/
theorem read_text (w : Spelling) :
    (w.InRange → ∃ t, Timestamp.read w.text = .ok t ∧ w.Shows t)
      ∧ (¬w.InRange → Timestamp.read w.text = .error (.outOfRange w.trimmedText)) := by
  have hread : Timestamp.read w.text
      = w.attempt.mapError (CalendarError.ofFault w.trimmedText) := by
    rw [Timestamp.read, w.trimmed_text, ← w.ofChars_trimmedChars]
    rfl
  rw [hread]
  constructor
  · intro h
    obtain ⟨t, ht⟩ := exists_of_inRange h
    exact ⟨t, mapError_eq_ok.mpr ht, (shows_of_attempt ht).2⟩
  · intro h
    cases hattempt : w.attempt with
    | ok t => exact absurd (shows_of_attempt hattempt).1 h
    | error e =>
        cases e with
        | mismatch => exact absurd hattempt w.attempt_ne_mismatch
        | outOfRange => rfl

/-! ## The time of day -/

theorem padded_second (w : Spelling) : padded 2 w.secondValue = w.secondChars := by
  unfold secondValue secondChars
  cases w.seconds with
  | some s => exact s.second.padded_value
  | none => rfl

theorem text_localTime {w : Spelling} {t : Timestamp} (h : w.Shows t) :
    t.localTime.text = w.localTimeText := by
  obtain ⟨hhour, hminute, hsecond, hnanosecond⟩ : t.localTime.hour = w.hour.value
      ∧ t.localTime.minute = w.minute.value ∧ t.localTime.second = w.secondValue
      ∧ t.localTime.nanosecond = w.nanosecond := by
    simpa using h.time
  rw [TimeOfDay.text, TimeOfDay.chars, hhour, hminute, hsecond, hnanosecond, w.hour.padded_value,
    w.minute.padded_value, w.padded_second, w.padded_millis]
  rfl

end Spelling

namespace FieldType

theorem canonical?_timeV2_string {s : String} {t : Timestamp} (h : Timestamp.read s = .ok t) :
    timeV2.canonical? (some (.string s)) = .ok (some (.string t.localTime.text)) := by
  rw [canonical?_some_eq_ok, canonical_eq_ok (by simp)]
  show Canonical.time (.string s) = _
  rw [Canonical.time_string, Canonical.readTime, h]
  rfl

end FieldType

namespace Spelling

/-- A timestamp in one of the usual spellings is read exactly if its date exists and its numbers
are in range; otherwise it is out of range. What is read shows the date, the time and the offset
that are written, and the canonical time of day is the written one. -/
theorem timestamp_as_written (w : Spelling) :
    ((∃ t, Timestamp.read w.text = .ok t) ↔ w.InRange)
      ∧ (¬w.InRange → Timestamp.read w.text = .error (.outOfRange w.trimmedText))
      ∧ ∀ t, Timestamp.read w.text = .ok t → w.Shows t
          ∧ FieldType.timeV2.canonical? (some (.string w.text))
              = .ok (some (.string w.localTimeText)) := by
  obtain ⟨hin, hout⟩ := w.read_text
  refine ⟨⟨?_, fun h => ?_⟩, hout, fun t ht => ?_⟩
  · rintro ⟨t, ht⟩
    by_cases h : w.InRange
    · exact h
    · cases (hout h).symm.trans ht
  · obtain ⟨t, ht, -⟩ := hin h
    exact ⟨t, ht⟩
  · by_cases h : w.InRange
    · obtain ⟨t', ht', hshows⟩ := hin h
      obtain rfl := Except.ok.inj (ht'.symm.trans ht)
      rw [FieldType.canonical?_timeV2_string ht, text_localTime hshows]
      exact ⟨hshows, rfl⟩
    · cases (hout h).symm.trans ht

/-- The leap second `2016-12-31 23:59:60.98765432199 -0830`. -/
def leapSecond : Spelling :=
  ⟨⟨['2', '0', '1', '6'], rfl, rfl⟩, ⟨['1', '2'], rfl, rfl⟩, ⟨['3', '1'], rfl, rfl⟩, false,
    ⟨['2', '3'], rfl, rfl⟩, ⟨['5', '9'], rfl, rfl⟩,
    some ⟨⟨['6', '0'], rfl, rfl⟩, "98765432199".toList, rfl⟩, 1,
    some (.minutes true ⟨['0', '8'], rfl, rfl⟩ false ⟨['3', '0'], rfl, rfl⟩)⟩

/-- A day of `2015-02-29T10:00Z`, which does not exist. -/
def noSuchDay : Spelling :=
  ⟨⟨['2', '0', '1', '5'], rfl, rfl⟩, ⟨['0', '2'], rfl, rfl⟩, ⟨['2', '9'], rfl, rfl⟩, true,
    ⟨['1', '0'], rfl, rfl⟩, ⟨['0', '0'], rfl, rfl⟩, none, 0, some .zulu⟩

/-- A leap second with eleven digits after the point, and a 29th of February that does not
exist. -/
theorem timestamp_as_written_leap :
    (∃ t, Timestamp.read "2016-12-31 23:59:60.98765432199 -0830" = .ok t
        ∧ t.localTime.second = 60 ∧ t.localTime.nanosecond = 987654321
        ∧ t.offset.minutes = -510)
      ∧ FieldType.timeV2.canonical? (some (.string "2016-12-31 23:59:60.98765432199 -0830"))
          = .ok (some (.string "23:59:60.987"))
      ∧ Timestamp.read "2015-02-29T10:00Z" = .error (.outOfRange "2015-02-29T10:00Z") := by
  have hleap : leapSecond.InRange := by
    refine ⟨by decide, by decide, by decide, by decide, by decide, ?_, ?_⟩ <;>
      rintro o ho <;> obtain rfl := Option.some.inj ho <;> decide
  have hnone : ¬noSuchDay.InRange := fun h => absurd h.day_le (by decide)
  obtain ⟨hread, -, hshown⟩ := timestamp_as_written leapSecond
  obtain ⟨t, ht⟩ := hread.mpr hleap
  obtain ⟨hshows, hcanonical⟩ := hshown t ht
  have htime := hshows.time
  simp only [Prod.mk.injEq] at htime
  exact ⟨⟨t, ht, htime.2.2.1, htime.2.2.2, hshows.offset⟩, hcanonical,
    (timestamp_as_written noSuchDay).2.1 hnone⟩

end Spelling

end Intake
