import Intake.Calendar.Date
import Intake.Calendar.TimeOfDay

/-!
# Timestamps

A timestamp is a point in time together with the offset from UTC that it was
written with. Offsets are whole minutes, less than a day either way, so only
dates, hours and minutes differ between the two clocks; seconds, a leap second
among them, are the same on both.

The point in time is kept as date and time in UTC. What the timestamp's own
clock shows is `localDate` and `localTime`.
-/

namespace Intake

/-- Minutes ahead of UTC, less than a day either way. -/
structure Offset where
  minutes : Int
  lower : -1440 < minutes
  upper : minutes < 1440
  deriving DecidableEq, Repr

namespace Offset

def utc : Offset := ⟨0, by decide, by decide⟩

def ofMinutes? (minutes : Int) : Option Offset :=
  if h : -1440 < minutes ∧ minutes < 1440 then some ⟨minutes, h.1, h.2⟩ else none

def seconds (o : Offset) : Int := 60 * o.minutes

end Offset

structure DateTime where
  date : Date
  time : TimeOfDay
  deriving DecidableEq, Repr

namespace DateTime

/-- The minutes from 1970-01-01T00:00 to the minute of the date and time. -/
def minuteNumber (t : DateTime) : Int := 1440 * t.date.dayNumber + t.time.minuteOfDay

/-- The date and time so many minutes later, at the same second. -/
def addMinutes (t : DateTime) (minutes : Int) : DateTime :=
  let total := t.minuteNumber + minutes
  ⟨Date.ofDayNumber (total / 1440), t.time.atMinute (total % 1440).toNat (by omega)⟩

end DateTime

/-- A point in time, and the offset of the clock that showed it. -/
structure Timestamp where
  utc : DateTime
  offset : Offset
  deriving DecidableEq, Repr

namespace Timestamp

/-- The timestamp that a clock shows as `shown`, if the date in UTC is one of
those supported. -/
def ofLocal? (shown : DateTime) (offset : Offset) : Option Timestamp :=
  let utc := shown.addMinutes (-offset.minutes)
  if utc.date.supported then some ⟨utc, offset⟩ else none

/-- What the timestamp's own clock shows. -/
def shown (t : Timestamp) : DateTime := t.utc.addMinutes t.offset.minutes

def localDate (t : Timestamp) : Date := t.shown.date

def localTime (t : Timestamp) : TimeOfDay := t.shown.time

def dayMillis : Int := 86400000

/-- The point in time so many milliseconds after 1970-01-01T00:00 in UTC, if
its date is one of those supported. -/
def ofEpochMillis? (millis : Int) : Option Timestamp :=
  let date := Date.ofDayNumber (millis / dayMillis)
  let inDay := (millis % dayMillis).toNat
  let time : TimeOfDay :=
    ⟨inDay / 3600000, inDay / 60000 % 60, inDay / 1000 % 60, inDay % 1000 * 1_000_000,
      by simp only [inDay, dayMillis]; omega, by omega, by omega, by omega⟩
  if date.supported then some ⟨⟨date, time⟩, Offset.utc⟩ else none

/-- The point in time in UTC, with milliseconds, as `YYYY-MM-DDTHH:MM:SS.mmmZ`. -/
def chars (t : Timestamp) : List Char := t.utc.date.chars ++ 'T' :: t.utc.time.chars ++ ['Z']

def text (t : Timestamp) : String := String.ofList t.chars

end Timestamp

end Intake
