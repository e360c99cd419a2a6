import Intake.Text.Digits

/-!
# Times of day

Hours, minutes, seconds and nanoseconds on a clock without a zone. Second 60
is a leap second; it may stand at the end of any minute. The text of a time
has milliseconds, cut off and not rounded.
-/

namespace Intake

/-- A time of day; second 60 is a leap second. -/
structure TimeOfDay where
  hour : Nat
  minute : Nat
  second : Nat
  nanosecond : Nat
  hour_lt : hour < 24
  minute_lt : minute < 60
  second_le : second ≤ 60
  nanosecond_lt : nanosecond < 1_000_000_000
  deriving DecidableEq, Repr

namespace TimeOfDay

def ofParts? (hour minute second nanosecond : Nat) : Option TimeOfDay :=
  if h : hour < 24 ∧ minute < 60 ∧ second ≤ 60 ∧ nanosecond < 1_000_000_000 then
    some ⟨hour, minute, second, nanosecond, h.1, h.2.1, h.2.2.1, h.2.2.2⟩
  else none

def minuteOfDay (t : TimeOfDay) : Nat := 60 * t.hour + t.minute

/-- The same seconds in another minute of the day. -/
def atMinute (t : TimeOfDay) (minute : Nat) (h : minute < 1440) : TimeOfDay :=
  ⟨minute / 60, minute % 60, t.second, t.nanosecond, by omega, by omega, t.second_le,
    t.nanosecond_lt⟩

/-- The nanoseconds since the last of the seconds 0 to 59 began, so that those
of a leap second count on from second 59. -/
def nanosecondsInSecond (t : TimeOfDay) : Nat :=
  if t.second = 60 then 1_000_000_000 + t.nanosecond else t.nanosecond

/-- Hours, minutes and seconds with milliseconds, as `HH:MM:SS.mmm`. -/
def chars (t : TimeOfDay) : List Char :=
  padded 2 t.hour ++ ':' :: padded 2 t.minute ++ ':' :: padded 2 t.second
    ++ '.' :: padded 3 (t.nanosecond / 1_000_000)

def text (t : TimeOfDay) : String := String.ofList t.chars

end TimeOfDay

end Intake
