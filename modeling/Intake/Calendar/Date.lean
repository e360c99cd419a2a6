import Intake.Text.Digits

/-!
# Calendar dates

Dates of the Gregorian calendar, extended backward and forward over all years;
the year before year 1 is year 0. A `Date` exists: its month is one of twelve
and its day one of that month's days. Days are counted from 1970-01-01
(`Date.dayNumber`), and every integer is the number of exactly one date
(`Date.ofDayNumber`), which is found by splitting off cycles of 400 years,
centuries, cycles of four years, years and months.
-/

namespace Intake

/-- A year with a 29th of February. -/
def isLeapYear (year : Int) : Bool :=
  year % 4 == 0 && (year % 100 != 0 || year % 400 == 0)

def monthLengths (year : Int) : List Nat :=
  [31, if isLeapYear year then 29 else 28, 31, 30, 31, 30, 31, 31, 30, 31, 30, 31]

/-- The number of days in a month, counted from 1; no day in a month that
there is not. -/
def daysInMonth (year : Int) (month : Nat) : Nat :=
  if month = 0 then 0 else (monthLengths year).getD (month - 1) 0

/-- A date that exists. -/
structure Date where
  year : Int
  month : Nat
  day : Nat
  day_pos : 1 ≤ day
  day_le : day ≤ daysInMonth year month
  deriving DecidableEq, Repr

namespace Date

def ofYMD? (year : Int) (month day : Nat) : Option Date :=
  if h : 1 ≤ day ∧ day ≤ daysInMonth year month then some ⟨year, month, day, h.1, h.2⟩ else none

/-- The years that dates may be read in. -/
def supported (d : Date) : Bool := decide (-262143 ≤ d.year ∧ d.year ≤ 262142)

/-! ## Text -/

/-- A year: four digits from 0 to 9999, a sign and at least four digits
otherwise. -/
def yearChars (year : Int) : List Char :=
  if 0 ≤ year ∧ year ≤ 9999 then padded 4 year.natAbs
  else (if year < 0 then '-' else '+') :: padded 4 year.natAbs

/-- Year, month and day, with hyphens between them. -/
def chars (d : Date) : List Char :=
  yearChars d.year ++ '-' :: padded 2 d.month ++ '-' :: padded 2 d.day

def text (d : Date) : String := String.ofList d.chars

/-! ## Day numbers -/

/-- The days from 0001-01-01 to the first day of a year. -/
def daysBeforeYear (year : Int) : Int :=
  365 * (year - 1) + (year - 1) / 4 - (year - 1) / 100 + (year - 1) / 400

/-- The days of several intervals together. -/
def total : List Nat → Nat
  | [] => 0
  | length :: rest => length + total rest

/-- The days from the first day of a year to the first day of a month. -/
def daysBeforeMonth (year : Int) (month : Nat) : Nat :=
  total ((monthLengths year).take (month - 1))

/-- The days from 0001-01-01 to 1970-01-01. -/
def daysBeforeEpoch : Int := 719162

/-- The days from 1970-01-01 to the date. -/
def dayNumber (d : Date) : Int :=
  daysBeforeYear d.year + daysBeforeMonth d.year d.month + (d.day - 1) - daysBeforeEpoch

/-- The year that the day `n` after 0001-01-01 is in. -/
def yearOf (n : Int) : Int :=
  let inCycle := n % 146097
  let century := min 3 (inCycle / 36524)
  let inCentury := inCycle - 36524 * century
  let inFour := inCentury % 1461
  400 * (n / 146097) + 100 * century + 4 * (inCentury / 1461) + min 3 (inFour / 365) + 1

/-- The interval that `n` is in, of intervals of the given lengths from zero
on, and the distance from its start. -/
def place : List Nat → Nat → Nat × Nat
  | [], n => (0, n)
  | length :: rest, n =>
    if n < length then (0, n) else ((place rest (n - length)).1 + 1, (place rest (n - length)).2)

@[simp] theorem total_nil : total [] = 0 := rfl

@[simp] theorem total_cons (length : Nat) (rest : List Nat) :
    total (length :: rest) = length + total rest := rfl

theorem total_monthLengths (year : Int) :
    total (monthLengths year) = if isLeapYear year then 366 else 365 := by
  cases h : isLeapYear year <;> simp [monthLengths, h]

/-- The days before a year, by the cycles, centuries, cycles of four years and
years that have passed. -/
theorem daysBeforeYear_split {a c q k : Int} (hc : 0 ≤ c ∧ c ≤ 3) (hq : 0 ≤ q ∧ q ≤ 24)
    (hk : 0 ≤ k ∧ k ≤ 3) :
    daysBeforeYear (400 * a + 100 * c + 4 * q + k + 1)
      = 146097 * a + 36524 * c + 1461 * q + 365 * k := by
  simp only [daysBeforeYear]
  omega

/-- A year is a leap year if it is the last of its cycle of four years, unless
it is the last of its century and not of its cycle of 400 years. -/
theorem isLeapYear_split {a c q k : Int} (hc : 0 ≤ c ∧ c ≤ 3) (hq : 0 ≤ q ∧ q ≤ 24)
    (hk : 0 ≤ k ∧ k ≤ 3) :
    isLeapYear (400 * a + 100 * c + 4 * q + k + 1) = true
      ↔ k = 3 ∧ (q ≠ 24 ∨ c = 3) := by
  simp only [isLeapYear, Bool.and_eq_true, Bool.or_eq_true, beq_iff_eq, bne_iff_ne]
  omega

/-- The year that day `n` is in, by cycles, centuries, cycles of four years and
years, and the day `u` in it; only a leap year has a day 365. -/
theorem yearOf_split (n : Int) : ∃ a c q k u : Int,
    yearOf n = 400 * a + 100 * c + 4 * q + k + 1
      ∧ (0 ≤ c ∧ c ≤ 3) ∧ (0 ≤ q ∧ q ≤ 24) ∧ (0 ≤ k ∧ k ≤ 3)
      ∧ n = 146097 * a + 36524 * c + 1461 * q + 365 * k + u
      ∧ 0 ≤ u ∧ u ≤ 365 ∧ (u = 365 → k = 3 ∧ (q ≠ 24 ∨ c = 3)) := by
  simp only [yearOf]
  generalize hr : n % 146097 = r
  generalize hc : min 3 (r / 36524) = c
  generalize hs : r - 36524 * c = s
  generalize hq : s / 1461 = q
  generalize ht : s % 1461 = t
  generalize hk : min 3 (t / 365) = k
  have hs' : 0 ≤ s ∧ s ≤ 36524 ∧ (c ≠ 3 → s < 36524) := by omega
  exact ⟨n / 146097, c, q, k, t - 365 * k, rfl, by omega, by omega, by omega, by omega,
    by omega, by omega, by omega⟩

/-- The day `n` after 0001-01-01 is not before its year and not after it. -/
theorem yearOf_bounds (n : Int) :
    daysBeforeYear (yearOf n) ≤ n
      ∧ n - daysBeforeYear (yearOf n) < total (monthLengths (yearOf n)) := by
  obtain ⟨a, c, q, k, u, hy, hc, hq, hk, hn, hu, hu', hleap⟩ := yearOf_split n
  rw [total_monthLengths, hy, daysBeforeYear_split hc hq hk]
  refine ⟨by omega, ?_⟩
  split
  · omega
  · next h =>
      rw [isLeapYear_split hc hq hk] at h
      omega

theorem place_bounds : ∀ (lengths : List Nat) (n : Nat), n < total lengths →
    (place lengths n).2 < lengths.getD (place lengths n).1 0
      ∧ total (lengths.take (place lengths n).1) + (place lengths n).2 = n
  | [], n, h => by simp at h
  | length :: rest, n, h => by
      simp only [place]
      split
      · next hlt => simpa using hlt
      · next hge =>
          have hrest : n - length < total rest := by
            simp only [total_cons] at h
            omega
          obtain ⟨hlt, hsum⟩ := place_bounds rest (n - length) hrest
          refine ⟨by simpa using hlt, ?_⟩
          simp only [List.take_succ_cons, total_cons]
          omega

/-- The month and the day, counted from zero, of the day `n` after 0001-01-01. -/
def monthDayOf (n : Int) : Nat × Nat :=
  place (monthLengths (yearOf n)) (n - daysBeforeYear (yearOf n)).toNat

theorem monthDayOf_bounds (n : Int) :
    (monthDayOf n).2 < (monthLengths (yearOf n)).getD (monthDayOf n).1 0
      ∧ daysBeforeYear (yearOf n) + total ((monthLengths (yearOf n)).take (monthDayOf n).1)
          + (monthDayOf n).2 = n := by
  have hyear := yearOf_bounds n
  have hplace := place_bounds (monthLengths (yearOf n))
    (n - daysBeforeYear (yearOf n)).toNat (by omega)
  exact ⟨hplace.1, by simp only [monthDayOf]; omega⟩

/-- The date that is `n` days after 1970-01-01. -/
def ofDayNumber (n : Int) : Date :=
  ⟨yearOf (n + daysBeforeEpoch), (monthDayOf (n + daysBeforeEpoch)).1 + 1,
    (monthDayOf (n + daysBeforeEpoch)).2 + 1, Nat.le_add_left 1 _, by
      rw [daysInMonth, if_neg (Nat.succ_ne_zero _), Nat.add_sub_cancel]
      exact (monthDayOf_bounds (n + daysBeforeEpoch)).1⟩

theorem dayNumber_ofDayNumber (n : Int) : (ofDayNumber n).dayNumber = n := by
  have h := (monthDayOf_bounds (n + daysBeforeEpoch)).2
  simp only [dayNumber, ofDayNumber, daysBeforeMonth, Nat.add_sub_cancel]
  omega

/-- A year is as long as its months. -/
theorem daysBeforeYear_succ (year : Int) :
    daysBeforeYear (year + 1) = daysBeforeYear year + total (monthLengths year) := by
  rw [total_monthLengths]
  by_cases h : isLeapYear year
  · rw [if_pos h]
    simp only [isLeapYear, Bool.and_eq_true, Bool.or_eq_true, beq_iff_eq, bne_iff_ne] at h
    simp only [daysBeforeYear]
    omega
  · rw [if_neg h]
    simp only [isLeapYear, Bool.and_eq_true, Bool.or_eq_true, beq_iff_eq, bne_iff_ne] at h
    simp only [daysBeforeYear]
    omega

theorem daysBeforeYear_mono {a b : Int} (h : a ≤ b) : daysBeforeYear a ≤ daysBeforeYear b := by
  simp only [daysBeforeYear]
  omega

/-- The only year that a day is in is the one that `yearOf` finds. -/
theorem yearOf_eq {year n : Int} (hlow : daysBeforeYear year ≤ n)
    (hhigh : n < daysBeforeYear (year + 1)) : yearOf n = year := by
  have hn := yearOf_bounds n
  have hsucc := daysBeforeYear_succ (yearOf n)
  rcases Int.lt_trichotomy (yearOf n) year with hlt | heq | hgt
  · have := daysBeforeYear_mono (show yearOf n + 1 ≤ year by omega)
    omega
  · exact heq
  · have := daysBeforeYear_mono (show year + 1 ≤ yearOf n by omega)
    omega

/-- The place of a distance into an interval, counted over the intervals
before it. -/
theorem place_total_take_add : ∀ (lengths : List Nat) (i r : Nat), r < lengths.getD i 0 →
    place lengths (total (lengths.take i) + r) = (i, r)
  | [], i, r, h => by simp at h
  | length :: rest, 0, r, h => by
      have hlt : r < length := by simpa using h
      simp [place, hlt]
  | length :: rest, i + 1, r, h => by
      have ih := place_total_take_add rest i r (by simpa using h)
      have hge : ¬length + total (rest.take i) + r < length := by omega
      have hsub : length + total (rest.take i) + r - length = total (rest.take i) + r := by omega
      simp only [List.take_succ_cons, total_cons, place, if_neg hge, hsub, ih]

theorem total_take_add_lt : ∀ (lengths : List Nat) (i r : Nat), r < lengths.getD i 0 →
    total (lengths.take i) + r < total lengths
  | [], i, r, h => by simp at h
  | length :: rest, 0, r, h => by
      have hlt : r < length := by simpa using h
      simp
      omega
  | length :: rest, i + 1, r, h => by
      have ih := total_take_add_lt rest i r (by simpa using h)
      simp only [List.take_succ_cons, total_cons]
      omega

/-- A date's month and day, counted from zero, are those of a month that there
is and of a day in it. -/
theorem pred_day_lt (d : Date) :
    1 ≤ d.month ∧ d.day - 1 < (monthLengths d.year).getD (d.month - 1) 0 := by
  have hpos := d.day_pos
  have hle := d.day_le
  unfold daysInMonth at hle
  split at hle
  · omega
  · exact ⟨by omega, by omega⟩

/-- No two dates have one day number. -/
theorem ofDayNumber_dayNumber (d : Date) : ofDayNumber d.dayNumber = d := by
  obtain ⟨hmonth, hday⟩ := d.pred_day_lt
  have hpos := d.day_pos
  have hin := total_take_add_lt _ _ _ hday
  have hsum : d.dayNumber + daysBeforeEpoch
      = daysBeforeYear d.year + (daysBeforeMonth d.year d.month + (d.day - 1) : Nat) := by
    simp only [dayNumber]
    omega
  have hyear : yearOf (d.dayNumber + daysBeforeEpoch) = d.year := by
    refine yearOf_eq (by omega) ?_
    rw [daysBeforeYear_succ, hsum, daysBeforeMonth]
    omega
  have hplace : monthDayOf (d.dayNumber + daysBeforeEpoch) = (d.month - 1, d.day - 1) := by
    have hpast : (d.dayNumber + daysBeforeEpoch - daysBeforeYear d.year).toNat
        = daysBeforeMonth d.year d.month + (d.day - 1) := by omega
    rw [monthDayOf, hyear, hpast]
    exact place_total_take_add _ _ _ hday
  obtain ⟨year, month, day, hp, hl⟩ := d
  simp only [ofDayNumber, hyear, hplace, Date.mk.injEq, true_and]
  exact ⟨Nat.sub_add_cancel hmonth, Nat.sub_add_cancel hpos⟩

end Date

end Intake
