import Intake.Proofs.Calendar.Instants

/-!
# Timestamps as they are written

A `Spelling` is a timestamp as people write it: a date in four, two and two digits, a `T` or a
space, hours and minutes, seconds with or without a fraction, and an offset or none. The digits
are any digits, so the month may well be 77. Such a text fits exactly one of the layouts
(`Spelling.eq_layout`), and the scanners of that layout fail in no other way than by a number
out of range (`Scan.TakesIf`).
-/

namespace Intake

/-! ## Spellings -/

/-- So many digits, whatever number they write. -/
structure DigitRun (n : Nat) where
  chars : List Char
  length_eq : chars.length = n
  all_isDigit : chars.all Char.isDigit = true

/-- Seconds in two digits, and the digits of a fraction, if there is one. -/
structure SpelledSeconds where
  second : DigitRun 2
  /-- The digits after the point; without any there is no point. -/
  fraction : List Char
  all_isDigit : fraction.all Char.isDigit = true

/-- A `Z`, or the hours after a sign, or hours and minutes with or without a colon. -/
inductive SpelledOffset where
  | zulu
  | hours (negative : Bool) (hour : DigitRun 2)
  | minutes (negative : Bool) (hour : DigitRun 2) (colon : Bool) (minute : DigitRun 2)

structure Spelling where
  year : DigitRun 4
  month : DigitRun 2
  day : DigitRun 2
  /-- A `T` stands between date and time; otherwise one space. -/
  letter : Bool
  hour : DigitRun 2
  minute : DigitRun 2
  seconds : Option SpelledSeconds
  /-- So many spaces stand after the time. -/
  spaces : Nat
  offset : Option SpelledOffset

namespace DigitRun

variable {n : Nat}

def value (r : DigitRun n) : Nat := digitsValue r.chars

theorem isDigit_of_mem (r : DigitRun n) : ∀ c ∈ r.chars, c.isDigit = true :=
  List.all_eq_true.mp r.all_isDigit

theorem digitsOK_chars (r : DigitRun (n + 1)) : digitsOK r.chars = true := by
  have hne : r.chars ≠ [] := List.ne_nil_of_length_eq_add_one r.length_eq
  simp only [digitsOK, Bool.and_eq_true, Bool.not_eq_true', List.isEmpty_eq_false_iff]
  exact ⟨hne, r.all_isDigit⟩

theorem value_lt (r : DigitRun n) : r.value < 10 ^ n := by
  have hlt := digitsValue_lt r.isDigit_of_mem
  rwa [r.length_eq] at hlt

theorem padded_value (r : DigitRun (n + 1)) : padded (n + 1) r.value = r.chars := by
  have hpadded := padded_digitsValue r.digitsOK_chars
  rwa [r.length_eq] at hpadded

theorem exists_pair (r : DigitRun 2) : ∃ a b, r.chars = [a, b] := by
  obtain ⟨a, tail, ha⟩ := List.exists_cons_of_length_eq_add_one r.length_eq
  have hlength := r.length_eq
  rw [ha] at hlength
  obtain ⟨b, rfl⟩ := List.length_eq_one_iff.mp (Nat.succ.inj hlength)
  exact ⟨a, b, ha⟩

end DigitRun

namespace SpelledSeconds

def fractionChars (s : SpelledSeconds) : List Char :=
  if s.fraction.isEmpty then [] else '.' :: s.fraction

def chars (s : SpelledSeconds) : List Char := s.second.chars ++ s.fractionChars

/-- There is no fraction, or a point and its digits. -/
theorem fraction_cases (s : SpelledSeconds) :
    (s.fraction = [] ∧ s.fractionChars = [])
      ∨ (digitsOK s.fraction = true ∧ s.fractionChars = '.' :: s.fraction) := by
  unfold fractionChars digitsOK
  cases hempty : s.fraction.isEmpty with
  | true => exact Or.inl ⟨List.isEmpty_iff.mp hempty, rfl⟩
  | false => exact Or.inr ⟨s.all_isDigit, rfl⟩

end SpelledSeconds

namespace SpelledOffset

def sign (negative : Bool) : Char := if negative then '-' else '+'

def chars : SpelledOffset → List Char
  | zulu => ['Z']
  | hours negative hour => sign negative :: hour.chars
  | minutes negative hour colon minute =>
    sign negative :: (hour.chars ++ ((if colon then [':'] else []) ++ minute.chars))

/-- The offset with a `Z` written out. -/
def spelledOut : SpelledOffset → List Char
  | zulu => ['+', '0', '0', ':', '0', '0']
  | o => o.chars

def hourValue : SpelledOffset → Nat
  | zulu => 0
  | hours _ hour => hour.value
  | minutes _ hour _ _ => hour.value

def minuteValue : SpelledOffset → Nat
  | zulu => 0
  | hours _ _ => 0
  | minutes _ _ _ minute => minute.value

def isNegative : SpelledOffset → Bool
  | zulu => false
  | hours negative _ => negative
  | minutes negative _ _ _ => negative

/-- The minutes that the clock is ahead of UTC. -/
def ahead (o : SpelledOffset) : Int := signed o.isNegative (60 * o.hourValue + o.minuteValue)

end SpelledOffset

namespace Spelling

/-! ### Text -/

def dateChars (w : Spelling) : List Char :=
  w.year.chars ++ '-' :: w.month.chars ++ '-' :: w.day.chars

def separator (w : Spelling) : Char := if w.letter then 'T' else ' '

def secondsChars (w : Spelling) : List Char :=
  match w.seconds with
  | some s => ':' :: s.chars
  | none => []

def clockChars (w : Spelling) : List Char :=
  w.hour.chars ++ ':' :: w.minute.chars ++ w.secondsChars

theorem clockChars_append (w : Spelling) (rest : List Char) :
    w.clockChars ++ rest
      = w.hour.chars ++ ':' :: (w.minute.chars ++ (w.secondsChars ++ rest)) := by
  simp [clockChars]

def chars (w : Spelling) : List Char :=
  w.dateChars ++ w.separator :: w.clockChars ++ List.replicate w.spaces ' '
    ++ (match w.offset with
        | some o => o.chars
        | none => [])

def text (w : Spelling) : String := String.ofList w.chars

/-- The offset after its spaces; without an offset there are no spaces. -/
def offsetChars (w : Spelling) : List Char :=
  match w.offset with
  | some o => List.replicate w.spaces ' ' ++ o.chars
  | none => []

/-- The text without the spaces at its end. -/
def trimmedChars (w : Spelling) : List Char :=
  w.dateChars ++ w.separator :: w.clockChars ++ w.offsetChars

def trimmedText (w : Spelling) : String := String.ofList w.trimmedChars

/-! ### Values -/

def secondValue (w : Spelling) : Nat :=
  match w.seconds with
  | some s => s.second.value
  | none => 0

def fraction (w : Spelling) : List Char :=
  match w.seconds with
  | some s => s.fraction
  | none => []

/-- The fraction in nine digits: those after the ninth are cut off, and missing ones are
zeros. -/
def nanosecond (w : Spelling) : Nat :=
  digitsValue ((w.fraction ++ List.replicate 9 '0').take 9)

/-- The minutes that the clock is ahead of UTC; without an offset it shows UTC. -/
def ahead (w : Spelling) : Int :=
  match w.offset with
  | some o => o.ahead
  | none => 0

/-- The date exists, and the other numbers are ones that a clock shows; second 60 is a leap
second. -/
structure InRange (w : Spelling) : Prop where
  day_pos : 1 ≤ w.day.value
  day_le : w.day.value ≤ daysInMonth w.year.value w.month.value
  hour_le : w.hour.value ≤ 23
  minute_le : w.minute.value ≤ 59
  second_le : w.secondValue ≤ 60
  offsetHour_le : ∀ o ∈ w.offset, o.hourValue ≤ 23
  offsetMinute_le : ∀ o ∈ w.offset, o.minuteValue ≤ 59

/-- The timestamp's own clock shows the date and the time that are written, at the offset that
is written. -/
structure Shows (w : Spelling) (t : Timestamp) : Prop where
  date : (t.localDate.year, t.localDate.month, t.localDate.day)
    = ((w.year.value : Int), w.month.value, w.day.value)
  time : (t.localTime.hour, t.localTime.minute, t.localTime.second, t.localTime.nanosecond)
    = (w.hour.value, w.minute.value, w.secondValue, w.nanosecond)
  offset : t.offset.minutes = w.ahead

def secondChars (w : Spelling) : List Char :=
  match w.seconds with
  | some s => s.second.chars
  | none => ['0', '0']

/-- The time as it is written, with seconds and in milliseconds. -/
def localTimeChars (w : Spelling) : List Char :=
  w.hour.chars ++ ':' :: w.minute.chars ++ ':' :: w.secondChars
    ++ '.' :: (w.fraction ++ ['0', '0', '0']).take 3

def localTimeText (w : Spelling) : String := String.ofList w.localTimeChars

end Spelling

/-! ## Scanners that fail by range only -/

namespace Scan

variable {α β : Type} {s : Scan α} {f : α → Scan β} {cs mid rest : List Char} {a : α} {b : β}
  {p q : Prop}

/-- The scanner takes `a` and leaves `rest` if the condition holds. If it does not, the text is
out of range. -/
def TakesIf (s : Scan α) (cs : List Char) (p : Prop) (a : α) (rest : List Char) : Prop :=
  (p → s cs = .ok (a, rest)) ∧ (¬p → s cs = .error .outOfRange)

theorem takesIf_iff (hpq : p ↔ q) : TakesIf s cs p a rest ↔ TakesIf s cs q a rest := by
  rw [propext hpq]

theorem takesIf_true : TakesIf s cs True a rest ↔ s cs = .ok (a, rest) :=
  ⟨fun h => h.1 trivial, fun h => ⟨fun _ => h, fun hnot => absurd trivial hnot⟩⟩

theorem takesIf_ite [Decidable p]
    (h : s cs = if p then .ok (a, rest) else .error .outOfRange) : TakesIf s cs p a rest :=
  ⟨fun hp => by rw [h, if_pos hp], fun hp => by rw [h, if_neg hp]⟩

theorem TakesIf.eq_of_ok {a' : α} {rest' : List Char} (h : TakesIf s cs p a rest)
    (hok : s cs = .ok (a', rest')) : p ∧ a' = a ∧ rest' = rest := by
  by_cases hp : p
  · exact ⟨hp, Prod.mk.inj (Except.ok.inj (hok.symm.trans (h.1 hp)))⟩
  · cases hok.symm.trans (h.2 hp)

/-- One scanner after another fails by range only if both do. -/
theorem TakesIf.bind (h : TakesIf s cs p a mid) (hf : TakesIf (f a) mid q b rest) :
    TakesIf (s >>= f) cs (p ∧ q) b rest := by
  constructor
  · rintro ⟨hp, hq⟩
    rw [bind_ok (h.1 hp)]
    exact hf.1 hq
  · intro hnot
    by_cases hp : p
    · rw [bind_ok (h.1 hp)]
      exact hf.2 fun hq => hnot ⟨hp, hq⟩
    · exact bind_error (h.2 hp)

theorem TakesIf.bind_pure {f : α → β} (h : TakesIf s cs p a rest) :
    TakesIf (s >>= fun x => pure (f x)) cs p (f a) rest :=
  (takesIf_iff (iff_of_eq (and_true p))).mp (h.bind (takesIf_true.mpr rfl))

/-- After a part that has no range, the condition is that of what follows. -/
theorem TakesIf.after (hs : s cs = .ok (a, mid)) (hf : TakesIf (f a) mid q b rest) :
    TakesIf (s >>= f) cs q b rest :=
  (takesIf_iff (iff_of_eq (true_and q))).mp ((takesIf_true.mpr hs).bind hf)

/-- A part that fails by range only makes the whole text fail by range only. -/
theorem TakesIf.whole (h : TakesIf s cs p a []) :
    (p → s.whole cs = .ok a) ∧ (¬p → s.whole cs = .error .outOfRange) :=
  ⟨fun hp => whole_eq_ok.mpr (h.1 hp), fun hp => by rw [Scan.whole, h.2 hp]⟩

/-- A number in its full width fails by range only. -/
theorem number_run {width low high : Nat} (r : DigitRun (width + 1)) (rest : List Char) :
    TakesIf (number (width + 1) low high) (r.chars ++ rest) (low ≤ r.value ∧ r.value ≤ high)
      r.value rest :=
  takesIf_ite (number_digits r.digitsOK_chars (Nat.le_of_eq r.length_eq) (Or.inl r.length_eq))

/-- Four digits are always a year. -/
theorem year_run (r : DigitRun 4) (rest : List Char) :
    year (r.chars ++ rest) = .ok ((r.value : Int), rest) := by
  have hlt := r.value_lt
  rw [year_digits r.digitsOK_chars, (number_run r rest).1 ⟨Nat.zero_le _, by omega⟩]
  rfl

end Scan

/-! ## Scanning a spelling -/

/-- What follows a time: an offset after its spaces, or nothing. -/
def StartsOffset (cs : List Char) : Prop := ∀ c ∈ cs.head?, c = ' ' ∨ c = '+' ∨ c = '-'

theorem startsOffset_cons {c : Char} {cs : List Char} (h : c = ' ' ∨ c = '+' ∨ c = '-') :
    StartsOffset (c :: cs) :=
  fun x hx => by
    obtain rfl := Option.some.inj hx
    exact h

theorem StartsOffset.noDigit {cs : List Char} (h : StartsOffset cs) : NoDigit cs := by
  intro c hc
  rcases h c hc with rfl | rfl | rfl <;> rfl

theorem isBlank_of_mem_spaces {n : Nat} : ∀ c ∈ List.replicate n ' ', isBlank c = true :=
  fun _ hc => (List.eq_of_mem_replicate hc).symm ▸ rfl

namespace Scan

variable {rest : List Char}

theorem yearMonthDay_runs (year : DigitRun 4) (month day : DigitRun 2) (rest : List Char) :
    TakesIf yearMonthDay (year.chars ++ '-' :: month.chars ++ '-' :: day.chars ++ rest)
      ((1 ≤ month.value ∧ month.value ≤ 12) ∧ 1 ≤ day.value ∧ day.value ≤ 31)
      ((year.value : Int), month.value, day.value) rest := by
  have hchars : year.chars ++ '-' :: month.chars ++ '-' :: day.chars ++ rest
      = year.chars ++ '-' :: (month.chars ++ '-' :: (day.chars ++ rest)) := by
    simp
  rw [hchars]
  exact .after (year_run year _) (.after (literal_cons '-' _)
    ((number_run month _).bind (.after (literal_cons '-' _) (number_run day rest).bind_pure)))

theorem yearMonthDay_spelled (w : Spelling) (rest : List Char) :
    TakesIf yearMonthDay (w.dateChars ++ rest)
      ((1 ≤ w.month.value ∧ w.month.value ≤ 12) ∧ 1 ≤ w.day.value ∧ w.day.value ≤ 31)
      ((w.year.value : Int), w.month.value, w.day.value) rest :=
  yearMonthDay_runs w.year w.month w.day rest

theorem fraction_spelled (s : SpelledSeconds) (hrest : StartsOffset rest) :
    fraction (s.fractionChars ++ rest) = .ok (nanoseconds s.fraction, rest) := by
  rcases s.fraction_cases with ⟨hnone, hchars⟩ | ⟨hdigits, hchars⟩
  · rw [hchars, hnone, List.nil_append, fraction]
    · rfl
    · rintro tail rfl
      rcases hrest '.' rfl with h | h | h <;> cases h
  · rw [hchars]
    exact fraction_point hdigits hrest.noDigit

theorem timeOfDay_minutes (hour minute : DigitRun 2) (rest : List Char) :
    TakesIf (timeOfDay false) (hour.chars ++ ':' :: (minute.chars ++ rest))
      (hour.value ≤ 23 ∧ minute.value ≤ 59) (hour.value, minute.value, 0, 0) rest := by
  have hscan : TakesIf (timeOfDay false) (hour.chars ++ ':' :: (minute.chars ++ rest))
      ((0 ≤ hour.value ∧ hour.value ≤ 23) ∧ 0 ≤ minute.value ∧ minute.value ≤ 59)
      (hour.value, minute.value, 0, 0) rest :=
    .bind (number_run hour _) (.after (literal_cons ':' _) (number_run minute rest).bind_pure)
  simpa using hscan

theorem timeOfDay_seconds (hour minute : DigitRun 2) (s : SpelledSeconds)
    (hrest : StartsOffset rest) :
    TakesIf (timeOfDay true) (hour.chars ++ ':' :: (minute.chars ++ ':' :: (s.chars ++ rest)))
      (hour.value ≤ 23 ∧ minute.value ≤ 59 ∧ s.second.value ≤ 60)
      (hour.value, minute.value, s.second.value, nanoseconds s.fraction) rest := by
  have hscan : TakesIf (timeOfDay true)
      (hour.chars ++ ':' :: (minute.chars ++ ':' :: (s.second.chars
        ++ (s.fractionChars ++ rest))))
      ((0 ≤ hour.value ∧ hour.value ≤ 23) ∧ (0 ≤ minute.value ∧ minute.value ≤ 59)
        ∧ (0 ≤ s.second.value ∧ s.second.value ≤ 60) ∧ True)
      (hour.value, minute.value, s.second.value, nanoseconds s.fraction) rest :=
    .bind (number_run hour _) (.after (literal_cons ':' _) (.bind (number_run minute _)
      (.after (literal_cons ':' _) (.bind (number_run s.second _)
        (takesIf_true.mpr (fraction_spelled s hrest)).bind_pure))))
  simpa [SpelledSeconds.chars] using hscan

/-- With seconds, a colon follows the minutes. -/
theorem exists_colon_of_timeOfDay {hour minute : DigitRun 2} {cs after : List Char}
    {t : Nat × Nat × Nat × Nat}
    (h : timeOfDay true (hour.chars ++ ':' :: (minute.chars ++ cs)) = .ok (t, after)) :
    ∃ tail, cs = ':' :: tail := by
  obtain ⟨_, _, hhour, hafterHour⟩ := exists_of_bind h
  obtain ⟨-, -, rfl⟩ := (number_run hour _).eq_of_ok hhour
  obtain ⟨_, _, hcolon, hminutes⟩ := exists_of_bind hafterHour
  obtain ⟨-, rfl⟩ := List.cons.inj (literal_eq_ok.mp hcolon)
  obtain ⟨_, _, hminute, hafterMinute⟩ := exists_of_bind hminutes
  obtain ⟨-, -, rfl⟩ := (number_run minute _).eq_of_ok hminute
  obtain ⟨_, tail, hsecondColon, -⟩ := exists_of_bind hafterMinute
  exact ⟨tail, literal_eq_ok.mp hsecondColon⟩

theorem timeOfDay_spelled (w : Spelling) (hrest : StartsOffset rest) :
    TakesIf (timeOfDay w.seconds.isSome) (w.clockChars ++ rest)
      (w.hour.value ≤ 23 ∧ w.minute.value ≤ 59 ∧ w.secondValue ≤ 60)
      (w.hour.value, w.minute.value, w.secondValue, w.nanosecond) rest := by
  rw [w.clockChars_append, Spelling.secondsChars, Spelling.secondValue, Spelling.nanosecond,
    Spelling.fraction]
  cases w.seconds with
  | none =>
      have hscan := timeOfDay_minutes w.hour w.minute rest
      rwa [← takesIf_iff (and_congr_right' (and_iff_left (Nat.zero_le 60)))] at hscan
  | some s => exact timeOfDay_seconds w.hour w.minute s hrest

theorem offset_spaces (n : Nat) (cs : List Char) :
    offset (List.replicate n ' ' ++ cs) = offset cs := by
  simp only [offset, skipBlanks_blank_append isBlank_of_mem_spaces]

/-- The hours of an offset are followed by its minutes, if there are any. -/
theorem offset_sign (negative : Bool) (hour : DigitRun 2) (rest : List Char) :
    offset (SpelledOffset.sign negative :: (hour.chars ++ rest))
      = (offsetMinutes (rest.dropWhile isOffsetGap)).map fun r =>
          (signed negative (60 * hour.value + r.1), r.2) := by
  have hok := hour.digitsOK_chars
  obtain ⟨a, b, hab⟩ := hour.exists_pair
  rw [DigitRun.value, hab]
  rw [hab] at hok
  cases negative <;> exact if_pos hok

theorem offsetMinutes_run (minute : DigitRun 2) :
    offsetMinutes minute.chars
      = if minute.value ≤ 59 then .ok (minute.value, []) else .error .outOfRange := by
  have hok := minute.digitsOK_chars
  obtain ⟨a, b, hab⟩ := minute.exists_pair
  rw [DigitRun.value, hab]
  rw [hab] at hok
  exact if_pos hok

/-- A colon is the only gap that may stand before the minutes of an offset. -/
theorem dropWhile_isOffsetGap (colon : Bool) (minute : DigitRun 2) :
    ((if colon then [':'] else []) ++ minute.chars).dropWhile isOffsetGap = minute.chars := by
  refine (takeWhile_dropWhile_append (fun c hc => ?_) fun c hc => ?_).2
  · cases colon <;> simp at hc
    subst hc
    rfl
  · have hdigit := minute.isDigit_of_mem c (List.mem_of_head? hc)
    rw [isOffsetGap, isBlank_of_isDigit hdigit, Bool.or_false, beq_eq_false_iff_ne]
    rintro rfl
    cases hdigit

theorem offset_spelled (n : Nat) (o : SpelledOffset) :
    TakesIf offset (List.replicate n ' ' ++ o.spelledOut) (o.minuteValue ≤ 59) o.ahead [] := by
  unfold TakesIf
  rw [offset_spaces]
  cases o with
  | zulu => exact ⟨fun _ => rfl, fun h => absurd (Nat.zero_le 59) h⟩
  | hours negative hour =>
      have hscan := offset_sign negative hour []
      rw [List.append_nil] at hscan
      exact ⟨fun _ => hscan, fun h => absurd (Nat.zero_le 59) h⟩
  | minutes negative hour colon minute =>
      have hscan := offset_sign negative hour ((if colon then [':'] else []) ++ minute.chars)
      rw [dropWhile_isOffsetGap, offsetMinutes_run] at hscan
      constructor
      · intro (hle : minute.value ≤ 59)
        rw [if_pos hle] at hscan
        exact hscan
      · intro (hgt : ¬minute.value ≤ 59)
        rw [if_neg hgt] at hscan
        exact hscan

end Scan

/-! ## The layout of a spelling -/

theorem Layout.mem_all (l : Layout) : l ∈ all := by
  obtain ⟨letter, hasSeconds, hasOffset⟩ := l
  cases letter <;> cases hasSeconds <;> cases hasOffset <;> simp [all]

namespace Spelling

def layout (w : Spelling) : Layout := ⟨w.letter, w.seconds.isSome, w.offset.isSome⟩

/-- The offset after its spaces, with a `Z` written out. -/
def zoneChars (w : Spelling) : List Char :=
  match w.offset with
  | some o => List.replicate w.spaces ' ' ++ o.spelledOut
  | none => []

/-- The text without the spaces at its end and with a `Z` written out. -/
def spelledOut (w : Spelling) : List Char :=
  w.dateChars ++ w.separator :: (w.clockChars ++ w.zoneChars)

def parts (w : Spelling) : (Int × Nat × Nat) × (Nat × Nat × Nat × Nat) × Int :=
  ((w.year.value, w.month.value, w.day.value),
    (w.hour.value, w.minute.value, w.secondValue, w.nanosecond), w.ahead)

/-- What the scanners check: each number by itself, and the hours of an offset not at all. -/
def NumbersInRange (w : Spelling) : Prop :=
  ((1 ≤ w.month.value ∧ w.month.value ≤ 12) ∧ 1 ≤ w.day.value ∧ w.day.value ≤ 31)
    ∧ (w.hour.value ≤ 23 ∧ w.minute.value ≤ 59 ∧ w.secondValue ≤ 60)
    ∧ ∀ o ∈ w.offset, o.minuteValue ≤ 59

theorem startsOffset_zoneChars (w : Spelling) : StartsOffset w.zoneChars := by
  unfold zoneChars
  cases w.offset with
  | none => exact fun _ h => by cases h
  | some o =>
      cases w.spaces with
      | succ n => exact startsOffset_cons (Or.inl rfl)
      | zero =>
          cases o with
          | zulu => exact startsOffset_cons (Or.inr (Or.inl rfl))
          | hours negative hour => cases negative <;> exact startsOffset_cons (by decide)
          | minutes negative hour colon minute =>
              cases negative <;> exact startsOffset_cons (by decide)

theorem offset_zoneChars (w : Spelling) :
    Scan.TakesIf w.layout.offset w.zoneChars (∀ o ∈ w.offset, o.minuteValue ≤ 59) w.ahead [] := by
  rw [Layout.offset, layout, zoneChars, ahead]
  cases w.offset with
  | none => exact (Scan.takesIf_iff (by simp)).mp (Scan.takesIf_true.mpr rfl)
  | some o => exact (Scan.takesIf_iff (by simp)).mp (Scan.offset_spelled w.spaces o)

theorem skipBlanks_clockChars (w : Spelling) (rest : List Char) :
    skipBlanks (w.clockChars ++ rest) = w.clockChars ++ rest := by
  rw [clockChars_append]
  exact skipBlanks_digits w.hour.digitsOK_chars _

theorem separator_clockChars (w : Spelling) (rest : List Char) :
    w.layout.separator (w.separator :: (w.clockChars ++ rest))
      = .ok ((), w.clockChars ++ rest) := by
  unfold Layout.separator layout separator
  cases w.letter with
  | true => exact Scan.literal_cons 'T' _
  | false => exact congrArg (fun cs => Except.ok ((), cs)) (w.skipBlanks_clockChars rest)

/-- In its own layout the text fails by a number out of range only. -/
theorem parts_spelledOut (w : Spelling) :
    Scan.TakesIf w.layout.parts w.spelledOut w.NumbersInRange w.parts [] :=
  .bind (Scan.yearMonthDay_spelled w _) (.after (w.separator_clockChars _)
    (.bind (Scan.timeOfDay_spelled w w.startsOffset_zoneChars) w.offset_zoneChars.bind_pure))

/-- The `T` or the space is taken in its own layouts only: a time does not begin with a `T`. -/
theorem letter_of_scan {w : Spelling} {l : Layout} {rest clock afterClock : List Char}
    {hasSeconds : Bool} {t : Nat × Nat × Nat × Nat}
    (hseparator : l.separator (w.separator :: (w.clockChars ++ rest)) = .ok ((), clock))
    (htime : Scan.timeOfDay hasSeconds clock = .ok (t, afterClock)) :
    l.letter = w.letter ∧ clock = w.clockChars ++ rest := by
  unfold Layout.separator separator at hseparator
  cases hl : l.letter with
  | true =>
      rw [hl, if_pos rfl] at hseparator
      obtain ⟨hmark, rfl⟩ := List.cons.inj (Scan.literal_eq_ok.mp hseparator)
      cases hw : w.letter with
      | true => exact ⟨rfl, rfl⟩
      | false =>
          rw [hw] at hmark
          cases hmark
  | false =>
      rw [hl, if_neg Bool.false_ne_true] at hseparator
      obtain rfl := congrArg Prod.snd (Except.ok.inj hseparator)
      cases hw : w.letter with
      | true =>
          rw [hw] at htime
          obtain ⟨_, _, hhour, -⟩ := Scan.exists_of_bind htime
          cases hhour
      | false => exact ⟨rfl, w.skipBlanks_clockChars rest⟩

/-- Seconds are taken in their own layouts only. Without them, no colon follows the minutes;
with them, the colon that does begins no offset. -/
theorem seconds_of_scan {w : Spelling} {l : Layout} {afterClock : List Char}
    {t : Nat × Nat × Nat × Nat} {ahead : Int}
    (htime : Scan.timeOfDay l.hasSeconds (w.clockChars ++ w.zoneChars) = .ok (t, afterClock))
    (hoffset : l.offset afterClock = .ok (ahead, [])) :
    l.hasSeconds = w.seconds.isSome ∧ afterClock = w.zoneChars := by
  by_cases hsame : l.hasSeconds = w.seconds.isSome
  · rw [hsame] at htime
    exact ⟨hsame, ((Scan.timeOfDay_spelled w w.startsOffset_zoneChars).eq_of_ok htime).2.2⟩
  · rw [w.clockChars_append, secondsChars] at htime
    exfalso
    cases hseconds : w.seconds with
    | none =>
        have hl : l.hasSeconds = true := by simpa [hseconds] using hsame
        rw [hl, hseconds] at htime
        obtain ⟨tail, hzone⟩ := Scan.exists_colon_of_timeOfDay htime
        rw [List.nil_append] at hzone
        rcases w.startsOffset_zoneChars ':' (by rw [hzone]; rfl) with h | h | h <;> cases h
    | some s =>
        have hl : l.hasSeconds = false := by simpa [hseconds] using hsame
        rw [hl, hseconds] at htime
        obtain ⟨-, -, rfl⟩ := (Scan.timeOfDay_minutes w.hour w.minute _).eq_of_ok htime
        unfold Layout.offset at hoffset
        cases hzone : l.hasOffset <;> rw [hzone] at hoffset <;> cases hoffset

theorem offset_of_scan {w : Spelling} {l : Layout} {ahead : Int}
    (hoffset : l.offset w.zoneChars = .ok (ahead, [])) : l.hasOffset = w.offset.isSome := by
  unfold Layout.offset zoneChars at hoffset
  cases hl : l.hasOffset with
  | true =>
      cases hw : w.offset with
      | some o => rfl
      | none =>
          rw [hl, hw] at hoffset
          cases hoffset
  | false =>
      cases hw : w.offset with
      | none => rfl
      | some o =>
          rw [hl, hw] at hoffset
          have hnil : List.replicate w.spaces ' ' ++ o.spelledOut = [] :=
            congrArg Prod.snd (Except.ok.inj hoffset)
          obtain ⟨-, ho⟩ := List.append_eq_nil_iff.mp hnil
          cases o <;> cases ho

/-- The text fits no other layout than its own. -/
theorem eq_layout {w : Spelling} {l : Layout}
    {p : (Int × Nat × Nat) × (Nat × Nat × Nat × Nat) × Int}
    (h : l.parts w.spelledOut = .ok (p, [])) : l = w.layout := by
  obtain ⟨_, _, _, hdate, hseparator, htime, hoffset⟩ := Layout.parts_eq_ok.mp h
  obtain ⟨-, -, rfl⟩ := (Scan.yearMonthDay_spelled w _).eq_of_ok hdate
  obtain ⟨hletter, rfl⟩ := letter_of_scan hseparator htime
  obtain ⟨hseconds, rfl⟩ := seconds_of_scan htime hoffset
  have hzone := offset_of_scan hoffset
  obtain ⟨letter, hasSeconds, hasOffset⟩ := l
  exact Layout.mk.injEq .. ▸ ⟨hletter, hseconds, hzone⟩

end Spelling

end Intake
