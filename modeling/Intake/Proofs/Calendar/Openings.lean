import Intake.Proofs.Calendar.Window
import Mathlib.Data.List.Basic

/-!
# Where the date ends and the time begins

A timestamp opens with its date, what separates it from the time, and the hour (`Opening`). Month,
day and hour may have fewer digits than their full width, and each may follow blanks. Between the
digits of the day and those of the hour stands a `T` or not, and then a run of blanks, which may be
empty. Where there is neither, the day has both its digits, and the hour begins at the third
(`Timestamp.date_apart_from_time`). So `2016-06-111:00` is one o'clock on the 11th.
-/

namespace Intake

/-- Digits within a width, after any blanks. -/
structure GappedNumber (width : Nat) where
  gap : List Char
  digits : List Char
  isBlank_of_mem_gap : ∀ c ∈ gap, isBlank c = true
  digitsOK_digits : digitsOK digits = true
  length_le : digits.length ≤ width

namespace GappedNumber

variable {width : Nat}

def chars (n : GappedNumber width) : List Char := n.gap ++ n.digits

def value (n : GappedNumber width) : Nat := digitsValue n.digits

theorem mem_chars {n : GappedNumber width} {c : Char} (h : c ∈ n.chars) :
    isBlank c = true ∨ c.isDigit = true :=
  (List.mem_append.mp h).imp (n.isBlank_of_mem_gap c) (isDigit_of_digitsOK n.digitsOK_digits c)

theorem length_pos (n : GappedNumber width) : 0 < n.digits.length :=
  List.length_pos_iff.mpr (ne_nil_of_digitsOK n.digitsOK_digits)

end GappedNumber

/-- A date, what separates it from a time, and the hour of the time. -/
structure Opening where
  /-- The sign of the year, if it has one; `true` is a minus. -/
  sign : Option Bool
  year : List Char
  month : GappedNumber 2
  day : GappedNumber 2
  /-- A `T` follows the date. -/
  letter : Bool
  hour : GappedNumber 2
  digitsOK_year : digitsOK year = true

namespace Opening

def yearValue (o : Opening) : Int := signed (o.sign.getD false) (digitsValue o.year)

/-- What stands between the digits of the day and those of the hour. -/
def separator (o : Opening) : List Char := (if o.letter then ['T'] else []) ++ o.hour.gap

def dateChars (o : Opening) : List Char :=
  Scan.signChars o.sign ++ o.year ++ '-' :: o.month.chars ++ '-' :: o.day.chars

def chars (o : Opening) : List Char := o.dateChars ++ o.separator ++ o.hour.digits

/-- The timestamp's own clock shows the date and the hour that are written. -/
structure Shows (o : Opening) (t : Timestamp) : Prop where
  date : (t.localDate.year, t.localDate.month, t.localDate.day)
    = (o.yearValue, o.month.value, o.day.value)
  hour : t.localTime.hour = o.hour.value

/-- Nothing but a `T` and blanks stands between a date and a time. -/
theorem mem_separator {o : Opening} {c : Char} (h : c ∈ o.separator) :
    c = 'T' ∨ isBlank c = true := by
  rcases List.mem_append.mp h with hletter | hgap
  · split at hletter
    · exact Or.inl (List.mem_singleton.mp hletter)
    · cases hletter
  · exact Or.inr (o.hour.isBlank_of_mem_gap c hgap)

/-- In a text without a `T` and without blanks nothing separates date and time. -/
theorem separator_eq_nil {o : Opening} {cs rest : List Char} (hcs : cs = o.chars ++ rest)
    (h : cs.all (fun c => c != 'T' && !isBlank c) = true) : o.separator = [] := by
  subst hcs
  refine List.eq_nil_iff_forall_not_mem.mpr fun c hc => ?_
  have hchars : c ∈ o.chars := List.mem_append_left _ (List.mem_append_right _ hc)
  have hneither := List.all_eq_true.mp h c (List.mem_append_left rest hchars)
  rcases mem_separator hc with rfl | hblank
  · cases hneither
  · simp [hblank] at hneither

/-- From the last hyphen on there is no plus. -/
theorem not_suffix_chars (o : Opening) : ¬['+', '0', '0'] <:+ o.chars := by
  intro hplus
  have hback : '-' :: (o.day.chars ++ o.separator ++ o.hour.digits) <:+ o.chars :=
    ⟨Scan.signChars o.sign ++ o.year ++ '-' :: o.month.chars, by simp [chars, dateChars]⟩
  have hlength : 3 ≤ ('-' :: (o.day.chars ++ o.separator ++ o.hour.digits)).length := by
    have := o.day.length_pos
    have := o.hour.length_pos
    simp only [List.length_cons, List.length_append, GappedNumber.chars]
    omega
  have hmem := (List.suffix_of_suffix_length_le hplus hback hlength).mem List.mem_cons_self
  simp only [List.mem_cons, List.mem_append] at hmem
  rcases hmem with hmem | (hmem | hmem) | hmem
  · cases hmem
  · rcases GappedNumber.mem_chars hmem with h | h <;> cases h
  · rcases mem_separator hmem with h | h <;> cases h
  · cases isDigit_of_digitsOK o.hour.digitsOK_digits _ hmem

end Opening

/-! ## What the scanners have taken -/

namespace Scan

/-- A number that has been read was written in digits after a gap. -/
theorem exists_gapped_of_number {width low high n : Nat} {cs rest : List Char}
    (h : number width low high cs = .ok (n, rest)) :
    ∃ s : GappedNumber width, cs = s.chars ++ rest ∧ s.value = n
      ∧ (s.digits.length = width ∨ NoDigit rest) := by
  obtain ⟨ds, hds, hcs, hlength, hend, hvalue, -⟩ := exists_digits_of_number h
  obtain ⟨blank, hblank, hsplit⟩ := exists_blank_append cs
  refine ⟨⟨blank, ds, hblank, hds, hlength⟩, ?_, hvalue, hend⟩
  rw [GappedNumber.chars, List.append_assoc, ← hcs]
  exact hsplit

/-- A time begins with its hour and a colon. -/
theorem hour_of_timeOfDay {hasSeconds : Bool} {cs rest : List Char} {t : Nat × Nat × Nat × Nat}
    (h : timeOfDay hasSeconds cs = .ok (t, rest)) :
    ∃ tail, number 2 0 23 cs = .ok (t.1, ':' :: tail) := by
  obtain ⟨hour, colon, hhour, h⟩ := exists_of_bind h
  obtain ⟨⟨⟩, tail, hcolon, h⟩ := exists_of_bind h
  rw [literal_eq_ok.mp hcolon] at hhour
  obtain ⟨minute, _, -, h⟩ := exists_of_bind h
  refine ⟨tail, ?_⟩
  cases hasSeconds with
  | false =>
      obtain rfl := congrArg Prod.fst (Except.ok.inj h)
      exact hhour
  | true =>
      obtain ⟨⟨⟩, _, -, h⟩ := exists_of_bind h
      obtain ⟨second, _, -, h⟩ := exists_of_bind h
      obtain ⟨fraction, _, -, h⟩ := exists_of_bind h
      obtain rfl := congrArg Prod.fst (Except.ok.inj h)
      exact hhour

/-- After a date, the separator and the time make up a `T` or not, and the hour after a gap. -/
theorem exists_hour_of_separator {l : Layout} {cs clock rest : List Char}
    {t : Nat × Nat × Nat × Nat} (hseparator : l.separator cs = .ok ((), clock))
    (htime : timeOfDay l.hasSeconds clock = .ok (t, rest)) :
    ∃ (hour : GappedNumber 2) (tail : List Char),
      cs = (if l.letter then ['T'] else []) ++ hour.gap ++ (hour.digits ++ ':' :: tail)
        ∧ hour.value = t.1 := by
  obtain ⟨tail, hhour⟩ := hour_of_timeOfDay htime
  unfold Layout.separator at hseparator
  cases hletter : l.letter with
  | true =>
      rw [hletter] at hseparator
      obtain rfl := literal_eq_ok.mp hseparator
      obtain ⟨hour, rfl, hvalue, -⟩ := exists_gapped_of_number hhour
      exact ⟨hour, tail, by simp [GappedNumber.chars], hvalue⟩
  | false =>
      rw [hletter] at hseparator
      obtain rfl : skipBlanks cs = clock := congrArg Prod.snd (Except.ok.inj hseparator)
      rw [number_skipBlanks] at hhour
      obtain ⟨hour, hcs, hvalue, -⟩ := exists_gapped_of_number hhour
      exact ⟨hour, tail, by simp [hcs, GappedNumber.chars], hvalue⟩

end Scan

/-- The parts of a timestamp were written after an opening that has their date and their hour.
Where nothing separates date and time, the digits of the day end at their full width. -/
theorem Layout.exists_opening_of_parts {l : Layout} {cs rest : List Char}
    {p : (Int × Nat × Nat) × (Nat × Nat × Nat × Nat) × Int} (h : l.parts cs = .ok (p, rest)) :
    ∃ (o : Opening) (tail : List Char), skipBlanks cs = o.chars ++ ':' :: tail
      ∧ p.1 = (o.yearValue, o.month.value, o.day.value) ∧ p.2.1.1 = o.hour.value
      ∧ (o.separator = [] → o.day.digits.length = 2) := by
  obtain ⟨afterDate, clock, _, hdate, hseparator, htime, -⟩ := parts_eq_ok.mp h
  obtain ⟨_, _, hyear, hmonth, hday⟩ := Scan.yearMonthDay_eq_ok.mp hdate
  obtain ⟨sign, year, hdigits, hcs, hyearValue⟩ := Scan.exists_digits_of_year hyear
  obtain ⟨month, rfl, hmonthValue, -⟩ := Scan.exists_gapped_of_number hmonth
  obtain ⟨day, rfl, hdayValue, hend⟩ := Scan.exists_gapped_of_number hday
  obtain ⟨hour, tail, hafterDate, hhourValue⟩ := Scan.exists_hour_of_separator hseparator htime
  let o : Opening := ⟨sign, year, month, day, l.letter, hour, hdigits⟩
  have hsplit : afterDate = o.separator ++ (hour.digits ++ ':' :: tail) := hafterDate
  refine ⟨o, tail, ?_, ?_, hhourValue.symm, fun hnone => ?_⟩
  · rw [hcs, hsplit]
    simp [o, Opening.chars, Opening.dateChars]
  · simp only [o, Opening.yearValue, hyearValue, hmonthValue, hdayValue]
  · -- The hour begins right after the day, so a digit follows the digits of the day.
    rw [hnone, List.nil_append] at hsplit
    exact hend.resolve_right (hsplit ▸ not_noDigit_append hour.digitsOK_digits _)

/-! ## The trimmed text -/

/-- Up to a colon, the text is what it was before a last `Z` was written out, unless that is the
colon of the `Z`. -/
theorem exists_of_spellOutZ {cs front rest : List Char} (h : spellOutZ cs = front ++ ':' :: rest)
    (hfront : ¬['+', '0', '0'] <:+ front) : ∃ rest', cs = front ++ ':' :: rest' := by
  unfold spellOutZ at h
  split at h
  · next hlast =>
      obtain ⟨init, rfl⟩ := List.getLast?_eq_some_iff.mp hlast
      rw [List.dropLast_concat] at h
      rcases List.append_eq_append_iff.mp h with ⟨tail, rfl, htail⟩ | ⟨tail, rfl, htail⟩
      · -- The colon of the offset zero is its only one, and a plus stands before it.
        have hzero : ['+', '0', '0'] ++ ':' :: ['0', '0'] = tail ++ ':' :: rest := htail
        obtain ⟨rfl, -⟩ := (List.append_cons_inj_of_notMem (by decide) (by decide)).mp hzero
        exact absurd (List.suffix_append init _) hfront
      · cases tail with
        | nil => cases htail
        | cons c tail =>
            obtain ⟨rfl, -⟩ := List.cons.inj htail
            exact ⟨tail ++ ['Z'], by simp⟩
  · exact ⟨rest, h⟩

theorem isBlank_head_of_trimmed {text : String} {cs : List Char} (h : trimmed text = .ok cs) :
    ∀ c ∈ cs.head?, isBlank c = false := by
  unfold trimmed at h
  split at h
  · cases h
  · obtain rfl := Except.ok.inj h
    exact fun c hc => isBlank_head_trimBlanks hc

/-- A text that does not begin with a blank does not do so with a `Z` written out. -/
theorem skipBlanks_spellOutZ {cs : List Char} (h : ∀ c ∈ cs.head?, isBlank c = false) :
    skipBlanks (spellOutZ cs) = spellOutZ cs := by
  refine skipBlanks_eq_self ?_
  rcases head?_spellOutZ cs with hhead | rfl
  · rwa [hhead]
  · intro c hc
    obtain rfl := Option.some.inj hc
    rfl

namespace Timestamp

/-- The trimmed text of a timestamp begins with its date, what separates it from the time, and its
hour, as its own clock shows them. The hour may follow a `T`, and it may follow blanks, after the
`T` as well; only where the day is written in two digits may it follow the day at once. -/
theorem date_apart_from_time (text : String) (t : Timestamp) (h : read text = .ok t) :
    ∃ (o : Opening) (rest : List Char), trimmed text = .ok (o.chars ++ ':' :: rest) ∧ o.Shows t
      ∧ (o.separator = [] → o.day.digits.length = 2) := by
  obtain ⟨l, -, cs, p, htrimmed, hp, hdate, htime, -⟩ := exists_layout_of_read h
  obtain ⟨o, tail, hchars, hdateValue, hhourValue, hday⟩ :=
    Layout.exists_opening_of_parts (Scan.whole_eq_ok.mp hp)
  rw [skipBlanks_spellOutZ (isBlank_head_of_trimmed htrimmed)] at hchars
  obtain ⟨rest, rfl⟩ := exists_of_spellOutZ hchars o.not_suffix_chars
  have hshownDate := (Date.ofParts_eq_ok.mp hdate).1
  have hshownTime := TimeOfDay.ofParts_eq_ok.mp htime
  refine ⟨o, rest, htrimmed, ⟨hshownDate.trans hdateValue, ?_⟩, hday⟩
  rw [← hhourValue, ← hshownTime]

/-- Two digits of a day and one of an hour, with nothing between them. -/
theorem date_apart_from_time_eleven :
    ∃ (t : Timestamp) (o : Opening) (rest : List Char), read "2016-06-111:00" = .ok t
      ∧ trimmed "2016-06-111:00" = .ok (o.chars ++ ':' :: rest) ∧ o.separator = []
      ∧ o.day.digits.length = 2 ∧ o.day.value = 11 ∧ o.hour.value = 1 := by
  obtain ⟨t, ht, hday, hhour⟩ : ∃ t, read "2016-06-111:00" = .ok t ∧ t.localDate.day = 11
      ∧ t.localTime.hour = 1 := ⟨_, rfl, rfl, rfl⟩
  obtain ⟨o, rest, htrimmed, hshows, htwo⟩ := date_apart_from_time _ t ht
  have htext : trimmed "2016-06-111:00" = .ok "2016-06-111:00".toList := rfl
  have hnone : o.separator = [] :=
    Opening.separator_eq_nil (Except.ok.inj (htext.symm.trans htrimmed)) rfl
  have hdate := hshows.date
  simp only [Prod.mk.injEq] at hdate
  exact ⟨t, o, rest, ht, htrimmed, hnone, htwo hnone, hdate.2.2.symm.trans hday,
    hshows.hour.symm.trans hhour⟩

/-- Where the day has two digits, the hour may follow at once. -/
theorem date_run_together_with_time :
    (∃ t, read "2015-12-2510:30" = .ok t)
      ∧ ∀ (o : Opening) (rest : List Char),
          trimmed "2015-12-2510:30" = .ok (o.chars ++ ':' :: rest) → o.separator = [] := by
  refine ⟨⟨_, rfl⟩, fun o rest h => ?_⟩
  have htext : trimmed "2015-12-2510:30" = .ok "2015-12-2510:30".toList := rfl
  exact Opening.separator_eq_nil (Except.ok.inj (htext.symm.trans h)) rfl

end Timestamp

end Intake
