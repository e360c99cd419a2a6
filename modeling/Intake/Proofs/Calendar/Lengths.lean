import Intake.Proofs.Calendar.RoundTrip

/-!
# The lengths of canonical dates and times

A time of day is always written in twelve characters. A date is written in ten if
its year has four digits and no sign. Since dates are read from ten bytes, of which
month, day and hyphens take up four at least, a year that is read has at most five
digits after its sign, and the canonical date has at most twelve characters.
-/

namespace Intake

/-! ## What a scanner uses up -/

theorem length_le_of_takeBytes? : ∀ {n : Nat} {cs front : List Char},
    takeBytes? n cs = some front → front.length ≤ n
  | 0, cs, front, h => by
      simp only [takeBytes?, Option.some.injEq] at h
      subst h
      exact Nat.le_refl 0
  | n + 1, [], front, h => by cases h
  | n + 1, c :: rest, front, h => by
      simp only [takeBytes?] at h
      split at h
      · obtain ⟨tail, htail, rfl⟩ := Option.map_eq_some_iff.mp h
        have hsize := c.utf8Size_pos
        have := length_le_of_takeBytes? htail
        rw [List.length_cons]
        omega
      · cases h

namespace Scan

variable {α β : Type}

/-- A number uses up one character at least, and is in its range. -/
theorem number_eq_ok {width low high n : Nat} {cs rest : List Char}
    (h : number width low high cs = .ok (n, rest)) : rest.length < cs.length ∧ n ≤ high := by
  obtain ⟨ds, hds, hcs, -, -, -, -, hhigh⟩ := exists_digits_of_number h
  have hpos := List.length_pos_iff.mpr (ne_nil_of_digitsOK hds)
  have hskip := length_skipBlanks_le cs
  rw [hcs, List.length_append] at hskip
  exact ⟨by omega, hhigh⟩

theorem natAbs_lt_of_signedYear {negative : Bool} {cs rest : List Char} {y : Int}
    (h : signedYear negative cs = .ok (y, rest)) : y.natAbs < 10 ^ (cs.length - rest.length) := by
  obtain ⟨ds, hds, rfl, -, rfl, -⟩ := exists_digits_of_signedYear h
  rw [natAbs_signed, List.length_append, Nat.add_sub_cancel]
  exact digitsValue_lt (isDigit_of_digitsOK hds)

/-- A year that is read from six characters has five digits at most: a sixth one would
have no room for its sign. -/
theorem natAbs_lt_of_year {cs rest : List Char} {y : Int} (h : year cs = .ok (y, rest))
    (hlength : cs.length ≤ rest.length + 6) : y.natAbs < 10 ^ 5 := by
  rcases year_cases h with ⟨negative, digits, hcs, hyear⟩ | ⟨n, hn, rfl⟩
  · have hskip := length_skipBlanks_le cs
    rw [hcs, List.length_cons] at hskip
    exact Nat.lt_of_lt_of_le (natAbs_lt_of_signedYear hyear)
      (Nat.pow_le_pow_right (by decide) (by omega))
  · have hle := (number_eq_ok hn).2
    rw [Int.natAbs_natCast]
    omega

/-- Month, day and hyphens leave six characters of ten for the year. -/
theorem natAbs_lt_of_yearMonthDay {cs : List Char} {p : Int × Nat × Nat}
    (h : yearMonthDay.whole cs = .ok p) (hlength : cs.length ≤ 10) : p.1.natAbs < 10 ^ 5 := by
  obtain ⟨afterYear, afterMonth, hyear, hmonth, hday⟩ := yearMonthDay_eq_ok.mp (whole_eq_ok.mp h)
  have hmonth := (number_eq_ok hmonth).1
  have hday := (number_eq_ok hday).1
  simp only [List.length_cons, List.length_nil] at hmonth hday
  exact natAbs_lt_of_year hyear (by rw [List.length_cons]; omega)

end Scan

/-! ## Canonical text -/

theorem TimeOfDay.length_text (t : TimeOfDay) : t.text.length = 12 := by
  have hhour := t.hour_lt
  have hminute := t.minute_lt
  have hsecond := t.second_le
  rw [text, String.length_ofList]
  simp only [chars, List.length_append, List.length_cons,
    length_padded (show 0 < 2 by decide) (show t.hour < 10 ^ 2 by omega),
    length_padded (show 0 < 2 by decide) (show t.minute < 10 ^ 2 by omega),
    length_padded (show 0 < 2 by decide) (show t.second < 10 ^ 2 by omega),
    length_padded (show 0 < 3 by decide) t.millis_lt]

namespace Date

theorem length_yearMonth (d : Date) (day : List Char) :
    (yearChars d.year ++ '-' :: padded 2 d.month ++ '-' :: day).length
      = (yearChars d.year).length + day.length + 4 := by
  have hmonth := d.month_le
  simp only [List.length_append, List.length_cons,
    length_padded (show 0 < 2 by decide) (show d.month < 10 ^ 2 by omega)]
  omega

theorem length_text (d : Date) : d.text.length = (yearChars d.year).length + 6 := by
  have hday := d.day_le_31
  have hlength := d.length_yearMonth (padded 2 d.day)
  rw [length_padded (by decide) (by omega)] at hlength
  rw [text, String.length_ofList]
  exact hlength

/-- A date of a year with four digits is written in ten characters. -/
theorem length_text_of_year {d : Date} (hlow : 0 ≤ d.year) (hhigh : d.year ≤ 9999) :
    d.text.length = 10 := by
  rw [length_text, yearChars, if_pos ⟨hlow, hhigh⟩, length_padded (by decide) (by omega)]

/-- A year with a sign is written in four digits at least. -/
theorem length_yearChars_of_sign {y : Int} (h : y < 0 ∨ 9999 < y) :
    (yearChars y).length = (padded 4 y.natAbs).length + 1 := by
  rw [yearChars, if_neg (by omega), List.length_cons]

theorem length_yearChars_le {y : Int} (h : y.natAbs < 10 ^ 5) : (yearChars y).length ≤ 6 := by
  have hpadded := length_padded_le (show 0 < 5 by decide) (show 4 ≤ 5 by decide) h
  unfold yearChars
  split
  · omega
  · rw [List.length_cons]
    omega

theorem read_eq_ok {text : String} {d : Date} :
    read text = .ok d ↔ ∃ cs, trimmed text = .ok cs ∧ ofChars cs = .ok d :=
  bind_trimmed_eq_ok

/-- A year that is read has at most five digits. -/
theorem natAbs_year_of_read {text : String} {d : Date} (h : read text = .ok d) :
    d.year.natAbs < 10 ^ 5 := by
  obtain ⟨cs, -, hd⟩ := read_eq_ok.mp h
  unfold ofChars at hd
  split at hd
  · next front hfront =>
      obtain ⟨p, hp, hd⟩ := bind_eq_ok.mp hd
      have hyear := Scan.natAbs_lt_of_yearMonthDay hp (length_le_of_takeBytes? hfront)
      rwa [← (ofParts_eq_ok.mp hd).1] at hyear
  · cases hd

/-- A date that is read is written in twelve characters at most. -/
theorem length_text_of_read {text : String} {d : Date} (h : read text = .ok d) :
    d.text.length ≤ 12 := by
  rw [length_text]
  exact Nat.add_le_add_right (length_yearChars_le (natAbs_year_of_read h)) 6

end Date

end Intake
