import Intake.Proofs.Calendar.Scanning

/-!
# Reading canonical dates and times back

A time of day and a timestamp are read back from their canonical text, up to
what the text leaves out: the nanoseconds below a millisecond, and of a
timestamp its offset, since the text is in UTC (`cut`). What is left out does
not show in the text, so reading canonical text and writing it again gives the
same text.

The text of a time of day has no date in front of it. It is therefore no
timestamp in any layout, although a time is first tried as one.
-/

namespace Intake

/-! ## Parts in range -/

namespace Date

theorem month_le (d : Date) : d.month ≤ 12 := by
  refine Nat.le_of_not_lt fun hmonth => ?_
  have hday := d.pred_day_lt.2
  have hnone : (monthLengths d.year)[d.month - 1]? = none :=
    List.getElem?_eq_none (by simp only [monthLengths, List.length_cons, List.length_nil]; omega)
  rw [List.getD_eq_getElem?_getD, hnone] at hday
  exact Nat.not_lt_zero _ hday

theorem monthLengths_le (year : Int) : ∀ length ∈ monthLengths year, length ≤ 31 := by
  intro length h
  simp only [monthLengths, List.mem_cons, List.not_mem_nil, or_false] at h
  cases hleap : isLeapYear year <;> rw [hleap] at h <;> simp at h <;> omega

theorem day_le_31 (d : Date) : d.day ≤ 31 := by
  have hday := d.pred_day_lt.2
  rw [List.getD_eq_getElem?_getD] at hday
  cases hlength : (monthLengths d.year)[d.month - 1]? with
  | none =>
      rw [hlength] at hday
      exact absurd hday (Nat.not_lt_zero _)
  | some length =>
      rw [hlength] at hday
      have := monthLengths_le d.year length (List.mem_of_getElem? hlength)
      simp only [Option.getD_some] at hday
      omega

theorem year_bounds {d : Date} (h : d.supported = true) :
    -262143 ≤ d.year ∧ d.year ≤ 262142 := by
  simpa [supported] using h

theorem ofYMD?_self (d : Date) : ofYMD? d.year d.month d.day = some d := by
  rw [ofYMD?, dif_pos ⟨d.day_pos, d.day_le⟩]

theorem ofParts_self {d : Date} (h : d.supported = true) :
    ofParts (d.year, d.month, d.day) = .ok d := by
  simp [ofParts, ofYMD?_self, h]

theorem ofParts_eq_ok {p : Int × Nat × Nat} {d : Date} :
    ofParts p = .ok d ↔ (d.year, d.month, d.day) = p ∧ d.supported = true := by
  constructor
  · intro h
    unfold ofParts ofYMD? at h
    split at h
    · next d' hd' =>
        split at hd'
        · obtain rfl := Option.some.inj hd'
          split at h
          · next hsupported =>
              obtain rfl := Except.ok.inj h
              exact ⟨rfl, hsupported⟩
          · cases h
        · cases hd'
    · cases h
  · rintro ⟨rfl, h⟩
    exact ofParts_self h

theorem ofParts_ne_mismatch (p : Int × Nat × Nat) : ofParts p ≠ .error .mismatch := by
  unfold ofParts
  split
  · split <;> simp
  · simp

end Date

theorem TimeOfDay.ofParts_ne_mismatch (p : Nat × Nat × Nat × Nat) :
    ofParts p ≠ .error .mismatch := by
  unfold ofParts
  split <;> simp

/-- Parts are not refused for their form. -/
theorem Timestamp.ofParts_ne_mismatch (p : (Int × Nat × Nat) × (Nat × Nat × Nat × Nat) × Int) :
    ofParts p ≠ .error .mismatch :=
  bind_ne_error (Date.ofParts_ne_mismatch _) fun date =>
    bind_ne_error (TimeOfDay.ofParts_ne_mismatch _) fun time => by split <;> simp

theorem TimeOfDay.ofParts_eq_ok {p : Nat × Nat × Nat × Nat} {t : TimeOfDay} :
    ofParts p = .ok t ↔ (t.hour, t.minute, t.second, t.nanosecond) = p := by
  constructor
  · intro h
    unfold ofParts ofParts? at h
    split at h
    · next t' ht' =>
        split at ht'
        · obtain rfl := Option.some.inj ht'
          obtain rfl := Except.ok.inj h
          rfl
        · cases ht'
    · cases h
  · rintro rfl
    rw [ofParts, ofParts?, dif_pos ⟨t.hour_lt, t.minute_lt, t.second_le, t.nanosecond_lt⟩]

/-! ## Trimmed text -/

/-- A text that neither begins nor ends with a blank is what blanks after it are trimmed to. -/
theorem trimmed_append {cs blank : List Char} (hne : cs ≠ [])
    (hhead : ∀ c ∈ cs.head?, isBlank c = false) (hlast : ∀ c ∈ cs.getLast?, isBlank c = false)
    (hblank : ∀ c ∈ blank, isBlank c = true) : trimmed (String.ofList (cs ++ blank)) = .ok cs := by
  rw [trimmed, String.toList_ofList, trimBlanks_append hne hhead hlast hblank,
    if_neg (by rw [List.isEmpty_eq_false_iff.mpr hne]; exact Bool.false_ne_true)]

/-- A text without any blank is its own trimmed text. -/
theorem trimmed_ofList {cs : List Char} (hne : cs ≠ []) (h : ∀ c ∈ cs, isBlank c = false) :
    trimmed (String.ofList cs) = .ok cs := by
  have htrimmed : trimmed (String.ofList (cs ++ [])) = .ok cs :=
    trimmed_append hne (fun c hc => h c (List.mem_of_head? hc))
      (fun c hc => h c (List.mem_of_getLast? hc)) fun _ hc => by cases hc
  rwa [List.append_nil] at htrimmed

/-- What is read of the trimmed text is read of the text. -/
theorem bind_trimmed_eq_ok {α : Type} {ofChars : List Char → Except Fault α} {text : String}
    {a : α} :
    ((trimmed text).bind fun cs =>
        (ofChars cs).mapError (CalendarError.ofFault (String.ofList cs))) = .ok a
      ↔ ∃ cs, trimmed text = .ok cs ∧ ofChars cs = .ok a := by
  simp only [bind_eq_ok, mapError_eq_ok]

theorem TimeOfDay.read_eq_ok {text : String} {t : TimeOfDay} :
    TimeOfDay.read text = .ok t ↔ ∃ cs, trimmed text = .ok cs ∧ TimeOfDay.ofChars cs = .ok t :=
  bind_trimmed_eq_ok

theorem Timestamp.read_eq_ok {text : String} {t : Timestamp} :
    Timestamp.read text = .ok t ↔ ∃ cs, trimmed text = .ok cs ∧ Timestamp.ofChars cs = .ok t :=
  bind_trimmed_eq_ok

/-! ## Times of day -/

namespace TimeOfDay

/-- The time without the nanoseconds that its text leaves out. -/
def cut (t : TimeOfDay) : TimeOfDay :=
  { t with
    nanosecond := t.nanosecond / 1_000_000 * 1_000_000
    nanosecond_lt := Nat.lt_of_le_of_lt (Nat.div_mul_le_self _ _) t.nanosecond_lt }

theorem chars_cut (t : TimeOfDay) : t.cut.chars = t.chars := by
  simp [cut, chars]

theorem ofParts_cut (t : TimeOfDay) :
    ofParts (t.hour, t.minute, t.second, t.nanosecond / 1_000_000 * 1_000_000) = .ok t.cut :=
  ofParts_eq_ok.mpr rfl

theorem millis_lt (t : TimeOfDay) : t.nanosecond / 1_000_000 < 1000 := by
  have := t.nanosecond_lt
  omega

/-- The written time is scanned as its parts, in the layout with seconds. -/
theorem timeOfDay_chars (t : TimeOfDay) {rest : List Char} (hrest : NoDigit rest) :
    Scan.timeOfDay true (t.chars ++ rest)
      = .ok ((t.hour, t.minute, t.second, t.nanosecond / 1_000_000 * 1_000_000), rest) := by
  have hhour := t.hour_lt
  have hminute := t.minute_lt
  have hsecond := t.second_le
  have hfraction := Scan.fraction_point (digitsOK_padded 3 (t.nanosecond / 1_000_000)) hrest
  rw [Scan.nanoseconds_padded t.millis_lt] at hfraction
  simp only [chars, List.append_assoc, List.cons_append, Scan.timeOfDay]
  rw [Scan.bind_ok (Scan.number_padded (by decide) (by omega) (by omega) (by omega) _),
    Scan.bind_ok (Scan.literal_cons ':' _),
    Scan.bind_ok (Scan.number_padded (by decide) (by omega) (by omega) (by omega) _),
    if_pos trivial,
    Scan.bind_ok (Scan.literal_cons ':' _),
    Scan.bind_ok (Scan.number_padded (by decide) (by omega) (by omega) (by omega) _),
    Scan.bind_ok hfraction]
  rfl

/-- A written time of day does not begin with a date: a colon follows its first
digits. -/
theorem yearMonthDay_chars (t : TimeOfDay) : Scan.yearMonthDay t.chars = .error .mismatch := by
  have hhour := t.hour_lt
  have hlength : (padded 2 t.hour).length = 2 := length_padded (by decide) (by omega)
  have hyear : ∀ rest : List Char,
      Scan.year (padded 2 t.hour ++ ':' :: rest) = .ok ((t.hour : Int), ':' :: rest) := by
    intro rest
    rw [Scan.year_digits (digitsOK_padded 2 _),
      Scan.number_digits (digitsOK_padded 2 _) (by omega) (Or.inr (noDigit_cons rfl)),
      digitsValue_padded, if_pos ⟨Nat.zero_le _, by omega⟩]
    rfl
  simp only [chars, List.append_assoc, List.cons_append, Scan.yearMonthDay]
  rw [Scan.bind_ok (hyear _), Scan.bind_error (Scan.literal_cons_of_ne (by decide) _)]

/-- Every character of a written time is a digit or one of its two marks. -/
theorem mem_chars {t : TimeOfDay} {c : Char} (h : c ∈ t.chars) :
    c.isDigit = true ∨ c = ':' ∨ c = '.' := by
  simp only [chars, List.mem_append, List.mem_cons] at h
  rcases h with ((h | rfl | h) | rfl | h) | rfl | h
  · exact Or.inl (isDigit_of_mem_padded h)
  · exact Or.inr (Or.inl rfl)
  · exact Or.inl (isDigit_of_mem_padded h)
  · exact Or.inr (Or.inl rfl)
  · exact Or.inl (isDigit_of_mem_padded h)
  · exact Or.inr (Or.inr rfl)
  · exact Or.inl (isDigit_of_mem_padded h)

theorem isBlank_of_mem_chars {t : TimeOfDay} {c : Char} (h : c ∈ t.chars) : isBlank c = false := by
  rcases mem_chars h with hdigit | rfl | rfl
  · exact isBlank_of_isDigit hdigit
  · rfl
  · rfl

end TimeOfDay

theorem spellOutZ_of_not_mem {cs : List Char} (h : 'Z' ∉ cs) : spellOutZ cs = cs :=
  if_neg fun hlast => h (List.mem_of_getLast? hlast)

theorem spellOutZ_append (cs : List Char) :
    spellOutZ (cs ++ ['Z']) = cs ++ ['+', '0', '0', ':', '0', '0'] := by
  simp [spellOutZ]

namespace TimeOfDay

theorem trimmed_text (t : TimeOfDay) : trimmed t.text = .ok t.chars :=
  trimmed_ofList (by simp [chars]) fun _ hc => isBlank_of_mem_chars hc

/-- The text of a time of day is read as that time, cut to milliseconds. -/
theorem read_text (t : TimeOfDay) : TimeOfDay.read t.text = .ok t.cut := by
  have hparts := t.timeOfDay_chars noDigit_nil
  rw [List.append_nil] at hparts
  have hchars : ofChars t.chars = .ok t.cut := by
    simp only [ofChars, List.map_cons, Scan.whole, hparts, Except.bind, ofParts_cut]
    exact Scan.first_ok _ _
  exact read_eq_ok.mpr ⟨t.chars, t.trimmed_text, hchars⟩

/-- The text of a time of day is not the text of a timestamp. -/
theorem timestamp_read_text (t : TimeOfDay) : ∃ e, Timestamp.read t.text = .error e := by
  have hz : spellOutZ t.chars = t.chars := spellOutZ_of_not_mem fun h => by
    rcases mem_chars h with h | h | h <;> cases h
  have hchars : Timestamp.ofChars t.chars = .error .mismatch := by
    refine Scan.first_mismatch fun r hr => ?_
    obtain ⟨l, -, rfl⟩ := List.mem_map.mp hr
    have hparts : l.parts t.chars = .error .mismatch := Scan.bind_error t.yearMonthDay_chars
    simp only [hz, Scan.whole, hparts]
    rfl
  cases hread : Timestamp.read t.text with
  | error e => exact ⟨e, rfl⟩
  | ok t' =>
      obtain ⟨cs, htrimmed, h⟩ := Timestamp.read_eq_ok.mp hread
      obtain rfl := Except.ok.inj (t.trimmed_text.symm.trans htrimmed)
      rw [hchars] at h
      cases h

end TimeOfDay

/-! ## Dates -/

namespace Date

/-- A written year and month are scanned as such, and whatever stands in the place of the day
is scanned as a day. -/
theorem yearMonthDay_yearMonth {d : Date} (h : d.supported = true) (day : List Char) :
    Scan.yearMonthDay (yearChars d.year ++ '-' :: padded 2 d.month ++ '-' :: day)
      = (Scan.number 2 1 31 day).map fun r => ((d.year, d.month, r.1), r.2) := by
  obtain ⟨hlow, hhigh⟩ := year_bounds h
  have hmonth := d.month_le
  have hmonth_pos := d.pred_day_lt.1
  simp only [List.append_assoc, List.cons_append, Scan.yearMonthDay]
  rw [Scan.bind_ok (Scan.year_yearChars (by omega) (by omega) (noDigit_cons rfl)),
    Scan.bind_ok (Scan.literal_cons '-' _),
    Scan.bind_ok (Scan.number_padded (by decide) (by omega) hmonth_pos hmonth _),
    Scan.bind_ok (Scan.literal_cons '-' _)]
  cases hday : Scan.number 2 1 31 day with
  | ok r =>
      rw [Scan.bind_ok hday]
      rfl
  | error e =>
      rw [Scan.bind_error hday]
      rfl

/-- The written date is scanned as its parts. -/
theorem yearMonthDay_chars {d : Date} (h : d.supported = true) (rest : List Char) :
    Scan.yearMonthDay (d.chars ++ rest) = .ok ((d.year, d.month, d.day), rest) := by
  have hday := d.day_le_31
  have hsplit : d.chars ++ rest = yearChars d.year ++ '-' :: padded 2 d.month
      ++ '-' :: (padded 2 d.day ++ rest) := by
    simp [chars]
  rw [hsplit, yearMonthDay_yearMonth h,
    Scan.number_padded (by decide) (by omega) d.day_pos hday rest]
  rfl

/-- Every character of a written date is a digit, a hyphen or the sign of its
year. -/
theorem mem_chars {d : Date} {c : Char} (h : c ∈ d.chars) :
    c.isDigit = true ∨ c = '-' ∨ c = '+' := by
  have hyear : c ∈ yearChars d.year → c.isDigit = true ∨ c = '-' ∨ c = '+' := by
    intro hc
    unfold yearChars at hc
    split at hc
    · exact Or.inl (isDigit_of_mem_padded hc)
    · rcases List.mem_cons.mp hc with rfl | hc
      · by_cases hneg : d.year < 0 <;> simp [hneg]
      · exact Or.inl (isDigit_of_mem_padded hc)
  simp only [chars, List.mem_append, List.mem_cons] at h
  rcases h with (h | rfl | h) | rfl | h
  · exact hyear h
  · exact Or.inr (Or.inl rfl)
  · exact Or.inl (isDigit_of_mem_padded h)
  · exact Or.inr (Or.inl rfl)
  · exact Or.inl (isDigit_of_mem_padded h)

theorem isBlank_of_mem_chars {d : Date} {c : Char} (h : c ∈ d.chars) : isBlank c = false := by
  rcases mem_chars h with hdigit | rfl | rfl
  · exact isBlank_of_isDigit hdigit
  · rfl
  · rfl

theorem trimmed_text (d : Date) : trimmed d.text = .ok d.chars :=
  trimmed_ofList (by simp [chars]) fun _ hc => isBlank_of_mem_chars hc

/-- Supported dates with one text are one date. -/
theorem text_inj {d e : Date} (hd : d.supported = true) (he : e.supported = true)
    (h : d.text = e.text) : d = e := by
  have hchars : d.chars = e.chars := String.ofList_inj.mp h
  have hparts := yearMonthDay_chars hd []
  rw [hchars, yearMonthDay_chars he] at hparts
  have hsame : (e.year, e.month, e.day) = (d.year, d.month, d.day) :=
    congrArg Prod.fst (Except.ok.inj hparts)
  exact Except.ok.inj ((ofParts_self hd).symm.trans (hsame ▸ ofParts_self he))

end Date

/-! ## Timestamps -/

namespace DateTime

/-- In UTC, what the clock shows is the point in time. -/
theorem addMinutes_zero (t : DateTime) : t.addMinutes 0 = t := by
  have hhour := t.time.hour_lt
  have hminute := t.time.minute_lt
  have hday : (t.minuteNumber + 0) / 1440 = t.date.dayNumber := by
    simp only [minuteNumber, TimeOfDay.minuteOfDay]
    omega
  have hin : ((t.minuteNumber + 0) % 1440).toNat = t.time.minuteOfDay := by
    simp only [minuteNumber, TimeOfDay.minuteOfDay]
    omega
  obtain ⟨date, hour, minute, second, nanosecond, h1, h2, h3, h4⟩ := t
  simp only [addMinutes, hday, Date.ofDayNumber_dayNumber, TimeOfDay.atMinute, hin,
    TimeOfDay.minuteOfDay, DateTime.mk.injEq, TimeOfDay.mk.injEq, true_and, and_true]
  omega

end DateTime

namespace Timestamp

/-- The timestamp without what its text leaves out: its offset, and the
nanoseconds below a millisecond. -/
def cut (t : Timestamp) : Timestamp := ⟨⟨t.utc.date, t.utc.time.cut⟩, Offset.utc⟩

theorem text_cut (t : Timestamp) : t.cut.text = t.text := by
  simp [cut, text, chars, TimeOfDay.chars_cut]

theorem ofLocal?_utc {shown : DateTime} (h : shown.date.supported = true) :
    ofLocal? shown Offset.utc = some ⟨shown, Offset.utc⟩ := by
  have hzero : -Offset.utc.minutes = 0 := rfl
  simp only [ofLocal?, hzero, DateTime.addMinutes_zero, h, if_true]

theorem ofParts_ok {p : (Int × Nat × Nat) × (Nat × Nat × Nat × Nat) × Int} {date : Date}
    {time : TimeOfDay} {t : Timestamp} (hdate : Date.ofParts p.1 = .ok date)
    (htime : TimeOfDay.ofParts p.2.1 = .ok time)
    (h : (Offset.ofMinutes? p.2.2).bind (ofLocal? ⟨date, time⟩) = some t) : ofParts p = .ok t := by
  refine bind_eq_ok.mpr ⟨date, hdate, bind_eq_ok.mpr ⟨time, htime, ?_⟩⟩
  rw [h]

/-- The parts of a timestamp's text are those of its date and time in UTC. -/
theorem parts_chars {t : Timestamp} (h : t.utc.date.supported = true) :
    (Layout.mk true true true).parts.whole
        (t.utc.date.chars ++ 'T' :: t.utc.time.chars ++ ['+', '0', '0', ':', '0', '0'])
      = .ok ((t.utc.date.year, t.utc.date.month, t.utc.date.day),
          (t.utc.time.hour, t.utc.time.minute, t.utc.time.second,
            t.utc.time.nanosecond / 1_000_000 * 1_000_000), 0) := by
  have hoffset : NoDigit ['+', '0', '0', ':', '0', '0'] := noDigit_cons rfl
  have htime := t.utc.time.timeOfDay_chars hoffset
  have hparts : (Layout.mk true true true).parts
      (t.utc.date.chars ++ 'T' :: (t.utc.time.chars ++ ['+', '0', '0', ':', '0', '0']))
      = .ok (((t.utc.date.year, t.utc.date.month, t.utc.date.day),
          (t.utc.time.hour, t.utc.time.minute, t.utc.time.second,
            t.utc.time.nanosecond / 1_000_000 * 1_000_000), 0), []) := by
    simp only [Layout.parts, Layout.separator, Layout.offset, if_true]
    rw [Scan.bind_ok (Date.yearMonthDay_chars h _), Scan.bind_ok (Scan.literal_cons 'T' _),
      Scan.bind_ok htime, Scan.bind_ok Scan.offset_zero]
    rfl
  rw [List.append_assoc, List.cons_append, Scan.whole, hparts]

/-- The text of a timestamp is read as that point in time, in UTC and cut to
milliseconds. -/
theorem read_text {t : Timestamp} (h : t.utc.date.supported = true) :
    Timestamp.read t.text = .ok t.cut := by
  have htrim : trimmed t.text = .ok t.chars := by
    refine trimmed_ofList (by simp [chars]) fun c hc => ?_
    simp only [chars, List.mem_append, List.mem_cons, List.not_mem_nil, or_false] at hc
    rcases hc with (hc | rfl | hc) | rfl
    · exact Date.isBlank_of_mem_chars hc
    · rfl
    · exact TimeOfDay.isBlank_of_mem_chars hc
    · rfl
  have hofParts := ofParts_ok (p := ((t.utc.date.year, t.utc.date.month, t.utc.date.day),
      (t.utc.time.hour, t.utc.time.minute, t.utc.time.second,
        t.utc.time.nanosecond / 1_000_000 * 1_000_000), 0))
    (Date.ofParts_self h) t.utc.time.ofParts_cut (ofLocal?_utc h)
  have hchars : ofChars t.chars = .ok t.cut := by
    simp only [ofChars, chars, spellOutZ_append, Layout.all, List.map_cons, parts_chars h,
      Except.bind, hofParts]
    exact Scan.first_ok _ _
  exact read_eq_ok.mpr ⟨t.chars, htrim, hchars⟩

/-! ## What is read is supported -/

theorem supported_of_ofLocal? {shown : DateTime} {offset : Offset} {t : Timestamp}
    (h : ofLocal? shown offset = some t) : t.utc.date.supported = true := by
  simp only [ofLocal?] at h
  split at h
  · next hsupported =>
      obtain rfl := Option.some.inj h
      exact hsupported
  · cases h

theorem supported_of_ofEpochMillis? {millis : Int} {t : Timestamp}
    (h : ofEpochMillis? millis = some t) : t.utc.date.supported = true := by
  simp only [ofEpochMillis?] at h
  split at h
  · next hsupported =>
      obtain rfl := Option.some.inj h
      exact hsupported
  · cases h

theorem supported_of_ofParts {p : (Int × Nat × Nat) × (Nat × Nat × Nat × Nat) × Int}
    {t : Timestamp} (h : ofParts p = .ok t) : t.utc.date.supported = true := by
  obtain ⟨date, -, h⟩ := bind_eq_ok.mp h
  obtain ⟨time, -, h⟩ := bind_eq_ok.mp h
  split at h
  · next hlocal =>
      obtain rfl := Except.ok.inj h
      obtain ⟨offset, -, hlocal⟩ := Option.bind_eq_some_iff.mp hlocal
      exact supported_of_ofLocal? hlocal
  · cases h

/-- A timestamp that is read has a supported date in UTC. -/
theorem supported_of_read {text : String} {t : Timestamp} (h : Timestamp.read text = .ok t) :
    t.utc.date.supported = true := by
  obtain ⟨cs, -, hchars⟩ := read_eq_ok.mp h
  obtain ⟨l, -, hattempt⟩ := List.mem_map.mp (Scan.mem_of_first hchars)
  obtain ⟨p, -, hparts⟩ := bind_eq_ok.mp hattempt
  exact supported_of_ofParts hparts

end Timestamp

end Intake
