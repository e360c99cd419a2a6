import Intake.Proofs.Calendar.Instants
import Intake.Proofs.Calendar.Lengths

/-!
# Dates in the first ten bytes

A calendar date is read from the first ten bytes of a text, and what follows them is not looked
at. The first ten bytes may end before the date does. As long as they hold a date at all, they
can leave out no more than the second digit of its day (`CutsDay`), since every other part is
followed by a hyphen.

So a date and a timestamp that are read from one text have one year and one month, and they are
of one day unless that digit is cut off (`Date.read_eq_localDate_iff`). A canonical date is read
back exactly if its year has no sign (`Date.read_text`), because a sign makes it longer than ten
characters.
-/

namespace Intake

/-! ## Bytes -/

theorem utf8Size_of_isDigit {c : Char} (h : c.isDigit = true) : c.utf8Size = 1 := by
  have hcode := toNat_of_isDigit h
  rw [Char.utf8Size, if_pos]
  show c.toNat ≤ 127
  omega

theorem append_of_takeBytes? : ∀ {n : Nat} {cs front : List Char},
    takeBytes? n cs = some front → ∃ back, cs = front ++ back
  | 0, cs, front, h => by
      simp only [takeBytes?, Option.some.injEq] at h
      subst h
      exact ⟨cs, rfl⟩
  | n + 1, [], front, h => by cases h
  | n + 1, c :: rest, front, h => by
      simp only [takeBytes?] at h
      split at h
      · obtain ⟨tail, htail, rfl⟩ := Option.map_eq_some_iff.mp h
        obtain ⟨back, rfl⟩ := append_of_takeBytes? htail
        exact ⟨back, rfl⟩
      · cases h

/-- Characters of one byte each are as many bytes. -/
theorem takeBytes?_length {front : List Char} (h : ∀ c ∈ front, c.utf8Size = 1)
    (back : List Char) : takeBytes? front.length (front ++ back) = some front := by
  induction front with
  | nil => simp [takeBytes?]
  | cons c rest ih =>
      obtain ⟨hc, hrest⟩ := List.forall_mem_cons.mp h
      rw [List.length_cons, List.cons_append, takeBytes?, hc, if_pos (Nat.le_add_left 1 _),
        Nat.add_sub_cancel, ih hrest]
      rfl

/-! ## Text that goes on -/

theorem skipBlanks_append {cs : List Char} (h : skipBlanks cs ≠ []) (back : List Char) :
    skipBlanks (cs ++ back) = skipBlanks cs ++ back := by
  rw [skipBlanks, List.dropWhile_append, if_neg]
  · rfl
  · rwa [List.isEmpty_iff]

theorem noDigit_append {cs : List Char} (h : NoDigit cs) (hne : cs ≠ []) (back : List Char) :
    NoDigit (cs ++ back) := by
  obtain ⟨c, tail, rfl⟩ := List.exists_cons_of_ne_nil hne
  exact h

namespace Scan

variable {width low high n : Nat} {cs rest : List Char}

/-- What follows the rest of a number does not change the number. -/
theorem number_append (h : number width low high cs = .ok (n, rest)) (hrest : rest ≠ [])
    (back : List Char) : number width low high (cs ++ back) = .ok (n, rest ++ back) := by
  obtain ⟨ds, hds, hcs, hlength, hend, rfl, hrange⟩ := exists_digits_of_number h
  have hne : skipBlanks cs ≠ [] := by simp [hcs, hrest]
  rw [← number_skipBlanks, skipBlanks_append hne, hcs, List.append_assoc,
    number_digits hds hlength (hend.imp_right fun hend => noDigit_append hend hrest back),
    if_pos hrange]

theorem year_append {y : Int} (h : year cs = .ok (y, rest)) (hrest : rest ≠ [])
    (back : List Char) : year (cs ++ back) = .ok (y, rest ++ back) := by
  have hskip : ∀ cs, year (skipBlanks cs) = year cs := by
    intro cs
    simp only [year, skipBlanks_idem]
  rcases year_cases h with ⟨negative, digits, hcs, hyear⟩ | ⟨n, hn, rfl⟩
  · obtain ⟨ds, hds, rfl, hend, rfl, hrange⟩ := exists_digits_of_signedYear hyear
    rw [← hskip, skipBlanks_append (by simp [hcs]), hcs, List.cons_append, year_sign,
      List.append_assoc, signedYear_digits hds (noDigit_append hend hrest back), if_pos hrange]
  · obtain ⟨ds, hds, hcs, -⟩ := exists_digits_of_number hn
    rw [skipBlanks_idem] at hcs
    have happend := number_append hn hrest back
    rw [hcs, List.append_assoc] at happend
    rw [← hskip, skipBlanks_append (by simp [hcs, hrest]), hcs, List.append_assoc,
      year_digits hds, happend]
    rfl

end Scan

/-! ## A day that is cut off -/

/-- The text ends with the first digit of a number, and what follows begins with the second. -/
def CutsDay (front back : List Char) : Prop :=
  (∃ before c a, front = before ++ [c, a] ∧ c.isDigit = false ∧ a.isDigit = true) ∧ ¬NoDigit back

theorem not_cutsDay_of_two {before back : List Char} {a b : Char} (ha : a.isDigit = true) :
    ¬CutsDay (before ++ [a, b]) back := by
  rintro ⟨⟨before', c, a', hfront, hc, -⟩, -⟩
  obtain ⟨-, hlast⟩ := List.append_inj' hfront rfl
  obtain ⟨rfl, -⟩ := List.cons.inj hlast
  cases hc.symm.trans ha

/-- A hyphen, blanks and one digit are the text of a day that goes on with another digit. -/
theorem cutsDay_of_blank {blank back : List Char} (hblank : ∀ c ∈ blank, isBlank c = true)
    {a : Char} (ha : a.isDigit = true) (hback : ¬NoDigit back) (before : List Char) :
    CutsDay (before ++ '-' :: (blank ++ [a])) back := by
  have hmark : ∀ c ∈ '-' :: blank, c.isDigit = false := by
    intro c hc
    cases hdigit : c.isDigit with
    | false => rfl
    | true =>
        rcases List.mem_cons.mp hc with rfl | hc
        · cases hdigit
        · cases (isBlank_of_isDigit hdigit).symm.trans (hblank c hc)
  obtain ⟨init, c, hlast⟩ : ∃ init c, '-' :: blank = init ++ [c] :=
    ⟨_, _, (List.dropLast_concat_getLast (List.cons_ne_nil '-' blank)).symm⟩
  refine ⟨⟨before ++ init, c, a, ?_, hmark c (by simp [hlast]), ha⟩, hback⟩
  rw [← List.cons_append, hlast]
  simp

/-- Writing out a last `Z` changes the front of no text but `Z`. -/
theorem head?_spellOutZ (cs : List Char) : (spellOutZ cs).head? = cs.head? ∨ cs = ['Z'] := by
  unfold spellOutZ
  split
  · next hlast =>
      match cs, hlast with
      | [c], hlast => exact Or.inr (congrArg ([·]) (Option.some.inj hlast))
      | c :: d :: rest, _ => exact Or.inl rfl
  · exact Or.inl rfl

/-- Writing out a `Z` neither brings a digit to the front of a text nor takes one away. -/
theorem noDigit_spellOutZ (cs : List Char) : NoDigit (spellOutZ cs) ↔ NoDigit cs := by
  rcases head?_spellOutZ cs with hhead | rfl
  · rw [NoDigit, hhead]
    rfl
  · exact iff_of_true (noDigit_cons rfl) (noDigit_cons rfl)

namespace Scan

theorem suffix_of_number {width low high n : Nat} {cs rest : List Char}
    (h : number width low high cs = .ok (n, rest)) : rest <:+ cs := by
  obtain ⟨ds, -, hcs, -⟩ := exists_digits_of_number h
  have hskip : ds ++ rest <:+ cs := hcs ▸ List.dropWhile_suffix isBlank
  exact (List.suffix_append ds rest).trans hskip

theorem suffix_of_year {cs rest : List Char} {y : Int} (h : year cs = .ok (y, rest)) :
    rest <:+ cs := by
  obtain ⟨sign, ds, -, hcs, -⟩ := exists_digits_of_year h
  have hskip : skipBlanks cs <:+ cs := List.dropWhile_suffix isBlank
  exact (List.suffix_append _ rest).trans (hcs ▸ hskip)

/-- A day of one digit becomes the tens of a day of two. -/
theorem tens_of_number {a b : Char} {tail rest : List Char} {d : Nat} (ha : a.isDigit = true)
    (hb : b.isDigit = true) (h : number 2 1 31 (a :: b :: tail) = .ok (d, rest)) :
    d / 10 = digitsValue [a] := by
  have hboth : digitsOK [a, b] = true := by simp [digitsOK, ha, hb]
  have hvalue : d = digitsValue [a, b] :=
    value_of_number_digits hboth (Nat.le_refl 2) (Or.inl rfl) h
  rw [hvalue]
  exact (digitsValue_take (isDigit_of_digitsOK hboth) 1).symm

/-- Where the text of a day goes on, the day is another one only if it gets a second digit. -/
theorem day_append {front cs back rest : List Char} {d d' : Nat} (hfront : '-' :: cs <:+ front)
    (h : number 2 1 31 cs = .ok (d, [])) (h' : number 2 1 31 (cs ++ back) = .ok (d', rest)) :
    (CutsDay front back → d < d' ∧ d' / 10 = d) ∧ (¬CutsDay front back → d' = d) := by
  obtain ⟨ds, hds, hcs, hlength, -, rfl, hlow, -⟩ := exists_digits_of_number h
  have hne := ne_nil_of_digitsOK hds
  rw [List.append_nil] at hcs
  rw [← number_skipBlanks, skipBlanks_append (hcs ▸ hne), hcs] at h'
  obtain ⟨before, rfl⟩ := hfront
  obtain ⟨blank, hblank, rfl⟩ : ∃ blank, (∀ c ∈ blank, isBlank c = true) ∧ cs = blank ++ ds :=
    hcs ▸ exists_blank_append cs
  by_cases hend : ds.length = 2 ∨ NoDigit back
  · have hnot : ¬CutsDay (before ++ '-' :: (blank ++ ds)) back := by
      rcases hend with htwo | hback
      · obtain ⟨a, tail, rfl⟩ := List.exists_cons_of_ne_nil hne
        obtain ⟨b, rfl⟩ := List.length_eq_one_iff.mp (Nat.succ.inj htwo)
        rw [← List.cons_append, ← List.append_assoc]
        exact not_cutsDay_of_two (isDigit_of_digitsOK hds a List.mem_cons_self)
      · exact fun hcuts => hcuts.2 hback
    exact ⟨fun hcuts => absurd hcuts hnot, fun _ => value_of_number_digits hds hlength hend h'⟩
  · obtain ⟨htwo, hdigit⟩ := not_or.mp hend
    obtain ⟨a, rfl⟩ : ∃ a, ds = [a] := by
      refine List.length_eq_one_iff.mp ?_
      have := List.length_pos_iff.mpr hne
      omega
    obtain ⟨b, back, rfl, hb⟩ : ∃ b tail, back = b :: tail ∧ b.isDigit = true := by
      cases back with
      | nil => exact absurd noDigit_nil hdigit
      | cons b tail => exact ⟨b, tail, rfl, by simpa using mt noDigit_cons hdigit⟩
    have ha := isDigit_of_digitsOK hds a List.mem_cons_self
    have htens := tens_of_number ha hb h'
    have hcuts : CutsDay (before ++ '-' :: (blank ++ [a])) (b :: back) :=
      cutsDay_of_blank hblank ha hdigit before
    exact ⟨fun _ => by omega, fun hnot => absurd hcuts hnot⟩

/-- Where text that is a date goes on, the date is another one only if its day gets a second
digit. -/
theorem yearMonthDay_append {front back rest : List Char} {p q : Int × Nat × Nat}
    (hfront : yearMonthDay front = .ok (p, []))
    (h : yearMonthDay (front ++ back) = .ok (q, rest)) :
    q.1 = p.1 ∧ q.2.1 = p.2.1
      ∧ (CutsDay front back → p.2.2 < q.2.2 ∧ q.2.2 / 10 = p.2.2)
      ∧ (¬CutsDay front back → q.2.2 = p.2.2) := by
  obtain ⟨afterYear, afterMonth, hyear, hmonth, hday⟩ := yearMonthDay_eq_ok.mp hfront
  obtain ⟨afterYear', afterMonth', hyear', hmonth', hday'⟩ := yearMonthDay_eq_ok.mp h
  obtain ⟨hy, hafter⟩ := Prod.mk.inj (Except.ok.inj
    (hyear'.symm.trans (year_append hyear (List.cons_ne_nil _ _) back)))
  obtain rfl := (List.cons.inj hafter).2
  obtain ⟨hm, hafter⟩ := Prod.mk.inj (Except.ok.inj
    (hmonth'.symm.trans (number_append hmonth (List.cons_ne_nil _ _) back)))
  obtain rfl := (List.cons.inj hafter).2
  have hsuffix : '-' :: afterMonth <:+ front :=
    (suffix_of_number hmonth).trans ((List.suffix_cons _ _).trans (suffix_of_year hyear))
  exact ⟨hy, hm, day_append hsuffix hday hday'⟩

/-- A text that is a date ends with a digit. -/
theorem endsWithDigit_of_yearMonthDay {cs : List Char} {p : Int × Nat × Nat}
    (h : yearMonthDay cs = .ok (p, [])) : EndsWithDigit cs := by
  obtain ⟨afterYear, afterMonth, hyear, hmonth, hday⟩ := yearMonthDay_eq_ok.mp h
  obtain ⟨ds, hds, hafter, -⟩ := exists_digits_of_number hday
  rw [List.append_nil] at hafter
  have hsuffix : ds <:+ cs :=
    (hafter ▸ List.dropWhile_suffix isBlank : ds <:+ afterMonth).trans
      ((List.suffix_cons _ _).trans ((suffix_of_number hmonth).trans
        ((List.suffix_cons _ _).trans (suffix_of_year hyear))))
  obtain ⟨before, rfl⟩ := hsuffix
  exact (endsWithDigit_of_digitsOK hds).append_left before

end Scan

theorem spellOutZ_append_of_getLast? {front : List Char} (h : front.getLast? ≠ some 'Z')
    (back : List Char) : spellOutZ (front ++ back) = front ++ spellOutZ back := by
  cases back with
  | nil =>
      rw [List.append_nil, spellOutZ, if_neg h]
      exact (List.append_nil front).symm
  | cons c rest =>
      have hlast : (front ++ c :: rest).getLast? = (c :: rest).getLast? := by
        rw [List.getLast?_append, List.getLast?_eq_some_getLast (List.cons_ne_nil c rest)]
        rfl
      unfold spellOutZ
      rw [hlast]
      split
      · rw [List.dropLast_append_of_ne_nil (List.cons_ne_nil c rest), List.append_assoc]
      · rfl

namespace Date

theorem ext_of_parts {d e : Date} (hyear : d.year = e.year) (hmonth : d.month = e.month)
    (hday : d.day = e.day) : d = e := by
  cases d
  cases e
  rw [Date.mk.injEq]
  exact ⟨hyear, hmonth, hday⟩

/-- A date that is read is all of the first ten bytes, and is supported. -/
theorem exists_window_of_read {text : String} {d : Date} (h : read text = .ok d) :
    ∃ front back, trimmed text = .ok (front ++ back) ∧ takeBytes? 10 (front ++ back) = some front
      ∧ Scan.yearMonthDay front = .ok ((d.year, d.month, d.day), []) ∧ d.supported = true := by
  obtain ⟨cs, htrimmed, hchars⟩ := read_eq_ok.mp h
  unfold ofChars at hchars
  split at hchars
  · next front hfront =>
      obtain ⟨back, rfl⟩ := append_of_takeBytes? hfront
      obtain ⟨p, hp, hdate⟩ := bind_eq_ok.mp hchars
      obtain ⟨rfl, hsupported⟩ := ofParts_eq_ok.mp hdate
      exact ⟨front, back, htrimmed, hfront, Scan.whole_eq_ok.mp hp, hsupported⟩
  · cases hchars

/-- Where a text is read both as a date and as a timestamp, the date is the one that the
timestamp's own clock shows, unless the first ten bytes leave out the second digit of its day.
Then the day is the first digit alone, in the same month. -/
theorem read_eq_localDate_iff (text : String) (d : Date) (t : Timestamp) (hd : read text = .ok d)
    (ht : Timestamp.read text = .ok t) :
    ∃ front back, trimmed text = .ok (front ++ back) ∧ takeBytes? 10 (front ++ back) = some front
      ∧ (d = t.localDate ↔ ¬CutsDay front back)
      ∧ (CutsDay front back → d.year = t.localDate.year ∧ d.month = t.localDate.month
          ∧ d.day = t.localDate.day / 10) := by
  obtain ⟨front, back, htrimmed, hfront, hdate, -⟩ := exists_window_of_read hd
  obtain ⟨l, -, cs, p, htrimmed', hp, hlocal, -, -⟩ := Timestamp.exists_layout_of_read ht
  obtain rfl := Except.ok.inj (htrimmed'.symm.trans htrimmed)
  have hnotZ : front.getLast? ≠ some 'Z' :=
    (Scan.endsWithDigit_of_yearMonthDay hdate).getLast?_ne rfl
  rw [spellOutZ_append_of_getLast? hnotZ] at hp
  obtain ⟨rest, -, -, hparts, -⟩ := Layout.parts_eq_ok.mp (Scan.whole_eq_ok.mp hp)
  obtain ⟨hyear, hmonth, hcut, hsame⟩ := Scan.yearMonthDay_append hdate hparts
  have hcuts : CutsDay front (spellOutZ back) ↔ CutsDay front back :=
    and_congr_right fun _ => not_congr (noDigit_spellOutZ back)
  rw [hcuts] at hcut hsame
  rw [← (ofParts_eq_ok.mp hlocal).1] at hyear hmonth hcut hsame
  refine ⟨front, back, htrimmed, hfront, ⟨?_, ?_⟩, ?_⟩
  · rintro rfl h
    exact Nat.lt_irrefl _ (hcut h).1
  · intro h
    exact ext_of_parts hyear.symm hmonth.symm (hsame h).symm
  · intro h
    exact ⟨hyear.symm, hmonth.symm, (hcut h).2.symm⟩

/-- A timestamp in the evening of its own clock, when it is the next day in UTC. -/
theorem read_eq_localDate_evening :
    ∃ d t, read "2015-12-25T23:33-0800" = .ok d ∧ Timestamp.read "2015-12-25T23:33-0800" = .ok t
      ∧ d = t.localDate ∧ d.day = 25 ∧ t.utc.date.day = 26 := by
  obtain ⟨d, hd, hday⟩ : ∃ d, read "2015-12-25T23:33-0800" = .ok d ∧ d.day = 25 := ⟨_, rfl, rfl⟩
  obtain ⟨t, ht, hutc⟩ : ∃ t, Timestamp.read "2015-12-25T23:33-0800" = .ok t
      ∧ t.utc.date.day = 26 := ⟨_, rfl, rfl⟩
  obtain ⟨front, back, htrimmed, hfront, hiff, -⟩ := read_eq_localDate_iff _ d t hd ht
  have hwindow : takeBytes? 10 (trimBlanks "2015-12-25T23:33-0800".toList)
      = some (['2', '0', '1', '5', '-', '1', '2', '-'] ++ ['2', '5']) := rfl
  obtain rfl : ['2', '0', '1', '5', '-', '1', '2', '-'] ++ ['2', '5'] = front :=
    Option.some.inj (hwindow.symm.trans ((Except.ok.inj htrimmed).symm ▸ hfront))
  exact ⟨d, t, hd, ht, hiff.mpr (not_cutsDay_of_two rfl), hday, hutc⟩

/-- The sign of the year pushes the second digit of the day out of the first ten bytes. -/
theorem read_ne_localDate :
    ∃ d t, read "+2015-01-15T12:00" = .ok d ∧ Timestamp.read "+2015-01-15T12:00" = .ok t
      ∧ d.day = 1 ∧ t.localDate.day = 15 ∧ d ≠ t.localDate := by
  obtain ⟨d, hd, hday⟩ : ∃ d, read "+2015-01-15T12:00" = .ok d ∧ d.day = 1 := ⟨_, rfl, rfl⟩
  obtain ⟨t, ht, hlocal⟩ : ∃ t, Timestamp.read "+2015-01-15T12:00" = .ok t
      ∧ t.localDate.day = 15 := ⟨_, rfl, rfl⟩
  refine ⟨d, t, hd, ht, hday, hlocal, ?_⟩
  rintro rfl
  omega

/-! ### Canonical dates -/

/-- A date is read from its text as from its characters. -/
theorem read_text_eq (d : Date) :
    read d.text = (ofChars d.chars).mapError (CalendarError.ofFault d.text) := by
  rw [read, d.trimmed_text]
  rfl

/-- Ten characters of one byte each are the first ten bytes, and the date is read from them. -/
theorem ofChars_append {front : List Char} (hbytes : ∀ c ∈ front, c.utf8Size = 1)
    (hlength : front.length = 10) (back : List Char) :
    ofChars (front ++ back) = (Scan.yearMonthDay.whole front).bind ofParts := by
  have htake := takeBytes?_length hbytes back
  rw [hlength] at htake
  rw [ofChars, htake]

/-- The first ten bytes of a canonical date are its first ten characters. -/
theorem ofChars_chars {d : Date} {front back : List Char} (hchars : d.chars = front ++ back)
    (hlength : front.length = 10) :
    ofChars d.chars = (Scan.yearMonthDay.whole front).bind ofParts := by
  rw [hchars]
  refine ofChars_append (fun c hc => ?_) hlength back
  rcases mem_chars (d := d) (hchars ▸ List.mem_append_left back hc) with hdigit | rfl | rfl
  · exact utf8Size_of_isDigit hdigit
  · rfl
  · rfl

/-- A date of a year from 0 to 9999 is read back. -/
theorem read_text {d : Date} (hlow : 0 ≤ d.year) (hhigh : d.year ≤ 9999) : read d.text = .ok d := by
  have hsupported : d.supported = true := by
    simp only [supported, decide_eq_true_eq]
    omega
  have hlength := length_text_of_year hlow hhigh
  rw [text, String.length_ofList] at hlength
  have hparts := yearMonthDay_chars hsupported []
  rw [List.append_nil] at hparts
  rw [read_text_eq, ofChars_chars (List.append_nil _).symm hlength, Scan.whole_eq_ok.mpr hparts]
  exact mapError_eq_ok.mpr (ofParts_self hsupported)

/-- The first of the two digits of a number below a hundred are its tens. -/
theorem exists_tens {n : Nat} (hn : n < 100) :
    ∃ a b, padded 2 n = [a, b] ∧ digitsOK [a] = true ∧ digitsValue [a] = n / 10 := by
  have hlength : (padded 2 n).length = 2 := length_padded (by decide) hn
  obtain ⟨a, tail, hab⟩ := List.exists_cons_of_length_eq_add_one hlength
  rw [hab] at hlength
  obtain ⟨b, rfl⟩ := List.length_eq_one_iff.mp (Nat.succ.inj hlength)
  have hdigit : ∀ c ∈ [a, b], c.isDigit = true := fun c hc => isDigit_of_mem_padded (hab ▸ hc)
  have htens := digitsValue_take hdigit 1
  rw [← hab, digitsValue_padded, hab] at htens
  exact ⟨a, b, hab, by simp [digitsOK, hdigit a List.mem_cons_self], htens⟩

/-- The text of a year from -1 to -9999 is one character longer than ten, so the date is read
without the second digit of its day. -/
theorem read_text_of_negative {d : Date} (hlow : -9999 ≤ d.year) (hneg : d.year < 0) :
    (∀ e : Date, e.year = d.year → e.month = d.month → e.day = d.day / 10 → read d.text = .ok e)
      ∧ (d.day < 10 → read d.text = .error (.outOfRange d.text)) := by
  have hsupported : d.supported = true := by
    simp only [supported, decide_eq_true_eq]
    omega
  have hday := d.day_le_31
  obtain ⟨a, b, hab, ha, htens⟩ := exists_tens (show d.day < 100 by omega)
  have hchars : d.chars
      = (yearChars d.year ++ '-' :: padded 2 d.month ++ '-' :: [a]) ++ [b] := by
    simp [chars, hab]
  have hlength : (yearChars d.year ++ '-' :: padded 2 d.month ++ '-' :: [a]).length = 10 := by
    rw [length_yearMonth, length_yearChars_of_sign (Or.inl hneg),
      length_padded (by decide) (by omega)]
    rfl
  have hnumber : Scan.number 2 1 31 [a]
      = if 1 ≤ d.day / 10 ∧ d.day / 10 ≤ 31 then .ok (d.day / 10, []) else .error .outOfRange :=
    htens ▸ Scan.number_digits ha (by simp) (Or.inr noDigit_nil)
  have hscan := yearMonthDay_yearMonth hsupported [a]
  rw [read_text_eq, ofChars_chars hchars hlength]
  constructor
  · intro e hyear hmonth htenth
    rw [hnumber, ← htenth, if_pos ⟨e.day_pos, e.day_le_31⟩] at hscan
    rw [Scan.whole_eq_ok.mpr hscan]
    refine mapError_eq_ok.mpr (ofParts_eq_ok.mpr ⟨?_, ?_⟩)
    · rw [hyear, hmonth]
    · rwa [supported, hyear]
  · intro hone
    rw [hnumber, if_neg (by omega)] at hscan
    rw [Scan.whole, hscan]
    rfl

/-- The text of a year of five digits and a sign has its ten bytes used up before the day. -/
theorem read_text_of_five_digits {d : Date} (hsupported : d.supported = true)
    (hyear : d.year.natAbs < 10 ^ 5) (hlong : d.year < -9999 ∨ 9999 < d.year) :
    read d.text = .error (.invalidFormat d.text) := by
  have hchars : d.chars
      = (yearChars d.year ++ '-' :: padded 2 d.month ++ '-' :: []) ++ padded 2 d.day := by
    simp [chars]
  have hdigits : (padded 4 d.year.natAbs).length = 5 := by
    have hle := length_padded_le (show 0 < 5 by decide) (show 4 ≤ 5 by decide) hyear
    have hlt := mt (length_digitsOf_le_iff (show 0 < 4 by decide)).mp
      (show ¬d.year.natAbs < 10 ^ 4 by omega)
    simp only [padded, List.length_append, List.length_replicate] at hle ⊢
    omega
  have hlength : (yearChars d.year ++ '-' :: padded 2 d.month ++ '-' :: []).length = 10 := by
    rw [length_yearMonth, length_yearChars_of_sign (by omega), hdigits]
    rfl
  have hscan := yearMonthDay_yearMonth hsupported []
  rw [read_text_eq, ofChars_chars hchars hlength, Scan.whole, hscan]
  rfl

end Date

end Intake
