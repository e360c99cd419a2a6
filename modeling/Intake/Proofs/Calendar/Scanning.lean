import Intake.Calendar.Reading
import Intake.Proofs.Digits

/-!
# What the scanners take

Each scanner of dates and times takes from the front of a text what the writer
of that part puts there, and leaves the rest as it is. A run of digits ends at
its full width or where no digit follows (`NoDigit`), so the statements are
about a part and an arbitrary rest, and they chain through `bind_ok`. The other way
round, a number or a year that has been read was written in digits, after any blanks
(`exists_digits_of_number`, `exists_digits_of_year`).

Out of several attempts the first that succeeds counts (`first_ok`), and if none
of them fits the text, nothing does (`first_mismatch`). If only one of them fits it,
that one counts, whether it succeeds or not (`first_eq_of_mem`).
-/

namespace Intake

/-! ## Steps that may fail -/

theorem bind_eq_ok {ε α β : Type} {x : Except ε α} {f : α → Except ε β} {b : β} :
    x.bind f = .ok b ↔ ∃ a, x = .ok a ∧ f a = .ok b := by
  cases x with
  | ok a =>
      constructor
      · intro h
        exact ⟨a, rfl, h⟩
      · rintro ⟨a', ha, h⟩
        obtain rfl := Except.ok.inj ha
        exact h
  | error e =>
      constructor
      · intro h
        cases h
      · rintro ⟨a', ha, -⟩
        cases ha

theorem mapError_eq_ok {ε ε' α : Type} {x : Except ε α} {f : ε → ε'} {a : α} :
    x.mapError f = .ok a ↔ x = .ok a := by
  cases x with
  | ok b =>
      constructor
      · intro h
        rw [Except.ok.inj h]
      · intro h
        rw [Except.ok.inj h]
        rfl
  | error e =>
      constructor
      · intro h
        cases h
      · intro h
        cases h

theorem bind_ne_error {ε α β : Type} {x : Except ε α} {f : α → Except ε β} {e : ε}
    (hx : x ≠ .error e) (hf : ∀ a, f a ≠ .error e) : x.bind f ≠ .error e := by
  cases x with
  | ok a => exact hf a
  | error e' =>
      intro h
      exact hx (congrArg Except.error (Except.error.inj h))

/-! ## Runs of digits -/

/-- The text does not go on with a digit. -/
def NoDigit (cs : List Char) : Prop := ∀ c ∈ cs.head?, c.isDigit = false

theorem noDigit_nil : NoDigit [] := fun _ h => by cases h

theorem noDigit_cons {c : Char} {cs : List Char} (h : c.isDigit = false) : NoDigit (c :: cs) :=
  fun x hx => by
    obtain rfl := Option.some.inj hx
    exact h

/-- A text is split where a class of characters ends. -/
theorem takeWhile_dropWhile_append {p : Char → Bool} {front rest : List Char}
    (hfront : ∀ c ∈ front, p c = true) (hrest : ∀ c ∈ rest.head?, p c = false) :
    (front ++ rest).takeWhile p = front ∧ (front ++ rest).dropWhile p = rest := by
  have htail : rest.takeWhile p = [] ∧ rest.dropWhile p = rest := by
    cases rest with
    | nil => exact ⟨rfl, rfl⟩
    | cons c rest =>
        have hc := hrest c rfl
        exact ⟨List.takeWhile_cons_of_neg (by simp [hc]), List.dropWhile_cons_of_neg (by simp [hc])⟩
  rw [List.takeWhile_append_of_pos hfront, List.dropWhile_append_of_pos hfront, htail.1, htail.2,
    List.append_nil]
  exact ⟨rfl, rfl⟩

theorem isDigit_of_digitsOK {ds : List Char} (h : digitsOK ds = true) :
    ∀ c ∈ ds, c.isDigit = true := by
  simp only [digitsOK, Bool.and_eq_true] at h
  exact List.all_eq_true.mp h.2

theorem takeWhile_isDigit_append {ds rest : List Char} (hds : digitsOK ds = true)
    (hrest : NoDigit rest) : (ds ++ rest).takeWhile Char.isDigit = ds :=
  (takeWhile_dropWhile_append (isDigit_of_digitsOK hds) hrest).1

theorem dropWhile_isDigit_append {ds rest : List Char} (hds : digitsOK ds = true)
    (hrest : NoDigit rest) : (ds ++ rest).dropWhile Char.isDigit = rest :=
  (takeWhile_dropWhile_append (isDigit_of_digitsOK hds) hrest).2

theorem ne_nil_of_digitsOK {ds : List Char} (h : digitsOK ds = true) : ds ≠ [] := by
  rintro rfl
  cases h

theorem digitsOK_append {ds rest : List Char} (hds : digitsOK ds = true)
    (hrest : ∀ c ∈ rest, c.isDigit = true) : digitsOK (ds ++ rest) = true := by
  have hne : ds ++ rest ≠ [] := fun h => ne_nil_of_digitsOK hds (List.append_eq_nil_iff.mp h).1
  rw [digitsOK, Bool.and_eq_true, Bool.not_eq_true', List.isEmpty_eq_false_iff, List.all_eq_true]
  refine ⟨hne, fun c hc => ?_⟩
  exact (List.mem_append.mp hc).elim (isDigit_of_digitsOK hds c) (hrest c)

theorem digitsOK_take {ds : List Char} (hds : digitsOK ds = true) {n : Nat} (hn : 0 < n) :
    digitsOK (ds.take n) = true := by
  have hne : ds.take n ≠ [] := fun h =>
    (List.take_eq_nil_iff.mp h).elim (Nat.ne_of_gt hn) (ne_nil_of_digitsOK hds)
  rw [digitsOK, Bool.and_eq_true, Bool.not_eq_true', List.isEmpty_eq_false_iff, List.all_eq_true]
  exact ⟨hne, fun c hc => isDigit_of_digitsOK hds c (List.mem_of_mem_take hc)⟩

theorem not_noDigit_append {ds : List Char} (hds : digitsOK ds = true) (rest : List Char) :
    ¬NoDigit (ds ++ rest) := by
  obtain ⟨c, ds, rfl⟩ := List.exists_cons_of_ne_nil (ne_nil_of_digitsOK hds)
  intro h
  cases (h c rfl).symm.trans (isDigit_of_digitsOK hds c List.mem_cons_self)

def EndsWithDigit (cs : List Char) : Prop := ∃ c, cs.getLast? = some c ∧ c.isDigit = true

theorem EndsWithDigit.append_left {cs : List Char} (h : EndsWithDigit cs) (before : List Char) :
    EndsWithDigit (before ++ cs) := by
  obtain ⟨c, hlast, hc⟩ := h
  refine ⟨c, ?_, hc⟩
  rw [List.getLast?_append, hlast]
  rfl

theorem endsWithDigit_of_digitsOK {ds : List Char} (h : digitsOK ds = true) : EndsWithDigit ds := by
  have hne := ne_nil_of_digitsOK h
  exact ⟨ds.getLast hne, List.getLast?_eq_some_getLast hne,
    isDigit_of_digitsOK h _ (List.getLast_mem hne)⟩

theorem EndsWithDigit.getLast?_ne {cs : List Char} {c : Char} (h : EndsWithDigit cs)
    (hc : c.isDigit = false) : cs.getLast? ≠ some c := by
  obtain ⟨d, hlast, hd⟩ := h
  rw [hlast]
  intro heq
  obtain rfl := Option.some.inj heq
  cases hd.symm.trans hc

/-- Digits are their number in as many digits. -/
theorem padded_digitsValue {ds : List Char} (hds : digitsOK ds = true) :
    padded ds.length (digitsValue ds) = ds := by
  have hdigits := isDigit_of_digitsOK hds
  have hlength : (padded ds.length (digitsValue ds)).length = ds.length :=
    length_padded (List.length_pos_iff.mpr (ne_nil_of_digitsOK hds)) (digitsValue_lt hdigits)
  exact digitsValue_inj hlength (fun c hc => isDigit_of_mem_padded hc) hdigits
    (digitsValue_padded _ _)

theorem skipBlanks_idem (cs : List Char) : skipBlanks (skipBlanks cs) = skipBlanks cs :=
  skipBlanks_eq_self fun _ h => isBlank_head_skipBlanks h

/-- A text that begins with a digit does not begin with a blank. -/
theorem skipBlanks_digits {ds : List Char} (hds : digitsOK ds = true) (rest : List Char) :
    skipBlanks (ds ++ rest) = ds ++ rest := by
  obtain ⟨c, ds, rfl⟩ := List.exists_cons_of_ne_nil (ne_nil_of_digitsOK hds)
  refine skipBlanks_eq_self fun x hx => ?_
  obtain rfl : c = x := Option.some.inj hx
  exact isBlank_of_isDigit (isDigit_of_digitsOK hds c List.mem_cons_self)

namespace Scan

variable {α β : Type}

/-! ## One scanner after another -/

theorem bind_ok {s : Scan α} {f : α → Scan β} {cs rest : List Char} {a : α}
    (h : s cs = .ok (a, rest)) : (s >>= f) cs = f a rest := by
  show Except.bind (s cs) (fun p => f p.1 p.2) = f a rest
  rw [h]
  rfl

theorem bind_error {s : Scan α} {f : α → Scan β} {cs : List Char} {e : Fault}
    (h : s cs = .error e) : (s >>= f) cs = .error e := by
  show Except.bind (s cs) (fun p => f p.1 p.2) = .error e
  rw [h]
  rfl

theorem whole_eq_ok {s : Scan α} {cs : List Char} {a : α} :
    s.whole cs = .ok a ↔ s cs = .ok (a, []) := by
  unfold whole
  constructor
  · intro h
    split at h
    · next heq =>
        obtain rfl := Except.ok.inj h
        exact heq
    · cases h
    · cases h
  · intro h
    rw [h]

theorem literal_cons (c : Char) (rest : List Char) :
    literal c (c :: rest) = .ok ((), rest) := by
  simp [literal]

theorem literal_cons_of_ne {c x : Char} (h : x ≠ c) (rest : List Char) :
    literal c (x :: rest) = .error .mismatch := by
  simp [literal, h]

theorem literal_eq_ok {c : Char} {cs rest : List Char} :
    literal c cs = .ok ((), rest) ↔ cs = c :: rest := by
  constructor
  · intro h
    cases cs with
    | nil => cases h
    | cons x tail =>
        simp only [literal] at h
        split at h
        · next hx =>
            obtain rfl : tail = rest := congrArg Prod.snd (Except.ok.inj h)
            rw [hx]
        · cases h
  · rintro rfl
    exact literal_cons c rest

theorem exists_of_bind {s : Scan α} {f : α → Scan β} {cs : List Char} {r : β × List Char}
    (h : (s >>= f) cs = .ok r) : ∃ a rest, s cs = .ok (a, rest) ∧ f a rest = .ok r := by
  cases hs : s cs with
  | ok p =>
      rw [bind_ok hs] at h
      exact ⟨p.1, p.2, rfl, h⟩
  | error e =>
      rw [bind_error hs] at h
      cases h

/-- Year, month and day are separated by hyphens. -/
theorem yearMonthDay_eq_ok {cs rest : List Char} {p : Int × Nat × Nat} :
    yearMonthDay cs = .ok (p, rest) ↔ ∃ afterYear afterMonth,
      year cs = .ok (p.1, '-' :: afterYear)
        ∧ number 2 1 12 afterYear = .ok (p.2.1, '-' :: afterMonth)
        ∧ number 2 1 31 afterMonth = .ok (p.2.2, rest) := by
  constructor
  · intro h
    obtain ⟨y, hyphenYear, hyear, h⟩ := exists_of_bind h
    obtain ⟨⟨⟩, afterYear, hhyphen, h⟩ := exists_of_bind h
    obtain ⟨m, hyphenMonth, hmonth, h⟩ := exists_of_bind h
    obtain ⟨⟨⟩, afterMonth, hhyphen', h⟩ := exists_of_bind h
    obtain ⟨d, _, hday, h⟩ := exists_of_bind h
    obtain ⟨rfl, rfl⟩ := Prod.mk.inj (Except.ok.inj h)
    rw [literal_eq_ok.mp hhyphen] at hyear
    rw [literal_eq_ok.mp hhyphen'] at hmonth
    exact ⟨afterYear, afterMonth, hyear, hmonth, hday⟩
  · rintro ⟨afterYear, afterMonth, hyear, hmonth, hday⟩
    rw [yearMonthDay, bind_ok hyear, bind_ok (literal_cons '-' _), bind_ok hmonth,
      bind_ok (literal_cons '-' _), bind_ok hday]
    rfl

end Scan

/-- The parts of a timestamp follow one another. -/
theorem Layout.parts_eq_ok {l : Layout} {cs rest : List Char}
    {p : (Int × Nat × Nat) × (Nat × Nat × Nat × Nat) × Int} :
    l.parts cs = .ok (p, rest) ↔ ∃ afterDate clock afterClock,
      Scan.yearMonthDay cs = .ok (p.1, afterDate) ∧ l.separator afterDate = .ok ((), clock)
        ∧ Scan.timeOfDay l.hasSeconds clock = .ok (p.2.1, afterClock)
        ∧ l.offset afterClock = .ok (p.2.2, rest) := by
  constructor
  · intro h
    obtain ⟨date, afterDate, hdate, h⟩ := Scan.exists_of_bind h
    obtain ⟨⟨⟩, clock, hseparator, h⟩ := Scan.exists_of_bind h
    obtain ⟨time, afterClock, htime, h⟩ := Scan.exists_of_bind h
    obtain ⟨offset, _, hoffset, h⟩ := Scan.exists_of_bind h
    obtain ⟨rfl, rfl⟩ := Prod.mk.inj (Except.ok.inj h)
    exact ⟨afterDate, clock, afterClock, hdate, hseparator, htime, hoffset⟩
  · rintro ⟨afterDate, clock, afterClock, hdate, hseparator, htime, hoffset⟩
    rw [parts, Scan.bind_ok hdate, Scan.bind_ok hseparator, Scan.bind_ok htime,
      Scan.bind_ok hoffset]
    rfl

namespace Scan

variable {α β : Type}

/-! ## Numbers -/

/-- A run of digits within the width, which ends where the width or the run of
digits does, is read as its value if that is in range. -/
theorem number_digits {width low high : Nat} {ds rest : List Char} (hds : digitsOK ds = true)
    (hlength : ds.length ≤ width) (hend : ds.length = width ∨ NoDigit rest) :
    number width low high (ds ++ rest)
      = if low ≤ digitsValue ds ∧ digitsValue ds ≤ high then .ok (digitsValue ds, rest)
        else .error .outOfRange := by
  have htake : ((ds ++ rest).take width).takeWhile Char.isDigit = ds := by
    rcases hend with hfull | hrest
    · rw [← hfull, List.take_left]
      simpa using takeWhile_isDigit_append hds noDigit_nil
    · have hcut : NoDigit (rest.take (width - ds.length)) := by
        intro c hc
        refine hrest c ?_
        rw [List.head?_take] at hc
        split at hc
        · cases hc
        · exact hc
      rw [List.take_append, List.take_of_length_le hlength]
      exact takeWhile_isDigit_append hds hcut
  have hempty : ds.isEmpty = false := List.isEmpty_eq_false_iff.mpr (ne_nil_of_digitsOK hds)
  simp only [number, skipBlanks_digits hds, htake, hempty, List.drop_left]
  rfl

theorem value_of_number_digits {width low high n : Nat} {ds rest tail : List Char}
    (hds : digitsOK ds = true) (hlength : ds.length ≤ width)
    (hend : ds.length = width ∨ NoDigit rest)
    (h : number width low high (ds ++ rest) = .ok (n, tail)) : n = digitsValue ds := by
  rw [number_digits hds hlength hend] at h
  split at h
  · exact (congrArg Prod.fst (Except.ok.inj h)).symm
  · cases h

/-- A number in its full width is read back. -/
theorem number_padded {width low high n : Nat} (hwidth : 0 < width) (hn : n < 10 ^ width)
    (hlow : low ≤ n) (hhigh : n ≤ high) (rest : List Char) :
    number width low high (padded width n ++ rest) = .ok (n, rest) := by
  have hlength := length_padded hwidth hn
  rw [number_digits (digitsOK_padded width n) (Nat.le_of_eq hlength) (Or.inl hlength),
    digitsValue_padded, if_pos ⟨hlow, hhigh⟩]

theorem signedYear_digits {negative : Bool} {ds rest : List Char} (hds : digitsOK ds = true)
    (hrest : NoDigit rest) :
    signedYear negative (ds ++ rest)
      = if -0x80000000 ≤ signed negative (digitsValue ds)
            ∧ signed negative (digitsValue ds) < 0x80000000 then
          .ok (signed negative (digitsValue ds), rest)
        else .error .outOfRange := by
  have hempty : ds.isEmpty = false := List.isEmpty_eq_false_iff.mpr (ne_nil_of_digitsOK hds)
  simp only [signedYear, takeWhile_isDigit_append hds hrest, dropWhile_isDigit_append hds hrest,
    hempty]
  rfl

/-- A year without a sign is read as a number of at most four digits. -/
theorem year_digits {ds rest : List Char} (hds : digitsOK ds = true) :
    year (ds ++ rest) = (number 4 0 9999 (ds ++ rest)).map fun r => ((r.1 : Int), r.2) := by
  obtain ⟨c, ds, rfl⟩ := List.exists_cons_of_ne_nil (ne_nil_of_digitsOK hds)
  have hc := isDigit_of_digitsOK hds c List.mem_cons_self
  rw [year, skipBlanks_digits hds, List.cons_append]
  split
  · next heq =>
      obtain ⟨rfl, -⟩ := List.cons.inj heq
      cases hc
  · next heq =>
      obtain ⟨rfl, -⟩ := List.cons.inj heq
      cases hc
  · rfl

/-- A year after its sign is read in any number of digits. -/
theorem year_sign (negative : Bool) (rest : List Char) :
    year ((if negative then '-' else '+') :: rest) = signedYear negative rest := by
  cases negative <;> rfl

/-- A year that has been read stood after its sign, or it was a number of at most four digits. -/
theorem year_cases {cs rest : List Char} {y : Int} (h : year cs = .ok (y, rest)) :
    (∃ (negative : Bool) (digits : List Char),
        skipBlanks cs = (if negative then '-' else '+') :: digits
          ∧ signedYear negative digits = .ok (y, rest))
      ∨ ∃ n, number 4 0 9999 (skipBlanks cs) = .ok (n, rest) ∧ (n : Int) = y := by
  unfold year at h
  split at h
  · next digits hcs => exact Or.inl ⟨true, digits, hcs, h⟩
  · next digits hcs => exact Or.inl ⟨false, digits, hcs, h⟩
  · cases hn : number 4 0 9999 (skipBlanks cs) with
    | error e =>
        rw [hn] at h
        cases h
    | ok p =>
        rw [hn] at h
        obtain ⟨hy, rfl⟩ := Prod.mk.inj (Except.ok.inj h)
        exact Or.inr ⟨p.1, rfl, hy⟩

/-- A year is read back, with its sign if it has one. -/
theorem year_yearChars {y : Int} (hlow : -0x80000000 ≤ y) (hhigh : y < 0x80000000)
    {rest : List Char} (hrest : NoDigit rest) :
    year (Date.yearChars y ++ rest) = .ok (y, rest) := by
  unfold Date.yearChars
  split
  · next hfour =>
      rw [year_digits (digitsOK_padded 4 _),
        number_padded (by decide) (by omega) (Nat.zero_le _) (by omega)]
      show Except.ok (((y.natAbs : Nat) : Int), rest) = _
      rw [Int.natAbs_of_nonneg hfour.1]
  · have hsign : (if y < 0 then '-' else '+') = if decide (y < 0) then '-' else '+' := by simp
    rw [hsign, List.cons_append, year_sign, signedYear_digits (digitsOK_padded 4 _) hrest,
      digitsValue_padded, signed_natAbs, if_pos ⟨hlow, hhigh⟩]

/-! ## What a scanner has taken -/

section Taken

variable {width low high n : Nat} {cs rest : List Char}

theorem number_skipBlanks (width low high : Nat) (cs : List Char) :
    number width low high (skipBlanks cs) = number width low high cs := by
  simp only [number, skipBlanks_idem]

/-- A number that has been read was written in digits, after any blanks. They are the digits
up to the width or up to where no further one stands. -/
theorem exists_digits_of_number (h : number width low high cs = .ok (n, rest)) :
    ∃ ds, digitsOK ds = true ∧ skipBlanks cs = ds ++ rest ∧ ds.length ≤ width
      ∧ (ds.length = width ∨ NoDigit rest) ∧ digitsValue ds = n ∧ low ≤ n ∧ n ≤ high := by
  generalize hds : ((skipBlanks cs).take width).takeWhile Char.isDigit = ds
  simp only [number, hds] at h
  split at h
  · cases h
  · next hempty =>
      split at h
      · next hrange =>
          obtain ⟨rfl, hrest⟩ := Prod.mk.inj (Except.ok.inj h)
          obtain ⟨tail, htail⟩ : ds <+: (skipBlanks cs).take width := hds ▸ List.takeWhile_prefix _
          have hcs : skipBlanks cs = ds ++ rest := by
            have hsplit := List.take_append_drop width (skipBlanks cs)
            rw [← htail, List.append_assoc] at hsplit
            rw [← hrest, ← hsplit, List.drop_left]
          have hall : ds.all Char.isDigit = true := hds ▸ List.all_takeWhile
          have hlength : ds.length ≤ width := by
            have := congrArg List.length htail
            rw [List.length_append, List.length_take] at this
            omega
          refine ⟨ds, by simp [digitsOK, hall, hempty], hcs, hlength, ?_, rfl, hrange⟩
          refine (Nat.lt_or_eq_of_le hlength).symm.imp_right fun hlt c hc => ?_
          -- The digits end before the width does, so the next character has been looked at.
          obtain ⟨tail, rfl⟩ : ∃ tail, rest = c :: tail := List.head?_eq_some_iff.mp hc
          obtain ⟨k, hk⟩ : ∃ k, width - ds.length = k + 1 := ⟨width - ds.length - 1, by omega⟩
          rw [hcs, List.take_append, List.take_of_length_le hlength, hk, List.take_succ_cons,
            List.takeWhile_append_of_pos (List.all_eq_true.mp hall)] at hds
          have hnone := List.append_right_eq_self.mp hds
          cases hdigit : c.isDigit with
          | false => rfl
          | true =>
              rw [List.takeWhile_cons_of_pos hdigit] at hnone
              cases hnone
      · cases h

theorem exists_digits_of_signedYear {negative : Bool} {y : Int}
    (h : signedYear negative cs = .ok (y, rest)) :
    ∃ ds, digitsOK ds = true ∧ cs = ds ++ rest ∧ NoDigit rest
      ∧ signed negative (digitsValue ds) = y ∧ -0x80000000 ≤ y ∧ y < 0x80000000 := by
  simp only [signedYear] at h
  split at h
  · cases h
  · next hempty =>
      split at h
      · next hrange =>
          obtain ⟨rfl, rfl⟩ := Prod.mk.inj (Except.ok.inj h)
          refine ⟨cs.takeWhile Char.isDigit, by simp [digitsOK, hempty, List.all_takeWhile],
            List.takeWhile_append_dropWhile.symm, fun c hc => ?_, rfl, hrange⟩
          have hnext := List.head?_dropWhile_not Char.isDigit cs
          rw [hc] at hnext
          simpa using hnext
      · cases h

/-- The sign of a year, if it has one; `true` is a minus. -/
def signChars : Option Bool → List Char
  | some negative => [if negative then '-' else '+']
  | none => []

/-- A year that has been read was written in digits, after any blanks and after its sign, if it
has one. -/
theorem exists_digits_of_year {y : Int} (h : year cs = .ok (y, rest)) :
    ∃ (sign : Option Bool) (ds : List Char), digitsOK ds = true
      ∧ skipBlanks cs = signChars sign ++ ds ++ rest
      ∧ signed (sign.getD false) (digitsValue ds) = y := by
  rcases year_cases h with ⟨negative, digits, hcs, hyear⟩ | ⟨n, hn, rfl⟩
  · obtain ⟨ds, hds, rfl, -, hvalue, -⟩ := exists_digits_of_signedYear hyear
    exact ⟨some negative, ds, hds, hcs, hvalue⟩
  · obtain ⟨ds, hds, hcs, -, -, rfl, -⟩ := exists_digits_of_number hn
    rw [skipBlanks_idem] at hcs
    exact ⟨none, ds, hds, hcs, rfl⟩

end Taken

/-! ## Fractions and offsets -/

theorem fraction_point {ds rest : List Char} (hds : digitsOK ds = true) (hrest : NoDigit rest) :
    fraction ('.' :: (ds ++ rest)) = .ok (nanoseconds ds, rest) := by
  have hempty : ds.isEmpty = false := List.isEmpty_eq_false_iff.mpr (ne_nil_of_digitsOK hds)
  simp only [fraction, takeWhile_isDigit_append hds hrest, dropWhile_isDigit_append hds hrest,
    hempty]
  rfl

/-- Three digits after the point are milliseconds. -/
theorem nanoseconds_padded {millis : Nat} (h : millis < 1000) :
    nanoseconds (padded 3 millis) = millis * 1_000_000 := by
  have hlength : (padded 3 millis).length = 3 := length_padded (by decide) h
  have hnine : (padded 3 millis ++ List.replicate 9 '0').take 9
      = padded 3 millis ++ List.replicate 6 '0' := by
    rw [List.take_append, hlength, List.take_of_length_le (by omega), List.take_replicate]
    rfl
  rw [nanoseconds, hnine, digitsValue_append_zeros, digitsValue_padded, Nat.mul_comm]
  rfl

theorem offset_zero : offset ['+', '0', '0', ':', '0', '0'] = .ok (0, []) := rfl

/-! ## Attempts -/

theorem first_ok (a : α) (rest : List (Except Fault α)) : first (.ok a :: rest) = .ok a := rfl

/-- What comes of several attempts has come of one of them. -/
theorem mem_of_first {a : α} : ∀ {attempts : List (Except Fault α)},
    first attempts = .ok a → .ok a ∈ attempts
  | .ok b :: rest, h => by
      obtain rfl := Except.ok.inj h
      exact List.mem_cons_self
  | .error .mismatch :: rest, h => List.mem_cons_of_mem _ (mem_of_first h)
  | .error .outOfRange :: rest, h => by
      simp only [first] at h
      split at h
      · next hrest =>
          obtain rfl := Except.ok.inj h
          exact List.mem_cons_of_mem _ (mem_of_first hrest)
      · cases h

theorem exists_first_of_mem : ∀ {attempts : List (Except Fault α)} {a : α}, .ok a ∈ attempts →
    ∃ b, first attempts = .ok b
  | .ok b :: rest, a, _ => ⟨b, rfl⟩
  | .error .mismatch :: rest, a, h => by
      have hrest : Except.ok a ∈ rest := by simpa using h
      show ∃ b, first rest = .ok b
      exact exists_first_of_mem hrest
  | .error .outOfRange :: rest, a, h => by
      have hrest : Except.ok a ∈ rest := by simpa using h
      obtain ⟨b, hb⟩ := exists_first_of_mem hrest
      exact ⟨b, by rw [first, hb]⟩

theorem first_outOfRange : ∀ {attempts : List (Except Fault α)},
    .error .outOfRange ∈ attempts → (∀ a, .ok a ∉ attempts) →
      first attempts = .error .outOfRange
  | .ok b :: rest, _, hnone => absurd List.mem_cons_self (hnone b)
  | .error .mismatch :: rest, h, hnone => by
      have hrest : Except.error Fault.outOfRange ∈ rest := by simpa using h
      show first rest = .error .outOfRange
      exact first_outOfRange hrest fun a ha => hnone a (List.mem_cons_of_mem _ ha)
  | .error .outOfRange :: rest, _, hnone => by
      rw [first]
      split
      · next b hb => exact absurd (List.mem_cons_of_mem _ (mem_of_first hb)) (hnone b)
      · rfl

/-- An attempt that does not find the form wrong is the one that counts, if no other one
succeeds. -/
theorem first_eq_of_mem {attempts : List (Except Fault α)} {r : Except Fault α}
    (hr : r ∈ attempts) (hform : r ≠ .error .mismatch)
    (hothers : ∀ a, .ok a ∈ attempts → r = .ok a) : first attempts = r := by
  cases r with
  | ok a =>
      obtain ⟨b, hb⟩ := exists_first_of_mem hr
      rw [hb, hothers b (mem_of_first hb)]
  | error e =>
      cases e with
      | mismatch => exact absurd rfl hform
      | outOfRange => exact first_outOfRange hr fun a ha => by cases hothers a ha

theorem first_mismatch : ∀ {attempts : List (Except Fault α)},
    (∀ r ∈ attempts, r = .error .mismatch) → first attempts = .error .mismatch
  | [], _ => rfl
  | r :: rest, h => by
      obtain rfl := h r List.mem_cons_self
      show first rest = .error .mismatch
      exact first_mismatch fun r hr => h r (List.mem_cons_of_mem _ hr)

end Scan

end Intake
