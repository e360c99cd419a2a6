import Intake.Calendar.Duration
import Intake.Proofs.Calendar.Scanning

/-!
# Durations as they are written

A duration is well formed if its amounts are written in digits, none but the seconds has a
fraction, and at least one amount is there. The reader takes exactly the written forms of these,
and gives back the duration that was written (`Duration.ofChars?_eq_some_iff`), so no text is the
written form of two.

The amounts are tried in a fixed order and each may be missing. That the reader passes over the
right ones is seen from the first mark behind the digits that come next (`Amount.mark?`): it is
the letter of the next amount that is there, or the `T`, or the mark of a fraction. The letter
`M` comes twice, but the `T` stands between months and minutes.
-/

namespace Intake

namespace Amount

/-! ## One amount -/

def signChars (negative : Bool) : List Char := if negative then ['-'] else []

/-- A text without a minus in front. -/
def unsigned (cs : List Char) : List Char := if cs.head? == some '-' then cs.tail else cs

def fractionChars : Option (Char × List Char) → List Char
  | some f => f.1 :: f.2
  | none => []

theorem chars_eq (a : Amount) :
    a.chars = signChars a.negative ++ (a.whole ++ fractionChars a.fraction) := by
  rw [chars, List.append_assoc]
  cases a.fraction <;> rfl

theorem amountOK_iff {fractions : Bool} {a : Amount} :
    a.amountOK fractions = true ↔ digitsOK a.whole = true
      ∧ ∀ f ∈ a.fraction, fractions = true ∧ (f.1 = '.' ∨ f.1 = ',') ∧ digitsOK f.2 = true := by
  rw [amountOK, Bool.and_eq_true]
  cases a.fraction with
  | none => simp
  | some f => simp [and_assoc]

/-- Without fractions an amount is a whole number. -/
theorem fraction_eq_none {a : Amount} (h : a.amountOK false = true) : a.fraction = none := by
  cases hfraction : a.fraction with
  | none => rfl
  | some f => cases ((amountOK_iff.mp h).2 f hfraction).1

theorem head?_signChars_append (negative : Bool) {ds : List Char} (hds : digitsOK ds = true)
    (rest : List Char) :
    ((signChars negative ++ (ds ++ rest)).head? == some '-') = negative
      ∧ unsigned (signChars negative ++ (ds ++ rest)) = ds ++ rest := by
  cases negative with
  | true => exact ⟨rfl, rfl⟩
  | false =>
      obtain ⟨c, tail, rfl⟩ := List.exists_cons_of_ne_nil (ne_nil_of_digitsOK hds)
      have hne : c ≠ '-' := by
        rintro rfl
        cases isDigit_of_digitsOK hds _ List.mem_cons_self
      simp [signChars, unsigned, hne]

theorem signChars_append_unsigned (cs : List Char) :
    signChars (cs.head? == some '-') ++ unsigned cs = cs := by
  unfold signChars unsigned
  cases cs with
  | nil => rfl
  | cons c rest =>
      by_cases hc : c = '-'
      · simp [hc]
      · simp [hc]

/-- The character is neither a digit nor the mark of a fraction. -/
def endsAmount (c : Char) : Bool := !c.isDigit && !(c == '.' || c == ',')

theorem endsAmount_iff {c : Char} :
    endsAmount c = true ↔ c.isDigit = false ∧ (c == '.' || c == ',') = false := by
  rw [endsAmount, Bool.and_eq_true, Bool.not_eq_true', Bool.not_eq_true']

theorem takeFraction_of_endsAmount {c : Char} (h : endsAmount c = true) (rest : List Char) :
    takeFraction (c :: rest) = (none, c :: rest) := by
  simp only [takeFraction, (endsAmount_iff.mp h).2, Bool.false_and, Bool.false_eq_true, if_false]

/-- A fraction that has been written before a letter is taken. -/
theorem takeFraction_append {fraction : Option (Char × List Char)}
    (hfraction : ∀ f ∈ fraction, (f.1 = '.' ∨ f.1 = ',') ∧ digitsOK f.2 = true)
    {letter : Char} (hletter : endsAmount letter = true) (rest : List Char) :
    takeFraction (fractionChars fraction ++ letter :: rest) = (fraction, letter :: rest) := by
  cases fraction with
  | none => exact takeFraction_of_endsAmount hletter rest
  | some f =>
      obtain ⟨hmark, hdigits⟩ := hfraction f rfl
      have hend : NoDigit (letter :: rest) := noDigit_cons (endsAmount_iff.mp hletter).1
      have hmark' : (f.1 == '.' || f.1 == ',') = true := by simpa using hmark
      simp only [fractionChars, List.cons_append, takeFraction, hmark',
        takeWhile_isDigit_append hdigits hend, dropWhile_isDigit_append hdigits hend, hdigits,
        Bool.and_self, if_true]

/-- Whatever is taken as a fraction was written as one. -/
theorem takeFraction_spec (cs : List Char) :
    cs = fractionChars (takeFraction cs).1 ++ (takeFraction cs).2
      ∧ ∀ f ∈ (takeFraction cs).1, (f.1 = '.' ∨ f.1 = ',') ∧ digitsOK f.2 = true := by
  cases cs with
  | nil => exact ⟨rfl, nofun⟩
  | cons c rest =>
      rw [takeFraction]
      split
      · next h =>
          obtain ⟨hmark, hdigits⟩ := Bool.and_eq_true_iff.mp h
          refine ⟨?_, ?_⟩
          · exact congrArg (c :: ·) List.takeWhile_append_dropWhile.symm
          · intro f hf
            obtain rfl := Option.some.inj hf
            exact ⟨by simpa using hmark, hdigits⟩
      · exact ⟨rfl, nofun⟩

/-- Takes a fraction where one is allowed. -/
def fractionIf (fractions : Bool) (cs : List Char) : Option (Char × List Char) × List Char :=
  if fractions then takeFraction cs else (none, cs)

theorem fractionIf_append {fractions : Bool} {a : Amount} (h : a.amountOK fractions = true)
    {letter : Char} (hletter : endsAmount letter = true) (rest : List Char) :
    fractionIf fractions (fractionChars a.fraction ++ letter :: rest)
      = (a.fraction, letter :: rest) := by
  cases fractions with
  | true => exact takeFraction_append (fun f hf => ((amountOK_iff.mp h).2 f hf).2) hletter rest
  | false =>
      rw [fraction_eq_none h]
      rfl

theorem noDigit_fractionChars_append {fractions : Bool} {a : Amount}
    (h : a.amountOK fractions = true) {letter : Char} (hletter : endsAmount letter = true)
    (rest : List Char) : NoDigit (fractionChars a.fraction ++ letter :: rest) := by
  cases hfraction : a.fraction with
  | none => exact noDigit_cons (endsAmount_iff.mp hletter).1
  | some f =>
      refine noDigit_cons ?_
      rcases ((amountOK_iff.mp h).2 f hfraction).2.1 with hmark | hmark <;> rw [hmark] <;> rfl

theorem fractionIf_spec (fractions : Bool) (cs : List Char) :
    cs = fractionChars (fractionIf fractions cs).1 ++ (fractionIf fractions cs).2
      ∧ ∀ f ∈ (fractionIf fractions cs).1,
          fractions = true ∧ (f.1 = '.' ∨ f.1 = ',') ∧ digitsOK f.2 = true := by
  cases fractions with
  | true =>
      obtain ⟨hsplit, hok⟩ := takeFraction_spec cs
      exact ⟨hsplit, fun f hf => ⟨rfl, hok f hf⟩⟩
  | false => exact ⟨rfl, nofun⟩

theorem take?_eq (fractions : Bool) (letter : Char) (cs : List Char) :
    take? fractions letter cs
      = if digitsOK ((unsigned cs).takeWhile Char.isDigit)
            && (fractionIf fractions ((unsigned cs).dropWhile Char.isDigit)).2.head?
              == some letter then
          some (⟨cs.head? == some '-', (unsigned cs).takeWhile Char.isDigit,
              (fractionIf fractions ((unsigned cs).dropWhile Char.isDigit)).1⟩,
            (fractionIf fractions ((unsigned cs).dropWhile Char.isDigit)).2.tail)
        else none := rfl

/-- An amount that has been written is taken with its letter. -/
theorem take?_chars {fractions : Bool} {letter : Char} {a : Amount}
    (hletter : endsAmount letter = true) (h : a.amountOK fractions = true) (rest : List Char) :
    take? fractions letter (a.chars ++ letter :: rest) = some (a, rest) := by
  have hwhole := (amountOK_iff.mp h).1
  obtain ⟨hminus, hunsigned⟩ := head?_signChars_append a.negative hwhole
    (fractionChars a.fraction ++ letter :: rest)
  have hend := noDigit_fractionChars_append h hletter rest
  rw [chars_eq, List.append_assoc, List.append_assoc, take?_eq, hminus, hunsigned,
    takeWhile_isDigit_append hwhole hend, dropWhile_isDigit_append hwhole hend,
    fractionIf_append h hletter]
  simp [hwhole]

/-- Whatever is taken was written as an amount with its letter. -/
theorem eq_chars_of_take? {fractions : Bool} {letter : Char} {cs rest : List Char} {a : Amount}
    (h : take? fractions letter cs = some (a, rest)) :
    a.amountOK fractions = true ∧ cs = a.chars ++ letter :: rest := by
  obtain ⟨hfraction, hok⟩ := fractionIf_spec fractions ((unsigned cs).dropWhile Char.isDigit)
  rw [take?_eq] at h
  split at h
  · next hread =>
      obtain ⟨hwhole, hnext⟩ := Bool.and_eq_true_iff.mp hread
      obtain ⟨rest', hrest⟩ := List.head?_eq_some_iff.mp (eq_of_beq hnext)
      rw [hrest] at hfraction h
      obtain ⟨rfl, rfl⟩ := Prod.mk.inj (Option.some.inj h)
      refine ⟨amountOK_iff.mpr ⟨hwhole, hok⟩, ?_⟩
      rw [chars_eq, List.append_assoc, List.append_assoc, List.tail_cons, ← hfraction,
        List.takeWhile_append_dropWhile, signChars_append_unsigned]
  · cases h

/-! ## An amount that may be missing -/

/-- The first character behind the digits that a text begins with, after a minus or none. -/
def mark? (cs : List Char) : Option Char := ((unsigned cs).dropWhile Char.isDigit).head?

/-- What stands behind the first digits is one of the marks, if anything does. -/
def MarkedBy (marks cs : List Char) : Prop := ∀ c ∈ mark? cs, c ∈ marks

theorem mark?_chars_append {fractions : Bool} {a : Amount} (h : a.amountOK fractions = true)
    {letter : Char} (hletter : endsAmount letter = true) (rest : List Char) :
    mark? (a.chars ++ letter :: rest) = (fractionChars a.fraction ++ letter :: rest).head? := by
  have hwhole := (amountOK_iff.mp h).1
  have hend := noDigit_fractionChars_append h hletter rest
  rw [mark?, chars_eq, List.append_assoc, List.append_assoc,
    (head?_signChars_append a.negative hwhole _).2, dropWhile_isDigit_append hwhole hend]

theorem MarkedBy.amountChars {marks rest : List Char} (hrest : MarkedBy marks rest) (letter : Char)
    (hletter : endsAmount letter = true) {a : Option Amount} (ha : a.all (amountOK false) = true) :
    MarkedBy (letter :: marks) (Duration.amountChars letter a ++ rest) := by
  cases a with
  | none => exact fun c hc => List.mem_cons_of_mem _ (hrest c hc)
  | some x =>
      have hmark := mark?_chars_append ha hletter rest
      rw [fraction_eq_none ha] at hmark
      intro c hc
      rw [Duration.amountChars, List.append_assoc, List.singleton_append, hmark] at hc
      obtain rfl := Option.some.inj hc
      exact List.mem_cons_self

theorem markedBy_seconds {a : Option Amount} (ha : a.all (amountOK true) = true) :
    MarkedBy ['S', '.', ','] (Duration.amountChars 'S' a) := by
  intro c hc
  cases a with
  | none => cases hc
  | some x =>
      rw [Duration.amountChars, mark?_chars_append ha rfl] at hc
      cases hfraction : x.fraction with
      | none =>
          rw [hfraction] at hc
          obtain rfl := Option.some.inj hc
          exact List.mem_cons_self
      | some f =>
          rw [hfraction] at hc
          obtain rfl := Option.some.inj hc
          rcases ((amountOK_iff.mp ha).2 f hfraction).2.1 with hmark | hmark <;>
            simp [hmark]

theorem take?_eq_none {letter : Char} {marks cs : List Char} (hmarks : MarkedBy marks cs)
    (hletter : letter ∉ marks) : take? false letter cs = none := by
  rw [take?_eq, if_neg]
  intro h
  have hmark : mark? cs = some letter := eq_of_beq (Bool.and_eq_true_iff.mp h).2
  exact hletter (hmarks letter hmark)

/-- An amount that is there is taken, and one that is missing is passed over, if what follows is
marked as something else. -/
theorem takeIf_amountChars (letter : Char) (hletter : endsAmount letter = true) {a : Option Amount}
    (ha : a.all (amountOK false) = true) {marks rest : List Char} (hrest : MarkedBy marks rest)
    (hother : letter ∉ marks) :
    takeIf false letter (Duration.amountChars letter a ++ rest) = (a, rest) := by
  cases a with
  | none => simp only [Duration.amountChars, List.nil_append, takeIf, take?_eq_none hrest hother]
  | some x =>
      simp only [Duration.amountChars, List.append_assoc, List.singleton_append, takeIf,
        take?_chars hletter ha]

theorem takeIf_seconds {a : Option Amount} (ha : a.all (amountOK true) = true) :
    takeIf true 'S' (Duration.amountChars 'S' a) = (a, []) := by
  cases a with
  | none => rfl
  | some x =>
      have hread := take?_chars (show endsAmount 'S' = true from rfl) ha []
      simp only [Duration.amountChars, takeIf, hread]

/-- Whatever is taken, an amount or nothing, was written in front. -/
theorem exists_takeIf (fractions : Bool) (letter : Char) (cs : List Char) :
    ∃ a rest, takeIf fractions letter cs = (a, rest) ∧ cs = Duration.amountChars letter a ++ rest
      ∧ a.all (amountOK fractions) = true := by
  unfold takeIf
  split
  · next a rest h =>
      obtain ⟨hok, hcs⟩ := eq_chars_of_take? h
      refine ⟨some a, rest, rfl, ?_, hok⟩
      rw [hcs, Duration.amountChars, List.append_assoc, List.singleton_append]
  · exact ⟨none, cs, rfl, rfl, rfl⟩

end Amount

namespace Duration

/-- Amounts in digits, a fraction at most in the seconds, and at least one amount. -/
structure WellFormed (d : Duration) : Prop where
  years : d.years.all (Amount.amountOK false) = true
  months : d.months.all (Amount.amountOK false) = true
  weeks : d.weeks.all (Amount.amountOK false) = true
  days : d.days.all (Amount.amountOK false) = true
  hours : d.hours.all (Amount.amountOK false) = true
  minutes : d.minutes.all (Amount.amountOK false) = true
  seconds : d.seconds.all (Amount.amountOK true) = true
  not_empty : d.hasDate = true ∨ d.hasTime = true

def text (d : Duration) : String := String.ofList d.chars

def timeChars (d : Duration) : List Char :=
  amountChars 'H' d.hours ++ (amountChars 'M' d.minutes ++ amountChars 'S' d.seconds)

/-- What stands behind the days. -/
def timePart (d : Duration) : List Char := if d.hasTime then 'T' :: d.timeChars else []

theorem chars_eq (d : Duration) :
    d.chars = 'P' :: (amountChars 'Y' d.years ++ (amountChars 'M' d.months
      ++ (amountChars 'W' d.weeks ++ (amountChars 'D' d.days ++ d.timePart)))) := by
  simp only [chars, timePart, timeChars, List.append_assoc, List.cons_append]

/-! ## Reading what was written -/

theorem timeOfChars?_timeChars {d : Duration} (h : d.WellFormed) (date : Duration) :
    timeOfChars? date d.timeChars
      = if d.hasTime then
          some { date with hours := d.hours, minutes := d.minutes, seconds := d.seconds }
        else none := by
  have hseconds := Amount.markedBy_seconds h.seconds
  have hminutes := hseconds.amountChars 'M' rfl h.minutes
  unfold timeOfChars? timeChars
  simp only [Amount.takeIf_amountChars 'H' rfl h.hours hminutes (by decide),
    Amount.takeIf_amountChars 'M' rfl h.minutes hseconds (by decide),
    Amount.takeIf_seconds h.seconds, List.isEmpty_nil, Bool.true_and]
  rfl

theorem markedBy_timePart (d : Duration) : Amount.MarkedBy ['T'] d.timePart := by
  unfold timePart
  split
  · intro c hc
    obtain rfl := Option.some.inj hc
    exact List.mem_cons_self
  · exact nofun

theorem eq_of_hasTime_eq_false {d : Duration} (h : d.hasTime = false) :
    (⟨d.years, d.months, d.weeks, d.days, none, none, none⟩ : Duration) = d := by
  cases d
  simp only [hasTime, Bool.or_eq_false_iff, Option.isSome_eq_false_iff,
    Option.isNone_iff_eq_none] at h
  obtain ⟨⟨rfl, rfl⟩, rfl⟩ := h
  rfl

theorem ofChars?_chars {d : Duration} (h : d.WellFormed) : ofChars? d.chars = some d := by
  have hdays := d.markedBy_timePart
  have hweeks := hdays.amountChars 'D' rfl h.days
  have hmonths := hweeks.amountChars 'W' rfl h.weeks
  have hyears := hmonths.amountChars 'M' rfl h.months
  rw [chars_eq]
  unfold ofChars?
  simp only [Amount.takeIf_amountChars 'Y' rfl h.years hyears (by decide),
    Amount.takeIf_amountChars 'M' rfl h.months hmonths (by decide),
    Amount.takeIf_amountChars 'W' rfl h.weeks hweeks (by decide),
    Amount.takeIf_amountChars 'D' rfl h.days hdays (by decide)]
  cases htime : d.hasTime with
  | true =>
      have hpart : d.timePart = 'T' :: d.timeChars := by rw [timePart, htime, if_pos rfl]
      rw [hpart]
      exact (timeOfChars?_timeChars h _).trans (by rw [htime, if_pos rfl])
  | false =>
      have hpart : d.timePart = [] := by rw [timePart, htime]; rfl
      have hdate : d.hasDate = true := h.not_empty.resolve_right (by simp [htime])
      rw [hpart]
      show (if hasDate ⟨d.years, d.months, d.weeks, d.days, none, none, none⟩ then some _ else none)
        = some d
      rw [eq_of_hasTime_eq_false htime, if_pos hdate]

/-! ## What is read was written -/

/-- The hours, minutes and seconds that are read are added to the date. -/
theorem exists_of_timeOfChars? {date d : Duration} {cs : List Char}
    (h : timeOfChars? date cs = some d) :
    ∃ hours minutes seconds, d = { date with hours, minutes, seconds } ∧ d.hasTime = true
      ∧ cs = d.timeChars ∧ hours.all (Amount.amountOK false) = true
      ∧ minutes.all (Amount.amountOK false) = true ∧ seconds.all (Amount.amountOK true) = true := by
  obtain ⟨hours, cs₁, hreadH, rfl, hhours⟩ := Amount.exists_takeIf false 'H' cs
  obtain ⟨minutes, cs₂, hreadM, rfl, hminutes⟩ := Amount.exists_takeIf false 'M' cs₁
  obtain ⟨seconds, cs₃, hreadS, rfl, hseconds⟩ := Amount.exists_takeIf true 'S' cs₂
  unfold timeOfChars? at h
  simp only [hreadH, hreadM, hreadS] at h
  split at h
  · next hend =>
      obtain ⟨hnil, htime⟩ := Bool.and_eq_true_iff.mp hend
      obtain rfl := List.isEmpty_iff.mp hnil
      obtain rfl := Option.some.inj h
      refine ⟨hours, minutes, seconds, rfl, htime, ?_, hhours, hminutes, hseconds⟩
      simp only [timeChars, List.append_nil]
  · cases h

theorem wellFormed_of_ofChars? {d : Duration} {cs : List Char} (h : ofChars? cs = some d) :
    d.WellFormed ∧ cs = d.chars := by
  unfold ofChars? at h
  split at h
  · next cs =>
      obtain ⟨years, cs₁, hreadY, rfl, hyears⟩ := Amount.exists_takeIf false 'Y' cs
      obtain ⟨months, cs₂, hreadM, rfl, hmonths⟩ := Amount.exists_takeIf false 'M' cs₁
      obtain ⟨weeks, cs₃, hreadW, rfl, hweeks⟩ := Amount.exists_takeIf false 'W' cs₂
      obtain ⟨days, cs₄, hreadD, rfl, hdays⟩ := Amount.exists_takeIf false 'D' cs₃
      simp only [hreadY, hreadM, hreadW, hreadD] at h
      split at h
      · obtain ⟨hdate, hd⟩ := Option.ite_none_right_eq_some.mp h
        obtain rfl := Option.some.inj hd
        refine ⟨⟨hyears, hmonths, hweeks, hdays, rfl, rfl, rfl, Or.inl hdate⟩, ?_⟩
        rw [chars_eq]
        rfl
      · next cs =>
          obtain ⟨hours, minutes, seconds, rfl, htime, rfl, hhours, hminutes, hseconds⟩ :=
            exists_of_timeOfChars? h
          refine ⟨⟨hyears, hmonths, hweeks, hdays, hhours, hminutes, hseconds, Or.inr htime⟩, ?_⟩
          rw [chars_eq, timePart, if_pos htime]
      · cases h
  · cases h

/-- Exactly the written forms of well-formed durations are read, and as what was written. -/
theorem ofChars?_eq_some_iff {cs : List Char} {d : Duration} :
    ofChars? cs = some d ↔ d.WellFormed ∧ d.chars = cs := by
  constructor
  · intro h
    obtain ⟨hd, hcs⟩ := wellFormed_of_ofChars? h
    exact ⟨hd, hcs.symm⟩
  · rintro ⟨hd, rfl⟩
    exact ofChars?_chars hd

theorem ofText?_eq_some_iff {s : String} {d : Duration} :
    ofText? s = some d ↔ d.WellFormed ∧ d.text = s := by
  rw [ofText?, ofChars?_eq_some_iff, text, ← String.toList_inj, String.toList_ofList]

/-- A text is a duration exactly if it is the written form of a well-formed one, and it is so of
no more than one. -/
theorem isDuration_iff_written (s : String) :
    (isDuration s = true ↔ ∃ d : Duration, d.WellFormed ∧ d.text = s)
      ∧ ∀ d e : Duration, d.WellFormed → e.WellFormed → d.text = s → e.text = s → d = e := by
  refine ⟨?_, ?_⟩
  · rw [isDuration, Option.isSome_iff_exists]
    exact exists_congr fun d => ofText?_eq_some_iff
  · intro d e hd he hds hes
    have hreadD := ofText?_eq_some_iff.mpr ⟨hd, hds⟩
    have hreadE := ofText?_eq_some_iff.mpr ⟨he, hes⟩
    exact Option.some.inj (hreadD.symm.trans hreadE)

/-- A month before the `T` and minutes after it, and a fraction behind a comma. -/
theorem isDuration_iff_written_minus_month :
    let d : Duration :=
      ⟨none, some ⟨true, ['1'], none⟩, none, some ⟨false, ['2'], none⟩, none,
        some ⟨false, ['5'], none⟩, some ⟨false, ['6'], some (',', ['5', '0'])⟩⟩
    isDuration "P-1M2DT5M6,50S" = true
      ∧ ∀ e : Duration, e.WellFormed → e.text = "P-1M2DT5M6,50S" → e = d := by
  intro d
  have hd : d.WellFormed := ⟨rfl, rfl, rfl, rfl, rfl, rfl, rfl, Or.inl rfl⟩
  have htext : d.text = "P-1M2DT5M6,50S" := rfl
  obtain ⟨hiff, hunique⟩ := isDuration_iff_written "P-1M2DT5M6,50S"
  exact ⟨hiff.mpr ⟨d, hd, htext⟩, fun e he hetext => hunique e d he hd hetext htext⟩

example : ["P", "PT", "P1DT", "P1H", "PT1D", "P1M1Y"].any isDuration = false := rfl

end Duration

end Intake
