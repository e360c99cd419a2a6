import Intake.Decimal
import Intake.Proofs.Calendar.Scanning

/-!
# Numbers as they are written

A `SpelledNumber` is a number as people write it: a sign or none, digits with at most one point
before, between or after them, and an exponent or none. Every such text is read as a decimal if
its scale fits (`SpelledNumber.ofChars?_chars`).

The reader drops the point before it looks for a sign, so it takes one more kind of text: a point
and a sign behind it (`SlippedNumber`). There is no third kind, and no text is of both
(`Decimal.ofChars?_eq_some_iff`, `SlippedNumber.chars_ne`).
-/

namespace Intake

/-! ## Integers -/

/-- No sign, a plus or a minus. -/
inductive Sign where
  | absent
  | plus
  | minus

namespace Sign

def chars : Sign → List Char
  | absent => []
  | plus => ['+']
  | minus => ['-']

def isMinus : Sign → Bool
  | minus => true
  | absent | plus => false

theorem takeSign_chars_append (sign : Sign) {digits : List Char} (h : digitsOK digits = true) :
    takeSign (sign.chars ++ digits) = (sign.isMinus, digits) := by
  cases sign with
  | absent =>
      rw [chars, List.nil_append, takeSign.eq_def]
      split
      · exact absurd (isDigit_of_digitsOK h '-' List.mem_cons_self) (by decide)
      · exact absurd (isDigit_of_digitsOK h '+' List.mem_cons_self) (by decide)
      · rfl
  | plus | minus => rfl

theorem exists_of_takeSign (cs : List Char) :
    ∃ sign : Sign, cs = sign.chars ++ (takeSign cs).2 ∧ (takeSign cs).1 = sign.isMinus := by
  rw [takeSign.eq_def]
  split
  · exact ⟨minus, rfl, rfl⟩
  · exact ⟨plus, rfl, rfl⟩
  · exact ⟨absent, rfl, rfl⟩

/-- A sign is one character at most, so only its ends divide it. -/
theorem chars_eq_append {sign : Sign} {front back : List Char} (h : sign.chars = front ++ back) :
    (front = sign.chars ∧ back = []) ∨ (sign ≠ absent ∧ front = [] ∧ back = sign.chars) := by
  cases sign with
  | absent => exact Or.inl (List.append_eq_nil_iff.mp h.symm)
  | plus | minus =>
      rcases List.append_eq_singleton_iff.mp h.symm with ⟨rfl, rfl⟩ | ⟨rfl, rfl⟩
      · exact Or.inr ⟨nofun, rfl, rfl⟩
      · exact Or.inl ⟨rfl, rfl⟩

/-- A minus for a negative integer, nothing for any other. -/
def ofInt (i : Int) : Sign := if i < 0 then minus else absent

theorem ofInt_ne_plus (i : Int) : ofInt i ≠ plus := by
  rw [ofInt]
  split <;> nofun

theorem signed_ofInt (i : Int) : signed (ofInt i).isMinus i.natAbs = i := by
  have hminus : (ofInt i).isMinus = decide (i < 0) := by
    rw [ofInt]
    split
    · next h => exact (decide_eq_true h).symm
    · next h => exact (decide_eq_false h).symm
  rw [hminus, signed_natAbs]

end Sign

theorem integerChars_eq (i : Int) : integerChars i = (Sign.ofInt i).chars ++ digitsOf i.natAbs := by
  rw [integerChars, Sign.ofInt]
  split <;> rfl

/-- An integer is digits after a sign or after none. -/
theorem integer?_eq_some_iff {cs : List Char} {i : Int} :
    integer? cs = some i ↔ ∃ (sign : Sign) (digits : List Char), digitsOK digits = true
      ∧ cs = sign.chars ++ digits ∧ i = signed sign.isMinus (digitsValue digits) := by
  constructor
  · intro h
    obtain ⟨sign, hcs, hminus⟩ := Sign.exists_of_takeSign cs
    simp only [integer?] at h
    split at h
    · next hdigits =>
        rw [hminus] at h
        exact ⟨sign, _, hdigits, hcs, (Option.some.inj h).symm⟩
    · cases h
  · rintro ⟨sign, digits, hdigits, rfl, rfl⟩
    simp only [integer?, sign.takeSign_chars_append hdigits]
    exact if_pos hdigits

theorem mem_of_integer? {cs : List Char} {i : Int} (h : integer? cs = some i) :
    ∀ c ∈ cs, c = '+' ∨ c = '-' ∨ c.isDigit = true := by
  obtain ⟨sign, digits, hdigits, rfl, -⟩ := integer?_eq_some_iff.mp h
  intro c hc
  rcases List.mem_append.mp hc with hsign | hdigit
  · cases sign with
    | absent => cases hsign
    | plus => exact Or.inl (List.mem_singleton.mp hsign)
    | minus => exact Or.inr (Or.inl (List.mem_singleton.mp hsign))
  · exact Or.inr (Or.inr (isDigit_of_digitsOK hdigits c hdigit))

theorem ne_point_of_integer? {cs : List Char} {i : Int} (h : integer? cs = some i) {c : Char}
    (hc : c ∈ cs) : c ≠ '.' := by
  rintro rfl
  rcases mem_of_integer? h _ hc with hc | hc | hc <;> cases hc

theorem notExponentMark_of_integer? {cs : List Char} {i : Int} (h : integer? cs = some i)
    {c : Char} (hc : c ∈ cs) : Decimal.notExponentMark c = true := by
  rw [Decimal.notExponentMark, Bool.and_eq_true, bne_iff_ne, bne_iff_ne]
  constructor <;> rintro rfl <;> rcases mem_of_integer? h _ hc with hc | hc | hc <;> cases hc

/-! ## Exponents -/

/-- An `e` or `E`, a sign or none, and digits. -/
structure SpelledExponent where
  capital : Bool
  sign : Sign
  digits : List Char
  digits_ok : digitsOK digits = true

namespace SpelledExponent

def mark (e : SpelledExponent) : Char := if e.capital then 'E' else 'e'

def chars : Option SpelledExponent → List Char
  | none => []
  | some e => e.mark :: (e.sign.chars ++ e.digits)

/-- The exponent, zero if none is written. -/
def value : Option SpelledExponent → Int
  | none => 0
  | some e => signed e.sign.isMinus (digitsValue e.digits)

theorem notExponentMark_mark (e : SpelledExponent) : Decimal.notExponentMark e.mark = false := by
  rw [mark]
  cases e.capital <;> rfl

theorem notExponentMark_of_head? (e : Option SpelledExponent) :
    ∀ c ∈ (chars e).head?, Decimal.notExponentMark c = false := by
  cases e with
  | none => nofun
  | some e =>
      rintro c hc
      obtain rfl := Option.some.inj hc
      exact e.notExponentMark_mark

theorem exponent?_chars (e : Option SpelledExponent) :
    Decimal.exponent? (chars e) = some (value e) := by
  cases e with
  | none => rfl
  | some e => exact integer?_eq_some_iff.mpr ⟨e.sign, e.digits, e.digits_ok, rfl, rfl⟩

theorem exists_of_exponent? {tail : List Char} {i : Int}
    (hmark : ∀ c ∈ tail.head?, Decimal.notExponentMark c = false)
    (h : Decimal.exponent? tail = some i) : ∃ e, tail = chars e ∧ i = value e := by
  cases tail with
  | nil => exact ⟨none, rfl, (Option.some.inj h).symm⟩
  | cons c rest =>
      obtain ⟨sign, digits, hdigits, rfl, rfl⟩ := integer?_eq_some_iff.mp h
      have hc : c = 'e' ∨ c = 'E' := by
        have hnot := hmark c rfl
        rw [Decimal.notExponentMark, Bool.and_eq_false_iff, bne_eq_false_iff_eq,
          bne_eq_false_iff_eq] at hnot
        exact hnot
      rcases hc with rfl | rfl
      · exact ⟨some ⟨false, sign, digits, hdigits⟩, rfl, rfl⟩
      · exact ⟨some ⟨true, sign, digits, hdigits⟩, rfl, rfl⟩

end SpelledExponent

/-! ## What the reader takes -/

/-- Digits behind a point; nothing if there is no point. -/
def pointChars : Option (List Char) → List Char
  | none => []
  | some digits => '.' :: digits

theorem exists_pointChars (digits : List Char) : ∃ fraction : Option (List Char),
    pointChars fraction = (if digits.isEmpty then [] else '.' :: digits)
      ∧ fraction.getD [] = digits ∧ fraction ≠ some [] := by
  cases digits with
  | nil => exact ⟨none, rfl, rfl, nofun⟩
  | cons c rest => exact ⟨some (c :: rest), rfl, rfl, nofun⟩

namespace Decimal

theorem splitPoint_append {front : List Char} (hfront : ∀ c ∈ front, c ≠ '.')
    (fraction : Option (List Char)) :
    splitPoint (front ++ pointChars fraction) = (front, fraction.getD []) := by
  have hfront' : ∀ c ∈ front, (c != '.') = true := fun c hc => bne_iff_ne.mpr (hfront c hc)
  have hpoint : ∀ c ∈ (pointChars fraction).head?, (c != '.') = false := by
    cases fraction with
    | none => nofun
    | some digits => simp [pointChars]
  obtain ⟨htake, hdrop⟩ := takeWhile_dropWhile_append hfront' hpoint
  rw [splitPoint, htake, hdrop]
  cases fraction <;> rfl

theorem exists_of_splitPoint (base : List Char) :
    ∃ front fraction, base = front ++ pointChars fraction
      ∧ splitPoint base = (front, fraction.getD []) := by
  have hsplit : base = base.takeWhile (· != '.') ++ base.dropWhile (· != '.') :=
    List.takeWhile_append_dropWhile.symm
  have hpoint := List.head?_dropWhile_not (· != '.') base
  cases hrest : base.dropWhile (· != '.') with
  | nil =>
      rw [hrest] at hsplit
      exact ⟨_, none, hsplit, by rw [splitPoint, hrest]; rfl⟩
  | cons c digits =>
      rw [hrest] at hsplit hpoint
      obtain rfl : c = '.' := by simpa using hpoint
      exact ⟨_, some digits, hsplit, by rw [splitPoint, hrest]; rfl⟩

/-- The reader divides a text at the exponent and at the point, if the rest is an integer. -/
theorem parts_append {front : List Char} {fraction : Option (List Char)}
    (e : Option SpelledExponent) {int : Int}
    (hint : integer? (front ++ fraction.getD []) = some int) :
    splitPoint ((front ++ pointChars fraction ++ SpelledExponent.chars e).takeWhile notExponentMark)
        = (front, fraction.getD [])
      ∧ (front ++ pointChars fraction ++ SpelledExponent.chars e).dropWhile notExponentMark
        = SpelledExponent.chars e := by
  have hfront : ∀ c ∈ front, c ≠ '.' := fun c hc =>
    ne_point_of_integer? hint (List.mem_append_left _ hc)
  have hbase : ∀ c ∈ front ++ pointChars fraction, notExponentMark c = true := by
    intro c hc
    rcases List.mem_append.mp hc with hc | hc
    · exact notExponentMark_of_integer? hint (List.mem_append_left _ hc)
    · cases fraction with
      | none => cases hc
      | some digits =>
          rcases List.mem_cons.mp hc with rfl | hc
          · rfl
          · exact notExponentMark_of_integer? hint (List.mem_append_right _ hc)
  obtain ⟨htake, hdrop⟩ :=
    takeWhile_dropWhile_append hbase (SpelledExponent.notExponentMark_of_head? e)
  exact ⟨by rw [htake, splitPoint_append hfront], hdrop⟩

/-- Without its exponent and its point a text is read as an integer. -/
theorem ofChars?_append (front : List Char) (fraction : Option (List Char))
    (e : Option SpelledExponent) {int : Int}
    (hint : integer? (front ++ fraction.getD []) = some int) :
    ofChars? (front ++ pointChars fraction ++ SpelledExponent.chars e)
      = if scaleOK ((fraction.getD []).length - SpelledExponent.value e) then
          some ⟨int, (fraction.getD []).length - SpelledExponent.value e⟩
        else none := by
  obtain ⟨hsplit, hdrop⟩ := parts_append e hint
  simp only [ofChars?, hsplit, hdrop, SpelledExponent.exponent?_chars, hint, Option.bind_eq_bind,
    Option.bind_some]

/-- Every text that is read has these parts. -/
theorem exists_of_ofChars? {cs : List Char} {d : Decimal} (h : ofChars? cs = some d) :
    ∃ front fraction e, cs = front ++ pointChars fraction ++ SpelledExponent.chars e
      ∧ integer? (front ++ fraction.getD []) = some d.int := by
  have hcs : cs = cs.takeWhile notExponentMark ++ cs.dropWhile notExponentMark :=
    List.takeWhile_append_dropWhile.symm
  have hmark : ∀ c ∈ (cs.dropWhile notExponentMark).head?, notExponentMark c = false := by
    intro c hc
    have hnot := List.head?_dropWhile_not notExponentMark cs
    rw [Option.mem_def.mp hc] at hnot
    simpa using hnot
  obtain ⟨front, fraction, hbase, hsplit⟩ := exists_of_splitPoint (cs.takeWhile notExponentMark)
  obtain ⟨exponent, hexponent, h⟩ := Option.bind_eq_some_iff.mp h
  rw [hsplit] at h
  obtain ⟨int, hint, h⟩ := Option.bind_eq_some_iff.mp h
  obtain ⟨e, htail, -⟩ := SpelledExponent.exists_of_exponent? hmark hexponent
  obtain ⟨-, hd⟩ := Option.ite_none_right_eq_some.mp h
  obtain rfl := Option.some.inj hd
  exact ⟨front, fraction, e, by rw [← hbase, ← htail, ← hcs], hint⟩

end Decimal

/-! ## Spelled numbers -/

/-- A sign or none, digits, among them a point or none, and an exponent or none. -/
structure SpelledNumber where
  sign : Sign
  whole : List Char
  /-- The digits behind the point; none if there is no point. -/
  fraction : Option (List Char)
  exponent : Option SpelledExponent
  digits_ok : digitsOK (whole ++ fraction.getD []) = true

namespace SpelledNumber

def chars (w : SpelledNumber) : List Char :=
  w.sign.chars ++ w.whole ++ pointChars w.fraction ++ SpelledExponent.chars w.exponent

def text (w : SpelledNumber) : String := String.ofList w.chars

/-- All digits as one integer, with the sign. -/
def int (w : SpelledNumber) : Int :=
  signed w.sign.isMinus (digitsValue (w.whole ++ w.fraction.getD []))

/-- The digits behind the point, less the exponent. -/
def scale (w : SpelledNumber) : Int :=
  (w.fraction.getD []).length - SpelledExponent.value w.exponent

/-- The decimal that is written. -/
def decimal (w : SpelledNumber) : Decimal := ⟨w.int, w.scale⟩

/-- The decimal that is written, if its scale fits. -/
def decimal? (w : SpelledNumber) : Option Decimal :=
  if Decimal.scaleOK w.scale then some w.decimal else none

theorem integer?_digits (w : SpelledNumber) :
    integer? (w.sign.chars ++ w.whole ++ w.fraction.getD []) = some w.int :=
  integer?_eq_some_iff.mpr ⟨w.sign, _, w.digits_ok, List.append_assoc .., rfl⟩

/-- A spelled number is read as the decimal that it writes. -/
theorem ofChars?_chars (w : SpelledNumber) : Decimal.ofChars? w.chars = w.decimal? :=
  Decimal.ofChars?_append _ w.fraction w.exponent w.integer?_digits

end SpelledNumber

/-! ## Slipped signs -/

/-- A point, a sign behind it, digits, and an exponent or none. -/
structure SlippedNumber where
  sign : Sign
  digits : List Char
  exponent : Option SpelledExponent
  sign_ok : sign ≠ .absent
  digits_ok : digitsOK digits = true

namespace SlippedNumber

def chars (w : SlippedNumber) : List Char :=
  '.' :: (w.sign.chars ++ w.digits) ++ SpelledExponent.chars w.exponent

def text (w : SlippedNumber) : String := String.ofList w.chars

def int (w : SlippedNumber) : Int := signed w.sign.isMinus (digitsValue w.digits)

/-- The sign counts as one of the digits behind the point. -/
def scale (w : SlippedNumber) : Int := w.digits.length + 1 - SpelledExponent.value w.exponent

/-- The decimal that is read, if its scale fits. -/
def decimal? (w : SlippedNumber) : Option Decimal :=
  if Decimal.scaleOK w.scale then some ⟨w.int, w.scale⟩ else none

theorem exists_chars_sign (w : SlippedNumber) :
    ∃ c, w.sign.chars = [c] ∧ c.isDigit = false := by
  cases h : w.sign with
  | absent => exact absurd h w.sign_ok
  | plus | minus => exact ⟨_, rfl, rfl⟩

theorem integer?_digits (w : SlippedNumber) :
    integer? (w.sign.chars ++ w.digits) = some w.int :=
  integer?_eq_some_iff.mpr ⟨w.sign, w.digits, w.digits_ok, rfl, rfl⟩

/-- A number with a slipped sign is read as if the sign stood in front, but with one more place. -/
theorem ofChars?_chars (w : SlippedNumber) : Decimal.ofChars? w.chars = w.decimal? := by
  obtain ⟨c, hsign, -⟩ := w.exists_chars_sign
  have hlength : (w.sign.chars ++ w.digits).length = w.digits.length + 1 := by
    rw [hsign]
    rfl
  have hread :=
    Decimal.ofChars?_append [] (some (w.sign.chars ++ w.digits)) w.exponent w.integer?_digits
  rw [Option.getD_some, hlength] at hread
  exact hread

/-- A number whose sign stands behind the point is not spelled as a number: what stands behind the
point there is digits. -/
theorem chars_ne (w : SlippedNumber) (u : SpelledNumber) : u.chars ≠ w.chars := by
  intro h
  have hu : Decimal.splitPoint (u.chars.takeWhile Decimal.notExponentMark)
      = (u.sign.chars ++ u.whole, u.fraction.getD []) :=
    (Decimal.parts_append u.exponent u.integer?_digits).1
  have hw : Decimal.splitPoint (w.chars.takeWhile Decimal.notExponentMark)
      = ([], w.sign.chars ++ w.digits) :=
    (@Decimal.parts_append [] (some _) w.exponent _ w.integer?_digits).1
  obtain ⟨hfront, hbehind⟩ := Prod.mk.inj (hu.symm.trans (h ▸ hw))
  obtain ⟨c, hsign, hc⟩ := w.exists_chars_sign
  have hdigits := u.digits_ok
  rw [(List.append_eq_nil_iff.mp hfront).2, hbehind, hsign] at hdigits
  cases hc.symm.trans (isDigit_of_digitsOK hdigits c List.mem_cons_self)

end SlippedNumber

namespace Decimal

/-- A text that is read is a spelled number, or one whose sign stands behind the point. -/
theorem ofChars?_eq_some_iff {cs : List Char} {d : Decimal} :
    ofChars? cs = some d ↔ (∃ w : SpelledNumber, w.chars = cs ∧ w.decimal? = some d)
      ∨ ∃ w : SlippedNumber, w.chars = cs ∧ w.decimal? = some d := by
  constructor
  · intro h
    obtain ⟨front, fraction, e, rfl, hint⟩ := exists_of_ofChars? h
    obtain ⟨sign, digits, hdigits, hsplit, -⟩ := integer?_eq_some_iff.mp hint
    have hspelled : ∀ whole, front = sign.chars ++ whole → digits = whole ++ fraction.getD [] →
        ∃ w : SpelledNumber,
          w.chars = front ++ pointChars fraction ++ SpelledExponent.chars e
            ∧ w.decimal? = some d := by
      rintro whole rfl rfl
      let w : SpelledNumber := ⟨sign, whole, fraction, e, hdigits⟩
      exact ⟨w, rfl, w.ofChars?_chars.symm.trans h⟩
    rcases List.append_eq_append_iff.mp hsplit with
      ⟨back, hsign, hfraction⟩ | ⟨whole, hfront, hback⟩
    · rcases Sign.chars_eq_append hsign with ⟨rfl, rfl⟩ | ⟨hpresent, rfl, rfl⟩
      · exact Or.inl (hspelled [] (List.append_nil _).symm hfraction.symm)
      · -- Before the point there is nothing, so there is a point.
        cases fraction with
        | none =>
            obtain ⟨-, hnil⟩ := List.append_eq_nil_iff.mp hfraction.symm
            exact absurd hnil (ne_nil_of_digitsOK hdigits)
        | some behind =>
            obtain rfl : behind = sign.chars ++ digits := hfraction
            let w : SlippedNumber := ⟨sign, digits, e, hpresent, hdigits⟩
            exact Or.inr ⟨w, rfl, w.ofChars?_chars.symm.trans h⟩
    · exact Or.inl (hspelled whole hfront hback)
  · rintro (⟨w, rfl, h⟩ | ⟨w, rfl, h⟩)
    · rw [w.ofChars?_chars, h]
    · rw [w.ofChars?_chars, h]

theorem scaleOK_of_ofChars? {cs : List Char} {d : Decimal} (h : ofChars? cs = some d) :
    scaleOK d.scale = true := by
  rcases ofChars?_eq_some_iff.mp h with ⟨w, -, hw⟩ | ⟨w, -, hw⟩
  all_goals
    obtain ⟨hscale, hd⟩ := Option.ite_none_right_eq_some.mp hw
    exact Option.some.inj hd ▸ hscale

end Decimal

end Intake
