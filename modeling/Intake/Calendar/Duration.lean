import Intake.Text.Digits

/-!
# ISO-8601 durations

A duration is `P`, then years, months, weeks and days, then, if there are any,
`T` and hours, minutes and seconds. Every amount is optional, but not all of
them may be missing, and a `T` must be followed by one. An amount is a whole
number with an optional minus and its designator letter; the seconds may have
a fraction after a point or a comma.

The letter `M` is months before the `T` and minutes after it, so a text is
read from left to right by taking each designator in its turn.
-/

namespace Intake

/-- An amount of a duration as it is written, without its designator: digits,
and for seconds the mark and the digits of a fraction. -/
structure Amount where
  negative : Bool
  whole : List Char
  fraction : Option (Char × List Char)
  deriving DecidableEq, Repr

namespace Amount

/-- An amount in digits; only where `fractions` are allowed may it have one. -/
def amountOK (fractions : Bool) (a : Amount) : Bool :=
  digitsOK a.whole
    && a.fraction.all fun f => fractions && (f.1 == '.' || f.1 == ',') && digitsOK f.2

def chars (a : Amount) : List Char :=
  (if a.negative then ['-'] else []) ++ a.whole
    ++ (match a.fraction with
        | some f => f.1 :: f.2
        | none => [])

/-- The mark and the digits of a fraction, and what follows them; no fraction
if the text does not begin with one. -/
def takeFraction : List Char → Option (Char × List Char) × List Char
  | c :: rest =>
    if (c == '.' || c == ',') && digitsOK (rest.takeWhile Char.isDigit) then
      (some (c, rest.takeWhile Char.isDigit), rest.dropWhile Char.isDigit)
    else (none, c :: rest)
  | [] => (none, [])

/-- Takes an amount and its designator from the front of a text. -/
def take? (fractions : Bool) (designator : Char) (cs : List Char) :
    Option (Amount × List Char) :=
  let negative := cs.head? == some '-'
  let rest := if negative then cs.tail else cs
  let whole := rest.takeWhile Char.isDigit
  let (fraction, rest) :=
    if fractions then takeFraction (rest.dropWhile Char.isDigit)
    else (none, rest.dropWhile Char.isDigit)
  if digitsOK whole && rest.head? == some designator then
    some (⟨negative, whole, fraction⟩, rest.tail)
  else none

/-- Takes an amount and its designator if the text begins with them. -/
def takeIf (fractions : Bool) (designator : Char) (cs : List Char) :
    Option Amount × List Char :=
  match take? fractions designator cs with
  | some (a, rest) => (some a, rest)
  | none => (none, cs)

end Amount

/-- The amounts of a duration. -/
structure Duration where
  years : Option Amount
  months : Option Amount
  weeks : Option Amount
  days : Option Amount
  hours : Option Amount
  minutes : Option Amount
  seconds : Option Amount
  deriving DecidableEq, Repr

namespace Duration

def hasTime (d : Duration) : Bool := d.hours.isSome || d.minutes.isSome || d.seconds.isSome

def hasDate (d : Duration) : Bool :=
  d.years.isSome || d.months.isSome || d.weeks.isSome || d.days.isSome

def amountChars (designator : Char) : Option Amount → List Char
  | some a => a.chars ++ [designator]
  | none => []

def chars (d : Duration) : List Char :=
  'P' :: amountChars 'Y' d.years ++ amountChars 'M' d.months ++ amountChars 'W' d.weeks
    ++ amountChars 'D' d.days
    ++ (if d.hasTime then
          'T' :: amountChars 'H' d.hours ++ amountChars 'M' d.minutes ++ amountChars 'S' d.seconds
        else [])

/-- The hours, minutes and seconds of a text that begins after the `T`. -/
def timeOfChars? (date : Duration) (cs : List Char) : Option Duration :=
  let (hours, cs) := Amount.takeIf false 'H' cs
  let (minutes, cs) := Amount.takeIf false 'M' cs
  let (seconds, cs) := Amount.takeIf true 'S' cs
  let d := { date with hours, minutes, seconds }
  if cs.isEmpty && d.hasTime then some d else none

/-- Reads a duration that takes up all the text. -/
def ofChars? : List Char → Option Duration
  | 'P' :: cs =>
    let (years, cs) := Amount.takeIf false 'Y' cs
    let (months, cs) := Amount.takeIf false 'M' cs
    let (weeks, cs) := Amount.takeIf false 'W' cs
    let (days, cs) := Amount.takeIf false 'D' cs
    let d : Duration := ⟨years, months, weeks, days, none, none, none⟩
    match cs with
    | [] => if d.hasDate then some d else none
    | 'T' :: cs => timeOfChars? d cs
    | _ => none
  | _ => none

def ofText? (text : String) : Option Duration := ofChars? text.toList

def isDuration (text : String) : Bool := (ofText? text).isSome

end Duration

end Intake
