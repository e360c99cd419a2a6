import Intake.Text.Blank
import Intake.Text.Digits

/-!
# Scanning dates and times

The parts that the accepted spellings of dates and times are made of. A `Scan`
takes its part from the front of a text, or fails for one of two causes: the
text does not have that form, or it has the form and a number in it is out of
range. The cause is fixed by what is scanned first, so a month 13 is out of
range whatever follows it.

Numbers may follow blanks and may have fewer digits than their full width.
-/

namespace Intake

/-- Why a text is not a date or a time. -/
inductive Fault where
  /-- It does not have the form of one. -/
  | mismatch
  /-- It has the form, but a part is out of range. -/
  | outOfRange
  deriving DecidableEq, Repr

/-- Takes a part from the front of a text. -/
abbrev Scan (α : Type) := StateT (List Char) (Except Fault) α

namespace Scan

variable {α : Type}

/-- One character, exactly this one. -/
def literal (c : Char) : Scan Unit := fun cs =>
  match cs with
  | x :: rest => if x = c then .ok ((), rest) else .error .mismatch
  | [] => .error .mismatch

/-- Blanks, as many as there are. -/
def blanks : Scan Unit := fun cs => .ok ((), skipBlanks cs)

/-- A number from `low` to `high` in at most `width` digits, after any blanks. -/
def number (width low high : Nat) : Scan Nat := fun cs =>
  let digits := ((skipBlanks cs).take width).takeWhile Char.isDigit
  if digits.isEmpty then .error .mismatch
  else if low ≤ digitsValue digits ∧ digitsValue digits ≤ high then
    .ok (digitsValue digits, (skipBlanks cs).drop digits.length)
  else .error .outOfRange

/-- A year after its sign, in any number of digits; years are kept in 32 bits. -/
def signedYear (negative : Bool) : Scan Int := fun cs =>
  let digits := cs.takeWhile Char.isDigit
  let year := signed negative (digitsValue digits)
  if digits.isEmpty then .error .mismatch
  else if -0x80000000 ≤ year ∧ year < 0x80000000 then .ok (year, cs.dropWhile Char.isDigit)
  else .error .outOfRange

/-- A year after any blanks: up to four digits, or any number of them after a
sign. -/
def year : Scan Int := fun cs =>
  match skipBlanks cs with
  | '-' :: rest => signedYear true rest
  | '+' :: rest => signedYear false rest
  | rest => (number 4 0 9999 rest).map fun r => ((r.1 : Int), r.2)

/-- The nanoseconds that digits after a point stand for: nine of them, with zeros
for those that are missing. -/
def nanoseconds (digits : List Char) : Nat :=
  digitsValue ((digits ++ List.replicate 9 '0').take 9)

/-- The nanoseconds of a fraction of a second, if a point follows; the point
must bring a digit. -/
def fraction : Scan Nat := fun cs =>
  match cs with
  | '.' :: rest =>
    if (rest.takeWhile Char.isDigit).isEmpty then .error .mismatch
    else .ok (nanoseconds (rest.takeWhile Char.isDigit), rest.dropWhile Char.isDigit)
  | rest => .ok (0, rest)

/-- The sign of an offset; `true` is a minus, which may be the one of U+2212. -/
def offsetSign? (c : Char) : Option Bool :=
  if c = '+' then some false
  else if c = '-' ∨ c = '\u2212' then some true
  else none

/-- What may stand between the hours and the minutes of an offset. -/
def isOffsetGap (c : Char) : Bool := c == ':' || isBlank c

/-- The minutes of an offset, if anything follows its hours: two digits, 59 at
most. -/
def offsetMinutes : Scan Nat := fun cs =>
  match cs with
  | [] => .ok (0, [])
  | [_] => .error .mismatch
  | a :: b :: rest =>
    if digitsOK [a, b] then
      if digitsValue [a, b] ≤ 59 then .ok (digitsValue [a, b], rest) else .error .outOfRange
    else .error .mismatch

/-- An offset from UTC in minutes, after any blanks: `Z`, or a sign, two digits
of hours, and the minutes if there are any. -/
def offset : Scan Int := fun cs =>
  match skipBlanks cs with
  | [] => .error .mismatch
  | c :: rest =>
    if c = 'Z' ∨ c = 'z' then .ok (0, rest)
    else
      match offsetSign? c, rest with
      | some negative, a :: b :: rest =>
        if digitsOK [a, b] then
          (offsetMinutes (rest.dropWhile isOffsetGap)).map fun r =>
            (signed negative (60 * digitsValue [a, b] + r.1), r.2)
        else .error .mismatch
      | _, _ => .error .mismatch

/-- The part that makes up all of a text. -/
def whole (s : Scan α) (cs : List Char) : Except Fault α :=
  match s cs with
  | .ok (a, []) => .ok a
  | .ok (_, _ :: _) => .error .mismatch
  | .error f => .error f

/-- The first attempt that succeeds. If none does, the text is out of range if
one attempt found it so. -/
def first : List (Except Fault α) → Except Fault α
  | [] => .error .mismatch
  | .ok a :: _ => .ok a
  | .error .mismatch :: rest => first rest
  | .error .outOfRange :: rest =>
    match first rest with
    | .ok a => .ok a
    | .error _ => .error .outOfRange

end Scan

end Intake
