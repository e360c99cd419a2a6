import Intake.Calendar.Scan
import Intake.Calendar.Timestamp

/-!
# Reading dates, times and timestamps

Clients write timestamps in a few variations of one form: a `T` or blanks
between date and time, seconds with an optional fraction or none, and an
offset from UTC or none, which means UTC. That makes eight layouts
(`Layout.all`), tried in order. Times of day have the two layouts with and
without seconds, and a calendar date is taken from the first ten bytes of a
text, whatever follows it.
-/

namespace Intake

/-- Why a text is refused as a date, a time or a timestamp. -/
inductive CalendarError where
  /-- It is empty or blank. -/
  | empty
  /-- It has none of the forms that are read. -/
  | invalidFormat (text : String)
  /-- It has such a form, but names no date, time or offset that there is. -/
  | outOfRange (text : String)
  deriving DecidableEq, Repr

namespace CalendarError

def message : CalendarError → String
  | empty => "empty string"
  | invalidFormat text => "invalid format: " ++ text
  | outOfRange text => "out of range: " ++ text

def ofFault (text : String) : Fault → CalendarError
  | .mismatch => invalidFormat text
  | .outOfRange => outOfRange text

end CalendarError

namespace Scan

/-- Year, month and day with hyphens between them; whether there is such a date
is not asked. -/
def yearMonthDay : Scan (Int × Nat × Nat) := do
  let y ← year
  literal '-'
  let m ← number 2 1 12
  literal '-'
  let d ← number 2 1 31
  return (y, m, d)

/-- Hours and minutes, and seconds with any fraction if the layout has them,
with colons between them. -/
def timeOfDay (hasSeconds : Bool) : Scan (Nat × Nat × Nat × Nat) := do
  let h ← number 2 0 23
  literal ':'
  let m ← number 2 0 59
  if hasSeconds then
    literal ':'
    let s ← number 2 0 60
    let f ← fraction
    return (h, m, s, f)
  else
    return (h, m, 0, 0)

end Scan

/-! ## Layouts -/

/-- One variation of the form of a timestamp. -/
structure Layout where
  /-- A `T` stands between date and time; otherwise any blanks, or nothing. -/
  letter : Bool
  hasSeconds : Bool
  hasOffset : Bool
  deriving DecidableEq, Repr

namespace Layout

/-- Every layout, in the order in which they are tried. -/
def all : List Layout :=
  [⟨true, true, true⟩, ⟨true, false, true⟩, ⟨false, true, true⟩, ⟨false, false, true⟩,
    ⟨true, true, false⟩, ⟨true, false, false⟩, ⟨false, true, false⟩, ⟨false, false, false⟩]

def separator (l : Layout) : Scan Unit := if l.letter then Scan.literal 'T' else Scan.blanks

/-- The offset in minutes, after any blanks; zero in a layout without one. -/
def offset (l : Layout) : Scan Int := if l.hasOffset then Scan.offset else pure 0

def parts (l : Layout) : Scan ((Int × Nat × Nat) × (Nat × Nat × Nat × Nat) × Int) := do
  let date ← Scan.yearMonthDay
  l.separator
  let time ← Scan.timeOfDay l.hasSeconds
  let offset ← l.offset
  return (date, time, offset)

end Layout

/-! ## From parts to values -/

def Date.ofParts (p : Int × Nat × Nat) : Except Fault Date :=
  match Date.ofYMD? p.1 p.2.1 p.2.2 with
  | some d => if d.supported then .ok d else .error .outOfRange
  | none => .error .outOfRange

def TimeOfDay.ofParts (p : Nat × Nat × Nat × Nat) : Except Fault TimeOfDay :=
  match TimeOfDay.ofParts? p.1 p.2.1 p.2.2.1 p.2.2.2 with
  | some t => .ok t
  | none => .error .outOfRange

def Timestamp.ofParts (p : (Int × Nat × Nat) × (Nat × Nat × Nat × Nat) × Int) :
    Except Fault Timestamp := do
  let date ← Date.ofParts p.1
  let time ← TimeOfDay.ofParts p.2.1
  match (Offset.ofMinutes? p.2.2).bind (Timestamp.ofLocal? ⟨date, time⟩) with
  | some t => .ok t
  | none => .error .outOfRange

/-! ## Reading -/

/-- The text without the blanks at its ends, unless nothing is left. -/
def trimmed (text : String) : Except CalendarError (List Char) :=
  if (trimBlanks text.toList).isEmpty then .error .empty else .ok (trimBlanks text.toList)

/-- The characters in the first `n` bytes of a text, if the text has so many
bytes and no character stands across the end of them. -/
def takeBytes? : Nat → List Char → Option (List Char)
  | 0, _ => some []
  | _ + 1, [] => none
  | n + 1, c :: rest =>
    if c.utf8Size ≤ n + 1 then (takeBytes? (n + 1 - c.utf8Size) rest).map (c :: ·) else none

def Date.ofChars (cs : List Char) : Except Fault Date :=
  match takeBytes? 10 cs with
  | some front => (Scan.yearMonthDay.whole front).bind Date.ofParts
  | none => .error .mismatch

/-- Reads a calendar date from the first ten bytes of a text. -/
def Date.read (text : String) : Except CalendarError Date := do
  let cs ← trimmed text
  (Date.ofChars cs).mapError (CalendarError.ofFault (String.ofList cs))

def TimeOfDay.ofChars (cs : List Char) : Except Fault TimeOfDay :=
  Scan.first ([true, false].map fun hasSeconds =>
    ((Scan.timeOfDay hasSeconds).whole cs).bind TimeOfDay.ofParts)

def TimeOfDay.read (text : String) : Except CalendarError TimeOfDay := do
  let cs ← trimmed text
  (TimeOfDay.ofChars cs).mapError (CalendarError.ofFault (String.ofList cs))

/-- The text with a last `Z` written out as the offset zero. -/
def spellOutZ (cs : List Char) : List Char :=
  if cs.getLast? = some 'Z' then cs.dropLast ++ ['+', '0', '0', ':', '0', '0'] else cs

/-- The timestamp in the first layout that fits. -/
def Timestamp.ofChars (cs : List Char) : Except Fault Timestamp :=
  Scan.first (Layout.all.map fun l => (l.parts.whole (spellOutZ cs)).bind Timestamp.ofParts)

/-- Reads a timestamp; one without an offset is in UTC. -/
def Timestamp.read (text : String) : Except CalendarError Timestamp := do
  let cs ← trimmed text
  (Timestamp.ofChars cs).mapError (CalendarError.ofFault (String.ofList cs))

end Intake
