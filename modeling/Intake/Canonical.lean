import Intake.Calendar.Duration
import Intake.Calendar.Reading
import Intake.Decimal
import Intake.FieldType

/-!
# Canonical values

Clients write one value in several ways; a value is stored in the one form that
its field's type lays down, or it is rejected for a reason. `null` and an
absent value are canonical for every type.

`FieldType.canonical` holds the rule of each type:

- attachments and inline JSON are taken as they are;
- a number is carried over digit for digit, or cut down to its integer part;
- dates, times and timestamps are read and written anew, durations only read;
- an answer of a single choice becomes a string, and the answers of a multiple
  choice become names (`Name.sanitizeAnswer`).
-/

namespace Intake

/-- Why a value is not one of a type. -/
inductive Reason where
  | emptyString
  | notABoolean
  | notANumber
  | numberOutOfRange
  | notADuration
  | epochOutOfRange
  | notAString
  | notAnArray
  | notOneAnswer (answers : Nat)
  | unsupported
  | calendar (e : CalendarError)
  deriving DecidableEq, Repr

namespace Reason

def message : Reason → String
  | emptyString => "empty string"
  | notABoolean => "expected \"true\" or \"false\""
  | notANumber => "not a number"
  | numberOutOfRange => "number out of range"
  | notADuration => "not an ISO-8601 duration"
  | epochOutOfRange => "epoch milliseconds out of range"
  | notAString => "expected a string"
  | notAnArray => "expected an array"
  | notOneAnswer answers => "expected exactly one answer, got " ++ answers.repr
  | unsupported => "unsupported JSON type"
  | calendar e => e.message

end Reason

/-- A value that is rejected as one of a type. -/
structure Rejection where
  type : FieldType
  value : Json
  reason : Reason
  deriving DecidableEq, Repr

namespace Rejection

def kind : Json → String
  | .null => "null"
  | .bool _ => "boolean"
  | .number _ => "number"
  | .string _ => "string"
  | .array _ => "array"
  | .object _ => "object"

def message (r : Rejection) : String :=
  "Invalid " ++ r.type.name ++ " value " ++ kind r.value ++ " " ++ r.value.text ++ ": "
    ++ r.reason.message

end Rejection

namespace Canonical

/-! ## Numbers -/

/-- The integer part of the number that a text writes. -/
def intOfText (text : String) : Except Reason Json :=
  match Decimal.ofText? text with
  | none => .error .notANumber
  | some d =>
    match d.truncate? with
    | some i => .ok (.number (Numeral.ofInt i))
    | none => .error .numberOutOfRange

/-- An integer: a number in plain digits as it is, any other by its integer
part. -/
def int : Json → Except Reason Json
  | .number n => if n.isIntegral then .ok (.number n) else intOfText n.text
  | .string s => if s.isEmpty then .error .emptyString else intOfText s
  | _ => .error .unsupported

/-- A decimal: a number as it is, a text by the number that it writes. -/
def float : Json → Except Reason Json
  | .number n => .ok (.number n)
  | .string s =>
    if s.isEmpty then .error .emptyString
    else
      match Decimal.ofText? s with
      | none => .error .notANumber
      | some d =>
        match Numeral.ofDecimalText? s d with
        | some n => .ok (.number n)
        | none => .error .numberOutOfRange
  | _ => .error .unsupported

/-- A truth value: `true` and `false` as values or as texts, or an integer,
which is true unless it is zero. -/
def boolean : Json → Except Reason Json
  | .bool b => .ok (.bool b)
  | .number n =>
    if n.isIntegral then
      match n.integer? with
      | some i => .ok (.bool (i != 0))
      | none => .error .numberOutOfRange
    else .error .unsupported
  | .string s =>
    if s.isEmpty then .error .emptyString
    else if Name.sameIgnoringCase s "true" then .ok (.bool true)
    else if Name.sameIgnoringCase s "false" then .ok (.bool false)
    else .error .notABoolean
  | _ => .error .unsupported

/-! ## Dates and times -/

/-- A value of the calendar, or the reason why there is none. -/
def ofCalendar {α : Type} (write : α → String) (read : Except CalendarError α) :
    Except Reason Json :=
  match read with
  | .ok a => .ok (.string (write a))
  | .error e => .error (.calendar e)

def calendarDate : Json → Except Reason Json
  | .string s => ofCalendar Date.text (Date.read s)
  | _ => .error .notAString

/-- A duration, as it is written. -/
def duration : Json → Except Reason Json
  | .string s =>
    if s.isEmpty then .error .emptyString
    else if Duration.isDuration s then .ok (.string s)
    else .error .notADuration
  | _ => .error .notAString

/-- A time of day: that of a timestamp on its own clock, or one that stands
alone. -/
def readTime (s : String) : Except CalendarError TimeOfDay :=
  match Timestamp.read s with
  | .ok t => .ok t.localTime
  | .error _ => TimeOfDay.read s

def time : Json → Except Reason Json
  | .string s => ofCalendar TimeOfDay.text (readTime s)
  | _ => .error .notAString

/-- A point in time: a timestamp, or the integer part of a number as
milliseconds since 1970. -/
def timestamp : Json → Except Reason Json
  | .number n =>
    match n.integer?.bind Timestamp.ofEpochMillis? with
    | some t => .ok (.string t.text)
    | none => .error .epochOutOfRange
  | .string s => ofCalendar Timestamp.text (Timestamp.read s)
  | _ => .error .unsupported

/-! ## Choices -/

/-- One answer, which may stand in an array of its own. -/
def singleChoice : Json → Except Reason Json
  | .array [v] => .ok v.asStringValue
  | .array answers => .error (.notOneAnswer answers.length)
  | v => .ok v.asStringValue

/-- Answers, each as a name. -/
def multiChoice : Json → Except Reason Json
  | .array answers => .ok (.array (answers.map fun v => .string (Name.sanitizeAnswer v.asText)))
  | _ => .error .notAnArray

end Canonical

namespace FieldType

/-- The canonical form of a value that is not `null`. -/
def canonicalForm : FieldType → Json → Except Reason Json
  | attachmentBlob, v | attachmentCsv, v | attachmentJsonBlob, v | attachmentJsonTable, v
  | attachmentV2, v | largeTextAttachment, v | inlineJsonBlob, v => .ok v
  | boolean, v => Canonical.boolean v
  | calendarDate, v => Canonical.calendarDate v
  | durationV2, v => Canonical.duration v
  | float, v => Canonical.float v
  | int, v => Canonical.int v
  | multiChoice, v => Canonical.multiChoice v
  | singleChoice, v => Canonical.singleChoice v
  | string, v => .ok v.asStringValue
  | timeV2, v => Canonical.time v
  | timestamp, v => Canonical.timestamp v

/-- The canonical form of a value for the type; `null` is its own. -/
def canonical (t : FieldType) (v : Json) : Except Rejection Json :=
  if v.isNull then .ok .null else (t.canonicalForm v).mapError fun r => ⟨t, v, r⟩

/-- The canonical form of a value that may be absent, and then stays absent. -/
def canonical? (t : FieldType) : Option Json → Except Rejection (Option Json)
  | none => .ok none
  | some v => (t.canonical v).map some

end FieldType

end Intake
