import Intake.Attachment
import Intake.Attachment.Depot
import Intake.Budget
import Intake.Calendar.Date
import Intake.Calendar.Duration
import Intake.Calendar.Reading
import Intake.Calendar.Scan
import Intake.Calendar.TimeOfDay
import Intake.Calendar.Timestamp
import Intake.Canonical
import Intake.Compatibility
import Intake.Count
import Intake.Decimal
import Intake.Diagnostic
import Intake.Dict
import Intake.Field.Basic
import Intake.Field.Stored
import Intake.Field.Validation
import Intake.FieldType
import Intake.Json.Basic
import Intake.Json.Numeral
import Intake.Json.Printer
import Intake.Json.Quoted
import Intake.Json.Reader
import Intake.Json.Row
import Intake.Json.Token
import Intake.Json.Written
import Intake.Name
import Intake.Record
import Intake.Revision
import Intake.Size
import Intake.Text.Blank
import Intake.Text.Digits
import Intake.Proofs.Calendar.Scanning
import Intake.Proofs.Calendar.RoundTrip
import Intake.Proofs.FixedPoints
import Intake.Proofs.Compatibility
import Intake.Proofs.Revisions
import Intake.Proofs.Records
import Intake.Proofs.Survival
import Intake.Proofs.Calendar.Lengths
import Intake.Proofs.Width
import Intake.Proofs.Reports
import Intake.Proofs.Required
import Intake.Proofs.Attachments
import Intake.Proofs.Decimals
import Intake.Proofs.Calendar.Instants
import Intake.Proofs.Timestamps
import Intake.Proofs.Dictionaries
import Intake.Proofs.Substitution
import Intake.Proofs.Outcomes
import Intake.Proofs.Sizes
import Intake.Proofs.Validation
import Intake.Proofs.Layout
import Intake.Proofs.Json.Lexing
import Intake.Proofs.Json.Parsing
import Intake.Proofs.Json.Rows
import Intake.Proofs.Stored
import Intake.Proofs.Calendar.Window
import Intake.Proofs.Refusals
import Intake.Proofs.CalendarDates
import Intake.Proofs.Calendar.Spellings
import Intake.Proofs.WrittenTimestamps
import Intake.Proofs.Integers
import Intake.Proofs.WrittenDates
import Intake.Proofs.Calendar.Openings
import Intake.Proofs.SpelledNumbers
import Intake.Proofs.Json.Numerals
import Intake.Proofs.Floats
import Intake.Proofs.Answers
import Intake.Proofs.Budgets
import Intake.Proofs.Calendar.Durations
import Intake.Proofs.Resemblance
import Intake.Proofs.ValidReplacements
import Intake.Proofs.Truncation
import Intake.Proofs.Violations
import Intake.Proofs.Json.Values
import Intake.Proofs.Strings
