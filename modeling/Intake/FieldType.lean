import Intake.Name
import Intake.Size
import Intake.Text.Blank

/-!
# Field types

The closed set of types that a field may have, with their names in stored
schemas and what the table store needs for them. Thirteen types have a fixed
size; the size of a text-like type or of a multiple choice comes from the
definition of the field.
-/

namespace Intake

inductive FieldType where
  /-- A file that is stored as it is. -/
  | attachmentBlob
  /-- A file of comma-separated values. -/
  | attachmentCsv
  /-- A JSON file that is stored as it is. -/
  | attachmentJsonBlob
  /-- A JSON file with rows of a table. -/
  | attachmentJsonTable
  /-- A file with its file name extension and its media type. -/
  | attachmentV2
  | boolean
  /-- A date, as `YYYY-MM-DD`. -/
  | calendarDate
  /-- An ISO-8601 duration. -/
  | durationV2
  /-- A decimal of any precision. -/
  | float
  /-- A small JSON value, stored in the row. -/
  | inlineJsonBlob
  /-- An integer of any precision. -/
  | int
  /-- Text that is too large for the row. -/
  | largeTextAttachment
  /-- Any number of answers from a list. -/
  | multiChoice
  /-- One answer. -/
  | singleChoice
  /-- Text in the row. -/
  | string
  /-- A time of day, as `HH:MM:SS.mmm`. -/
  | timeV2
  /-- A point in time. -/
  | timestamp
  deriving DecidableEq, Repr

/-- The width of text-like fields that declare none, in characters. -/
def defaultMaxLength : Count := 100

/-- The bytes that the table store sets aside for a character. -/
def bytesPerCharacter : Count := 3

/-- The bytes set aside for text without a declared width. -/
def unboundedTextBytes : Count := 3000

/-- The bytes of the column that a multiple-choice answer has. -/
def answerBytes : Count := 5

namespace FieldType

def all : List FieldType :=
  [attachmentBlob, attachmentCsv, attachmentJsonBlob, attachmentJsonTable, attachmentV2, boolean,
    calendarDate, durationV2, float, inlineJsonBlob, int, largeTextAttachment, multiChoice,
    singleChoice, string, timeV2, timestamp]

def name : FieldType → String
  | attachmentBlob => "ATTACHMENT_BLOB"
  | attachmentCsv => "ATTACHMENT_CSV"
  | attachmentJsonBlob => "ATTACHMENT_JSON_BLOB"
  | attachmentJsonTable => "ATTACHMENT_JSON_TABLE"
  | attachmentV2 => "ATTACHMENT_V2"
  | boolean => "BOOLEAN"
  | calendarDate => "CALENDAR_DATE"
  | durationV2 => "DURATION_V2"
  | float => "FLOAT"
  | inlineJsonBlob => "INLINE_JSON_BLOB"
  | int => "INT"
  | largeTextAttachment => "LARGE_TEXT_ATTACHMENT"
  | multiChoice => "MULTI_CHOICE"
  | singleChoice => "SINGLE_CHOICE"
  | string => "STRING"
  | timeV2 => "TIME_V2"
  | timestamp => "TIMESTAMP"

/-! ## Names -/

def ofName? (s : String) : Option FieldType := all.find? fun t => t.name == s

/-- The type that a text names, in upper or lower case and with any blanks
around it. -/
def ofText? (text : String) : Option FieldType :=
  all.find? fun t => Name.sameIgnoringCase t.name (String.ofList (trimBlanks text.toList))

def unknownMessage (text : String) : String := "Unknown field type '" ++ text ++ "'"

def toJson (t : FieldType) : Json := .string t.name

/-- Reads a type: its name, or an object with its name as the only key and
`null` as the value. -/
def ofWritten? : Written → Option FieldType
  | .string name => (Piece.text? name).bind ofName?
  | .object [(name, .null)] => (Piece.text? name).bind ofName?
  | _ => none

/-! ## Classes -/

/-- Values of the type are stored outside the row. -/
def isAttachment : FieldType → Bool
  | attachmentBlob | attachmentCsv | attachmentJsonBlob | attachmentJsonTable | attachmentV2
  | largeTextAttachment => true
  | _ => false

/-- The width of the column comes from the definition of the field. -/
def isTextLike : FieldType → Bool
  | string | singleChoice | inlineJsonBlob => true
  | _ => false

/-! ## Sizes -/

/-- The size of every field of the type, if it does not depend on the
definition. A timestamp has a second column, for its offset. -/
def fixedSize? : FieldType → Option Size
  | attachmentBlob | attachmentCsv | attachmentJsonBlob | attachmentJsonTable
  | attachmentV2 => some ⟨20, 1⟩
  | boolean => some ⟨5, 1⟩
  | calendarDate => some ⟨30, 1⟩
  | durationV2 => some ⟨72, 1⟩
  | float => some ⟨23, 1⟩
  | int => some ⟨20, 1⟩
  | largeTextAttachment => some ⟨unboundedTextBytes, 1⟩
  | timeV2 => some ⟨36, 1⟩
  | timestamp => some ⟨35, 2⟩
  | inlineJsonBlob | multiChoice | singleChoice | string => none

/-- The width that the text of a value is counted with, for the types whose
fields may become text fields. -/
def textWidth? : FieldType → Option Count
  | calendarDate => some 10
  | timeV2 => some 12
  | int => some 20
  | float => some 22
  | durationV2 => some 24
  | _ => none

end FieldType

end Intake
