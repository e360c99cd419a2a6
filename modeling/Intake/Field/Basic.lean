import Intake.FieldType

/-!
# Field definitions

A schema is a list of field definitions. A definition has a name, a type
(unless the schema is still being written), and attributes that bear on some
types only; `Field.problems` in `Intake.Field.Validation` says which.

The two flags are three-valued: a stored schema tells an absent flag from one
that is `false`, though both mean "off".
-/

namespace Intake

/-- The definition of one field of a schema. -/
structure Field where
  name : String
  type : Option FieldType := none
  /-- A record must have a value for the field. -/
  required : Bool := true
  /-- The width of a text-like field, in characters. -/
  maxLength : Option Count := none
  /-- A text-like field without a limit on its width. -/
  unboundedText : Option Bool := none
  /-- The answers of a multiple choice, in order. -/
  answers : Option (List String) := none
  /-- A multiple choice that takes other answers too. -/
  allowOtherChoices : Option Bool := none
  /-- The file name extension of an attachment. -/
  fileExtension : Option String := none
  /-- The media type of an attachment. -/
  mimeType : Option String := none
  deriving DecidableEq, Repr

namespace Field

def isUnbounded (f : Field) : Bool := f.unboundedText == some true

def allowsOtherChoices (f : Field) : Bool := f.allowOtherChoices == some true

def effectiveMaxLength (f : Field) : Count := f.maxLength.getD defaultMaxLength

/-! ## Size -/

/-- The size of a multiple choice: a column for each answer, and one of text if
other answers are taken. -/
def choiceSize (f : Field) : Size :=
  let n := Count.saturate (f.answers.getD []).length
  if f.allowsOtherChoices then ⟨n * answerBytes, n⟩ + ⟨unboundedTextBytes, 1⟩
  else ⟨n * answerBytes, n⟩

/-- The size of a text-like field, in one column. -/
def textSize (f : Field) : Size :=
  if f.isUnbounded then ⟨unboundedTextBytes, 1⟩
  else ⟨bytesPerCharacter * f.effectiveMaxLength, 1⟩

/-- The size of the field in a row; a field without a type takes up nothing. -/
def size (f : Field) : Size :=
  match f.type with
  | none => Size.zero
  | some t =>
    match t.fixedSize? with
    | some s => s
    | none => if t = .multiChoice then f.choiceSize else f.textSize

def totalSize (fields : List Field) : Size := Size.sum (fields.map size)

end Field

end Intake
