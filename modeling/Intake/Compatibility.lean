import Intake.Field.Basic

/-!
# Compatible definitions

A field definition of a published schema may be replaced in place if the data
that is there stays valid and still fits its column. `Field.incompatibilities`
lists every reason why it may not.

A type may stay, an integer may become a decimal, and several types may become
text that is wide enough. Widths may grow, flags may be turned on and answers
may be added, but not the other way round. Whether the field is required, and
the attributes of a file, do not bear on compatibility.
-/

namespace Intake

/-- Why a definition cannot take the place of another. -/
inductive Incompatibility where
  | renamed (old new : String)
  | shortened (old new : Count)
  /-- Text of this width is too short for the values of a type. -/
  | tooShort (width : Count) (type : FieldType)
  | retyped (old new : Option FieldType)
  | otherChoicesOff
  | unboundedTextOff
  | answersRemoved (answers : List String)
  deriving DecidableEq, Repr

namespace Incompatibility

/-- A type, or that there is none, in words. -/
def typeName : Option FieldType → String
  | some t => t.name
  | none => "unset"

def message : Incompatibility → String
  | renamed old new => "name changed from '" ++ old ++ "' to '" ++ new ++ "'"
  | shortened old new => "maxLength shrinks from " ++ old.text ++ " to " ++ new.text
  | tooShort width type =>
    "maxLength " ++ width.text ++ " is too short for " ++ type.name
      ++ " values converted to STRING"
  | retyped old new => "type changed from " ++ typeName old ++ " to " ++ typeName new
  | otherChoicesOff => "allowOtherChoices turned off"
  | unboundedTextOff => "unboundedText turned off"
  | answersRemoved answers =>
    "multiChoiceAnswerList removes " ++ String.intercalate ", " answers

end Incompatibility

namespace Field

open Incompatibility

/-- A flag that was on is on no more. -/
def turnedOff (old new : Option Bool) : Bool := old == some true && new != some true

/-- The width of a text must not shrink. -/
def widthProblems (old new : Field) : List Incompatibility :=
  if new.isUnbounded then []
  else if new.effectiveMaxLength < old.effectiveMaxLength then
    [shortened old.effectiveMaxLength new.effectiveMaxLength]
  else []

def becomesTextProblems (old new : Field) (t : FieldType) : List Incompatibility :=
  match t.textWidth? with
  | some width =>
    if !new.isUnbounded && decide (new.effectiveMaxLength ≤ width) then
      [tooShort new.effectiveMaxLength t]
    else []
  | none => if t.isTextLike then widthProblems old new else [retyped old.type new.type]

def typeProblems (old new : Field) : List Incompatibility :=
  if old.type = new.type then
    if new.type.any FieldType.isTextLike then widthProblems old new else []
  else
    match old.type, new.type with
    | some .int, some .float => []
    | some t, some .string => becomesTextProblems old new t
    | _, _ => [retyped old.type new.type]

def removedAnswers (old new : Field) : List String :=
  (old.answers.getD []).filter fun answer => !(new.answers.getD []).contains answer

/-- Every reason why `new` cannot take the place of `old`. -/
def incompatibilities (old new : Field) : List Incompatibility :=
  if old = new then []
  else
    (if old.name = new.name then [] else [renamed old.name new.name])
      ++ typeProblems old new
      ++ (if turnedOff old.allowOtherChoices new.allowOtherChoices then [otherChoicesOff] else [])
      ++ (if turnedOff old.unboundedText new.unboundedText then [unboundedTextOff] else [])
      ++ (if (removedAnswers old new).isEmpty then [] else [answersRemoved (removedAnswers old new)])

/-- `new` may take the place of `old`. -/
def isCompatible (old new : Field) : Bool := (incompatibilities old new).isEmpty

end Field

end Intake
