import Intake.Diagnostic
import Intake.Field.Basic

/-!
# Validation of field definitions

A definition is valid if its name is a field name, it has a type, and it sets
only attributes that bear on that type, with values that make sense. Every
rule that is violated is reported (`Field.problems`), in a fixed order; an
answer list is gone through entry by entry.
-/

namespace Intake

/-- A rule that a field definition violates. -/
inductive FieldProblem where
  | invalidName (name : String)
  | typeMissing
  | answersMissing
  | invalidAnswer (answer : String)
  | duplicateAnswer (answer : String)
  | otherChoicesNotAllowed (type : FieldType)
  | maxLengthZero
  | maxLengthWithUnboundedText
  | maxLengthNotAllowed (type : FieldType)
  | unboundedTextNotAllowed (type : FieldType)
  | fileExtensionNotAllowed (type : FieldType)
  | mimeTypeNotAllowed (type : FieldType)
  deriving DecidableEq, Repr

namespace FieldProblem

def message : FieldProblem → String
  | invalidName name => "name '" ++ name ++ "' is not a valid field name"
  | typeMissing => "type must be specified"
  | answersMissing => "multiChoiceAnswerList must be specified"
  | invalidAnswer answer =>
    "multiChoiceAnswerList contains invalid answer choice '" ++ answer ++ "'"
  | duplicateAnswer answer =>
    "multiChoiceAnswerList contains duplicate answer choice '" ++ answer ++ "'"
  | otherChoicesNotAllowed type => "allowOtherChoices is not allowed for " ++ type.name
  | maxLengthZero => "maxLength must be positive"
  | maxLengthWithUnboundedText => "maxLength can't be specified with unboundedText"
  | maxLengthNotAllowed type => "maxLength is not allowed for " ++ type.name
  | unboundedTextNotAllowed type => "unboundedText is not allowed for " ++ type.name
  | fileExtensionNotAllowed type => "fileExtension is not allowed for " ++ type.name
  | mimeTypeNotAllowed type => "mimeType is not allowed for " ++ type.name

/-- A problem, if there is one. -/
def when (violated : Bool) (problem : FieldProblem) : List FieldProblem :=
  if violated then [problem] else []

end FieldProblem

namespace Field

open FieldProblem

/-- The problems of an answer list after the answers in `seen`. -/
def answerProblems (seen : List String) : List String → List FieldProblem
  | [] => []
  | answer :: rest =>
    when (!Name.isAnswerChoice answer) (invalidAnswer answer)
      ++ when (seen.contains answer) (duplicateAnswer answer)
      ++ answerProblems (answer :: seen) rest

def choiceProblems (f : Field) (t : FieldType) : List FieldProblem :=
  if t = .multiChoice then
    match f.answers with
    | none => [answersMissing]
    | some answers => answerProblems [] answers
  else when f.allowOtherChoices.isSome (otherChoicesNotAllowed t)

def textProblems (f : Field) (t : FieldType) : List FieldProblem :=
  if t.isTextLike then
    when (f.maxLength == some 0) maxLengthZero
      ++ when (f.maxLength.isSome && f.isUnbounded) maxLengthWithUnboundedText
  else
    when f.maxLength.isSome (maxLengthNotAllowed t)
      ++ when f.unboundedText.isSome (unboundedTextNotAllowed t)

def fileProblems (f : Field) (t : FieldType) : List FieldProblem :=
  if t = .attachmentV2 then []
  else
    when f.fileExtension.isSome (fileExtensionNotAllowed t)
      ++ when f.mimeType.isSome (mimeTypeNotAllowed t)

/-- Every rule that the definition violates. Without a type, none of the rules
about attributes applies. -/
def problems (f : Field) : List FieldProblem :=
  when (!Name.isFieldName f.name) (invalidName f.name)
    ++ match f.type with
       | none => [typeMissing]
       | some t => f.choiceProblems t ++ f.textProblems t ++ f.fileProblems t

end Field

/-- A field definition that is refused, and why. -/
structure InvalidField where
  field : String
  problems : List FieldProblem
  deriving DecidableEq, Repr

namespace InvalidField

def message (e : InvalidField) : String :=
  "Invalid field definition '" ++ e.field ++ "': "
    ++ String.intercalate "; " (e.problems.map FieldProblem.message)

def diagnostic (e : InvalidField) : Diagnostic :=
  ({ code := Diagnostic.invalidFieldCode, summary := e.message } : Diagnostic).withContext
    "field" e.field

end InvalidField

def Field.validate (f : Field) : Except InvalidField Unit :=
  if f.problems.isEmpty then .ok () else .error ⟨f.name, f.problems⟩

end Intake
