import Intake.Field.Basic

/-!
# Field definitions in stored schemas

The JSON form of a field definition. Only the name must be given; `required`
is on by default and every other attribute absent. An attribute that is absent
is not written.
-/

namespace Intake

namespace Field

/-- The keys of a stored definition, in the order of the structure. -/
def storedKeys : List String :=
  ["name", "type", "required", "maxLength", "unboundedText", "multiChoiceAnswerList",
    "allowOtherChoices", "fileExtension", "mimeType"]

def toJson (f : Field) : Json :=
  .object <|
    [("name", .string f.name)]
      ++ Json.member? "type" FieldType.toJson f.type
      ++ [("required", .bool f.required)]
      ++ Json.member? "maxLength" Json.ofCount f.maxLength
      ++ Json.member? "unboundedText" .bool f.unboundedText
      ++ Json.member? "multiChoiceAnswerList" Json.ofTexts f.answers
      ++ Json.member? "allowOtherChoices" .bool f.allowOtherChoices
      ++ Json.member? "fileExtension" .string f.fileExtension
      ++ Json.member? "mimeType" .string f.mimeType

def ofWritten? (v : Written) : Option Field := do
  match ← v.row? storedKeys 1 with
  | [name, type, required, maxLength, unboundedText, answers, allowOtherChoices, fileExtension,
      mimeType] =>
    return {
      name := ← Written.required Written.text? name
      type := ← Written.optional FieldType.ofWritten? type
      required := ← Written.withDefault true Written.bool? required
      maxLength := ← Written.optional Written.count? maxLength
      unboundedText := ← Written.optional Written.bool? unboundedText
      answers := ← Written.optional (Written.list? Written.text?) answers
      allowOtherChoices := ← Written.optional Written.bool? allowOtherChoices
      fileExtension := ← Written.optional Written.text? fileExtension
      mimeType := ← Written.optional Written.text? mimeType }
  | _ => none

def text (f : Field) : String := f.toJson.text

def ofText? (text : String) : Option Field := (Written.read? text).bind ofWritten?

def listOfText? (text : String) : Option (List Field) :=
  (Written.read? text).bind (Written.list? ofWritten?)

def listText (fields : List Field) : String := (Json.array (fields.map toJson)).text

end Field

end Intake
