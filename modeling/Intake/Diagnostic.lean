import Intake.Json.Row

/-!
# Diagnostics

What is told about a rejected operation on a schema: a code that stays the
same over time, a summary, a hint if there is one, and further details under
keys. The three codes belong to the three operations that reject a schema.
-/

namespace Intake

/-- A note about a rejected operation. -/
structure Diagnostic where
  code : String
  summary : String
  hint : Option String := none
  context : Dict String := Dict.empty

namespace Diagnostic

/-- A field definition is not valid. -/
def invalidFieldCode : String := "UPLOAD-001-FIELD"

/-- A revision of a schema breaks data that is already there. -/
def incompatibleRevisionCode : String := "UPLOAD-002-REVISION"

/-- A schema does not fit into a table row. -/
def budgetExceededCode : String := "UPLOAD-003-BUDGET"

/-- The note with a further detail. -/
def withContext (d : Diagnostic) (key value : String) : Diagnostic :=
  { d with context := d.context.insert key value }

/-- The note as an object, its keys in ascending order. -/
def toJson (d : Diagnostic) : Json :=
  .object <|
    [("code", .string d.code),
      ("context", .object (d.context.entries.map fun e => (e.1, .string e.2)))]
      ++ Json.member? "fix_hint" .string d.hint ++ [("summary", .string d.summary)]

def ofWritten? (v : Written) : Option Diagnostic := do
  match ← v.row? ["code", "summary", "fix_hint", "context"] 3 with
  | [code, summary, hint, context] =>
    return {
      code := ← Written.required Written.text? code
      summary := ← Written.required Written.text? summary
      hint := ← Written.optional Written.text? hint
      context := ← Written.withDefault Dict.empty (Written.dictOf? Written.text?) context }
  | _ => none

end Diagnostic

end Intake
