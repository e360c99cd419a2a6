import Intake.Canonical
import Intake.Field.Basic

/-!
# Records

An uploaded record is brought into canonical form field by field. Its keys are
sanitized first; of several keys that become one the last counts, in the order
of the keys as uploaded. Then each field of the schema is looked up, and its
outcome (`Field.outcome`) depends on that field and on its own value alone:
one bad value neither hides nor spoils another. Keys without a field are left
out.
-/

namespace Intake

/-- Why a field of a record fails. -/
inductive FieldFault where
  | missing
  | untyped
  | rejected (r : Rejection)
  deriving DecidableEq, Repr

namespace FieldFault

def message : FieldFault → String
  | missing => "Required field is missing"
  | untyped => "Field has no declared type"
  | rejected r => r.message

end FieldFault

/-- A field of a record that fails. -/
structure FieldError where
  field : String
  fault : FieldFault
  deriving DecidableEq, Repr

namespace FieldError

/-- What went wrong, after the name of the field. -/
def text (e : FieldError) : String := e.field ++ ": " ++ e.fault.message

end FieldError

/-- What becomes of a field of a record. -/
inductive Outcome where
  /-- The record has no value for it, and need not have one. -/
  | absent
  | value (v : Json)
  | failed (fault : FieldFault)
  deriving DecidableEq, Repr

namespace Outcome

def value? : Outcome → Option Json
  | value v => some v
  | _ => none

def fault? : Outcome → Option FieldFault
  | failed fault => some fault
  | _ => none

end Outcome

/-- The outcome of a field for the value that the record has for it; `null`
counts as no value. -/
def Field.outcome (f : Field) (raw : Option Json) : Outcome :=
  match raw.filter fun v => !v.isNull with
  | none => if f.required then .failed .missing else .absent
  | some v =>
    match f.type with
    | none => .failed .untyped
    | some t =>
      match t.canonical v with
      | .ok w => .value w
      | .error r => .failed (.rejected r)

namespace Record

/-- The record under sanitized keys. -/
def sanitizeKeys (record : Dict Json) : Dict Json := record.mapKeys Name.sanitizeKey

/-- The outcome of a field, looked up in a record with sanitized keys. -/
def outcome (sanitized : Dict Json) (f : Field) : Outcome := f.outcome (sanitized.get? f.name)

/-- The canonical values of the fields that have one; of fields with one name
the last counts. -/
def values (fields : List Field) (record : Dict Json) : Dict Json :=
  Dict.ofList <| fields.filterMap fun f =>
    (outcome (sanitizeKeys record) f).value?.map fun v => (f.name, v)

/-- The fields that fail, in the order of the schema. -/
def errors (fields : List Field) (record : Dict Json) : List FieldError :=
  fields.filterMap fun f =>
    (outcome (sanitizeKeys record) f).fault?.map fun fault => ⟨f.name, fault⟩

/-- The canonical values of a record, or every field that fails. -/
def canonical (fields : List Field) (record : Dict Json) : Except (List FieldError) (Dict Json) :=
  if (errors fields record).isEmpty then .ok (values fields record)
  else .error (errors fields record)

end Record

end Intake
