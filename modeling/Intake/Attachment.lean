import Intake.Field.Basic

/-!
# Attachments

The values of attachment fields are stored outside the record, which keeps a
reference in their place. What stores them is an `Uploader`; its state is
threaded through, so that an upload which fails half way leaves behind what it
had stored before. `Shelf` is the uploader that keeps attachments in memory,
under their references.
-/

namespace Intake

/-- An attachment that could not be stored. -/
structure AttachmentError where
  field : String
  reason : String
  deriving DecidableEq, Repr

namespace AttachmentError

def message (e : AttachmentError) : String :=
  "Attachment upload failed for field '" ++ e.field ++ "': " ++ e.reason

end AttachmentError

/-- The reference to the attachment of a field in an upload. -/
def attachmentReference (uploadId field : String) : String := uploadId ++ "-" ++ field

/-- Stores one attachment and gives the reference to it. -/
abbrev Uploader (σ : Type) := (value : Json) → (uploadId field : String) →
  ExceptT AttachmentError (StateM σ) String

namespace Uploader

variable {σ : Type}

/-- The uploader that fails for the named fields, and else does what `u` does. -/
def refusing (u : Uploader σ) (names : List String) (reason : String) : Uploader σ :=
  fun value uploadId field =>
    if names.contains field then throw ⟨field, reason⟩ else u value uploadId field

/-- The value that a record has for an attachment field, `null` apart. -/
def attachment? (values : Dict Json) (f : Field) : Option Json :=
  if f.type.any FieldType.isAttachment then
    (values.get? f.name).filter fun v => !v.isNull
  else none

/-- Uploads the attachment of one field, and puts the reference in its place. -/
def substitute (u : Uploader σ) (values : Dict Json) (uploadId : String) (output : Dict Json)
    (f : Field) : ExceptT AttachmentError (StateM σ) (Dict Json) :=
  match attachment? values f with
  | none => pure output
  | some v => do
    let reference ← u v uploadId f.name
    return output.insert f.name (.string reference)

/-- Uploads the attachments of a record, field by field, and gives the record
with references in their place. The first failure ends it. -/
def upload (u : Uploader σ) (fields : List Field) (values : Dict Json) (uploadId : String) :
    ExceptT AttachmentError (StateM σ) (Dict Json) :=
  fields.foldlM (u.substitute values uploadId) values

end Uploader

/-- Attachments in memory, under their references. -/
abbrev Shelf := Dict Json

namespace Shelf

/-- Stores attachments under the names that `attachmentReference` gives. -/
def uploader : Uploader Shelf := fun value uploadId field => do
  modify fun shelf => shelf.insert (attachmentReference uploadId field) value
  return attachmentReference uploadId field

end Shelf

end Intake
