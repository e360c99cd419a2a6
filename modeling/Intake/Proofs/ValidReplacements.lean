import Intake.Proofs.Resemblance
import Intake.Proofs.Validation

/-!
# Replacing a valid definition by one of the same type

Most attributes bear on some types only, and a valid definition of another type does not have
them: there is then no width that could shrink and no flag that could be turned off. The list of
answers is the one attribute of this kind that a definition of any type may have and stay valid.
The rules of compatibility look at it whatever the type is, so where types are neither like text
nor a multiple choice, answers that are dropped are the one reason against a replacement.
-/

namespace Intake

namespace Field

open Incompatibility

variable {old new : Field} {t : FieldType}

theorem typeProblems_of_same (htype : old.type = some t) (htype' : new.type = some t)
    (htext : t.isTextLike = false) : old.typeProblems new = [] := by
  rw [typeProblems, if_pos (htype.trans htype'.symm), htype', Option.any_some, htext,
    if_neg Bool.false_ne_true]

/-- No rule but the one about answers finds a reason. -/
theorem reasons_of_validate (hold : old.validate = .ok ()) (hname : old.name = new.name)
    (htype : old.type = some t) (htype' : new.type = some t) (htext : t.isTextLike = false)
    (hchoice : t ≠ .multiChoice) :
    old.incompatibilities new
      = if (removedAnswers old new).isEmpty then []
        else [answersRemoved (removedAnswers old new)] := by
  have hother : old.allowsOtherChoices = false := by
    rw [allowsOtherChoices, allowOtherChoices_of_validate hold htype hchoice]
    rfl
  have hunbounded : old.isUnbounded = false := by
    rw [isUnbounded, (width_of_validate hold htype htext).2]
    rfl
  rw [incompatibilities_eq_reasons, reasons, if_pos hname, typeProblems_of_same htype htype' htext,
    hother, hunbounded]
  rfl

/-- A valid definition whose type is neither like text nor a multiple choice can be replaced by one
of the same name and type unless it has answers that are dropped, and there is no other reason
against it. -/
theorem replaced_unless_answers_dropped (old new : Field) (t : FieldType)
    (hold : old.validate = .ok ()) (hname : old.name = new.name) (htype : old.type = some t)
    (htype' : new.type = some t) (htext : t.isTextLike = false) (hchoice : t ≠ .multiChoice) :
    (old.isCompatible new = true ↔ ∀ answer ∈ old.answers.getD [], answer ∈ new.answers.getD [])
      ∧ ∀ reason ∈ old.incompatibilities new, reason = answersRemoved (removedAnswers old new) := by
  have hreasons := reasons_of_validate hold hname htype htype' htext hchoice
  refine ⟨?_, ?_⟩
  · rw [isCompatible, hreasons, ← removedAnswers_isEmpty_iff]
    split
    · next hkept => exact iff_of_true rfl hkept
    · next hdropped => exact iff_of_false Bool.false_ne_true hdropped
  · intro reason hreason
    rw [hreasons] at hreason
    split at hreason
    · cases hreason
    · exact List.mem_singleton.mp hreason

/-- A further answer and other attributes of the file make no difference to an attachment. -/
theorem replaced_unless_answers_dropped_photo :
    let old : Field :=
      { name := "photo", type := some .attachmentV2, answers := some ["front"],
        fileExtension := some ".jpg" }
    let new : Field :=
      { old with
        required := false, answers := some ["back", "front"], mimeType := some "image/jpeg" }
    old.validate = .ok () ∧ new.validate = .ok () ∧ old.isCompatible new = true := by
  obtain ⟨hcompatible, -⟩ := replaced_unless_answers_dropped
    { name := "photo", type := some .attachmentV2, answers := some ["front"],
      fileExtension := some ".jpg" }
    { name := "photo", type := some .attachmentV2, required := false,
      answers := some ["back", "front"], fileExtension := some ".jpg",
      mimeType := some "image/jpeg" }
    .attachmentV2 rfl rfl rfl rfl rfl (by decide)
  exact ⟨rfl, rfl, hcompatible.mpr (by simp)⟩

/-- An integer may carry a list of answers and be valid, and then it cannot be replaced by the same
definition without the list, which is valid too. -/
theorem valid_integer_not_replaced :
    let old : Field := { name := "count", type := some .int, answers := some ["one"] }
    let new : Field := { name := "count", type := some .int }
    old.validate = .ok () ∧ new.validate = .ok () ∧ old.name = new.name ∧ old.type = new.type
      ∧ old.incompatibilities new = [answersRemoved ["one"]] ∧ old.isCompatible new = false :=
  ⟨rfl, rfl, rfl, rfl, rfl, rfl⟩

end Field

end Intake
