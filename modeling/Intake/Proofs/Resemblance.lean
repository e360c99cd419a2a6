import Intake.Proofs.Compatibility

/-!
# Attributes that do not matter

Two definitions resemble each other if they differ at most in whether the field is required, in
the attributes of a file, and in whether a flag that is off is absent or `false`. Neither the
reasons against a replacement nor a size tell such definitions apart.

The size and each of the rules of compatibility look at nothing else. The comparison of the whole
definitions that comes before the rules does, but what it lets pass has no reason against it under
the rules either (`incompatibilities_eq_reasons`).
-/

namespace Intake

namespace Field

open Incompatibility

/-- The same definition but for the marks that do not matter. -/
structure Resembles (f g : Field) : Prop where
  name : f.name = g.name
  type : f.type = g.type
  maxLength : f.maxLength = g.maxLength
  answers : f.answers = g.answers
  otherChoices : f.allowsOtherChoices = g.allowsOtherChoices
  unbounded : f.isUnbounded = g.isUnbounded

/-- The reasons that the rules find, whether or not the definitions are equal. -/
def reasons (old new : Field) : List Incompatibility :=
  (if old.name = new.name then [] else [renamed old.name new.name])
    ++ typeProblems old new
    ++ (if old.allowsOtherChoices && !new.allowsOtherChoices then [otherChoicesOff] else [])
    ++ (if old.isUnbounded && !new.isUnbounded then [unboundedTextOff] else [])
    ++ (if (removedAnswers old new).isEmpty then [] else [answersRemoved (removedAnswers old new)])

/-- The rules find nothing against a definition taking its own place. -/
theorem reasons_self (f : Field) : reasons f f = [] := by
  have htype : typeProblems f f = [] := typeProblems_eq_nil_iff.mpr (Replaces.refl f).type
  have hanswers : (removedAnswers f f).isEmpty = true :=
    removedAnswers_isEmpty_iff.mpr (Replaces.refl f).answers
  simp [reasons, htype, hanswers]

theorem incompatibilities_eq_reasons (old new : Field) :
    incompatibilities old new = reasons old new := by
  by_cases hsame : old = new
  · rw [hsame, reasons_self, incompatibilities, if_pos rfl]
  · rw [incompatibilities, if_neg hsame]
    rfl

namespace Resembles

variable {f g old old' new new' : Field}

theorem effectiveMaxLength (h : f.Resembles g) : f.effectiveMaxLength = g.effectiveMaxLength := by
  rw [Field.effectiveMaxLength, Field.effectiveMaxLength, h.maxLength]

theorem widthProblems (hold : old.Resembles old') (hnew : new.Resembles new') :
    old.widthProblems new = old'.widthProblems new' := by
  simp only [Field.widthProblems, hnew.unbounded, hold.effectiveMaxLength, hnew.effectiveMaxLength]

theorem typeProblems (hold : old.Resembles old') (hnew : new.Resembles new') :
    old.typeProblems new = old'.typeProblems new' := by
  have htext (t : FieldType) : old.becomesTextProblems new t = old'.becomesTextProblems new' t := by
    simp only [Field.becomesTextProblems, hold.widthProblems hnew, hold.type, hnew.type,
      hnew.unbounded, hnew.effectiveMaxLength]
  simp only [Field.typeProblems, hold.type, hnew.type, hold.widthProblems hnew, htext]

theorem removedAnswers (hold : old.Resembles old') (hnew : new.Resembles new') :
    old.removedAnswers new = old'.removedAnswers new' := by
  rw [Field.removedAnswers, Field.removedAnswers, hold.answers, hnew.answers]

theorem reasons (hold : old.Resembles old') (hnew : new.Resembles new') :
    old.reasons new = old'.reasons new' := by
  rw [Field.reasons, Field.reasons, hold.typeProblems hnew, hold.removedAnswers hnew, hold.name,
    hnew.name, hold.otherChoices, hnew.otherChoices, hold.unbounded, hnew.unbounded]

theorem size (h : f.Resembles g) : f.size = g.size := by
  simp only [Field.size, choiceSize, textSize, h.type, h.answers, h.otherChoices, h.unbounded,
    h.effectiveMaxLength]

end Resembles

/-- Definitions that resemble each other are told apart neither by the reasons against a
replacement, on either side of it, nor by their size. -/
theorem resemblance_is_kept (old old' new new' : Field) (hold : old.Resembles old')
    (hnew : new.Resembles new') :
    old.incompatibilities new = old'.incompatibilities new'
      ∧ old.size = old'.size ∧ new.size = new'.size := by
  refine ⟨?_, hold.size, hnew.size⟩
  rw [incompatibilities_eq_reasons, incompatibilities_eq_reasons, hold.reasons hnew]

/-- Answers are dropped, whether or not the definitions carry marks of other types. -/
theorem resemblance_is_kept_mood :
    let old : Field :=
      { name := "mood", type := some .multiChoice, answers := some ["good", "bad"],
        allowOtherChoices := some true }
    let new : Field := { old with answers := some ["good"], allowOtherChoices := none }
    let old' : Field := { old with required := false, unboundedText := some false }
    let new' : Field :=
      { new with
        allowOtherChoices := some false, fileExtension := some ".txt",
        mimeType := some "text/plain" }
    old.incompatibilities new = [otherChoicesOff, answersRemoved ["bad"]]
      ∧ old'.incompatibilities new' = [otherChoicesOff, answersRemoved ["bad"]]
      ∧ old'.size = old.size ∧ new'.size = new.size := by
  intro old new old' new'
  have hold : old.Resembles old' := ⟨rfl, rfl, rfl, rfl, rfl, rfl⟩
  have hnew : new.Resembles new' := ⟨rfl, rfl, rfl, rfl, rfl, rfl⟩
  have hreasons : old.incompatibilities new = [otherChoicesOff, answersRemoved ["bad"]] := by
    decide
  obtain ⟨hsame, hsizeOld, hsizeNew⟩ := resemblance_is_kept old old' new new' hold hnew
  exact ⟨hreasons, hsame.symm.trans hreasons, hsizeOld.symm, hsizeNew.symm⟩

end Field

end Intake
