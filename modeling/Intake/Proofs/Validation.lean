import Mathlib.Data.List.Nodup
import Intake.Field.Validation

/-!
# What a valid definition promises

A definition is valid if no rule finds a problem with it, and an answer list has no problem if
its answers are answer choices and no two of them are equal.
-/

namespace Intake

namespace Field

theorem validate_eq_ok_iff {f : Field} : f.validate = .ok () ↔ f.problems = [] := by
  unfold validate
  split
  · next h => simpa using h
  · next h => simpa using h

theorem when_eq_nil_iff {violated : Bool} {problem : FieldProblem} :
    FieldProblem.when violated problem = [] ↔ violated = false := by
  cases violated <;> simp [FieldProblem.when]

theorem answerProblems_eq_nil_iff {seen answers : List String} :
    answerProblems seen answers = []
      ↔ (∀ answer ∈ answers, Name.isAnswerChoice answer = true ∧ answer ∉ seen)
        ∧ answers.Nodup := by
  induction answers generalizing seen with
  | nil => simp [answerProblems]
  | cons answer rest ih =>
      rw [answerProblems, List.append_eq_nil_iff, List.append_eq_nil_iff, when_eq_nil_iff,
        when_eq_nil_iff, ih, List.nodup_cons, List.forall_mem_cons]
      simp only [Bool.not_eq_false', List.contains_eq_mem, decide_eq_false_iff_not, List.mem_cons,
        not_or]
      constructor
      · rintro ⟨⟨hchoice, hseen⟩, hrest, hnodup⟩
        refine ⟨⟨⟨hchoice, hseen⟩, ?_⟩, ?_, hnodup⟩
        · intro other hother
          exact ⟨(hrest other hother).1, (hrest other hother).2.2⟩
        · intro hmem
          exact (hrest answer hmem).2.1 rfl
      · rintro ⟨⟨⟨hchoice, hseen⟩, hrest⟩, hne, hnodup⟩
        refine ⟨⟨hchoice, hseen⟩, ?_, hnodup⟩
        intro other hother
        refine ⟨(hrest other hother).1, ?_, (hrest other hother).2⟩
        rintro rfl
        exact hne hother

/-- Each group of rules about attributes has no problem with a valid definition. -/
theorem attributes_of_validate {f : Field} {t : FieldType} (h : f.validate = .ok ())
    (htype : f.type = some t) :
    f.choiceProblems t = [] ∧ f.textProblems t = [] ∧ f.fileProblems t = [] := by
  rw [validate_eq_ok_iff, problems, List.append_eq_nil_iff, htype] at h
  obtain ⟨hrest, hfile⟩ := List.append_eq_nil_iff.mp h.2
  obtain ⟨hchoice, htext⟩ := List.append_eq_nil_iff.mp hrest
  exact ⟨hchoice, htext, hfile⟩

/-- A valid multiple choice has a list of answers without a problem. -/
theorem exists_answers_of_validate {f : Field} (h : f.validate = .ok ())
    (htype : f.type = some .multiChoice) :
    ∃ answers, f.answers = some answers ∧ answerProblems [] answers = [] := by
  have hchoice := (attributes_of_validate h htype).1
  rw [choiceProblems, if_pos rfl] at hchoice
  cases hanswers : f.answers with
  | none =>
      rw [hanswers] at hchoice
      cases hchoice
  | some answers =>
      rw [hanswers] at hchoice
      exact ⟨answers, rfl, hchoice⟩

/-- A valid multiple choice has a list of distinct answers. -/
theorem answers_of_validate {f : Field} (h : f.validate = .ok ())
    (htype : f.type = some .multiChoice) : ∃ answers, f.answers = some answers ∧ answers.Nodup := by
  obtain ⟨answers, hanswers, hok⟩ := exists_answers_of_validate h htype
  exact ⟨answers, hanswers, (answerProblems_eq_nil_iff.mp hok).2⟩

/-- Valid definitions of other types than a multiple choice say nothing about other choices. -/
theorem allowOtherChoices_of_validate {f : Field} {t : FieldType} (h : f.validate = .ok ())
    (htype : f.type = some t) (hchoice : t ≠ .multiChoice) : f.allowOtherChoices = none := by
  have hother := (attributes_of_validate h htype).1
  rw [choiceProblems, if_neg hchoice, when_eq_nil_iff] at hother
  exact Option.isNone_iff_eq_none.mp (Option.isSome_eq_false_iff.mp hother)

/-- Valid definitions of types that are not like text say nothing about a width. -/
theorem width_of_validate {f : Field} {t : FieldType} (h : f.validate = .ok ())
    (htype : f.type = some t) (htext : t.isTextLike = false) :
    f.maxLength = none ∧ f.unboundedText = none := by
  have hwidth := (attributes_of_validate h htype).2.1
  rw [textProblems, htext, if_neg Bool.false_ne_true, List.append_eq_nil_iff, when_eq_nil_iff,
    when_eq_nil_iff, Option.isSome_eq_false_iff, Option.isSome_eq_false_iff,
    Option.isNone_iff_eq_none, Option.isNone_iff_eq_none] at hwidth
  exact hwidth

end Field

end Intake
